import ModelCatalog.Json.Reader

/-!
# Filters

Conditions on properties. A filter may be written as an entry of text, `reference operator=value`
and shorter forms of it, or as nested mappings whose keys are the segments of the reference, with
the operator behind the last segment or on a level of its own.
-/

namespace ModelCatalog

/-! ## Queries that cannot be planned -/

/-- What is wrong with a properties expression. -/
inductive PropertiesFault where
  /-- The text is not an expression. -/
  | malformed
  /-- The value is neither a text nor a list. -/
  | notText
  deriving DecidableEq, Repr

def PropertiesFault.message : PropertiesFault → String
  | .malformed => Json.malformedText
  | .notText => "expected a string or a list of strings"

/-- Why a query cannot be planned. -/
inductive QueryError where
  | invalidRange (first last : String)
  | invalidValue (key value : String)
  /-- An order by a property behind a relation to many. -/
  | orderThroughRelation (entry : String)
  | unsupportedWhere (entry : String)
  /-- A model in a properties expression that is not found. -/
  | invalidModelReference (model key value : String)
  | invalidProperties (value : String) (fault : PropertiesFault)
  | unknownProperty (model reference : String)
  | unknownModel (name : String)
  | unknownScope (model scope : String)
  | unsupportedParameter (key : String)
  deriving DecidableEq, Repr

def QueryError.message : QueryError → String
  | .invalidRange first last => "invalid range: [" ++ first ++ ", " ++ last ++ "]"
  | .invalidValue key value => "invalid '" ++ key ++ "' value: '" ++ value ++ "'"
  | .orderThroughRelation entry =>
    "can only order by model's own properties and by one-to-one relations' properties: '" ++
      entry ++ "'"
  | .unsupportedWhere entry => "unsupported 'where' query: '" ++ entry ++ "'"
  | .invalidModelReference model key value =>
    "invalid reference to model '" ++ model ++ "' in '" ++ key ++ "=" ++ value ++ "'"
  | .invalidProperties value fault =>
    "invalid properties expression '" ++ value ++ "': " ++ fault.message
  | .unknownProperty model reference =>
    "unknown property '" ++ reference ++ "' on model '" ++ model ++ "'"
  | .unknownModel name => "unknown model: " ++ name
  | .unknownScope model scope => "unknown scope '" ++ scope ++ "' on model '" ++ model ++ "'"
  | .unsupportedParameter key => "query parameter '" ++ key ++ "' is not supported"

/-! ## Operators -/

/-- A comparison of a property with a value. -/
inductive Operator where
  | eq
  | ne
  | lt
  | le
  | gt
  | ge
  | like
  | ilike
  | isIn
  | notIn
  | between
  | notBetween
  | null
  | notNull
  | empty
  | notEmpty
  deriving DecidableEq, Repr

namespace Operator

def name : Operator → String
  | .eq => "="
  | .ne => "!="
  | .lt => "<"
  | .le => "<="
  | .gt => ">"
  | .ge => ">="
  | .like => "like"
  | .ilike => "ilike"
  | .isIn => "in"
  | .notIn => "notIn"
  | .between => "between"
  | .notBetween => "notBetween"
  | .null => "null"
  | .notNull => "notNull"
  | .empty => "empty"
  | .notEmpty => "notEmpty"

def all : List Operator :=
  [.eq, .ne, .lt, .le, .gt, .ge, .like, .ilike, .isIn, .notIn, .between, .notBetween, .null,
    .notNull, .empty, .notEmpty]

def ofName? (name : String) : Option Operator := all.find? (·.name == name)

/-- Whether the operator takes no value. -/
def isUnary : Operator → Bool
  | .null | .notNull | .empty | .notEmpty => true
  | _ => false

/-- Whether the operator compares with a range. -/
def takesRange : Operator → Bool
  | .between | .notBetween => true
  | _ => false

/-- Whether the operator compares with a list of values. -/
def takesList : Operator → Bool
  | .isIn | .notIn | .between | .notBetween => true
  | _ => false

@[simp] theorem ofName?_name (op : Operator) : ofName? op.name = some op := by
  cases op <;> decide

end Operator

/-! ## Notations -/

/-- A condition on the property at the end of a dotted path. -/
structure Filter where
  reference : String
  operator : Operator
  value : Json
  deriving Repr

namespace Filter

/-- A reference and an operator as messages show them. -/
def display (reference : String) (operator : Operator) : String :=
  reference ++ " " ++ operator.name

def segments (reference : String) : List String := Text.splitAt '.' reference

/-- The value that an operator compares with: a text stands for the list of its parts between
commas where a list is expected. -/
def operand (operator : Operator) (value : Json) : Json :=
  match value with
  | .string text =>
    if operator.takesList then Json.strings ((Text.splitAt ',' text).map Text.trim) else value
  | _ => value

def isPair : Json → Bool
  | .array [_, _] => true
  | _ => false

/-- A filter of the given parts. The path must have no empty segment, and a range two ends. -/
def make (reference : String) (operator : Operator) (value : Json) : Except QueryError Filter :=
  if (segments reference).contains "" then
    .error (.unsupportedWhere (display reference operator))
  else
    let value := operand operator value
    if operator.takesRange && !isPair value then
      .error (.invalidValue (display reference operator) value.text)
    else .ok ⟨reference, operator, value⟩

/-- Whether a character may begin the symbol before a value. -/
def beginsSymbol (c : Char) : Bool := c == '=' || c == '<' || c == '>'

/-- The operator that the symbol at the start of a text stands for, and the value behind it. -/
def readSymbol : List Char → Option (Operator × List Char)
  | '<' :: '=' :: cs => some (.le, cs)
  | '>' :: '=' :: cs => some (.ge, cs)
  | '<' :: cs => some (.lt, cs)
  | '>' :: cs => some (.gt, cs)
  | '=' :: cs => some (.eq, cs)
  | _ => none

/-- An entry around its symbol: what stands before it, and the symbol with the value behind it. An
exclamation mark before an equals sign belongs to the symbol. -/
def cutSymbol (cs : List Char) : List Char × Option (Operator × List Char) :=
  let head := cs.takeWhile (!beginsSymbol ·)
  match readSymbol (cs.dropWhile (!beginsSymbol ·)) with
  | some (.eq, value) =>
    if head.getLast? = some '!' then (head.dropLast, some (.ne, value))
    else (head, some (.eq, value))
  | symbol => (head, symbol)

/-- The operator of an entry with an operator's name, a symbol, or both. Next to a name the symbol
can only be the equals sign, which then does no more than introduce the value. -/
def combine : Option Operator → Option Operator → Option Operator
  | some named, none => some named
  | some named, some .eq => some named
  | some _, some _ => none
  | none, symbol => symbol

/-- The words before the symbol: a reference, and the name of an operator if there is one. -/
def readWords? : List String → Option (String × Option Operator)
  | [reference] => some (reference, none)
  | [reference, name] => (Operator.ofName? name).map fun operator ↦ (reference, some operator)
  | _ => none

/-- The parts of an entry: reference, operator, and the value if there is one. -/
def parts? (entry : String) : Option (String × Operator × Json) := do
  let (head, symbol) := cutSymbol entry.toList
  let (reference, named) ← readWords? (Text.words (String.ofList head))
  let operator ← combine named (symbol.map (·.1))
  match symbol with
  | some (_, value) => some (reference, operator, .string (String.ofList value))
  | none => if operator.isUnary then some (reference, operator, .null) else none

/-- The filter that an entry of text writes. -/
def parse (entry : String) : Except QueryError Filter :=
  match parts? entry with
  | some (reference, operator, value) => make reference operator value
  | none => .error (.unsupportedWhere entry)

/-- A key of a mapping: a segment, and the name of an operator if there is one. -/
def splitKey (key : String) : Except QueryError (String × Option Operator) :=
  match readWords? (Text.words key) with
  | some parts => .ok parts
  | none => .error (.unsupportedWhere key)

/-- The filter of a key whose value is not a mapping. Below the top level a key that is only the
name of an operator applies to the path above it. -/
def ofLeaf (parents : List String) (segment : String) (operator : Option Operator) (value : Json) :
    Except QueryError Filter :=
  let join := ".".intercalate
  match operator with
  | some operator => make (join (parents ++ [segment])) operator value
  | none =>
    match if parents.isEmpty then none else Operator.ofName? segment with
    | some operator => make (join parents) operator value
    | none => make (join (parents ++ [segment])) .eq value

mutual

/-- The filters of the entries of a mapping below a path. -/
def ofFields (parents : List String) :
    List (String × Json) → Except QueryError (List Filter)
  | [] => .ok []
  | (key, value) :: fields => do
    let filters ← ofField parents key value
    let more ← ofFields parents fields
    return filters ++ more

/-- The filters of one entry of a mapping below a path. -/
def ofField (parents : List String) (key : String) : Json → Except QueryError (List Filter)
  | .object fields => do
    let (segment, operator) ← splitKey key
    if operator.isSome then throw (.unsupportedWhere key)
    ofFields (parents ++ [segment]) fields
  | value => do
    let (segment, operator) ← splitKey key
    let filter ← ofLeaf parents segment operator value
    return [filter]

end

end Filter

mutual

/-- The filters of a value in any notation, in order. -/
def readConditions : Json → Except QueryError (List Filter)
  | .object fields => Filter.ofFields [] fields
  | .string entry => do
    let filter ← Filter.parse entry
    return [filter]
  | .array items => readConditionItems items
  | value => .error (.unsupportedWhere value.text)

/-- The filters of the items of a list. -/
def readConditionItems : List Json → Except QueryError (List Filter)
  | [] => .ok []
  | item :: items => do
    let filters ← readConditions item
    let more ← readConditionItems items
    return filters ++ more

end

end ModelCatalog
