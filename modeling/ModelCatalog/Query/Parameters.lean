import ModelCatalog.Model.Basic
import ModelCatalog.Query.Filter

/-!
# Query plans

The parameters that a request may give for a query, and the plan that they make up: the steps that
a query builder has to take, in order. Every parameter has to be among those that the route allows;
the steps follow the order in which the parameters came, and the first parameter that is wrong is
the error of the whole query.
-/

namespace ModelCatalog

/-! ## Ranges and counts

The values of `range`, `limit` and `offset` arrive as numbers or as text. Empty values ask for
nothing. The bounds of a range are compared as floating-point numbers and only then cut down to
integers of 64 bits. -/

/-- A value as messages show it: a text as it is. -/
def displayValue : Json → String
  | .string text => text
  | value => value.text

def isBlankText (text : String) : Bool := text.toList.all Text.isBlank

/-- The greatest bound, `2 ^ 63 - 1`. -/
def maxBound : Int := 9223372036854775807

/-- The number of 64 bits with a sign that is nearest to an integer. -/
def clampInteger (n : Int) : Int := max Number.minInt (min n maxBound)

/-- The bound that a value gives. -/
def readBound? : Json → Option Binary64
  | .number number => number.toBinary64?
  | .string text => Binary64.ofText? (Text.trimList text.toList)
  | _ => none

/-- The range between two bounds in order. -/
def rangeBetween (first last : Json) : Except QueryError (Int × Int) :=
  match readBound? first, readBound? last with
  | some low, some high =>
    if low.le high then .ok (clampInteger low.truncate, clampInteger high.truncate)
    else .error (.invalidRange (displayValue first) (displayValue last))
  | _, _ => .error (.invalidRange (displayValue first) (displayValue last))

/-- The parts of a range: the items of a list, or the texts between commas. -/
def rangeParts? : Json → Option (List Json)
  | .null => some []
  | .string text =>
    if isBlankText text then some []
    else some (((Text.splitAt ',' text).map Text.trim).map .string)
  | .array items => some items
  | _ => none

/-- The bounds that a range parameter gives, if it is not empty. -/
def readRange (value : Json) : Except QueryError (Option (Int × Int)) :=
  match rangeParts? value with
  | some [] => .ok none
  | some [first, last] => some <$> rangeBetween first last
  | _ => .error (.invalidValue "range" (displayValue value))

/-- The count that a parameter gives, if it is not empty. -/
def readCount (key : String) (value : Json) : Except QueryError (Option Nat) :=
  let required (count : Option Nat) : Except QueryError (Option Nat) :=
    match count with
    | some count => .ok (some count)
    | none => .error (.invalidValue key (displayValue value))
  match value with
  | .null => .ok none
  | .string text =>
    if isBlankText text then .ok none else required (readCount? (Text.trimList text.toList))
  | .number number => required number.toNat?
  | _ => required none

/-! ## Properties expressions

Which properties of which models to pick or to omit, written as `User[id,name],Post[title]`. With
quotes around its words and colons behind the models the expression becomes an object in JSON
notation, which is then read. Several expressions may be given as a list; a model that occurs again
takes the properties of its last occurrence. -/

/-- Lists of properties by model. -/
abbrev PropertiesExpression := Fields (List String)

namespace PropertiesExpression

/-- Put a colon between a closing quote and an opening bracket. -/
def linkLists : List Char → List Char
  | '"' :: '[' :: cs => '"' :: ':' :: '[' :: linkLists cs
  | c :: cs => c :: linkLists cs
  | [] => []

/-- The JSON notation of an expression. -/
def objectText (expression : String) : String :=
  String.ofList ('\x7b' :: linkLists (Text.quoteWords false expression.toList) ++ ['\x7d'])

/-- The expression that a text writes. -/
def parse (expression : String) : Except QueryError PropertiesExpression :=
  match (Json.read? (objectText expression)).bind (Record.mapping? Record.strings?) with
  | some properties => .ok properties
  | none => .error (.invalidProperties expression .malformed)

mutual

/-- The expression in the value of a query parameter. -/
def ofJson : Json → Except QueryError PropertiesExpression
  | .string expression => parse expression
  | .array items => ofItems [] items
  | .null => .ok []
  | value => .error (.invalidProperties value.text .notText)

/-- The expressions in a list of values, merged into one that came before. -/
def ofItems (merged : Fields (List String)) : List Json → Except QueryError PropertiesExpression
  | [] => .ok merged
  | item :: items => do
    let expression ← ofJson item
    ofItems (merged.merge expression) items

end

end PropertiesExpression

/-! ## Property paths

References from a model along its relations, `relation.relation.property`, resolved against the
registered models: all segments but the last are relations, and the last is a property of the model
that they lead to. -/

/-- A resolved reference. -/
structure PropertyPath where
  /-- The relations on the way, with their kinds. -/
  relations : List (String × RelationKind)
  property : String
  /-- The model that has the property. -/
  model : String
  /-- The table of the model where the path begins. -/
  rootTable : String
  deriving DecidableEq, Repr

namespace PropertyPath

def relationNames (p : PropertyPath) : List String := p.relations.map (·.1)

/-- The column as a query sees it: qualified by the table at the root, and by the names of the
relations behind any. -/
def column (p : PropertyPath) : String :=
  if p.relations.isEmpty then p.rootTable ++ "." ++ p.property
  else ":".intercalate p.relationNames ++ "." ++ p.property

/-- The name under which a column behind relations is selected, after the last of them. -/
def alias? (p : PropertyPath) : Option String :=
  p.relationNames.getLast?.map fun name ↦ name ++ Text.capitalize p.property

/-- Whether the path leads to at most one instance. -/
def isOneToOne (p : PropertyPath) : Bool := p.relations.all fun (_, kind) ↦ kind.isOneToOne

end PropertyPath

namespace Registry

/-- The model that is found by a name. -/
def find (r : Registry) (name : String) : Except QueryError Model :=
  match r.lookup name with
  | some model => .ok model
  | none => .error (.unknownModel name)

/-- Follow relations from a model; `unknown` is the error where a segment is no relation. -/
def follow (r : Registry) (unknown : QueryError) :
    Model → List String → Except QueryError (List (String × RelationKind) × Model)
  | model, [] => .ok ([], model)
  | model, segment :: segments =>
    match model.relation? segment with
    | none => .error unknown
    | some relation => do
      let related ← r.find relation.relatedModel
      let (relations, last) ← r.follow unknown related segments
      return ((segment, relation.kind) :: relations, last)

/-- The path of a reference from the model of a name. -/
def propertyPath (r : Registry) (model reference : String) : Except QueryError PropertyPath := do
  let root ← r.find model
  let unknown := .unknownProperty root.name reference
  let segments := Text.splitAt '.' reference
  let property := segments.getLastD ""
  if property.isEmpty then throw unknown
  let (relations, last) ← r.follow unknown root segments.dropLast
  if last.hasProperty property then
    return ⟨relations, property, last.name, root.tableName⟩
  else throw unknown

end Registry

/-! ## Steps -/

/-- How a filter joins those before it. -/
inductive WhereKind where
  | and
  | or
  deriving DecidableEq, Repr

def WhereKind.name : WhereKind → String
  | .and => "where"
  | .or => "orWhere"

/-- A direction of ordering. -/
inductive Direction where
  | asc
  | desc
  deriving DecidableEq, Repr

def Direction.name : Direction → String
  | .asc => "asc"
  | .desc => "desc"

/-- The direction of a name, in letters of either case. -/
def Direction.ofName? (name : String) : Option Direction :=
  let lowered := Text.asciiLower name
  if lowered = "asc" then some .asc else if lowered = "desc" then some .desc else none

/-- A step of a query plan. -/
inductive Step where
  | filter (kind : WhereKind) (condition : Filter)
  | orderBy (column : String) (direction : Direction)
  | select (expression : String)
  | range (first last : Int)
  | limit (count : Nat)
  | offset (count : Nat)
  | mergeEager (expression : String)
  | mergeScope (names : List String)
  | mergeEagerScope (names : List String)
  | pick (model : String) (properties : List String)
  | omit (model : String) (properties : List String)
  deriving Repr

/-- The entries of a filter in a JSON object. -/
def Filter.fields (f : Filter) : Fields Json :=
  [("reference", .string f.reference), ("operator", .string f.operator.name), ("value", f.value)]

/-- The name of the operation and its arguments by name. -/
def Step.operation : Step → String × Fields Json
  | .filter kind condition => ("where", ("kind", .string kind.name) :: condition.fields)
  | .orderBy column direction =>
    ("orderBy", [("column", .string column), ("direction", .string direction.name)])
  | .select expression => ("select", [("expression", .string expression)])
  | .range first last => ("range", [("start", .int first), ("end", .int last)])
  | .limit count => ("limit", [("limit", .int count)])
  | .offset count => ("offset", [("offset", .int count)])
  | .mergeEager expression => ("mergeEager", [("expression", .string expression)])
  | .mergeScope names => ("mergeScope", [("names", Json.strings names)])
  | .mergeEagerScope names => ("mergeEagerScope", [("names", Json.strings names)])
  | .pick model properties =>
    ("pick", [("model", .string model), ("properties", Json.strings properties)])
  | .omit model properties =>
    ("omit", [("model", .string model), ("properties", Json.strings properties)])

def Step.toJson (s : Step) : Json := .object (("op", .string s.operation.1) :: s.operation.2)

/-! ## Parameters -/

/-- A query parameter. -/
inductive Parameter where
  | conditions (kind : WhereKind)
  | eager
  | scope
  | eagerScope
  | range
  | limit
  | offset
  | order
  | omit
  | pick
  deriving DecidableEq, Repr

namespace Parameter

def all : List Parameter :=
  [.conditions .and, .conditions .or, .eager, .scope, .eagerScope, .range, .limit, .offset, .order,
    .omit, .pick]

def key : Parameter → String
  | .conditions kind => kind.name
  | .eager => "eager"
  | .scope => "scope"
  | .eagerScope => "eagerScope"
  | .range => "range"
  | .limit => "limit"
  | .offset => "offset"
  | .order => "order"
  | .omit => "omit"
  | .pick => "pick"

def ofKey? (key : String) : Option Parameter := all.find? (·.key == key)

theorem ofKey?_key (p : Parameter) : ofKey? p.key = some p := by
  cases p with
  | conditions kind => cases kind <;> decide
  | _ => decide

theorem key_injective : Function.Injective key := fun p q h ↦ by
  rw [← Option.some_inj, ← ofKey?_key p, ← ofKey?_key q, h]

end Parameter

/-- The parameters that a route accepts. -/
structure AllowedParameters where
  parameters : List Parameter
  deriving DecidableEq, Repr

namespace AllowedParameters

/-- All parameters but those with the given keys. -/
def excluding (keys : List String) : AllowedParameters :=
  ⟨Parameter.all.filter (·.key ∉ keys)⟩

def all : AllowedParameters := excluding []

/-- The parameters for the look-up of a single instance, where there is nothing to order and no
range. -/
def findOne : AllowedParameters := excluding ["order", "range"]

def find? (allowed : AllowedParameters) (key : String) : Option Parameter :=
  allowed.parameters.find? (·.key == key)

def contains (allowed : AllowedParameters) (key : String) : Bool := (allowed.find? key).isSome

theorem find?_key {allowed : AllowedParameters} {parameter : Parameter}
    (h : allowed.contains parameter.key) : allowed.find? parameter.key = some parameter := by
  obtain ⟨found, hfound⟩ := Option.isSome_iff_exists.1 h
  have hkey : found.key = parameter.key := by simpa using List.find?_some hfound
  rw [hfound, Parameter.key_injective hkey]

end AllowedParameters

/-- The steps of a `where` parameter. All conditions are read before the first one is checked
against the model. -/
def Registry.planConditions (registry : Registry) (model : String) (kind : WhereKind)
    (value : Json) : Except QueryError (List Step) := do
  (← readConditions value).mapM fun filter ↦ do
    let _ ← registry.propertyPath model filter.reference
    return .filter kind filter

/-- The texts in a value that is a text or a list of texts, empty ones left out. -/
def readTexts (key : String) (value : Json) : Except QueryError (List String) :=
  let entries := match value with
    | .array items => items
    | .null => []
    | single => [single]
  (entries.filter (!·.isString "")).mapM fun entry ↦
    match entry with
    | .string text => .ok text
    | _ => .error (.invalidValue key (displayValue value))

/-- The scope of a name on a model. -/
def Registry.findScope (registry : Registry) (model name : String) :
    Except QueryError ScopeDefinition := do
  let found ← registry.find model
  match found.scope? name with
  | some scope => return scope
  | none => throw (.unknownScope found.name name)

/-- A step with a list of names, unless the list is empty. -/
def namesStep (step : List String → Step) (names : List String) : List Step :=
  if names.isEmpty then [] else [step names]

/-- A reference to order by and a direction, ascending unless one is given. -/
def readOrderEntry? (entry : String) : Option (String × Direction) :=
  match Text.words entry with
  | [reference] => some (reference, .asc)
  | [reference, name] => (Direction.ofName? name).map fun direction ↦ (reference, direction)
  | _ => none

/-- The steps that order by what a path leads to. A column behind relations has to be selected
too. -/
def PropertyPath.orderSteps (path : PropertyPath) (direction : Direction) : List Step :=
  let select := path.alias?.toList.map fun name ↦ Step.select (path.column ++ " as " ++ name)
  select ++ [.orderBy path.column direction]

/-- The steps of one entry of an `order` parameter. -/
def Registry.planOrderEntry (registry : Registry) (model : String) (value : Json)
    (entry : String) : Except QueryError (List Step) :=
  match readOrderEntry? entry with
  | none => .error (.invalidValue "order" (displayValue value))
  | some (reference, direction) => do
    let path ← registry.propertyPath model reference
    if !path.isOneToOne then throw (.orderThroughRelation entry)
    return path.orderSteps direction

/-- The steps of a `pick` or `omit` parameter. -/
def Registry.planProperties (registry : Registry) (key : String)
    (step : String → List String → Step) (value : Json) : Except QueryError (List Step) := do
  (← PropertiesExpression.ofJson value).mapM fun (name, properties) ↦
    match registry.lookup name with
    | some model => .ok (step model.name properties)
    | none => .error (.invalidModelReference name key (displayValue value))

/-- The steps of one parameter. -/
def Registry.planParameter (registry : Registry) (model : String) (parameter : Parameter)
    (value : Json) : Except QueryError (List Step) := do
  match parameter with
  | .conditions kind => registry.planConditions model kind value
  | .eager => return (← readTexts parameter.key value).map .mergeEager
  | .scope =>
    let names ← readTexts parameter.key value
    names.forM fun name ↦ do
      let _ ← registry.findScope model name
    return namesStep .mergeScope names
  | .eagerScope => return namesStep .mergeEagerScope (← readTexts parameter.key value)
  | .range => return (← readRange value).toList.map fun (first, last) ↦ .range first last
  | .limit => return (← readCount parameter.key value).toList.map .limit
  | .offset => return (← readCount parameter.key value).toList.map .offset
  | .order =>
    let entries ← readTexts parameter.key value
    return (← entries.mapM (registry.planOrderEntry model value)).flatten
  | .omit => registry.planProperties parameter.key .omit value
  | .pick => registry.planProperties parameter.key .pick value

/-- The steps of the value under a key. -/
def Registry.planEntry (registry : Registry) (allowed : AllowedParameters) (model : String)
    (entry : String × Json) : Except QueryError (List Step) :=
  match allowed.find? entry.1 with
  | some parameter => registry.planParameter model parameter entry.2
  | none => .error (.unsupportedParameter entry.1)

/-- The plan of a query on a model. -/
def Registry.planQuery (registry : Registry) (allowed : AllowedParameters) (model : String)
    (params : Fields Json) : Except QueryError (List Step) := do
  let _ ← registry.find model
  return (← params.mapM (registry.planEntry allowed model)).flatten

end ModelCatalog
