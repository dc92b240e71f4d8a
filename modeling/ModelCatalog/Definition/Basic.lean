import ModelCatalog.Json.Basic

/-!
# Definitions

Models as their authors describe them: properties in schema notation, relations to other models,
and named scopes that narrow queries. The names of a key are kept as written, so that a key of one
name in a list is told from the name alone.

## Documents

Definitions are read from documents and written back. Where several shapes of a part are possible,
the first that fits is taken. All readers answer `none` for a value of the wrong shape; which fault
was found first does not matter. In what is written absent parts are `null`, except in scopes,
where they are left out.
-/

namespace ModelCatalog

/-! ## Keys -/

/-- A key as written. A composite key may have any number of names, one and none included. -/
inductive Key where
  | single (token : String)
  | composite (tokens : List String)
  deriving DecidableEq, Repr

namespace Key

/-- The names of a key, in order. -/
def tokens : Key → List String
  | .single token => [token]
  | .composite tokens => tokens

/-- The key of a list of names, composite unless there is exactly one. -/
def ofList : List String → Key
  | [token] => .single token
  | tokens => .composite tokens

/-- The only name of a key that is not composite. -/
def single? : Key → Option String
  | .single token => some token
  | .composite _ => none

/-- A list of names as messages show it. -/
def displayList (tokens : List String) : String := "[" ++ ", ".intercalate tokens ++ "]"

def display : Key → String
  | .single token => token
  | .composite tokens => displayList tokens

def toJson : Key → Json
  | .single token => .string token
  | .composite tokens => Json.strings tokens

@[simp] theorem tokens_ofList (tokens : List String) : (ofList tokens).tokens = tokens := by
  unfold ofList
  split <;> rfl

end Key

/-! ## Models, relations and scopes -/

/-- The join table of a relation as described. -/
inductive ThroughDefinition where
  /-- Whether a join table with generated names is asked for. -/
  | generated (requested : Bool)
  /-- The join table's keys towards the two sides, and its model. -/
  | explicit (source target : Option Key) (model : Option String)
  deriving DecidableEq, Repr

/-- A join described in terms of tables and columns. -/
structure JoinDefinition where
  source : Key
  target : Key
  through : Option ThroughDefinition
  deriving DecidableEq, Repr

/-- A narrowing of a relation as described. -/
inductive ModifierDefinition where
  | scope (name : String)
  | scopes (names : List String)
  /-- Conditions in the syntax of the `where` parameter. -/
  | filter (conditions : Fields Json)
  deriving Repr

/-- A relation as described. -/
structure RelationDefinition where
  /-- The kind of relation, in any of its spellings. -/
  relation : String
  source : Option Key
  target : Option Key
  through : Option ThroughDefinition
  /-- Name a generated join table after the target first. -/
  inverse : Bool
  scope : Option ModifierDefinition
  modify : Option ModifierDefinition
  filter : Option ModifierDefinition
  join : Option JoinDefinition
  /-- All other keys, which the resolved relation keeps. -/
  rest : Fields Json
  deriving Repr

/-- A named narrowing of the queries on a model. Conditions and order have the syntax of the query
parameters of these names. -/
structure ScopeDefinition where
  conditions : Option Json
  select : List String
  order : Option Json
  deriving Repr

/-- A model as described. -/
structure ModelDefinition where
  name : String
  tableName : Option String
  idProperty : Option Key
  /-- Keep the times of creation and of the last update. -/
  timestamps : Bool
  properties : Fields Json
  relations : Fields RelationDefinition
  scopes : Fields ScopeDefinition
  deriving Repr

namespace ModelDefinition

/-- The names of the properties that timestamps add. -/
def timestampNames : List String := ["createdAt", "updatedAt"]

def timestampSchema : Json :=
  .object [("type", .string "timestamp"), ("default", .string "now()")]

def timestampScopeName : String := "timeStamped"

/-- The scope that selects the timestamps. -/
def timestampScope : ScopeDefinition := ⟨none, timestampNames, none⟩

/-- Add an entry under a key that is not taken. -/
def addMissing {α : Type} (fields : Fields α) (key : String) (value : α) : Fields α :=
  if fields.contains key then fields else fields.insert key value

/-- The name of the model's table: the model's own name unless it gives another. -/
def table (d : ModelDefinition) : String := d.tableName.getD d.name

/-- The identifying properties, `id` unless the model names others. -/
def idProperties (d : ModelDefinition) : List String :=
  match d.idProperty with
  | some key => key.tokens
  | none => ["id"]

/-- The declared properties, followed by the timestamps. -/
def allProperties (d : ModelDefinition) : Fields Json :=
  if d.timestamps then
    timestampNames.foldl (fun properties name ↦ addMissing properties name timestampSchema)
      d.properties
  else d.properties

/-- The declared scopes, followed by that of the timestamps. -/
def allScopes (d : ModelDefinition) : Fields ScopeDefinition :=
  if d.timestamps then addMissing d.scopes timestampScopeName timestampScope else d.scopes

end ModelDefinition

/-! ## Records in documents

A value with declared fields is written as an object, or as the list of its field values in the
order of declaration. An object may have other keys besides, but must not name a declared field
twice. Each field is required, optional (then `null` stands for its absence), or has a default (then
it may be absent but not `null`). -/

namespace Record

variable {α : Type}

/-- The fields of a record by name. The list form may stop early, and must not go on beyond the
last field. -/
def named? (names : List String) : Json → Option (List (String × Json))
  | .object fields => some fields
  | .array items => if items.length ≤ names.length then some (names.zip items) else none
  | _ => none

/-- The value of a field that may go by several names: `none` if it is given more than once. -/
def field? (names : List String) (fields : List (String × Json)) : Option (Option Json) :=
  match fields.filter (·.1 ∈ names) with
  | [] => some none
  | [(_, value)] => some (some value)
  | _ => none

/-- A field that has to be there. -/
def required? (names : List String) (read : Json → Option α) (fields : List (String × Json)) :
    Option α := do
  read (← ← field? names fields)

/-- A field that may be absent or `null`. -/
def optional? (names : List String) (read : Json → Option α) (fields : List (String × Json)) :
    Option (Option α) := do
  match ← field? names fields with
  | none | some .null => return none
  | some value => return some (← read value)

/-- A field that may be absent. -/
def defaulted? (names : List String) (default : α) (read : Json → Option α)
    (fields : List (String × Json)) : Option α := do
  match ← field? names fields with
  | none => return default
  | some value => read value

/-- The entries under other keys than those declared. -/
def rest (declared : List String) (fields : List (String × Json)) : Fields Json :=
  Fields.ofList ((fields.filter (·.1 ∉ declared)).map fun (key, value) ↦ (key, value.merged))

def bool? : Json → Option Bool
  | .bool value => some value
  | _ => none

def strings? (value : Json) : Option (List String) := do
  (← value.array?).mapM Json.string?

def any? (value : Json) : Option Json := some value.merged

/-- A mapping from names to values of one shape. -/
def mapping? (read : Json → Option α) (value : Json) : Option (Fields α) := do
  let entries ← (← value.object?).mapM fun (key, value) ↦ (read value).map (key, ·)
  return Fields.ofList entries

def list? (read : Json → Option α) (value : Json) : Option (List α) := do
  (← value.array?).mapM read

end Record

/-! ## Writing -/

/-- An optional part, `null` where absent. -/
def Json.orNull {α : Type} (write : α → Json) (value : Option α) : Json :=
  Json.ofOption (value.map write)

def ThroughDefinition.toJson : ThroughDefinition → Json
  | .generated requested => .bool requested
  | .explicit source target model =>
    .object [("from", .orNull Key.toJson source), ("to", .orNull Key.toJson target),
      ("model", .orNull .string model)]

def JoinDefinition.toJson (d : JoinDefinition) : Json :=
  .object [("from", d.source.toJson), ("to", d.target.toJson),
    ("through", .orNull ThroughDefinition.toJson d.through)]

def ModifierDefinition.toJson : ModifierDefinition → Json
  | .scope name => .string name
  | .scopes names => Json.strings names
  | .filter conditions => .object conditions

/-- A relation, with its other keys at the end. -/
def RelationDefinition.toJson (d : RelationDefinition) : Json :=
  let fields : Fields Json :=
    [("relation", .string d.relation), ("from", .orNull Key.toJson d.source),
      ("to", .orNull Key.toJson d.target),
      ("through", .orNull ThroughDefinition.toJson d.through), ("inverse", .bool d.inverse),
      ("scope", .orNull ModifierDefinition.toJson d.scope),
      ("modify", .orNull ModifierDefinition.toJson d.modify),
      ("filter", .orNull ModifierDefinition.toJson d.filter),
      ("join", .orNull JoinDefinition.toJson d.join)]
  .object (fields.merge d.rest)

/-- A scope, without its absent parts. -/
def ScopeDefinition.toJson (d : ScopeDefinition) : Json :=
  .object ((d.conditions.toList.map ("where", ·)) ++
    (if d.select.isEmpty then [] else [("select", Json.strings d.select)]) ++
    (d.order.toList.map ("order", ·)))

def ScopeDefinition.mappingToJson (scopes : Fields ScopeDefinition) : Json :=
  .object (scopes.mapValues toJson)

def ModelDefinition.toJson (d : ModelDefinition) : Json :=
  .object [("name", .string d.name), ("tableName", .orNull .string d.tableName),
    ("idProperty", .orNull Key.toJson d.idProperty), ("timestamps", .bool d.timestamps),
    ("properties", .object d.properties),
    ("relations", .object (d.relations.mapValues RelationDefinition.toJson)),
    ("scopes", ScopeDefinition.mappingToJson d.scopes)]

/-! ## Reading -/

open Record

/-- A key: a string or a list of strings. -/
def Key.ofJson? : Json → Option Key
  | .string token => some (.single token)
  | value => (strings? value).map .composite

/-- A join table: a truth value, or an object with its two keys and its model. Unlike a record it
cannot be a list. -/
def ThroughDefinition.ofJson? : Json → Option ThroughDefinition
  | .bool requested => some (.generated requested)
  | value => do
    let fields ← value.object?
    let source ← optional? ["from"] Key.ofJson? fields
    let target ← optional? ["to"] Key.ofJson? fields
    let model ← optional? ["model", "modelClass"] Json.string? fields
    return .explicit source target model

def JoinDefinition.ofJson? (value : Json) : Option JoinDefinition := do
  let fields ← named? ["from", "to", "through"] value
  let source ← required? ["from"] Key.ofJson? fields
  let target ← required? ["to"] Key.ofJson? fields
  let through ← optional? ["through"] ThroughDefinition.ofJson? fields
  return ⟨source, target, through⟩

/-- A narrowing: a scope, a list of scopes, or conditions. -/
def ModifierDefinition.ofJson? : Json → Option ModifierDefinition
  | .string name => some (.scope name)
  | .array items => (items.mapM Json.string?).map .scopes
  | .object fields => (mapping? any? (.object fields)).map .filter
  | _ => none

def RelationDefinition.declaredKeys : List String :=
  ["relation", "from", "to", "through", "inverse", "scope", "modify", "filter", "join"]

/-- A relation, always an object. -/
def RelationDefinition.ofJson? (value : Json) : Option RelationDefinition := do
  let fields ← value.object?
  let relation ← required? ["relation"] Json.string? fields
  let source ← optional? ["from"] Key.ofJson? fields
  let target ← optional? ["to"] Key.ofJson? fields
  let through ← optional? ["through"] ThroughDefinition.ofJson? fields
  let inverse ← defaulted? ["inverse"] false bool? fields
  let scope ← optional? ["scope"] ModifierDefinition.ofJson? fields
  let modify ← optional? ["modify"] ModifierDefinition.ofJson? fields
  let filter ← optional? ["filter"] ModifierDefinition.ofJson? fields
  let join ← optional? ["join"] JoinDefinition.ofJson? fields
  let rest := Record.rest declaredKeys fields
  return { relation, source, target, through, inverse, scope, modify, filter, join, rest }

def ScopeDefinition.ofJson? (value : Json) : Option ScopeDefinition := do
  let fields ← named? ["where", "select", "order"] value
  let conditions ← optional? ["where"] any? fields
  let select ← defaulted? ["select"] [] strings? fields
  let order ← optional? ["order"] any? fields
  return ⟨conditions, select, order⟩

namespace ModelDefinition

def fieldNames : List String :=
  ["name", "tableName", "idProperty", "timestamps", "properties", "relations", "scopes"]

def ofJson? (value : Json) : Option ModelDefinition := do
  let fields ← named? fieldNames value
  let name ← required? ["name"] Json.string? fields
  let tableName ← optional? ["tableName"] Json.string? fields
  let idProperty ← optional? ["idProperty"] Key.ofJson? fields
  let timestamps ← defaulted? ["timestamps"] false bool? fields
  let properties ← defaulted? ["properties"] [] (mapping? any?) fields
  let relations ← defaulted? ["relations"] [] (mapping? RelationDefinition.ofJson?) fields
  let scopes ← defaulted? ["scopes"] [] (mapping? ScopeDefinition.ofJson?) fields
  return { name, tableName, idProperty, timestamps, properties, relations, scopes }

/-- A record whose only field is the list of models. -/
def wrappedList? (value : Json) : Option (List ModelDefinition) := do
  required? ["models"] (list? ofJson?) (← named? ["models"] value)

/-- The models of a document: a list of models, a record of such a list, or a single model. -/
def listOfJson? (value : Json) : Option (List ModelDefinition) :=
  list? ofJson? value <|> wrappedList? value <|> (ofJson? value).map ([·])

end ModelDefinition

end ModelCatalog
