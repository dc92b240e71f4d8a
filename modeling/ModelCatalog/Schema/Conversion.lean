import ModelCatalog.Schema.Expansion

/-!
# Conversion of schemas

Compiling a schema tree as authors write it into a validation schema. Besides shorthand, conversion
resolves the type names: aliases to JSON types, dates to text in a date format, and models to
references. It lifts `required: true` from the properties into the `required` list of their object,
turns other uses of it into a format, drops defaults that are filled in at write time, closes
objects that list their properties, and lets nullable nodes accept `null`.

## Order of keywords

The steps edit one mapping of keywords in a fixed order, and `Fields.remove` followed by
`Fields.insert` moves a keyword to the end, so the steps also decide the order of the keywords.
-/

namespace ModelCatalog

/-! ## Type names

The closed classification of the names that a `type` may give: the JSON types and their alias
`text`, the names of dates, and any other name, which refers to a model. -/

/-- The types of JSON values that a type name can stand for. -/
inductive JsonType where
  | string
  | number
  | integer
  | boolean
  | object
  | array
  deriving DecidableEq, Repr

namespace JsonType

/-- The JSON type that a name stands for; `text` is another name of `string`. -/
def ofName? (name : String) : Option JsonType :=
  if name = "string" ∨ name = "text" then some .string
  else if name = "number" then some .number
  else if name = "integer" then some .integer
  else if name = "boolean" then some .boolean
  else if name = "object" then some .object
  else if name = "array" then some .array
  else none

def name : JsonType → String
  | .string => "string"
  | .number => "number"
  | .integer => "integer"
  | .boolean => "boolean"
  | .object => "object"
  | .array => "array"

@[simp] theorem ofName?_name (type : JsonType) : ofName? type.name = some type := by
  cases type <;> simp [name, ofName?]

end JsonType

def dateNames : List String := ["date", "datetime", "timestamp"]

/-- What a type name declares. -/
inductive DeclaredType where
  | json (type : JsonType)
  /-- A date, written as text or given as an object. -/
  | date
  /-- An instance of another model. -/
  | model (name : String)
  deriving DecidableEq, Repr

/-- The kind of a type name: JSON types first, then dates; case matters. -/
def DeclaredType.ofName (name : String) : DeclaredType :=
  match JsonType.ofName? name with
  | some type => .json type
  | none => if name ∈ dateNames then .date else .model name

/-! ## Formats

A node has one `format`; a second one has to go into an `allOf`. -/

namespace Schema

/-- The node that constrains only the format. -/
def ofFormat (format : Json) : Json := .object [("format", format)]

/-- Whether a schema has exactly this format at its root. -/
def hasFormat (schema : Json) (format : String) : Bool :=
  (schema.get? "format").any (·.isString format)

/-- The entries of an `allOf`; a value that is no list counts as its only entry. -/
def allOfEntries : Option Json → List Json
  | some (.array entries) => entries
  | some entry => [entry]
  | none => []

/-- Add a format to a node. It becomes the node's own format where there is none to conflict with;
otherwise all formats go into the `allOf`, at the end and without repeating the new one. -/
def withFormat (fields : Fields Json) (format : String) : Fields Json :=
  let rest := fields.remove "format"
  match fields.get? "format" with
  | none =>
    if fields.contains "allOf" then addToAllOf rest [] else rest.insert "format" (.string format)
  | some existing =>
    if existing.isString format then rest.insert "format" (.string format)
    else addToAllOf rest [ofFormat existing]
where
  /-- Append entries and the new format to the `allOf`. -/
  addToAllOf (rest : Fields Json) (entries : List Json) : Fields Json :=
    let allOf := allOfEntries (rest.get? "allOf") ++ entries
    let allOf := if allOf.any (hasFormat · format) then allOf
      else allOf ++ [ofFormat (.string format)]
    (rest.remove "allOf").insert "allOf" (.array allOf)

end Schema

/-! ## Nullable nodes

Adding `null` to the types of a node is enough if no other keyword can object to it; otherwise the
node becomes one of two alternatives, the other being `null`. The markers `nullable` and `validate`
stay at the root in both forms. -/

namespace Schema

/-- The keywords that constrain no value. -/
def harmlessKeywords : List String :=
  ["primary", "foreign", "nullable", "unique", "unsigned", "computed", "hidden"]

/-- Whether a value is a list of types with `null` among them. -/
def listsNull : Json → Bool
  | .array types => types.any (·.isString "null")
  | _ => false

/-- The types of a node, as a list. -/
def typeList : Option Json → List Json
  | some (.array types) => types
  | some type => [type]
  | none => []

/-- Entry of a mapping for an optional value. -/
def optionalField (key : String) (value : Option Json) : Fields Json :=
  value.toList.map (key, ·)

@[simp] theorem optionalField_none (key : String) : optionalField key none = [] := rfl

@[simp] theorem optionalField_some (key : String) (value : Json) :
    optionalField key (some value) = [(key, value)] := rfl

/-- The schema of a node that accepts `null` besides what the node accepts. -/
def allowNull (fields : Fields Json) : Json :=
  if (fields.get? "type").any listsNull then .object fields
  else
    let rest := (((fields.remove "nullable").remove "validate").remove "$ref").remove "type"
    let type := fields.get? "type"
    let marker := ("nullable", (fields.get? "nullable").getD (.bool true))
    let validate := optionalField "validate" (fields.get? "validate")
    let reference := fields.get? "$ref"
    if reference.isSome || rest.keys.any (· ∉ harmlessKeywords) then
      let notNull := match reference with
        | some reference => [("$ref", reference)]
        | none => optionalField "type" type ++ rest
      .object ([("anyOf", .array [.object (ofName "null"), .object notNull]), marker] ++ validate)
    else
      .object ([("type", .array (.string "null" :: typeList type)), marker] ++ validate ++ rest)

end Schema

/-! ## The steps -/

/-- What a conversion may be asked for. -/
structure ConversionOptions where
  /-- Check that values are instances of the models they refer to, instead of referring to the
  schemas of the models. Values that an action returns are checked so. -/
  instances : Bool
  deriving DecidableEq, Repr

namespace Schema

/-- The default that stands for the time of writing. -/
def writeTimeDefault : String := "now()"

/-- Give a keyword a value and move it to the end. -/
def replaceLast (fields : Fields Json) (key : String) (value : Json) : Fields Json :=
  (fields.remove key).insert key value

/-- Convert the schemas that a composition combines; a value that is no list is dropped. -/
def convertComposite (keywords : Fields Keyword) (fields : Fields Json) (key : String) :
    Except SchemaError (Fields Json) :=
  match keywords.get? key with
  | some ⟨.array _, compiled⟩ => do
    let value ← compiled
    return replaceLast fields key value
  | some _ => .ok (fields.remove key)
  | none => .ok fields

/-- Convert the value of a keyword whose value is a schema. -/
def convertSchemaKeyword (keywords : Fields Keyword) (fields : Fields Json) (key : String) :
    Except SchemaError (Fields Json) :=
  match keywords.get? key with
  | some keyword => do
    let value ← keyword.compiled
    return replaceLast fields key value
  | none => .ok fields

/-- Convert a mapping from names to schemas; any other value is dropped. The result says whether
there was a mapping. -/
def convertMapping (keywords : Fields Keyword) (fields : Fields Json) (key : String) :
    Except SchemaError (Fields Json × Bool) :=
  match keywords.get? key with
  | some ⟨.object _, compiled⟩ => do
    let value ← compiled
    return (replaceLast fields key value, true)
  | some _ => .ok (fields.remove key, false)
  | none => .ok (fields, false)

/-- Whether a property is marked as required. Only a schema in full can be. -/
def isRequired (property : Json) : Bool :=
  match property with
  | .object fields => isExplicit fields && (Fields.get? fields "required").any Json.isTrue
  | _ => false

/-- The names of the required properties, in order. -/
def requiredNames (properties : Fields Json) : List String :=
  Fields.keys (properties.filter fun (_, property) ↦ isRequired property)

/-- Append the names that are not in a list of values yet. -/
def addNames (names : List Json) (added : List String) : List Json :=
  added.foldl (fun names name ↦ if names.any (·.isString name) then names
    else names ++ [.string name]) names

/-- Extend the `required` list of an object by the names of its required properties. -/
def addRequired (fields : Fields Json) (names : List String) : Fields Json :=
  if names.isEmpty then fields
  else
    let listed := ((fields.get? "required").bind Json.array?).getD []
    replaceLast fields "required" (.array (addNames listed names))

/-- The keywords of objects: convert the properties, list the required ones, and close an object
whose properties are listed unless it says otherwise. -/
def convertObject (keywords : Fields Keyword) (fields : Fields Json) :
    Except SchemaError (Fields Json) := do
  let (fields, named) ← convertMapping keywords fields "properties"
  let properties := ((keywords.get? "properties").bind (·.written.object?)).getD []
  let fields := addRequired fields (requiredNames properties)
  let (fields, patterned) ← convertMapping keywords fields "patternProperties"
  return if (named || patterned) && !fields.contains "additionalProperties" then
    fields.insert "additionalProperties" (.bool false)
  else fields

def convertArray (keywords : Fields Keyword) (fields : Fields Json) :
    Except SchemaError (Fields Json) :=
  convertSchemaKeyword keywords fields "items"

/-- Resolve a type name, and convert the keywords that belong to the type. -/
def convertTypeName (options : ConversionOptions) (keywords : Fields Keyword) (fields : Fields Json)
    (name : String) : Except SchemaError (Fields Json) :=
  match DeclaredType.ofName name with
  | .json type =>
    let fields := fields.insert "type" (.string type.name)
    match type with
    | .object => convertObject keywords fields
    | .array => convertArray keywords fields
    | _ => .ok fields
  | .date =>
    .ok (withFormat (fields.insert "type" (Json.strings ["string", "object"])) "date-time")
  | .model model =>
    if options.instances then
      .ok ((fields.insert "type" (.string "object")).insert "instanceof" (.string model))
    else .ok ((fields.remove "type").insert "$ref" (.string model))

/-- Resolve the type of a node. The names in a list of types are kept as they are. -/
def convertType (options : ConversionOptions) (keywords : Fields Keyword) (fields : Fields Json) :
    Except SchemaError (Fields Json) :=
  match fields.get? "type" with
  | some (.string name) => convertTypeName options keywords fields name
  | some (.array names) => do
    let fields ← if names.any (·.isString "object") then convertObject keywords fields
      else .ok fields
    if names.any (·.isString "array") then convertArray keywords fields else .ok fields
  | _ => .ok fields

/-- Drop a default that is filled in at write time and move any other to the end. -/
def settleDefault (fields : Fields Json) : Fields Json :=
  match fields.get? "default" with
  | some value =>
    if value.isString writeTimeDefault then fields.remove "default"
    else replaceLast fields "default" value
  | none => fields

/-- Settle `required` and `default` at the node itself. On an object a truth value under `required`
has been lifted into the list of the parent; on other nodes it means that the value is not empty,
which only a format can say. -/
def settleMarkers (fields : Fields Json) : Fields Json :=
  if (fields.get? "type").any (·.isString "object") then
    match fields.get? "required" with
    | some (.bool _) => fields.remove "required"
    | _ => fields
  else
    settleDefault <| match fields.get? "required" with
      | some (.bool true) => withFormat (fields.remove "required") "required"
      | some (.bool false) => fields.remove "required"
      | _ => fields

/-- Wrap a nullable node, and reduce a reference to itself. -/
def finishNode (fields : Fields Json) : Json :=
  if (fields.get? "nullable").any Json.isTrue then allowNull fields
  else match fields.get? "$ref" with
    | some reference => .object [("$ref", reference)]
    | none => .object fields

/-- The validation schema of a node. -/
def convertNode (options : ConversionOptions) (keywords : Fields Keyword) :
    Except SchemaError Json := do
  let written := keywords.mapValues (·.written)
  let fields ← compositeKeywords.foldlM (convertComposite keywords) written
  let fields ← convertSchemaKeyword keywords fields "not"
  let fields ← convertType options keywords fields
  return finishNode (settleMarkers fields)

def conversion (options : ConversionOptions) : Pass where
  propertyPath := below
  node := convertNode options

/-- The validation schema of a schema tree. -/
def convert (options : ConversionOptions) (schema : Json) : Except SchemaError Json :=
  (conversion options).run "" schema

/-- The validation schemas of properties that stand at a place, and the names of the required
ones. -/
def convertProperties (options : ConversionOptions) (path : String) (properties : Fields Json) :
    Except SchemaError (Fields Json × List String) := do
  let converted ← (conversion options).runProperties path properties
  return (converted, requiredNames properties)

end Schema

end ModelCatalog
