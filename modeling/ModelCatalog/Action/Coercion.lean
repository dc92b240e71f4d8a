import ModelCatalog.Response

/-!
# Action input

The parameters of an action, the validation schema of its input, and the input itself. A parameter
is a bare type name, or a schema with a name; one without a name stands for the whole input.

A query string carries only text, so the parameters whose values are objects arrive as JSON texts.
Coercion puts the values in the place of the texts. It goes through all parameters even if some of
their texts are malformed, and reports all of those.
-/

namespace ModelCatalog

/-! ## Parameters -/

/-- A parameter as declared. -/
inductive ActionParameter where
  /-- The whole input, of a type. -/
  | bare (type : String)
  /-- An optional name, an optional type, and further keywords of the schema. -/
  | full (name : Option String) (type : Option Json) (rest : Fields Json)
  deriving Repr

namespace ActionParameter

/-- The key of a parameter without a name in the schema of the input. -/
def rootKey : String := "root"

def name? : ActionParameter → Option String
  | .bare _ => none
  | .full name _ _ => name

/-- The key of a parameter in the schema of the input. -/
def key (p : ActionParameter) : String := p.name?.getD rootKey

/-- The declared type names; entries of a list that are no names do not count. -/
def typeNames : ActionParameter → List String
  | .bare type => [type]
  | .full _ (some (.string type)) _ => [type]
  | .full _ (some (.array types)) _ => types.filterMap Json.string?
  | .full _ _ _ => []

def schema : ActionParameter → Json
  | .bare type => .object (Schema.ofName type)
  | .full _ type rest => .object (Fields.merge (Schema.optionalField "type" type) rest)

/-- The schemas of parameters by key; a repeated key keeps its place and takes the last schema. -/
def properties (parameters : List ActionParameter) : Fields Json :=
  Fields.ofList (parameters.map fun p ↦ (p.key, p.schema))

/-- The schema of the input of an action; without parameters any input is accepted. -/
def inputSchema (options : ConversionOptions) (parameters : List ActionParameter) :
    Except SchemaError (Option Json) :=
  if parameters.isEmpty then .ok none
  else some <$> Schema.convert options (.object (properties parameters))

def ofJson? : Json → Option ActionParameter
  | .string type => some (.bare type)
  | .object fields => do
    let name ← Record.optional? ["name"] Json.string? fields
    let type ← Record.optional? ["type"] Record.any? fields
    return .full name type (Record.rest ["name", "type"] fields)
  | _ => none

def toJson : ActionParameter → Json
  | .bare type => .string type
  | .full name type rest =>
    .object (Fields.merge [("name", .orNull .string name), ("type", .ofOption type)] rest)

end ActionParameter

/-! ## Coercion -/

/-- A parameter whose text is malformed. -/
structure CoercionFault where
  name : Option String
  types : List String
  deriving DecidableEq, Repr

def CoercionFault.toJson (fault : CoercionFault) : Json :=
  .object [("dataPath", .string ("." ++ fault.name.getD "")), ("keyword", .string "type"),
    ("message", .string Json.malformedText),
    ("params", .object [("type", Json.strings fault.types), ("json", .bool true)])]

/-- A coercion under way. -/
structure Coercion where
  input : Json
  faults : List CoercionFault
  deriving Repr

/-- Whether a parameter takes objects: one of its types is `object` or a model. -/
def ActionParameter.takesObject (registry : Registry) (p : ActionParameter) : Bool :=
  p.typeNames.any fun type ↦ type == "object" || registry.contains type

namespace Coercion

/-- The value of a parameter in an input. -/
def slot? (input : Json) : Option String → Option Json
  | some name => input.get? name
  | none => some input

/-- The input with another value of a parameter. -/
def setSlot (input : Json) (value : Json) : Option String → Json
  | some name =>
    match input with
    | .object fields => .object (Fields.insert fields name value)
    | other => other
  | none => value

/-- Coerce the value of one parameter, if it is a text that is not empty. -/
def step (registry : Registry) (c : Coercion) (p : ActionParameter) : Coercion :=
  if !p.takesObject registry then c
  else
    match slot? c.input p.name? with
    | some (.string text) =>
      if text.isEmpty then c
      else
        match Json.read? text with
        | some value => { c with input := setSlot c.input value.merged p.name? }
        | none => { c with faults := c.faults ++ [⟨p.name?, p.typeNames⟩] }
    | _ => c

/-- The coercion of an input. -/
def run (registry : Registry) (parameters : List ActionParameter) (input : Json) : Coercion :=
  parameters.foldl (step registry) ⟨input, []⟩

def message (c : Coercion) : String := "the provided data is not valid: " ++ c.input.text

def details (c : Coercion) : Json := .array (c.faults.map CoercionFault.toJson)

/-- The failure that is reported if there are faults. The texts that could be read stay replaced. -/
def failure? (c : Coercion) : Option Failure :=
  if c.faults.isEmpty then none else some (.validation c.message (some c.details))

end Coercion

end ModelCatalog
