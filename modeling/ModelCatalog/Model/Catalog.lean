import ModelCatalog.Definition.Folder
import ModelCatalog.Relation.Resolution
import ModelCatalog.Schema.Conversion

/-!
# Catalogs

All models of an application, resolved: validated, with their relations, in dependency order, and
each with its validation schema. All names and properties are known before the first relation is
resolved, so relations may lead to models that come later.

## Dependency order

Each model should stand before the models that its relations lead to. A relation that belongs to its
target does not count, since the key is on the near side; the models of join tables do. The names
are visited depth first, from the last one given to the first, and each is put in front of the
result once everything it depends on is there. Cycles are possible, and inside one the order is that
of the visits.

## Validation

Names are identifiers and occur once, identifying properties are declared, and relations neither
clash with properties nor lack a key. These checks come before anything is resolved; the models are
checked in order, and each of them in this order.
-/

namespace ModelCatalog

/-! ## Definitions that do not make up a catalog -/

/-- A definition that is not valid on its own. -/
inductive DefinitionFault where
  /-- The name is not an identifier. -/
  | invalidName (name : String)
  /-- There is no identifying property. -/
  | noIdProperty (model : String)
  /-- A relation has the name of a property. -/
  | relationClash (model relation : String)
  /-- A relation gives neither a join nor both keys. -/
  | missingEndpoints (model relation : String)
  deriving DecidableEq, Repr

def DefinitionFault.message : DefinitionFault → String
  | .invalidName name => "invalid model name '" ++ name ++ "'"
  | .noIdProperty model => model ++ ": idProperty must name at least one property"
  | .relationClash model relation =>
    model ++ ": relation '" ++ relation ++ "' clashes with a property of the same name"
  | .missingEndpoints model relation =>
    model ++ ".relations." ++ relation ++ ": relation needs `from` and `to`"

/-- Why definitions do not make up a catalog. -/
inductive CatalogError where
  /-- An identifying property is not declared. -/
  | missingIdProperty (model property : String)
  /-- A model is needed that is not there. -/
  | missingModel (name : String)
  | duplicateModel (name : String)
  | load (cause : LoadError)
  | invalid (fault : DefinitionFault)
  /-- A property of a model has a malformed schema. -/
  | schema (model : String) (cause : SchemaError)
  | relation (cause : RelationError)
  deriving Repr

def CatalogError.message : CatalogError → String
  | .missingIdProperty model property =>
    "missing reference: id property '" ++ model ++ "." ++ property ++ "'"
  | .missingModel name => "missing reference: model '" ++ name ++ "'"
  | .duplicateModel name => "duplicate model: " ++ name
  | .load cause => cause.message
  | .invalid fault => "validation: " ++ fault.message
  | .schema model cause => model ++ ": " ++ cause.message
  | .relation cause => cause.message

/-! ## Checks -/

/-- Whether a name is an identifier: ASCII letters, digits and underscores, no digit in front. -/
def isIdentifier (name : String) : Bool :=
  match name.toList with
  | [] => false
  | c :: cs => (c.isAlpha || c == '_') && cs.all fun d ↦ d.isAlphanum || d == '_'

namespace ModelDefinition

/-- Whether identifying properties have to be declared. The default `id` need not be, even where it
is given explicitly. -/
def declaresId (d : ModelDefinition) : Bool :=
  match d.idProperty with
  | none => false
  | some key => key ≠ .single "id"

/-- The first identifying property that is not declared. -/
def undeclaredId? (d : ModelDefinition) : Option String :=
  if d.declaresId then d.idProperties.find? fun id ↦ !d.properties.contains id else none

/-- What is wrong with a relation of a model. -/
def relationFault? (d : ModelDefinition) (entry : String × RelationDefinition) :
    Option DefinitionFault :=
  let (name, relation) := entry
  if d.allProperties.contains name then some (.relationClash d.name name)
  else if relation.join.isNone && (relation.source.isNone || relation.target.isNone) then
    some (.missingEndpoints d.name name)
  else none

/-- Check a definition that comes after others with the given names. -/
def check (seen : List String) (d : ModelDefinition) : Except CatalogError Unit :=
  if !isIdentifier d.name then .error (.invalid (.invalidName d.name))
  else if d.name ∈ seen then .error (.duplicateModel d.name)
  else if d.idProperties.isEmpty then .error (.invalid (.noIdProperty d.name))
  else match d.undeclaredId? with
    | some id => .error (.missingIdProperty d.name id)
    | none =>
      match d.relations.findSome? d.relationFault? with
      | some fault => .error (.invalid fault)
      | none => .ok ()

end ModelDefinition

/-- Check definitions that come after others with the given names. -/
def validateFrom (seen : List String) : List ModelDefinition → Except CatalogError Unit
  | [] => .ok ()
  | d :: ds => do
    d.check seen
    validateFrom (d.name :: seen) ds

def validate (definitions : List ModelDefinition) : Except CatalogError Unit :=
  validateFrom [] definitions

/-! ## Order -/

/-- The names of the models that a relation leads to and through. -/
def Relation.leadsTo (r : Relation) : List String :=
  if r.kind = .belongsToOne then []
  else r.relatedModel :: (r.join.through.bind (·.model)).toList

/-- The names of the models that the relations of a model lead to and through. -/
def Model.leadsTo (m : Model) : List String :=
  m.relations.flatMap fun (_, relation) ↦ relation.leadsTo

/-- A depth-first visit under way. -/
structure Visit where
  /-- The names that have been entered. -/
  seen : List String
  /-- The names that have been left, the last one first. -/
  sorted : List String
  deriving DecidableEq, Repr

namespace Visit

/-- Visit a name and, before leaving it, all names that follow it and have not been entered. The
fuel bounds the depth. -/
def enter (next : String → List String) : Nat → Visit → String → Visit
  | 0, visit, _ => visit
  | fuel + 1, visit, name =>
    if name ∈ visit.seen then visit
    else
      let inner := (next name).foldl (enter next fuel) { visit with seen := name :: visit.seen }
      { inner with sorted := name :: inner.sorted }

end Visit

namespace Registry

/-- The names that a name depends on: those that the relations of its model lead to, as far as they
are found and other than the name itself. -/
def dependencies (r : Registry) (name : String) : List String :=
  match r.lookup name with
  | none => []
  | some model => model.leadsTo.filter fun related ↦ related ≠ name && r.contains related

/-- A bound on the number of names that a visit can enter. -/
def depthBound (r : Registry) (names : List String) : Nat :=
  names.length + (r.models.flatMap Model.leadsTo).length + 1

/-- The names and all that they depend on, in dependency order. -/
def sortNames (r : Registry) (names : List String) : List String :=
  (names.reverse.foldl (Visit.enter r.dependencies (r.depthBound names)) ⟨[], []⟩).sorted

end Registry

/-! ## Schemas of models

The validation schema of a model is a closed object identified by the model's name. Each relation
adds a property, which takes either full related instances or references by their identifying
properties. -/

namespace Schema

/-- A mapping that refers to a schema. -/
def reference (name : String) : Json := .object [("$ref", .string name)]

/-- The schema of closed objects with the given properties, identified by a name. -/
def identifiedObject (options : ConversionOptions) (name : String) (properties : Fields Json) :
    Except SchemaError (Fields Json) := do
  let schema ← convert options
    (.object [("type", .string "object"), ("properties", .object properties)])
  let fields := Fields.merge [("$id", .string name)] (schema.object?.getD [])
  let fields := if fields.contains "properties" then fields
    else fields.insert "properties" (.object [])
  return fields.insert "additionalProperties" (.bool false)

end Schema

/-- The schema of the declared properties of a model. -/
def ModelDefinition.schema (options : ConversionOptions) (d : ModelDefinition) :
    Except SchemaError Json :=
  .object <$> Schema.identifiedObject options d.name d.allProperties

namespace Relation

/-- The schema of an identifying property in a reference. One that the model does not declare is an
integer. -/
def keySchema (options : ConversionOptions) (related : Option Model) (property : String) :
    Except SchemaError Json := do
  let schema ← match related.bind fun model ↦ model.properties.get? property with
    | some declared => Schema.convert options declared
    | none => .ok (.object (Schema.ofName "integer"))
  return match schema with
    | .object fields => .object (Fields.insert fields "reference" (.bool true))
    | other => other

/-- The schema of a reference to a related instance by its identifying properties. -/
def idReference (options : ConversionOptions) (registry : Registry) (r : Relation) :
    Except SchemaError Json := do
  let related := registry.lookup r.relatedModel
  let ids := (related.map (·.idProperties)).getD ["id"]
  let properties ← ids.mapM fun id ↦ do return (id, ← keySchema options related id)
  return .object [("type", .string "object"), ("properties", .object (Fields.ofList properties))]

/-- The schema of the property that a relation adds: one related instance or `null`, or a list of
related instances. -/
def propertySchema (options : ConversionOptions) (registry : Registry) (r : Relation) :
    Except SchemaError Json := do
  let byId ← r.idReference options registry
  let full := Schema.reference r.relatedModel
  return if r.kind.isOneToOne then
    .object [("anyOf", .array [.object (Schema.ofName "null"), byId, full])]
  else
    .object [("type", .string "array"), ("items", .object [("anyOf", .array [byId, full])]),
      ("additionalItems", .bool false)]

end Relation

namespace Model

/-- Insert the property of a relation. -/
def addRelationProperty (options : ConversionOptions) (registry : Registry)
    (properties : Fields Json) (entry : String × Relation) :
    Except SchemaError (Fields Json) := do
  return properties.insert entry.1 (← entry.2.propertySchema options registry)

def schema (options : ConversionOptions) (registry : Registry) (m : Model) :
    Except SchemaError Json := do
  let fields ← Schema.identifiedObject options m.name m.properties
  match fields.get? "properties" with
  | some (.object properties) =>
    let properties ← m.relations.foldlM (addRelationProperty options registry) properties
    return .object (fields.insert "properties" (.object properties))
  | _ => return .object fields

end Model

/-! ## Resolution -/

/-- The models of an application, in dependency order, and their schemas by name. -/
structure Catalog where
  models : List Model
  schemas : Fields Json
  deriving Repr

/-- The models that definitions describe, with their relations resolved against a registry. -/
def resolveModels (registry : Registry) (definitions : List ModelDefinition) :
    Except RelationError (List Model) :=
  definitions.mapM fun d ↦ do
    let relations ← registry.resolveRelations d.name d.relations
    return { Model.ofDefinition d with relations }

namespace Registry

/-- The models that definitions describe, without relations, found by their exact names; of several
definitions of one name the last counts. -/
def ofNames (definitions : List ModelDefinition) : Registry :=
  exact (lastByName (definitions.map Model.ofDefinition))

/-- The models that definitions describe, with relations, found by their exact names. -/
def ofDefinitions (definitions : List ModelDefinition) : Except RelationError Registry := do
  let models ← resolveModels (ofNames definitions) definitions
  return exact (lastByName models)

/-- The schema of the model of a name. -/
def compile (r : Registry) (name : String) : Except CatalogError Json :=
  match r.lookup name with
  | none => .error (.missingModel name)
  | some model =>
    match model.schema ⟨false⟩ r with
    | .ok schema => .ok schema
    | .error cause => .error (.schema name cause)

/-- The schemas of the models of names, by these names. -/
def compileAll (r : Registry) (names : List String) : Except CatalogError (Fields Json) := do
  let compiled ← names.mapM fun name ↦ do return (name, ← r.compile name)
  return Fields.ofList compiled

/-- Take models out of a list by their names, one after another. A name is passed over when its
model is not there or has been taken before. -/
def take : List Model → List String → List Model
  | _, [] => []
  | models, name :: names =>
    match findExact models name with
    | some model => model :: take (models.eraseP (·.name == name)) names
    | none => take models names

end Registry

namespace Catalog

/-- The place of each model in the catalog, by the model's name; of several models of one name the
last counts. -/
def positions (c : Catalog) : Fields Nat :=
  Fields.ofList (c.models.zipIdx.map fun (model, i) ↦ (model.name, i))

def get? (c : Catalog) (name : String) : Option Model :=
  (c.positions.get? name).bind fun i ↦ c.models[i]?

theorem mem_of_get? {c : Catalog} {name : String} {model : Model} (h : c.get? name = some model) :
    model ∈ c.models := by
  obtain ⟨i, -, hi⟩ := Option.bind_eq_some_iff.1 h
  exact List.mem_of_getElem? hi

/-- The models of the catalog, found by their names or by those followed by `Model`. -/
def registry (c : Catalog) : Registry := .suffixed c.models c.get? mem_of_get?

def schema? (c : Catalog) (name : String) : Option Json :=
  (c.registry.lookup name).bind fun model ↦ c.schemas.get? model.name

/-- The catalog of a list of definitions. -/
def resolve (definitions : List ModelDefinition) : Except CatalogError Catalog := do
  validate definitions
  let registry ← (Registry.ofDefinitions definitions).mapError .relation
  let order := registry.sortNames (definitions.map (·.name))
  let schemas ← registry.compileAll order
  return ⟨Registry.take registry.models order, schemas⟩

end Catalog

end ModelCatalog
