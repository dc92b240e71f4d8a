import ModelCatalog.Relation.Basic

/-!
# Models and registries

A model as queries and relations see it: its table, its identifying properties, all properties and
scopes with those that timestamps add, and its relations once they are resolved.

A registry is a finite collection of models with a look-up that need not go by the exact name; what
is found is always one of its models. It carries the proof of that, so a name that is found can be
followed without asking again.
-/

namespace ModelCatalog

/-! ## Models -/

/-- A model. -/
structure Model where
  name : String
  tableName : String
  idProperties : List String
  /-- The schemas of the properties, as declared. -/
  properties : Fields Json
  relations : Fields Relation
  scopes : Fields ScopeDefinition
  deriving Repr

namespace Model

def named (name : String) : Model := ⟨name, name, ["id"], [], [], []⟩

/-- The model that a definition describes, before its relations are resolved. -/
def ofDefinition (d : ModelDefinition) : Model where
  name := d.name
  tableName := d.table
  idProperties := d.idProperties
  properties := d.allProperties
  relations := []
  scopes := d.allScopes

/-- The properties that the model's own relations join on. -/
def ownKeys (m : Model) : List String :=
  m.relations.flatMap fun (_, relation) ↦ relation.ownKeys m.name

/-- Whether the model has a property of this name: a declared one, an identifying one, or one that
its relations join on. -/
def hasProperty (m : Model) (name : String) : Bool :=
  m.properties.contains name || m.idProperties.contains name || m.ownKeys.contains name

def relation? (m : Model) (name : String) : Option Relation := m.relations.get? name

def scope? (m : Model) (name : String) : Option ScopeDefinition := m.scopes.get? name

def toJson (m : Model) : Json :=
  .object [("name", .string m.name), ("tableName", .string m.tableName),
    ("idProperties", Json.strings m.idProperties), ("properties", .object m.properties),
    ("relations", .object (m.relations.mapValues Relation.toJson)),
    ("scopes", ScopeDefinition.mappingToJson m.scopes)]

end Model

/-! ## Registries -/

/-- A finite collection of models with a look-up by name. -/
structure Registry where
  models : List Model
  lookup : String → Option Model
  /-- What is found is one of the models. -/
  mem_models : ∀ {name model}, lookup name = some model → model ∈ models

namespace Registry

/-- Whether a model is found by the name. -/
def contains (r : Registry) (name : String) : Bool := (r.lookup name).isSome

/-- The model of an exact name. -/
def findExact (models : List Model) (name : String) : Option Model :=
  models.find? (·.name == name)

/-- The model of a name, or of the name followed by `Model` if the name does not end so; `find`
finds models by their exact names. -/
def findSuffixed (find : String → Option Model) (name : String) : Option Model :=
  match find name with
  | some model => some model
  | none => if (Text.dropEnding? "Model" name).isSome then none else find (name ++ "Model")

theorem mem_of_findExact {models : List Model} {name : String} {model : Model}
    (h : findExact models name = some model) : model ∈ models :=
  List.mem_of_find?_eq_some h

theorem exists_of_findSuffixed {find : String → Option Model} {name : String} {model : Model}
    (h : findSuffixed find name = some model) : ∃ full, find full = some model := by
  unfold findSuffixed at h
  split at h
  · rename_i found heq
    exact ⟨name, heq.trans h⟩
  · split at h
    · simp at h
    · exact ⟨_, h⟩

/-- Look-up by the exact name; of several models of one name the first is found. -/
def exact (models : List Model) : Registry where
  models := models
  lookup := findExact models
  mem_models := mem_of_findExact

/-- Look-up by the exact name first, and then by that name followed by `Model`. -/
def suffixed (models : List Model) (find : String → Option Model)
    (hfind : ∀ {name model}, find name = some model → model ∈ models) : Registry where
  models := models
  lookup := findSuffixed find
  mem_models h := by
    obtain ⟨full, hfull⟩ := exists_of_findSuffixed h
    exact hfind hfull

/-- Of several models of one name, keep the last, in the place of the first. -/
def lastByName (models : List Model) : List Model :=
  (Fields.ofList (models.map fun model ↦ (model.name, model))).map (·.2)

end Registry

end ModelCatalog
