import ModelCatalog.Definition.Basic
import ModelCatalog.Text.Casing

/-!
# Relations

A relation as resolved: its kind, the model it leads to, the keys it joins on, and the join table
in between, if it has one.
-/

namespace ModelCatalog

/-! ## Kinds

How many instances a relation leads to, and whether it goes through a join table. Authors may spell
a kind in several ways: as words separated by underscores, hyphens or blanks, with a capital, and
with the word `Relation` behind it. -/

inductive RelationKind where
  | belongsToOne
  | hasOne
  | hasOneThrough
  | hasMany
  | manyToMany
  deriving DecidableEq, Repr

namespace RelationKind

/-- The kind that an identifier in camel case names. -/
def ofIdentifier? (name : String) : Option RelationKind :=
  if name ∈ ["belongsTo", "belongsToOne", "BelongsToOne"] then some .belongsToOne
  else if name ∈ ["hasOne", "HasOne"] then some .hasOne
  else if name ∈ ["hasOneThrough", "HasOneThrough"] then some .hasOneThrough
  else if name ∈ ["hasMany", "HasMany"] then some .hasMany
  else if name ∈ ["manyToMany", "ManyToMany"] then some .manyToMany
  else none

/-- The kind that a name spells. -/
def ofName? (name : String) : Option RelationKind :=
  let identifier := Text.camelCase name
  ofIdentifier? ((Text.dropEnding? "Relation" identifier).getD identifier)

def name : RelationKind → String
  | .belongsToOne => "belongsTo"
  | .hasOne => "hasOne"
  | .hasOneThrough => "hasOneThrough"
  | .hasMany => "hasMany"
  | .manyToMany => "manyToMany"

/-- Whether relations of the kind go through a join table. -/
def isThrough : RelationKind → Bool
  | .hasOneThrough | .manyToMany => true
  | _ => false

/-- Whether relations of the kind lead to at most one instance. -/
def isOneToOne : RelationKind → Bool
  | .belongsToOne | .hasOne | .hasOneThrough => true
  | _ => false

end RelationKind

/-! ## Joins -/

/-- The table between the two sides of a relation, and its keys towards them. -/
structure Through where
  table : String
  source : Key
  target : Key
  /-- The model of the table, if it has one. -/
  model : Option String
  deriving DecidableEq, Repr

/-- The keys that a relation joins on. -/
structure Join where
  source : Key
  target : Key
  through : Option Through
  deriving DecidableEq, Repr

/-- What narrows every query along a relation. -/
inductive Modifier where
  | scopes (names : List String)
  /-- Conditions on the related model. -/
  | filter (conditions : Fields Json)
  deriving Repr

/-- A resolved relation. -/
structure Relation where
  kind : RelationKind
  relatedModel : String
  join : Join
  modify : Option Modifier
  /-- Further keys of the definition, carried along. -/
  extra : Fields Json
  deriving Repr

/-- The narrowing that a definition describes. -/
def Modifier.ofDefinition : ModifierDefinition → Modifier
  | .scope name => .scopes [name]
  | .scopes names => .scopes names
  | .filter conditions => .filter conditions

/-- The table or model and the column or property of a reference, around its first point. -/
def cutReference (token : String) : Option (String × String) := Text.cut '.' token

namespace Relation

/-- The properties of a model that the relation joins on, given that the model owns it. -/
def ownKeys (r : Relation) (owner : String) : List String :=
  r.join.source.tokens.filterMap fun token ↦
    match cutReference token with
    | some (model, property) => if model = owner then some property else none
    | none => none

end Relation

def Through.toJson (t : Through) : Json :=
  .object ([("table", .string t.table), ("from", t.source.toJson), ("to", t.target.toJson)] ++
    t.model.toList.map fun model ↦ ("model", .string model))

def Join.toJson (j : Join) : Json :=
  .object ([("from", j.source.toJson), ("to", j.target.toJson)] ++
    j.through.toList.map fun through ↦ ("through", through.toJson))

def Modifier.toJson : Modifier → Json
  | .scopes names => .object [("scopes", Json.strings names)]
  | .filter conditions => .object [("filter", .object conditions)]

/-- A relation as a JSON value. A further key with the name of a part replaces its value. -/
def Relation.toJson (r : Relation) : Json :=
  let parts : Fields Json :=
    [("relation", .string r.kind.name), ("relatedModel", .string r.relatedModel),
      ("join", r.join.toJson)] ++
      r.modify.toList.map fun modify ↦ ("modify", modify.toJson)
  .object (parts.merge r.extra)

/-! ## Relations that cannot be resolved -/

/-- A part that a relation cannot do without. -/
inductive Endpoint where
  | source
  | target
  /-- The model that the relation leads to. -/
  | relatedModel
  deriving DecidableEq, Repr

/-- The key under which a definition gives the part. -/
def Endpoint.key : Endpoint → String
  | .source => "from"
  | .target => "to"
  | .relatedModel => "modelClass"

/-- Why a relation cannot be resolved. -/
inductive RelationError where
  /-- No model is found by the name in a reference. -/
  | unknownModel (reference : String)
  /-- A reference is not of the form `Model.property`. -/
  | invalidReference (reference : String)
  /-- A reference is to another model than those before it in its key. -/
  | mixedModels (reference : String)
  /-- Two keys that do not match property by property. -/
  | keyMismatch (source target : String)
  | unrecognizedKind (name : String)
  | missingEndpoint (endpoint : Endpoint)
  /-- A join table without one of its keys. -/
  | incompleteThrough
  /-- The keys of a join table are on different models. -/
  | ambiguousThrough
  | unknownScope (model scope : String)
  /-- A join table on a kind of relation that has none. -/
  | unsupportedThrough (kind : RelationKind)
  /-- A failure in a named relation of a model. -/
  | inRelation (model relation : String) (cause : RelationError)
  deriving DecidableEq, Repr

def RelationError.message : RelationError → String
  | .unknownModel reference => "unknown model reference: " ++ reference
  | .invalidReference reference =>
    "invalid model reference '" ++ reference ++ "': expected 'Model.property'"
  | .mixedModels reference =>
    "composite keys need to be defined on the same table: " ++ reference
  | .keyMismatch source target =>
    "unable to create through join for composite keys from '" ++ source ++ "' to '" ++ target ++ "'"
  | .unrecognizedKind name => "unrecognized relation: " ++ name
  | .missingEndpoint endpoint => "the relation needs a `" ++ endpoint.key ++ "` definition"
  | .incompleteThrough => "the relation needs a `through.from` and `through.to` definition"
  | .ambiguousThrough =>
    "both sides of the `through` definition need to be on the same join model"
  | .unknownScope model scope => "unknown scope '" ++ scope ++ "' on model '" ++ model ++ "'"
  | .unsupportedThrough kind =>
    "unsupported through join definition on " ++ kind.name ++ " relation"
  | .inRelation model relation cause =>
    model ++ ".relations." ++ relation ++ ": " ++ cause.message

end ModelCatalog
