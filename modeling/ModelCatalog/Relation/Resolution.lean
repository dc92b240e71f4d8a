import ModelCatalog.Model.Basic

/-!
# Resolving relations

Turning a relation as described into one that names the related model and the keys it joins on. A
description either gives two keys on known models, from which all else follows, or a join in terms
of tables, which is taken over as given.
-/

namespace ModelCatalog

/-! ## Generated join tables

The names of join tables that no author named. The table is named after the two models, the source
first unless the relation is the inverse one, and each of its columns after a model and one of its
key properties. The two relations of an inverse pair therefore meet in the same table. -/

/-- The name of the table between two models. -/
def joinTableName (source target : String) (inverse : Bool) : String :=
  if inverse then target ++ source else source ++ target

/-- The name of the column for a property of a model. -/
def joinColumnName (model property : String) : String :=
  Text.lowerFirst model ++ Text.capitalize property

/-- A key of a model as messages show it. -/
def displayKey (model : String) (properties : List String) : String :=
  match properties.map fun property ↦ model ++ "." ++ property with
  | [reference] => reference
  | references => Key.displayList references

/-- A generated join table with its columns towards the two sides. -/
structure GeneratedJoin where
  table : String
  source : List String
  target : List String
  deriving DecidableEq, Repr

/-- The references to the columns of a table for the properties of a model. -/
def joinColumns (table model : String) (properties : List String) : List String :=
  properties.map fun property ↦ table ++ "." ++ joinColumnName model property

/-- The join table between two keys, which need the same number of properties, at least one, and
none without a name. -/
def GeneratedJoin.between (sourceModel : String) (sourceProperties : List String)
    (targetModel : String) (targetProperties : List String) (inverse : Bool) :
    Except RelationError GeneratedJoin :=
  if sourceProperties.length = targetProperties.length ∧ sourceProperties ≠ [] ∧
      "" ∉ sourceProperties ∧ "" ∉ targetProperties then
    let table := joinTableName sourceModel targetModel inverse
    .ok ⟨table, joinColumns table sourceModel sourceProperties,
      joinColumns table targetModel targetProperties⟩
  else
    .error (.keyMismatch (displayKey sourceModel sourceProperties)
      (displayKey targetModel targetProperties))

/-! ## References to keys

A key of a relation names its properties as `Model.property`, all of them on the same model. The
model has to be a known one, unless the key may as well name columns of a table without a model. -/

/-- A key taken apart into a model and some of its properties. -/
structure Reference where
  model : String
  properties : List String
  /-- Whether a model is found by the name. -/
  known : Bool
  deriving DecidableEq, Repr

namespace Reference

/-- The model and the property that a token names, neither of them empty. -/
def cutToken? (token : String) : Option (String × String) :=
  match cutReference token with
  | some (model, property) =>
    if model.isEmpty || property.isEmpty then none else some (model, property)
  | none => none

/-- Take one more token of a key into account. -/
def addToken (registry : Registry) (allowUnknown : Bool) (parsed : Option Reference)
    (token : String) : Except RelationError (Option Reference) :=
  match cutToken? token with
  | none => .error (.invalidReference token)
  | some (model, property) =>
    match parsed with
    | none =>
      if registry.contains model || allowUnknown then
        .ok (some ⟨model, [property], registry.contains model⟩)
      else .error (.unknownModel token)
    | some reference =>
      if reference.model = model then
        .ok (some { reference with properties := reference.properties ++ [property] })
      else .error (.mixedModels token)

/-- The reference that a key writes. -/
def ofKey (registry : Registry) (allowUnknown : Bool) (key : Key) :
    Except RelationError Reference := do
  match ← key.tokens.foldlM (addToken registry allowUnknown) none with
  | some reference => return reference
  | none => throw (.invalidReference key.display)

/-- The references to the single properties. -/
def tokens (r : Reference) : List String :=
  r.properties.map fun property ↦ r.model ++ "." ++ property

def toKey (r : Reference) : Key := Key.ofList r.tokens

def display (r : Reference) : String := displayKey r.model r.properties

/-- The generated join table from this key to another. -/
def throughTo (source target : Reference) (inverse : Bool) : Except RelationError Through := do
  let join ← GeneratedJoin.between source.model source.properties target.model target.properties
    inverse
  return ⟨join.table, Key.ofList join.source, Key.ofList join.target, none⟩

end Reference

/-! ## Resolution -/

/-- The narrowing of a relation: of several ways to give one, the first that is used counts. -/
def RelationDefinition.modifier (d : RelationDefinition) : Option Modifier :=
  ((d.scope <|> d.modify) <|> d.filter).map Modifier.ofDefinition

/-- The first scope in a narrowing that a model does not have. -/
def Model.missingScope? (m : Model) : Option Modifier → Option String
  | some (.scopes names) => names.find? fun name ↦ (m.scope? name).isNone
  | _ => none

/-- Check the scopes that narrow a relation against the related model, if that is known. -/
def checkScopes (registry : Registry) (related : String) (modify : Option Modifier) :
    Except RelationError Unit :=
  match registry.lookup related with
  | some model =>
    match model.missingScope? modify with
    | some scope => .error (.unknownScope model.name scope)
    | none => .ok ()
  | none => .ok ()

/-- The join table with the given keys: both on the same known model, or both in a table that is no
model's. -/
def resolveThrough (registry : Registry) (source target : Key) (model : Option String) :
    Except RelationError Through := do
  let sourceReference ← Reference.ofKey registry true source
  let targetReference ← Reference.ofKey registry true target
  if (sourceReference.known || targetReference.known) &&
      sourceReference.model ≠ targetReference.model then
    throw .ambiguousThrough
  match registry.lookup sourceReference.model with
  | some found =>
    return ⟨found.tableName, sourceReference.toKey, targetReference.toKey, some found.name⟩
  | none => return ⟨sourceReference.model, source, target, model⟩

/-- The join table of a relation between two keys on known models. -/
def throughBetween (registry : Registry) (kind : RelationKind)
    (through : Option ThroughDefinition) (source target : Reference) (inverse : Bool) :
    Except RelationError (Option Through) :=
  if kind.isThrough then
    match through with
    | none | some (.generated _) => some <$> source.throughTo target inverse
    | some (.explicit (some throughSource) (some throughTarget) model) =>
      some <$> resolveThrough registry throughSource throughTarget model
    | some (.explicit _ _ _) => .error .incompleteThrough
  else
    match through with
    | none | some (.generated false) => .ok none
    | some _ => .error (.unsupportedThrough kind)

/-- The table that the first part of a key names. -/
def Key.table (key : Key) : Except RelationError String :=
  match key.tokens.head?.bind cutReference with
  | some (table, _) => .ok table
  | none => .error (.invalidReference key.display)

/-- The join table in a join that is given in terms of tables. -/
def throughOfJoin (kind : RelationKind) (through : Option ThroughDefinition) :
    Except RelationError (Option Through) :=
  if kind.isThrough then
    match through with
    | some (.explicit (some source) (some target) model) => do
      return some ⟨← source.table, source, target, model⟩
    | _ => .error .incompleteThrough
  else
    match through with
    | none => .ok none
    | some _ => .error (.unsupportedThrough kind)

/-- The model that a join in terms of tables leads to: the one named as `modelClass`, or the one
found by the name of the target table. -/
def relatedModelOfJoin (registry : Registry) (join : JoinDefinition) (rest : Fields Json) :
    Except RelationError String :=
  match (rest.get? "modelClass").bind Json.string? with
  | some model => .ok model
  | none => do
    match registry.lookup (← join.target.table) with
    | some model => return model.name
    | none => throw (.missingEndpoint .relatedModel)

/-- A relation that is given as a join in terms of tables. -/
def relationOfJoin (registry : Registry) (kind : RelationKind) (join : JoinDefinition)
    (modify : Option Modifier) (rest : Fields Json) : Except RelationError Relation := do
  let through ← throughOfJoin kind join.through
  let relatedModel ← relatedModelOfJoin registry join rest
  return ⟨kind, relatedModel, ⟨join.source, join.target, through⟩, modify, rest⟩

/-- A part of a definition that has to be there. -/
def requireEndpoint (endpoint : Endpoint) : Option Key → Except RelationError Key
  | some key => .ok key
  | none => .error (.missingEndpoint endpoint)

/-- A relation that is given as two keys on known models. -/
def relationOfKeys (registry : Registry) (kind : RelationKind) (d : RelationDefinition) :
    Except RelationError Relation := do
  let sourceKey ← requireEndpoint .source d.source
  let targetKey ← requireEndpoint .target d.target
  let source ← Reference.ofKey registry false sourceKey
  let target ← Reference.ofKey registry false targetKey
  checkScopes registry target.model d.modifier
  let through ← throughBetween registry kind d.through source target d.inverse
  return ⟨kind, target.model, ⟨source.toKey, target.toKey, through⟩, d.modifier, d.rest⟩

def Registry.resolveRelation (registry : Registry) (d : RelationDefinition) :
    Except RelationError Relation :=
  match RelationKind.ofName? d.relation with
  | none => .error (.unrecognizedKind d.relation)
  | some kind =>
    match d.join with
    | some join => relationOfJoin registry kind join d.modifier d.rest
    | none => relationOfKeys registry kind d

/-- Resolve all relations of a model. -/
def Registry.resolveRelations (registry : Registry) (model : String)
    (definitions : Fields RelationDefinition) : Except RelationError (Fields Relation) :=
  definitions.mapM fun (name, definition) ↦
    match registry.resolveRelation definition with
    | .ok relation => .ok (name, relation)
    | .error cause => .error (.inRelation model name cause)

end ModelCatalog
