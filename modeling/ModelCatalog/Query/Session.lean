import ModelCatalog.Query.Parameters

/-!
# Query specifications

The effect of a query plan as plain data. Filters and orderings pile up; selected expressions,
relations to load and scopes are collected without repetition; ranges, limits and offsets replace
those before them.

## Failures on the way

Several requests build up one specification, one after the other, and a request may fail when some
of its effects are already in it. `Building` is the monad of such computations: its state outlives
a failure, so what a failed request leaves behind can be told.
-/

namespace ModelCatalog

/-! ## Specifications -/

/-- What a query asks for. -/
structure Specification where
  filters : List (WhereKind × Filter)
  order : List (String × Direction)
  selects : List String
  range : Option (Int × Int)
  limit : Option Nat
  offset : Option Nat
  /-- Relations to load. -/
  eager : List String
  scopes : List String
  /-- Scopes for the relations to load. -/
  eagerScopes : List String
  /-- Properties to keep, by model. -/
  picked : Fields (List String)
  /-- Properties to leave out, by model. -/
  omitted : Fields (List String)
  deriving Repr

/-- Append the values that are not there yet. -/
def mergeUnique (target values : List String) : List String :=
  values.foldl (fun target value ↦ if value ∈ target then target else target ++ [value]) target

/-- Append to the list under a key, values that are there excepted. -/
def mergeAt (fields : Fields (List String)) (key : String) (values : List String) :
    Fields (List String) :=
  fields.insert key (mergeUnique ((fields.get? key).getD []) values)

namespace Specification

def empty : Specification := ⟨[], [], [], none, none, none, [], [], [], [], []⟩

/-- The effect of a step. -/
def apply (s : Specification) : Step → Specification
  | .filter kind filter => { s with filters := s.filters ++ [(kind, filter)] }
  | .orderBy column direction => { s with order := s.order ++ [(column, direction)] }
  | .select expression => { s with selects := mergeUnique s.selects [expression] }
  | .range first last => { s with range := some (first, last) }
  | .limit limit => { s with limit := some limit }
  | .offset offset => { s with offset := some offset }
  | .mergeEager expression => { s with eager := mergeUnique s.eager [expression] }
  | .mergeScope names => { s with scopes := mergeUnique s.scopes names }
  | .mergeEagerScope names => { s with eagerScopes := mergeUnique s.eagerScopes names }
  | .pick model properties => { s with picked := mergeAt s.picked model properties }
  | .omit model properties => { s with omitted := mergeAt s.omitted model properties }

def applyAll (s : Specification) (plan : List Step) : Specification := plan.foldl apply s

def listsToJson (fields : Fields (List String)) : Json := .object (fields.mapValues Json.strings)

def toJson (s : Specification) : Json :=
  .object
    [("filters", .array (s.filters.map fun (kind, filter) ↦
        .object (("kind", .string kind.name) :: filter.fields))),
      ("order", .array (s.order.map fun (column, direction) ↦
        .object [("column", .string column), ("direction", .string direction.name)])),
      ("selects", Json.strings s.selects),
      ("range", .ofOption (s.range.map fun (first, last) ↦ .array [.int first, .int last])),
      ("limit", .ofOption (s.limit.map fun limit ↦ .int limit)),
      ("offset", .ofOption (s.offset.map fun offset ↦ .int offset)),
      ("eager", Json.strings s.eager), ("scopes", Json.strings s.scopes),
      ("eagerScopes", Json.strings s.eagerScopes), ("pick", listsToJson s.picked),
      ("omit", listsToJson s.omitted)]

end Specification

/-- A computation that builds up a specification. Where it fails, the specification keeps what has
been added to it before. -/
abbrev Building := EStateM QueryError Specification

namespace Building

def take (step : Step) : Building Unit := modify (·.apply step)

/-- Take the steps of a plan, one after the other. -/
def replay (plan : List Step) : Building Unit := plan.forM take

end Building

/-! ## Scopes and narrowings

Scopes and the narrowings of relations are queries given in advance. They are planned in the same
way as requests, and checked against the models like these. -/

/-- The conditions and the order of a scope as query parameters. -/
def ScopeDefinition.params (scope : ScopeDefinition) : Fields Json :=
  (scope.conditions.toList.map ("where", ·)) ++ (scope.order.toList.map ("order", ·))

/-- The plan of a scope: first the selected columns, then its conditions and its order. -/
def Registry.planScope (registry : Registry) (model name : String) :
    Except QueryError (List Step) := do
  let scope ← registry.findScope model name
  let selects ← scope.select.mapM fun reference ↦ do
    let path ← registry.propertyPath model reference
    return Step.select path.column
  let steps ← registry.planQuery .all model scope.params
  return selects ++ steps

/-- Narrow a query on a model. The conditions of a filter are all read and checked before the first
of them is added. -/
def Modifier.apply (registry : Registry) (model : String) : Modifier → Building Unit
  | .scopes names => Building.take (.mergeScope names)
  | .filter conditions => do
    let plan ← MonadExcept.ofExcept (registry.planConditions model .and (.object conditions))
    Building.replay plan

/-- Apply the narrowing of a relation to a query on the related model; a relation without one
changes nothing. -/
def Relation.narrow (registry : Registry) (r : Relation) : Building Unit :=
  match r.modify with
  | some modifier => modifier.apply registry r.relatedModel
  | none => pure ()

/-! ## Sessions -/

/-- A request to a session. -/
inductive Request where
  /-- The parameters of a query. -/
  | query (model : String) (params : Fields Json) (allowed : AllowedParameters)
  /-- A scope of a model. -/
  | scope (model name : String)
  /-- The narrowing of a relation of a model. -/
  | modifier (model relation : String)
  /-- Conditions on a model. -/
  | filter (model : String) (conditions : Fields Json)
  /-- A condition in the notation of entries. -/
  | entry (kind : WhereKind) (text : String)
  /-- A single step. -/
  | step (single : Step)
  /-- A new specification. -/
  | reset
  deriving Repr

namespace Request

/-- The effect of a request. -/
def apply (registry : Registry) : Request → Building Unit
  | .query model params allowed => do
    let plan ← MonadExcept.ofExcept (registry.planQuery allowed model params)
    Building.replay plan
  | .scope model name => do
    let plan ← MonadExcept.ofExcept (registry.planScope model name)
    Building.replay plan
  | .modifier model relation =>
    match (registry.lookup model).bind (·.relation? relation) with
    | some relation => relation.narrow registry
    | none => pure ()
  | .filter model conditions => (Modifier.filter conditions).apply registry model
  | .entry kind text => do
    let condition ← MonadExcept.ofExcept (Filter.parse text)
    Building.take (.filter kind condition)
  | .step single => Building.take single
  | .reset => set Specification.empty

/-- The specification after a request, and the error if the request failed. -/
def run (registry : Registry) (s : Specification) (request : Request) :
    Specification × Option QueryError :=
  match (request.apply registry).run s with
  | .ok _ s => (s, none)
  | .error e s => (s, some e)

end Request

end ModelCatalog
