import ModelCatalog.Proofs.Relation.Consistency

/-!
# The names that resolving looks up

Resolving a relation asks the registry for the names that the definition writes in front of the
points of its keys, and for no others. Of a model that is found it reads the name, the table and the
scopes, and not its relations. So two registries that agree on these names resolve the definition
alike (`Registry.resolveRelation_congr`).

The names at the two ends have to be found. Those in the keys of a join table need not be: where no
model is found by them, the keys are columns of a table without a model.
-/

namespace ModelCatalog

open Outcome

/-! ## Names in definitions -/

def Key.modelNames (key : Key) : List String :=
  key.tokens.filterMap fun token ↦ (cutReference token).map Prod.fst

/-- The name under which a join in terms of tables looks for its related model, unless the model is
named apart. -/
def JoinDefinition.modelName? (join : JoinDefinition) (rest : Fields Json) : Option String :=
  match (rest.get? "modelClass").bind Json.string? with
  | some _ => none
  | none => (join.target.tokens.head?.bind cutReference).map Prod.fst

def ThroughDefinition.modelNames : ThroughDefinition → List String
  | .generated _ => []
  | .explicit source target _ => (source.toList ++ target.toList).flatMap Key.modelNames

namespace RelationDefinition

/-- The names by which a definition refers to the models at its ends. -/
def endNames (d : RelationDefinition) : List String :=
  match d.join with
  | some join => (join.modelName? d.rest).toList
  | none => (d.source.toList ++ d.target.toList).flatMap Key.modelNames

/-- The names by which a definition refers to the model of its join table. -/
def throughNames (d : RelationDefinition) : List String :=
  match d.join with
  | some _ => []
  | none => d.through.toList.flatMap ThroughDefinition.modelNames

end RelationDefinition

theorem Reference.model_mem_modelNames {registry : Registry} {allowUnknown : Bool} {key : Key}
    {r : Reference} (h : ofKey registry allowUnknown key = .ok r) : r.model ∈ key.modelNames := by
  have hon := on_of_ofKey h
  obtain ⟨token, htoken⟩ := List.exists_mem_of_ne_nil _ hon.nonempty
  obtain ⟨property, hcut, -⟩ := hon.cut token htoken
  exact List.mem_filterMap.2 ⟨token, htoken, by rw [hcut]; rfl⟩

theorem Key.mem_modelNames_iff {key : Key} {name : String} :
    name ∈ key.modelNames ↔ key.Names name := by
  simp [modelNames, Names, List.mem_filterMap, Option.map_eq_some_iff]

/-! ## Registries that agree -/

/-- The model without its relations, which is all that resolving a relation reads of it. -/
def Model.bare (m : Model) : Model := { m with relations := [] }

namespace Registry

/-- Both registries find the same model by the name, its relations aside, or both find none. -/
def AgreeOn (r r' : Registry) (name : String) : Prop :=
  (r.lookup name).map Model.bare = (r'.lookup name).map Model.bare

variable {r r' : Registry} {name : String}

theorem AgreeOn.of_lookup_eq (h : r.lookup name = r'.lookup name) : r.AgreeOn r' name :=
  congrArg (Option.map Model.bare) h

theorem AgreeOn.contains_eq (h : r.AgreeOn r' name) : r.contains name = r'.contains name := by
  simpa only [contains, Option.isSome_map] using congrArg Option.isSome h

theorem AgreeOn.lookup (h : r.AgreeOn r' name) :
    (r.lookup name = none ∧ r'.lookup name = none) ∨
      ∃ m m', r.lookup name = some m ∧ r'.lookup name = some m' ∧ m.name = m'.name ∧
        m.tableName = m'.tableName ∧ m.scopes = m'.scopes := by
  rw [AgreeOn] at h
  cases hm : r.lookup name with
  | none =>
    rw [hm, Option.map_none, eq_comm, Option.map_eq_none_iff] at h
    exact .inl ⟨rfl, h⟩
  | some m =>
    rw [hm, Option.map_some, eq_comm, Option.map_eq_some_iff] at h
    obtain ⟨m', hm', hbare⟩ := h
    exact .inr ⟨m, m', rfl, hm', (congrArg Model.name hbare).symm,
      (congrArg Model.tableName hbare).symm, (congrArg Model.scopes hbare).symm⟩

/-! ## Resolving alike

The way of a definition through resolving, step by step. Each step looks up names of the definition
only, so it has the same outcome in both registries, errors included. -/

private theorem addToken_congr {token : String} (h : ∀ name ∈ (Key.single token).modelNames,
    r.AgreeOn r' name) (allowUnknown : Bool) (parsed : Option Reference) :
    Reference.addToken r allowUnknown parsed token =
      Reference.addToken r' allowUnknown parsed token := by
  rw [Reference.addToken, Reference.addToken]
  cases hcut : Reference.cutToken? token with
  | none => rfl
  | some cut =>
    obtain ⟨model, property⟩ := cut
    have hmodel : model ∈ (Key.single token).modelNames := by
      simp [Key.modelNames, Key.tokens, (Reference.cutReference_of_cutToken? hcut).1]
    simp only [(h model hmodel).contains_eq]

theorem ofKey_congr {key : Key} (h : ∀ name ∈ key.modelNames, r.AgreeOn r' name)
    (allowUnknown : Bool) :
    Reference.ofKey r allowUnknown key = Reference.ofKey r' allowUnknown key := by
  have hfold : ∀ (tokens : List String) (parsed : Option Reference),
      (∀ token ∈ tokens, ∀ name ∈ (Key.single token).modelNames, r.AgreeOn r' name) →
      tokens.foldlM (Reference.addToken r allowUnknown) parsed =
        tokens.foldlM (Reference.addToken r' allowUnknown) parsed := by
    intro tokens
    induction tokens with
    | nil => exact fun _ _ ↦ rfl
    | cons token tokens ih =>
      intro parsed hnames
      rw [List.foldlM_cons, List.foldlM_cons, addToken_congr (hnames token (by simp))]
      exact bind_congr fun next ↦ ih next fun other hother ↦
        hnames other (List.mem_cons_of_mem _ hother)
  rw [Reference.ofKey, Reference.ofKey, hfold key.tokens none]
  intro token htoken name hname
  obtain ⟨_, hsingle, property, hcut⟩ := Key.mem_modelNames_iff.1 hname
  obtain rfl := List.mem_singleton.1 hsingle
  exact h name (Key.mem_modelNames_iff.2 ⟨_, htoken, property, hcut⟩)

private theorem checkScopes_congr (h : r.AgreeOn r' name) (modify : Option Modifier) :
    checkScopes r name modify = checkScopes r' name modify := by
  rw [checkScopes, checkScopes]
  obtain ⟨hm, hm'⟩ | ⟨m, m', hm, hm', hname, -, hscopes⟩ := h.lookup
  · rw [hm, hm']
  · have hmissing : m.missingScope? modify = m'.missingScope? modify := by
      simp only [Model.missingScope?.eq_def, Model.scope?, hscopes]
    rw [hm, hm']
    simp only [hmissing, hname]

private theorem resolveThrough_congr {source target : Key}
    (hsource : ∀ name ∈ source.modelNames, r.AgreeOn r' name)
    (htarget : ∀ name ∈ target.modelNames, r.AgreeOn r' name) (given : Option String) :
    resolveThrough r source target given = resolveThrough r' source target given := by
  rw [resolveThrough, resolveThrough, ofKey_congr hsource,
    ofKey_congr htarget]
  refine bind_congr_of_ok fun s hs ↦ bind_congr_of_ok fun u _ ↦ ?_
  obtain ⟨hm, hm'⟩ | ⟨m, m', hm, hm', hname, htable, -⟩ :=
    (hsource _ (Reference.model_mem_modelNames hs)).lookup
  · simp only [hm, hm']
  · simp only [hm, hm', hname, htable]

private theorem throughBetween_congr {through : Option ThroughDefinition}
    (h : ∀ name ∈ through.toList.flatMap ThroughDefinition.modelNames, r.AgreeOn r' name)
    (kind : RelationKind) (source target : Reference) (inverse : Bool) :
    throughBetween r kind through source target inverse =
      throughBetween r' kind through source target inverse := by
  unfold throughBetween
  split
  · split
    · rfl
    · rfl
    · rename_i throughSource throughTarget given
      have hnames : ∀ name, name ∈ throughSource.modelNames ∨ name ∈ throughTarget.modelNames →
          r.AgreeOn r' name := fun name hname ↦ h name (by
        simpa [ThroughDefinition.modelNames] using hname)
      rw [resolveThrough_congr (fun name hname ↦ hnames name (.inl hname))
        fun name hname ↦ hnames name (.inr hname)]
    · rfl
  · rfl

private theorem relationOfKeys_congr {d : RelationDefinition} (hjoin : d.join = none)
    (hends : ∀ name ∈ d.endNames, r.AgreeOn r' name)
    (hthrough : ∀ name ∈ d.throughNames, r.AgreeOn r' name) (kind : RelationKind) :
    relationOfKeys r kind d = relationOfKeys r' kind d := by
  have hend : ∀ key, d.source = some key ∨ d.target = some key → ∀ name ∈ key.modelNames,
      r.AgreeOn r' name := by
    intro key hkey name hname
    refine hends name ?_
    simp only [RelationDefinition.endNames, hjoin, List.mem_flatMap, List.mem_append,
      Option.mem_toList]
    exact ⟨key, hkey, hname⟩
  simp only [RelationDefinition.throughNames, hjoin] at hthrough
  rw [relationOfKeys, relationOfKeys]
  refine bind_congr_of_ok fun sourceKey hsourceKey ↦ bind_congr_of_ok fun targetKey htargetKey ↦ ?_
  rw [ofKey_congr (hend _ (.inl (requireEndpoint_eq_ok_iff.1 hsourceKey))),
    ofKey_congr (hend _ (.inr (requireEndpoint_eq_ok_iff.1 htargetKey)))]
  refine bind_congr_of_ok fun source _ ↦ bind_congr_of_ok fun target htarget ↦ ?_
  rw [throughBetween_congr hthrough, checkScopes_congr]
  exact hend _ (.inr (requireEndpoint_eq_ok_iff.1 htargetKey)) _
    (Reference.model_mem_modelNames htarget)

private theorem relationOfJoin_congr {join : JoinDefinition} {rest : Fields Json}
    (h : ∀ name ∈ join.modelName? rest, r.AgreeOn r' name) (kind : RelationKind)
    (modify : Option Modifier) :
    relationOfJoin r kind join modify rest = relationOfJoin r' kind join modify rest := by
  have hrelated : relatedModelOfJoin r join rest = relatedModelOfJoin r' join rest := by
    unfold relatedModelOfJoin
    split
    · rfl
    · rename_i hclass
      refine bind_congr_of_ok fun table htable ↦ ?_
      have hname : join.modelName? rest = some table := by
        rw [Key.table] at htable
        rw [JoinDefinition.modelName?, hclass]
        split at htable
        · rename_i hcut
          obtain rfl := Except.ok.inj htable
          simp only [hcut, Option.map_some]
        · cases htable
      obtain ⟨hm, hm'⟩ | ⟨m, m', hm, hm', hname, -⟩ := (h table hname).lookup
      · simp only [hm, hm']
      · simp only [hm, hm', hname]
  rw [relationOfJoin, relationOfJoin, hrelated]

/-- Registries that agree on the names that a definition writes resolve it alike. -/
theorem resolveRelation_congr {d : RelationDefinition}
    (hends : ∀ name ∈ d.endNames, r.AgreeOn r' name)
    (hthrough : ∀ name ∈ d.throughNames, r.AgreeOn r' name) :
    r.resolveRelation d = r'.resolveRelation d := by
  unfold resolveRelation
  split
  · rfl
  · cases hjoin : d.join with
    | none => exact relationOfKeys_congr hjoin hends hthrough _
    | some join =>
      refine relationOfJoin_congr (fun name hname ↦ hends name ?_) _ _
      simpa [RelationDefinition.endNames, hjoin] using hname

/-! ## Names that have to be found -/

/-- The model of each end of a resolved relation is found. -/
theorem contains_of_resolveRelation {d : RelationDefinition} {relation : Relation}
    (h : r.resolveRelation d = .ok relation) (hname : name ∈ d.endNames) : r.contains name := by
  unfold resolveRelation at h
  split at h
  · cases h
  cases hjoin : d.join with
  | none =>
    rw [hjoin] at h
    obtain ⟨sourceKey, targetKey, source, target, through, hsourceKey, htargetKey, hsource,
      htarget, -, -⟩ := relationOfKeys_eq_ok h
    simp only [RelationDefinition.endNames, hjoin, hsourceKey, htargetKey, List.mem_flatMap,
      Option.toList_some, List.singleton_append, List.mem_cons, List.not_mem_nil, or_false,
      exists_eq_or_imp, exists_eq_left, Key.mem_modelNames_iff] at hname
    rcases hname with hname | hname
    · rw [(Reference.on_of_ofKey hsource).eq_of_names hname]
      exact Reference.contains_of_ofKey hsource
    · rw [(Reference.on_of_ofKey htarget).eq_of_names hname]
      exact Reference.contains_of_ofKey htarget
  | some join =>
    rw [hjoin] at h
    obtain ⟨through, -, h⟩ := bind_eq_ok_iff.1 h
    obtain ⟨related, hrelated, -⟩ := bind_eq_ok_iff.1 h
    simp only [RelationDefinition.endNames, hjoin, Option.mem_toList,
      JoinDefinition.modelName?] at hname
    rw [relatedModelOfJoin] at hrelated
    split at hname
    · simp at hname
    · rename_i hclass
      rw [hclass] at hrelated
      obtain ⟨table, htable, hrelated⟩ := bind_eq_ok_iff.1 hrelated
      obtain ⟨⟨table', property⟩, hcut, rfl⟩ := Option.map_eq_some_iff.1 hname
      rw [Key.table, hcut] at htable
      obtain rfl := Except.ok.inj htable
      cases hm : r.lookup table' with
      | none => simp [hm] at hrelated
      | some m => rw [Registry.contains, hm, Option.isSome_some]

/-! ## Names that decide

For every name without a point there is a definition that can be resolved exactly if the name is
found. So registries that find different names of this kind do not resolve all definitions alike. -/

/-- A relation to the model that is called by a name, as a join in terms of tables. -/
def relationTo (name : String) : RelationDefinition :=
  let join : JoinDefinition := ⟨.composite [], .single (name ++ ".id"), none⟩
  ⟨"belongs-to", none, none, none, false, none, none, none, some join, []⟩

theorem resolveRelation_relationTo (hdot : '.' ∉ name.toList) :
    (∃ relation, r.resolveRelation (relationTo name) = .ok relation) ↔ r.contains name := by
  have hcut : cutReference (name ++ ".id") = some (name, "id") :=
    cutReference_eq_some_iff.2 ⟨by rw [String.append_assoc]; rfl, hdot⟩
  have htable : (Key.single (name ++ ".id")).table = .ok name := by
    rw [Key.table, Key.tokens, List.head?_cons, Option.bind_some, hcut]
  have hkind : RelationKind.ofName? "belongs-to" = some .belongsToOne := by decide +kernel
  unfold resolveRelation contains
  simp only [relationTo, hkind, relationOfJoin, throughOfJoin, RelationKind.isThrough,
    relatedModelOfJoin, Fields.get?_nil, Option.bind_none, htable, ok_bind, Bool.false_eq_true,
    if_false]
  cases r.lookup name with
  | none => simp
  | some m => simp

end Registry

end ModelCatalog
