import ModelCatalog.Proofs.Relation.Consistency

/-!
# The arity of keys

A composite key pairs off with another only if both have the same number of parts. A generated join
table is refused for keys of different arity, so the relations that have one join on keys of one
arity, towards both sides. Nothing else asks for it: where a relation needs no join table, or where
the definition gives the keys of its join table, the keys are taken over with the arities they have.
-/

namespace ModelCatalog

open Outcome

def Key.arity (key : Key) : Nat := key.tokens.length

@[simp] theorem Key.arity_ofList (tokens : List String) :
    (ofList tokens).arity = tokens.length := by
  rw [arity, tokens_ofList]

/-- All keys of the relation have the same number of parts. -/
structure Relation.SameArity (r : Relation) : Prop where
  target : r.join.target.arity = r.join.source.arity
  through : ∀ t, r.join.through = some t →
    t.source.arity = r.join.source.arity ∧ t.target.arity = r.join.source.arity

/-- All keys that the definition gives, those of a join table included, have the same number of
parts. -/
structure RelationDefinition.SameArity (d : RelationDefinition) : Prop where
  target : ∀ source target, d.source = some source → d.target = some target →
    target.arity = source.arity
  through : ∀ source throughSource throughTarget model, d.source = some source →
    d.through = some (.explicit (some throughSource) (some throughTarget) model) →
      throughSource.arity = source.arity ∧ throughTarget.arity = source.arity

/-! ## Join tables

On the way through references a key may lose its form, but not its tokens, so it keeps its arity. -/

section

variable {registry : Registry}

theorem Reference.arity_toKey_of_ofKey {allowUnknown : Bool} {key : Key} {r : Reference}
    (h : ofKey registry allowUnknown key = .ok r) : r.toKey.arity = key.arity := by
  rw [Key.arity, Key.arity, tokens_toKey_of_ofKey h]

private theorem Reference.arity_toKey (r : Reference) : r.toKey.arity = r.properties.length := by
  rw [toKey, Key.arity_ofList, tokens, List.length_map]

/-- Keys between which a join table is generated have the arity of its keys. -/
theorem Reference.arity_of_throughTo {source target : Reference} {inverse : Bool} {t : Through}
    (h : source.throughTo target inverse = .ok t) :
    target.toKey.arity = source.toKey.arity ∧ t.source.arity = source.toKey.arity ∧
      t.target.arity = source.toKey.arity := by
  have hlength : source.properties.length = target.properties.length := by
    obtain ⟨join, hjoin, -⟩ := bind_eq_ok_iff.1 h
    rw [GeneratedJoin.between] at hjoin
    split at hjoin
    · rename_i hfit
      exact hfit.1
    · cases hjoin
  obtain ⟨-, hsource, htarget, -⟩ := throughTo_eq_ok h
  simp only [arity_toKey, hsource, htarget, Key.arity_ofList, joinColumns, List.length_map, hlength,
    and_self]

/-- The keys that are given for a join table keep their arity. -/
theorem arity_of_resolveThrough {source target : Key} {given : Option String} {t : Through}
    (h : resolveThrough registry source target given = .ok t) :
    t.source.arity = source.arity ∧ t.target.arity = target.arity := by
  obtain ⟨s, hs, h⟩ := bind_eq_ok_iff.1 h
  obtain ⟨u, hu, h⟩ := bind_eq_ok_iff.1 h
  dsimp only at h
  split at h
  · cases h
  · cases hfound : registry.lookup s.model with
    | some m =>
      rw [hfound] at h
      obtain rfl := pure_eq_ok_iff.1 h
      exact ⟨Reference.arity_toKey_of_ofKey hs, Reference.arity_toKey_of_ofKey hu⟩
    | none =>
      rw [hfound] at h
      obtain rfl := pure_eq_ok_iff.1 h
      exact ⟨rfl, rfl⟩

/-- The keys of a join table have the arity of the keys that it joins, unless they are given with
another. -/
theorem arity_of_throughBetween {kind : RelationKind} {through : Option ThroughDefinition}
    {source target : Reference} {inverse : Bool} {joined : Option Through}
    (h : throughBetween registry kind through source target inverse = .ok joined) :
    (∀ t, joined = some t →
      t.source.arity = source.toKey.arity ∧ t.target.arity = source.toKey.arity) ↔
      ∀ throughSource throughTarget model,
        through = some (.explicit (some throughSource) (some throughTarget) model) →
          throughSource.arity = source.toKey.arity ∧ throughTarget.arity = source.toKey.arity := by
  by_cases hkind : kind.isThrough
  · by_cases hgenerated : through = none ∨ ∃ flag, through = some (.generated flag)
    · rw [throughBetween_of_generated hkind hgenerated] at h
      obtain ⟨t, ht, rfl⟩ := map_eq_ok_iff.1 h
      obtain ⟨-, hjoined⟩ := Reference.arity_of_throughTo ht
      refine iff_of_true (fun t' ht' ↦ Option.some.inj ht' ▸ hjoined) ?_
      rintro _ _ _ rfl
      simp at hgenerated
    · -- the definition gives the keys of the join table, and both of them
      obtain ⟨throughSource, throughTarget, model, rfl⟩ : ∃ throughSource throughTarget model,
          through = some (.explicit (some throughSource) (some throughTarget) model) := by
        unfold throughBetween at h
        rw [if_pos hkind] at h
        split at h
        · simp at hgenerated
        · simp at hgenerated
        · exact ⟨_, _, _, rfl⟩
        · cases h
      obtain ⟨t, rfl, ht⟩ := throughBetween_explicit h
      obtain ⟨hsource, htarget⟩ := arity_of_resolveThrough ht
      simp [hsource, htarget]
  · unfold throughBetween at h
    rw [if_neg hkind] at h
    split at h <;> cases h
    all_goals simp

end

/-! ## Relations -/

section

variable {registry : Registry} {kind : RelationKind} {d : RelationDefinition} {r : Relation}

private theorem sameArity_of_generated (h : relationOfKeys registry kind d = .ok r)
    (hkind : kind.isThrough)
    (hgenerated : d.through = none ∨ ∃ flag, d.through = some (.generated flag)) :
    r.SameArity := by
  obtain ⟨sourceKey, targetKey, source, target, through, -, -, -, -, hthrough, rfl⟩ :=
    relationOfKeys_eq_ok h
  rw [throughBetween_of_generated hkind hgenerated] at hthrough
  obtain ⟨t, ht, rfl⟩ := map_eq_ok_iff.1 hthrough
  obtain ⟨htarget, hjoined⟩ := Reference.arity_of_throughTo ht
  exact ⟨htarget, fun t' ht' ↦ Option.some.inj ht' ▸ hjoined⟩

private theorem sameArity_iff_of_relationOfKeys (h : relationOfKeys registry kind d = .ok r) :
    r.SameArity ↔ d.SameArity := by
  obtain ⟨sourceKey, targetKey, source, target, through, hsourceKey, htargetKey, hsource, htarget,
    hthrough, rfl⟩ := relationOfKeys_eq_ok h
  have hsourceArity := Reference.arity_toKey_of_ofKey hsource
  have htargetArity := Reference.arity_toKey_of_ofKey htarget
  have hjoined := arity_of_throughBetween hthrough
  rw [hsourceArity] at hjoined
  constructor
  · intro hr
    have harity : target.toKey.arity = source.toKey.arity := hr.target
    rw [htargetArity, hsourceArity] at harity
    refine ⟨fun given given' hgiven hgiven' ↦ ?_, fun given source' target' model hgiven ↦ ?_⟩
    · obtain rfl := Option.some.inj (hsourceKey.symm.trans hgiven)
      obtain rfl := Option.some.inj (htargetKey.symm.trans hgiven')
      exact harity
    · obtain rfl := Option.some.inj (hsourceKey.symm.trans hgiven)
      exact hjoined.1 (hsourceArity ▸ hr.through) source' target' model
  · intro hd
    have harity := hd.target _ _ hsourceKey htargetKey
    rw [← htargetArity, ← hsourceArity] at harity
    have hthrough := hjoined.2 fun source' target' model ↦ hd.through _ _ _ model hsourceKey
    rw [← hsourceArity] at hthrough
    exact ⟨harity, hthrough⟩

end

/-- A relation between two keys joins on keys of one arity exactly if its definition gives keys of
one arity, which it has to only where a join table is generated. -/
theorem Registry.sameArity_of_resolveRelation {registry : Registry} {d : RelationDefinition}
    {r : Relation} (h : registry.resolveRelation d = .ok r) (hjoin : d.join = none) :
    (r.SameArity ↔ d.SameArity) ∧
      (r.kind.isThrough → (d.through = none ∨ ∃ flag, d.through = some (.generated flag)) →
        r.SameArity) := by
  unfold resolveRelation at h
  split at h
  · cases h
  · rw [hjoin] at h
    obtain ⟨hkind, -⟩ := isSome_of_relationOfKeys h
    rw [hkind]
    exact ⟨sameArity_iff_of_relationOfKeys h, sameArity_of_generated h⟩

/-- The groups of a user, both of them known by two properties, with a generated join table. -/
def generatedGroupsOfUser : RelationDefinition := { groupsOfUser with through := none }

/-- Those groups as a resolved relation. -/
def generatedUserGroups : Relation :=
  let through : Through := ⟨"UserGroup", .composite ["UserGroup.userRealm", "UserGroup.userName"],
    .composite ["UserGroup.groupRealm", "UserGroup.groupName"], none⟩
  { userGroups with join := { userGroups.join with through := some through } }

theorem Registry.sameArity_of_resolveRelation_generatedGroupsOfUser :
    groupModels.resolveRelation generatedGroupsOfUser = .ok generatedUserGroups ∧
      generatedUserGroups.SameArity := by
  have hresolve : groupModels.resolveRelation generatedGroupsOfUser = .ok generatedUserGroups := by
    rfl
  obtain ⟨-, hgenerated⟩ := sameArity_of_resolveRelation hresolve rfl
  exact ⟨hresolve, hgenerated rfl (.inl rfl)⟩

/-- The shop of an order, known by two properties on the one side and by one on the other. -/
def shopOfOrder : RelationDefinition :=
  ⟨"belongs-to", some (.composite ["Order.shopRealm", "Order.shopCode"]), some (.single "Shop.id"),
    none, false, none, none, none, none, []⟩

/-- That shop as a resolved relation. -/
def orderShop : Relation :=
  ⟨.belongsToOne, "Shop",
    ⟨.composite ["Order.shopRealm", "Order.shopCode"], .single "Shop.id", none⟩, none, []⟩

/-- No join table is generated for a relation that belongs to its target, so nothing compares its
keys. -/
theorem Registry.not_sameArity_shopOfOrder :
    (exact [.named "Order", .named "Shop"]).resolveRelation shopOfOrder = .ok orderShop ∧
      shopOfOrder.join = none ∧ ¬orderShop.SameArity := by
  refine ⟨rfl, rfl, fun h ↦ ?_⟩
  exact absurd h.target (by decide)

end ModelCatalog
