import ModelCatalog.Proofs.Relation.Consistency

/-!
# The scopes that narrow a relation

A relation may be narrowed by scopes of its related model. Where the relation is described by two
keys its scopes are looked for, and the relation is refused if the related model does not have one
of them. A relation that is given as a join in terms of tables is accepted with any narrowing.

The narrowing plays no other part, so both say what is accepted by comparison with the definition
that leaves it out.
-/

namespace ModelCatalog

open Outcome

/-- The related model, where it is found, has the scopes that narrow the relation. -/
def Relation.ScopesDeclared (registry : Registry) (r : Relation) : Prop :=
  ∀ m, registry.lookup r.relatedModel = some m →
    ∀ names, r.modify = some (.scopes names) → ∀ name ∈ names, (m.scope? name).isSome

def RelationDefinition.unnarrowed (d : RelationDefinition) : RelationDefinition :=
  { d with scope := none, modify := none, filter := none }

@[simp] theorem RelationDefinition.relation_unnarrowed (d : RelationDefinition) :
    d.unnarrowed.relation = d.relation := rfl

@[simp] theorem RelationDefinition.join_unnarrowed (d : RelationDefinition) :
    d.unnarrowed.join = d.join := rfl

private theorem Model.missingScope?_eq_none_iff {m : Model} {modify : Option Modifier} :
    m.missingScope? modify = none ↔
      ∀ names, modify = some (.scopes names) → ∀ name ∈ names, (m.scope? name).isSome := by
  unfold missingScope?
  split
  · simp [Option.isSome_iff_ne_none]
  · simp_all

private theorem checkScopes_eq_ok_iff {registry : Registry} {related : String}
    {modify : Option Modifier} : checkScopes registry related modify = .ok () ↔
      ∀ m, registry.lookup related = some m → m.missingScope? modify = none := by
  rw [checkScopes]
  split
  · rename_i m hm
    cases hmissing : m.missingScope? modify <;> simp [hm, hmissing]
  · simp_all

section

variable {registry : Registry} {kind : RelationKind} {d : RelationDefinition} {r : Relation}

private theorem relationOfJoin_eq_ok_iff {join : JoinDefinition} {modify : Option Modifier}
    {rest : Fields Json} : relationOfJoin registry kind join modify rest = .ok r ↔
      ∃ bare, relationOfJoin registry kind join none rest = .ok bare ∧
        r = { bare with modify := modify } := by
  simp only [relationOfJoin, bind_eq_ok_iff, pure_eq_ok_iff]
  constructor
  · rintro ⟨through, hthrough, related, hrelated, rfl⟩
    exact ⟨_, ⟨through, hthrough, related, hrelated, rfl⟩, rfl⟩
  · rintro ⟨_, ⟨through, hthrough, related, hrelated, rfl⟩, rfl⟩
    exact ⟨through, hthrough, related, hrelated, rfl⟩

private theorem relationOfKeys_eq_ok_iff : relationOfKeys registry kind d = .ok r ↔
    ∃ bare, relationOfKeys registry kind d.unnarrowed = .ok bare ∧
      r = { bare with modify := d.modifier } ∧ r.ScopesDeclared registry := by
  simp only [relationOfKeys, bind_eq_ok_iff, pure_eq_ok_iff]
  constructor
  · rintro ⟨sourceKey, hsourceKey, targetKey, htargetKey, source, hsource, target, htarget, ⟨⟩,
      hscopes, through, hthrough, rfl⟩
    exact ⟨_, ⟨sourceKey, hsourceKey, targetKey, htargetKey, source, hsource, target, htarget, (),
      checkScopes_eq_ok_iff.2 fun _ _ ↦ rfl, through, hthrough, rfl⟩, rfl,
      fun m hm ↦ Model.missingScope?_eq_none_iff.1 (checkScopes_eq_ok_iff.1 hscopes m hm)⟩
  · rintro ⟨_, ⟨sourceKey, hsourceKey, targetKey, htargetKey, source, hsource, target, htarget, ⟨⟩,
      -, through, hthrough, rfl⟩, rfl, hscopes⟩
    exact ⟨sourceKey, hsourceKey, targetKey, htargetKey, source, hsource, target, htarget, (),
      checkScopes_eq_ok_iff.2 fun m hm ↦ Model.missingScope?_eq_none_iff.2 (hscopes m hm), through,
      hthrough, rfl⟩

end

/-- A definition is accepted exactly if it is without its narrowing and, unless it gives a join, the
related model has the scopes that narrow it. -/
theorem Registry.resolveRelation_eq_ok_iff_unnarrowed {registry : Registry} {d : RelationDefinition}
    {r : Relation} : registry.resolveRelation d = .ok r ↔
      ∃ bare, registry.resolveRelation d.unnarrowed = .ok bare ∧
        r = { bare with modify := d.modifier } ∧ (d.join = none → r.ScopesDeclared registry) := by
  unfold resolveRelation
  simp only [RelationDefinition.relation_unnarrowed, RelationDefinition.join_unnarrowed]
  cases RelationKind.ofName? d.relation with
  | none => simp
  | some kind =>
    cases d.join with
    | some join =>
      simp only [reduceCtorEq, false_implies, and_true]
      exact relationOfJoin_eq_ok_iff
    | none =>
      simp only [forall_const]
      exact relationOfKeys_eq_ok_iff

/-- The recent posts of a user, given as a join in terms of tables. -/
def recentPosts : RelationDefinition :=
  ⟨"has-many", none, none, none, false, none, some (.scope "recent"), none,
    some ⟨.single "User.id", .single "Post.userId", none⟩, []⟩

/-- Those posts as a resolved relation. -/
def userRecentPosts : Relation :=
  ⟨.hasMany, "Post", ⟨.single "User.id", .single "Post.userId", none⟩, some (.scopes ["recent"]),
    []⟩

/-- A relation that is given as a join may be narrowed by a scope that its model does not have. -/
theorem Registry.not_scopesDeclared_recentPosts :
    (exact [.named "User", .named "Post"]).resolveRelation recentPosts = .ok userRecentPosts ∧
      ¬userRecentPosts.ScopesDeclared (exact [.named "User", .named "Post"]) := by
  refine ⟨rfl, fun h ↦ ?_⟩
  have hscope := h (.named "Post") rfl ["recent"] rfl "recent" (by simp)
  simp [Model.named, Model.scope?] at hscope

end ModelCatalog
