import ModelCatalog.Proofs.Model.Validation

/-!
# What resolving relations yields

The relations of a model are resolved one by one, under their names and in their order. A relation
whose definition says what it joins on never fails for want of a key, so this failure does not occur
behind validation.
-/

namespace ModelCatalog

open Outcome

theorem Registry.resolveRelations_eq_ok_iff {registry : Registry} {model : String}
    {definitions : Fields RelationDefinition} {relations : Fields Relation} :
    registry.resolveRelations model definitions = .ok relations ↔
      List.Forall₂ (fun d r ↦ d.1 = r.1 ∧ registry.resolveRelation d.2 = .ok r.2)
        definitions relations := by
  rw [resolveRelations, mapM_eq_ok_iff]
  constructor
  · refine fun h ↦ h.imp fun d r hdr ↦ ?_
    cases hresolve : registry.resolveRelation d.2 with
    | ok relation => simpa [hresolve, Prod.ext_iff] using hdr
    | error cause => simp [hresolve] at hdr
  · refine fun h ↦ h.imp fun d r hdr ↦ ?_
    simp only [hdr.2, hdr.1]

/-! ## Missing keys

An error may be nested in the relations that led to it, so this one is looked for at the root. As
long as the definition has both keys, every step of resolving raises other errors only. -/

namespace RelationError

/-- The failure itself, without the relations in which it was found. -/
@[simp] def root : RelationError → RelationError
  | .inRelation _ _ cause => cause.root
  | cause => cause

/-- The failure is another than that the key of one side is missing. -/
@[simp] def BeyondKeys (e : RelationError) : Prop :=
  e.root ≠ .missingEndpoint .source ∧ e.root ≠ .missingEndpoint .target

end RelationError

open RelationError

section

variable {registry : Registry} {allowUnknown : Bool} {kind : RelationKind}
  {through : Option ThroughDefinition} {modify : Option Modifier} {key : Key}

private theorem Reference.addToken_failsWith {parsed : Option Reference} {token : String} :
    FailsWith BeyondKeys (addToken registry allowUnknown parsed token) := by
  rw [addToken]
  repeat' split
  all_goals simp

theorem Reference.ofKey_failsWith : FailsWith BeyondKeys (ofKey registry allowUnknown key) := by
  refine FailsWith.bind (.foldlM (fun parsed token _ ↦ addToken_failsWith) none) ?_
  rintro (_ | reference) -
  · simp
  · exact failsWith_pure reference

private theorem Reference.throughTo_failsWith {source target : Reference} {inverse : Bool} :
    FailsWith BeyondKeys (source.throughTo target inverse) := by
  refine FailsWith.bind ?_ fun join _ ↦ failsWith_pure _
  rw [GeneratedJoin.between]
  split
  · exact failsWith_ok _
  · simp

private theorem checkScopes_failsWith {related : String} :
    FailsWith BeyondKeys (checkScopes registry related modify) := by
  rw [checkScopes]
  repeat' split
  all_goals simp

private theorem resolveThrough_failsWith {source target : Key} {model : Option String} :
    FailsWith BeyondKeys (resolveThrough registry source target model) := by
  refine FailsWith.bind Reference.ofKey_failsWith fun sourceReference _ ↦ ?_
  refine FailsWith.bind Reference.ofKey_failsWith fun targetReference _ ↦ ?_
  dsimp only
  split
  · exact FailsWith.bind (by simp) fun _ h ↦ by cases h
  · split <;> exact failsWith_pure _

private theorem throughBetween_failsWith {source target : Reference} {inverse : Bool} :
    FailsWith BeyondKeys (throughBetween registry kind through source target inverse) := by
  unfold throughBetween
  split
  · split
    · exact Reference.throughTo_failsWith.map _
    · exact Reference.throughTo_failsWith.map _
    · exact resolveThrough_failsWith.map _
    · simp
  · split <;> simp

private theorem Key.table_failsWith : FailsWith BeyondKeys key.table := by
  rw [Key.table]
  split <;> simp

private theorem throughOfJoin_failsWith : FailsWith BeyondKeys (throughOfJoin kind through) := by
  unfold throughOfJoin
  split
  · split
    · exact Key.table_failsWith.bind fun _ _ ↦ failsWith_pure _
    · simp
  · split <;> simp

private theorem relatedModelOfJoin_failsWith {join : JoinDefinition} {rest : Fields Json} :
    FailsWith BeyondKeys (relatedModelOfJoin registry join rest) := by
  rw [relatedModelOfJoin]
  split
  · exact failsWith_ok _
  · refine Key.table_failsWith.bind fun table _ ↦ ?_
    split <;> simp

private theorem requireEndpoint_failsWith {endpoint : Endpoint} {key : Option Key}
    (h : key ≠ none) : FailsWith BeyondKeys (requireEndpoint endpoint key) := by
  cases key with
  | none => exact absurd rfl h
  | some key => exact failsWith_ok key

end

/-- A relation that says what it joins on fails for other reasons only. -/
theorem Registry.resolveRelation_failsWith (registry : Registry) {d : RelationDefinition}
    (hd : d.Complete) : FailsWith BeyondKeys (registry.resolveRelation d) := by
  unfold resolveRelation
  split
  · simp
  · split
    · refine throughOfJoin_failsWith.bind fun through _ ↦ ?_
      exact relatedModelOfJoin_failsWith.bind fun related _ ↦ failsWith_pure _
    · -- without a join the definition gives both keys
      rename_i hjoin
      obtain ⟨hsource, htarget⟩ := hd hjoin
      refine (requireEndpoint_failsWith hsource).bind fun sourceKey _ ↦ ?_
      refine (requireEndpoint_failsWith htarget).bind fun targetKey _ ↦ ?_
      refine Reference.ofKey_failsWith.bind fun source _ ↦ ?_
      refine Reference.ofKey_failsWith.bind fun target _ ↦ ?_
      refine checkScopes_failsWith.bind fun _ _ ↦ ?_
      exact throughBetween_failsWith.bind fun through _ ↦ failsWith_pure _

theorem Registry.resolveRelations_failsWith (registry : Registry) (model : String)
    {definitions : Fields RelationDefinition} (hcomplete : ∀ d ∈ definitions, d.2.Complete) :
    FailsWith BeyondKeys (registry.resolveRelations model definitions) := by
  refine FailsWith.mapM fun d hd e he ↦ ?_
  cases hresolve : registry.resolveRelation d.2 with
  | ok relation => simp [hresolve] at he
  | error cause =>
    have heq : e = .inRelation model d.1 cause := by simpa [hresolve] using he.symm
    rw [heq]
    exact registry.resolveRelation_failsWith (hcomplete d hd) cause hresolve

end ModelCatalog
