import Mathlib.Tactic.ByContra
import ModelCatalog.Model.Catalog
import ModelCatalog.Proofs.Outcome

/-!
# What validation guarantees

Validation accepts a list of definitions exactly when their names are distinct and each definition
is valid on its own, and what it reports is never about a relation that does not resolve or about a
model that is missing.
-/

namespace ModelCatalog

open Outcome

/-- The definition says what the relation joins on: it gives a join, or the keys of both sides. -/
def RelationDefinition.Complete (d : RelationDefinition) : Prop :=
  d.join = none → d.source ≠ none ∧ d.target ≠ none

theorem dot_notMem_of_isIdentifier {name : String} (h : isIdentifier name) :
    '.' ∉ name.toList := by
  intro hdot
  rw [isIdentifier] at h
  split at h
  · rename_i hnil
    simp [hnil] at hdot
  · rename_i c cs hcons
    rw [Bool.and_eq_true, List.all_eq_true] at h
    rw [hcons] at hdot
    rcases List.mem_cons.1 hdot with rfl | hdot
    · exact absurd h.1 (by decide)
    · exact absurd (h.2 _ hdot) (by decide)

namespace ModelDefinition

/-- A definition that is valid on its own. -/
structure Valid (d : ModelDefinition) : Prop where
  identifier : isIdentifier d.name
  idProperties_ne_nil : d.idProperties ≠ []
  id_declared : d.declaresId → ∀ id ∈ d.idProperties, d.properties.contains id
  notMem_properties : ∀ entry ∈ d.relations, ¬d.allProperties.contains entry.1
  complete : ∀ entry ∈ d.relations, entry.2.Complete

private theorem undeclaredId?_eq_none_iff {d : ModelDefinition} :
    d.undeclaredId? = none ↔ (d.declaresId → ∀ id ∈ d.idProperties, d.properties.contains id) := by
  rw [undeclaredId?]
  split
  · rename_i h
    simp [h]
  · rename_i h
    simp [h]

private theorem relationFault?_eq_none_iff {d : ModelDefinition}
    {entry : String × RelationDefinition} :
    d.relationFault? entry = none ↔
      ¬d.allProperties.contains entry.1 ∧ entry.2.Complete := by
  obtain ⟨name, relation⟩ := entry
  unfold relationFault? RelationDefinition.Complete
  by_cases hclash : d.allProperties.contains name
  · simp [hclash]
  · cases hjoin : relation.join with
    | some join => simp [hclash, hjoin]
    | none =>
      cases hsource : relation.source <;> cases htarget : relation.target <;>
        simp [hclash, hjoin, hsource, htarget]

theorem check_eq_ok_iff {d : ModelDefinition} {seen : List String} :
    d.check seen = .ok () ↔ d.name ∉ seen ∧ d.Valid := by
  have hfaults : d.relations.findSome? d.relationFault? = none ↔
      ∀ entry ∈ d.relations, ¬d.allProperties.contains entry.1 ∧ entry.2.Complete := by
    simp only [List.findSome?_eq_none_iff, relationFault?_eq_none_iff]
  constructor
  · -- the checks are passed in their order
    intro h
    have hname : isIdentifier d.name := by
      by_contra hname
      rw [Bool.not_eq_true] at hname
      simp [check, hname] at h
    have hseen : d.name ∉ seen := by
      intro hseen
      simp [check, hname, hseen] at h
    have hids : d.idProperties ≠ [] := by
      intro hids
      simp [check, hname, hseen, hids] at h
    have hundeclared : d.undeclaredId? = none := by
      cases hundeclared : d.undeclaredId? with
      | none => rfl
      | some id => simp [check, hname, hseen, hids, hundeclared] at h
    have hrelations : d.relations.findSome? d.relationFault? = none := by
      cases hrelations : d.relations.findSome? d.relationFault? with
      | none => rfl
      | some fault => simp [check, hname, hseen, hids, hundeclared, hrelations] at h
    rw [hfaults] at hrelations
    exact ⟨hseen, hname, hids, undeclaredId?_eq_none_iff.1 hundeclared,
      fun e he ↦ (hrelations e he).1, fun e he ↦ (hrelations e he).2⟩
  · rintro ⟨hseen, hvalid⟩
    have hundeclared := undeclaredId?_eq_none_iff.2 hvalid.id_declared
    have hrelations := hfaults.2 fun e he ↦ ⟨hvalid.notMem_properties e he, hvalid.complete e he⟩
    simp [check, hvalid.identifier, hseen, hvalid.idProperties_ne_nil, hundeclared, hrelations]

end ModelDefinition

private theorem validateFrom_eq_ok_iff {seen : List String} {ds : List ModelDefinition} :
    validateFrom seen ds = .ok () ↔
      (ds.map (·.name)).Nodup ∧ (∀ d ∈ ds, d.name ∉ seen) ∧ ∀ d ∈ ds, d.Valid := by
  induction ds generalizing seen with
  | nil => simp [validateFrom]
  | cons d ds ih =>
    have hstep : validateFrom seen (d :: ds) = .ok () ↔
        d.check seen = .ok () ∧ validateFrom (d.name :: seen) ds = .ok () := by
      rw [validateFrom, bind_eq_ok_iff]
      exact ⟨fun ⟨(), h⟩ ↦ h, fun h ↦ ⟨(), h⟩⟩
    simp only [hstep, ModelDefinition.check_eq_ok_iff, ih, List.map_cons, List.nodup_cons,
      List.mem_map, not_exists, not_and, List.mem_cons, forall_eq_or_imp, not_or]
    constructor
    · rintro ⟨⟨hseen, hvalid⟩, hnodup, hnotMem, hrest⟩
      exact ⟨⟨fun e he ↦ (hnotMem e he).1, hnodup⟩, ⟨hseen, fun e he ↦ (hnotMem e he).2⟩, hvalid,
        hrest⟩
    · rintro ⟨⟨hne, hnodup⟩, ⟨hseen, hnotMem⟩, hvalid, hrest⟩
      exact ⟨⟨hseen, hvalid⟩, hnodup, fun e he ↦ ⟨hne e he, hnotMem e he⟩, hrest⟩

/-- **Validation.** -/
theorem validate_eq_ok_iff {ds : List ModelDefinition} :
    validate ds = .ok () ↔ (ds.map (·.name)).Nodup ∧ ∀ d ∈ ds, d.Valid := by
  simp [validate, validateFrom_eq_ok_iff]

/-! ## The errors of validation -/

/-- The error is about a definition, whatever other definitions there are besides its name. -/
def CatalogError.OfDefinition : CatalogError → Prop
  | .missingIdProperty _ _ | .duplicateModel _ | .invalid _ => True
  | _ => False

theorem ModelDefinition.check_failsWith (d : ModelDefinition) (seen : List String) :
    FailsWith CatalogError.OfDefinition (d.check seen) := by
  rw [check]
  repeat' split
  all_goals simp [CatalogError.OfDefinition]

theorem validate_failsWith (ds : List ModelDefinition) :
    FailsWith CatalogError.OfDefinition (validate ds) := by
  rw [validate]
  generalize ([] : List String) = seen
  induction ds generalizing seen with
  | nil => exact failsWith_ok ()
  | cons d ds ih => exact (d.check_failsWith seen).bind fun _ _ ↦ ih (d.name :: seen)

end ModelCatalog
