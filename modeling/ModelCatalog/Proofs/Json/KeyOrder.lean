import ModelCatalog.Json.Basic
import Mathlib.Data.List.Perm.Basic

/-!
# The order of keys in documents

Two documents that differ only in the order of object keys, at any depth. What is under a key, and
what kind of value a document is, is the same in both.
-/

namespace ModelCatalog

variable {α β : Type}

/-! ## Related options

What is under a key may be missing in both maps, but in neither alone, so look-ups are compared by
`Option.Rel`. -/

theorem eq_none_or_of_rel {R : α → β → Prop} {x : Option α} {y : Option β}
    (h : Option.Rel R x y) :
    (x = none ∧ y = none) ∨ ∃ a b, x = some a ∧ y = some b ∧ R a b := by
  cases h with
  | some hab => exact .inr ⟨_, _, rfl, rfl, hab⟩
  | none => exact .inl ⟨rfl, rfl⟩

theorem exists_left_of_rel {R : α → β → Prop} {x : Option α} {b : β}
    (h : Option.Rel R x (some b)) : ∃ a, x = some a ∧ R a b := by
  cases h with
  | some hab => exact ⟨_, rfl, hab⟩

theorem exists_right_of_rel {R : α → β → Prop} {a : α} {y : Option β}
    (h : Option.Rel R (some a) y) : ∃ b, y = some b ∧ R a b := by
  cases h with
  | some hab => exact ⟨_, rfl, hab⟩

theorem rel_imp {R S : α → β → Prop} {x : Option α} {y : Option β} (h : Option.Rel R x y)
    (hRS : ∀ a b, R a b → S a b) : Option.Rel S x y := by
  cases h with
  | some hab => exact .some (hRS _ _ hab)
  | none => exact .none

theorem isSome_eq_of_rel {R : α → β → Prop} {x : Option α} {y : Option β} (h : Option.Rel R x y) :
    x.isSome = y.isSome := by
  cases h <;> rfl

theorem any_eq_of_rel {R : α → β → Prop} {x : Option α} {y : Option β}
    (h : Option.Rel R x y) {p : α → Bool} {q : β → Bool} (hpq : ∀ a b, R a b → p a = q b) :
    x.any p = y.any q := by
  cases h with
  | some hab => exact hpq _ _ hab
  | none => rfl

namespace Fields

variable {fs : Fields α} {gs : Fields β}

theorem rel_get?_of_perm (hkeys : fs.keys.Perm gs.keys) {key : String} {R : α → β → Prop}
    (hvalues : ∀ v w, fs.get? key = some v → gs.get? key = some w → R v w) :
    Option.Rel R (fs.get? key) (gs.get? key) := by
  have hnone : fs.get? key = none ↔ gs.get? key = none := by
    rw [get?_eq_none_iff, get?_eq_none_iff, hkeys.mem_iff]
  cases hv : fs.get? key with
  | none =>
    rw [hnone.1 hv]
    exact .none
  | some v =>
    obtain ⟨w, hw⟩ : ∃ w, gs.get? key = some w :=
      Option.ne_none_iff_exists'.1 fun hw ↦ by simp [hnone.2 hw] at hv
    rw [hw]
    exact .some (hvalues v w hv hw)

/-- Maps with the same keys in the same order, whose values are related. -/
theorem rel_get?_of_forall₂ {R : String → α → β → Prop}
    (h : List.Forall₂ (fun e e' ↦ e.1 = e'.1 ∧ R e.1 e.2 e'.2) fs gs) (key : String) :
    Option.Rel (R key) (fs.get? key) (gs.get? key) := by
  induction h with
  | nil => exact .none
  | @cons e e' _ _ hentry _ ih =>
    rw [get?_cons, get?_cons, ← hentry.1]
    split
    · rename_i hkey
      exact .some (hkey ▸ hentry.2)
    · exact ih

theorem keys_eq_of_forall₂ {R : String → α → β → Prop}
    (h : List.Forall₂ (fun e e' ↦ e.1 = e'.1 ∧ R e.1 e.2 e'.2) fs gs) : fs.keys = gs.keys := by
  induction h with
  | nil => rfl
  | cons hentry _ ih => exact congrArg₂ List.cons hentry.1 ih

theorem keys_perm_of_rel (hfs : fs.Distinct) (hgs : gs.Distinct) {R : String → α → β → Prop}
    (h : ∀ key, Option.Rel (R key) (fs.get? key) (gs.get? key)) : fs.keys.Perm gs.keys := by
  refine (List.perm_ext_iff_of_nodup hfs hgs).2 fun key ↦ ?_
  rw [← contains_iff_mem_keys, ← contains_iff_mem_keys, contains, contains,
    isSome_eq_of_rel (h key)]

end Fields

namespace Json

/-- Two values differ only in the order of object keys, at any depth. -/
inductive Reordered : Json → Json → Prop where
  | null : Reordered .null .null
  | bool (value : Bool) : Reordered (.bool value) (.bool value)
  | number (value : Number) : Reordered (.number value) (.number value)
  | string (value : String) : Reordered (.string value) (.string value)
  | array {xs ys : List Json} (h : List.Forall₂ Reordered xs ys) : Reordered (.array xs) (.array ys)
  | object {fs gs : List (String × Json)} (hkeys : (Fields.keys fs).Perm (Fields.keys gs))
      (hvalues : ∀ key v w, Fields.get? fs key = some v → Fields.get? gs key = some w →
        Reordered v w) : Reordered (.object fs) (.object gs)

namespace Reordered

variable {v w : Json}

theorem get? (h : v.Reordered w) (key : String) :
    Option.Rel Reordered (v.get? key) (w.get? key) := by
  cases h with
  | object hkeys hvalues => exact Fields.rel_get?_of_perm hkeys (hvalues key)
  | _ => exact .none

theorem rel_get? {fs gs : Fields Json} (h : Reordered (.object fs) (.object gs)) (key : String) :
    Option.Rel Reordered (fs.get? key) (gs.get? key) := h.get? key

theorem string?_eq (h : v.Reordered w) : v.string? = w.string? := by
  cases h <;> rfl

theorem isString_eq (h : v.Reordered w) (s : String) : v.isString s = w.isString s := by
  rw [isString, isString, h.string?_eq]

theorem isTrue_eq (h : v.Reordered w) : v.isTrue = w.isTrue := by
  cases h <;> rfl

theorem isObject_eq (h : v.Reordered w) : v.isObject = w.isObject := by
  cases h <;> rfl

theorem isArray_eq (h : v.Reordered w) : v.isArray = w.isArray := by
  cases h <;> rfl

theorem any_isString_eq {vs ws : List Json} (h : List.Forall₂ Reordered vs ws) (s : String) :
    vs.any (·.isString s) = ws.any (·.isString s) := by
  induction h with
  | nil => rfl
  | cons hvw _ ih => rw [List.any_cons, List.any_cons, hvw.isString_eq, ih]

theorem of_forall₂ {fs gs : Fields Json}
    (h : List.Forall₂ (fun e e' ↦ e.1 = e'.1 ∧ Reordered e.2 e'.2) fs gs) :
    Reordered (.object fs) (.object gs) := by
  refine .object (.of_eq (Fields.keys_eq_of_forall₂ (R := fun _ ↦ Reordered) h)) ?_
  intro key v w hv hw
  have hrel := Fields.rel_get?_of_forall₂ (R := fun _ ↦ Reordered) h key
  rw [hv, hw] at hrel
  exact Option.rel_some_some.1 hrel

/-- The entries of two values, where a value that is no object has none. -/
theorem getD_object? (h : v.Reordered w) :
    Reordered (.object (v.object?.getD [])) (.object (w.object?.getD [])) := by
  cases h with
  | object hkeys hvalues => exact .object hkeys hvalues
  | _ => exact .of_forall₂ .nil

end Reordered

end Json

end ModelCatalog
