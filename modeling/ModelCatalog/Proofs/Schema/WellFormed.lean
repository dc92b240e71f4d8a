import ModelCatalog.Proofs.Schema.Tree
import ModelCatalog.Schema.Conversion
import Mathlib.Tactic.ByContra
import Mathlib.Tactic.SplitIfs

/-!
# Well-formed validation schemas

What a validator may rely on at every place of a validation schema, and that finishing a node keeps
it: wrapping a nullable node makes new places, and reducing a reference drops all that stands next
to it.
-/

namespace ModelCatalog

open Outcome

namespace Schema

/-- The names of types in a validation schema. -/
def validTypeNames : List String :=
  ["string", "number", "integer", "boolean", "object", "array", "null"]

/-- What a validator may rely on at a place of a validation schema. -/
structure WellFormedNode (schema : Json) : Prop where
  required : ∀ value, schema.get? "required" ≠ some (.bool value)
  reference : (schema.get? "$ref").isSome → ∀ key, (schema.get? key).isSome → key = "$ref"
  closed : ∀ key ∈ ["properties", "patternProperties"], ∀ properties,
    schema.get? key = some (.object properties) → (schema.get? "additionalProperties").isSome
  type : ∀ name, schema.get? "type" = some (.string name) → name ∈ validTypeNames

/-- The schemas in the value of a keyword are well-formed everywhere. -/
def WellFormedParts (key : String) (value : Json) : Prop :=
  ∀ part ∈ (Role.of key).schemas value, Everywhere WellFormedNode part

theorem everywhere_object_iff {fields : Fields Json} :
    Everywhere WellFormedNode (.object fields) ↔ WellFormedNode (.object fields) ∧
      ∀ key value, fields.get? key = some value → WellFormedParts key value := by
  refine everywhere_iff.trans (and_congr_right fun _ ↦ ?_)
  constructor
  · exact fun h key value hvalue part hpart ↦ h part ⟨key, value, hvalue, hpart⟩
  · rintro h part ⟨key, value, hvalue, hpart⟩
    exact h key value hvalue part hpart

theorem wellFormedParts_of_plain {key : String} (h : Role.of key = .plain) (value : Json) :
    WellFormedParts key value := by
  simp [WellFormedParts, h, Role.schemas]

theorem everywhere_wellFormed_bool (value : Bool) : Everywhere WellFormedNode (.bool value) := by
  refine everywhere_bool.2 ⟨?_, ?_, ?_, ?_⟩ <;> simp [Json.get?]

theorem everywhere_of_plain {fields : Fields Json}
    (hplain : ∀ key value, fields.get? key = some value → Role.of key = .plain)
    (hrequired : fields.get? "required" = none) (href : fields.get? "$ref" = none)
    (htype : ∀ name, fields.get? "type" = some (.string name) → name ∈ validTypeNames) :
    Everywhere WellFormedNode (.object fields) := by
  refine everywhere_object_iff.2 ⟨⟨by simp [hrequired], by simp [href], ?_,
    htype⟩, fun key value hvalue ↦ wellFormedParts_of_plain (hplain key value hvalue) value⟩
  intro key hkey properties hproperties
  have hrole : Role.of key = .properties := by
    rcases List.mem_pair.1 hkey with rfl | rfl <;> decide
  simp [hplain key _ hproperties] at hrole

/-- A single keyword that holds no schemas makes up a well-formed node if it fits into one. -/
theorem everywhere_single {key : String} {value : Json} (hplain : Role.of key = .plain)
    (hkey : key ∉ ["required", "$ref"])
    (htype : ∀ name, key = "type" → value = .string name → name ∈ validTypeNames) :
    Everywhere WellFormedNode (.object [(key, value)]) := by
  have hget : ∀ other held, Fields.get? [(key, value)] other = some held →
      key = other ∧ value = held := by
    intro other held hheld
    rw [Fields.get?_cons] at hheld
    split at hheld
    · rename_i heq
      exact ⟨heq, Option.some.inj hheld⟩
    · simp at hheld
  simp only [List.mem_cons, List.not_mem_nil, or_false, not_or] at hkey
  refine everywhere_of_plain ?_ ?_ ?_ ?_
  · intro other held hheld
    exact (hget other held hheld).1 ▸ hplain
  · simp [hkey.1]
  · simp [hkey.2]
  · intro name hname
    obtain ⟨hkey, hvalue⟩ := hget _ _ hname
    exact htype name hkey hvalue

theorem everywhere_reference (reference : Json) :
    Everywhere WellFormedNode (.object [("$ref", reference)]) := by
  have hkey : ∀ key value, Fields.get? [("$ref", reference)] key = some value → key = "$ref" := by
    intro key value hvalue
    rw [Fields.get?_cons] at hvalue
    split at hvalue
    · rename_i heq
      exact heq.symm
    · simp at hvalue
  refine everywhere_object_iff.2 ⟨⟨?_, ?_, ?_, ?_⟩, ?_⟩
  · simp
  · intro _ key hsome
    obtain ⟨value, hvalue⟩ := Option.isSome_iff_exists.1 hsome
    exact hkey key value hvalue
  · intro key hmem properties hproperties
    have heq := hkey key _ hproperties
    subst heq
    simp at hmem
  · simp
  · intro key value hvalue
    have heq := hkey key value hvalue
    subst heq
    exact wellFormedParts_of_plain (by decide) value

/-! ## Finishing a node

In each of its forms a finished node is looked up key by key, so that every keyword in it is one of
the settled node or one that finishing has made. -/

theorem get?_optionalField (key : String) (value : Option Json) (other : String) :
    (optionalField key value).get? other = if key = other then value else none := by
  cases value with
  | none => simp
  | some value => simp

private theorem distinct_optionalField (key : String) (value : Option Json) :
    (optionalField key value).Distinct := by
  cases value <;> simp

private theorem keys_optionalField_subset (key : String) (value : Option Json) :
    (optionalField key value).keys ⊆ [key] := by
  cases value <;> simp

theorem distinct_alternatives (notNull : Fields Json) (marker : Json) (validate : Option Json) :
    Fields.Distinct ([("anyOf", .array [.object (ofName "null"), .object notNull]),
      ("nullable", marker)] ++ optionalField "validate" validate) := by
  cases validate <;> simp

theorem get?_alternatives (notNull : Fields Json) (marker : Json) (validate : Option Json)
    (key : String) :
    Fields.get? ([("anyOf", .array [.object (ofName "null"), .object notNull]),
      ("nullable", marker)] ++ optionalField "validate" validate) key =
        if "anyOf" = key then some (.array [.object (ofName "null"), .object notNull])
        else if "nullable" = key then some marker
        else if "validate" = key then validate else none := by
  simp only [List.cons_append, List.nil_append, Fields.get?_cons, get?_optionalField]

/-- A node that offers `null` or a well-formed alternative is well-formed. -/
theorem everywhere_alternatives {notNull : Fields Json}
    (hnotNull : Everywhere WellFormedNode (.object notNull)) (marker : Json)
    (validate : Option Json) :
    Everywhere WellFormedNode (.object ([("anyOf", .array [.object (ofName "null"),
      .object notNull]), ("nullable", marker)] ++ optionalField "validate" validate)) := by
  have hget := get?_alternatives notNull marker validate
  generalize [("anyOf", .array [.object (ofName "null"), .object notNull]), ("nullable", marker)] ++
    optionalField "validate" validate = out at hget ⊢
  have hnull : Everywhere WellFormedNode (.object (ofName "null")) :=
    everywhere_single (by decide) (by decide) fun name _ hname ↦ by
      obtain rfl := Json.string.inj hname
      decide
  refine everywhere_object_iff.2 ⟨⟨?_, ?_, ?_, ?_⟩, fun key value hvalue ↦ ?_⟩
  · simp [hget]
  · simp [hget]
  · simp [hget]
  · simp [hget]
  · rw [hget] at hvalue
    split at hvalue
    · rename_i hkey
      subst hkey
      obtain rfl := Option.some.inj hvalue
      simpa [WellFormedParts, Role.of, compositeKeywords, Role.schemas] using
        ⟨hnull, hnotNull⟩
    · split at hvalue
      · rename_i hkey
        exact wellFormedParts_of_plain (hkey ▸ by decide) value
      · split at hvalue
        · rename_i hkey
          exact wellFormedParts_of_plain (hkey ▸ by decide) value
        · simp at hvalue

theorem get?_nullableTypes (types : List Json) (marker : Json) (validate : Option Json)
    (rest : Fields Json) (key : String) :
    Fields.get? ([("type", .array types), ("nullable", marker)] ++
      optionalField "validate" validate ++ rest) key =
        if "type" = key then some (.array types) else if "nullable" = key then some marker
        else (if "validate" = key then validate else none).or (rest.get? key) := by
  rw [Fields.get?_append]
  simp only [List.cons_append, List.nil_append, Fields.get?_cons, get?_optionalField]
  split_ifs <;> rfl

/-- A list of types next to keywords that constrain no value is well-formed. -/
theorem everywhere_types {rest : Fields Json}
    (hharmless : ∀ key ∈ rest.keys, key ∈ harmlessKeywords) (types : List Json) (marker : Json)
    (validate : Option Json) :
    Everywhere WellFormedNode (.object ([("type", .array types), ("nullable", marker)] ++
      optionalField "validate" validate ++ rest)) := by
  have hget := get?_nullableTypes types marker validate rest
  generalize [("type", .array types), ("nullable", marker)] ++ optionalField "validate" validate ++
    rest = out at hget ⊢
  have hrest_none : ∀ key, key ∉ harmlessKeywords → rest.get? key = none := fun key hkey ↦
    Fields.get?_eq_none_iff.2 fun hmem ↦ hkey (hharmless key hmem)
  have hharmless_plain : ∀ key ∈ harmlessKeywords, Role.of key = .plain := by decide
  refine everywhere_of_plain ?_ ?_ ?_ ?_
  · intro key value hvalue
    rw [hget] at hvalue
    split_ifs at hvalue with htype hnullable hvalidate
    · exact htype ▸ by decide
    · exact hnullable ▸ by decide
    · exact hvalidate ▸ by decide
    · by_contra hplain
      have hnone := hrest_none key fun hmem ↦ hplain (hharmless_plain key hmem)
      simp [hnone] at hvalue
  · simp [hget, hrest_none "required" (by decide)]
  · simp [hget, hrest_none "$ref" (by decide)]
  · simp [hget]

/-- The keywords that a nullable node keeps beside its types. -/
abbrev remaining (fields : Fields Json) : Fields Json :=
  (((fields.remove "nullable").remove "validate").remove "$ref").remove "type"

theorem get?_remaining {fields : Fields Json} (h : fields.Distinct) (key : String) :
    (remaining fields).get? key =
      if key ∈ ["nullable", "validate", "$ref", "type"] then none else fields.get? key := by
  have hnullable := h.remove "nullable"
  have hvalidate := hnullable.remove "validate"
  have href := hvalidate.remove "$ref"
  rw [Fields.get?_remove href, Fields.get?_remove hvalidate, Fields.get?_remove hnullable,
    Fields.get?_remove h]
  simp only [List.mem_cons, List.not_mem_nil, or_false]
  split_ifs <;> simp_all [eq_comm]

theorem distinct_remaining {fields : Fields Json} (h : fields.Distinct) :
    (remaining fields).Distinct :=
  (((h.remove "nullable").remove "validate").remove "$ref").remove "type"

theorem notMem_keys_remaining {fields : Fields Json} (h : fields.Distinct) {key : String}
    (hkey : key ∈ ["nullable", "validate", "$ref", "type"]) : key ∉ (remaining fields).keys := by
  rw [← Fields.get?_eq_none_iff, get?_remaining h, if_pos hkey]

theorem distinct_typeAndRemaining {fields : Fields Json} (h : fields.Distinct) :
    Fields.Distinct (optionalField "type" (fields.get? "type") ++ remaining fields) := by
  refine Fields.distinct_append (distinct_optionalField _ _) (distinct_remaining h) ?_
  intro key hkey
  rw [List.mem_singleton.1 (keys_optionalField_subset _ _ hkey)]
  exact notMem_keys_remaining h (by decide)

theorem distinct_nullableTypes {fields : Fields Json} (h : fields.Distinct) (types : List Json)
    (marker : Json) (validate : Option Json) :
    Fields.Distinct ([("type", .array types), ("nullable", marker)] ++
      optionalField "validate" validate ++ remaining fields) := by
  have hkeys : ∀ key ∈ Fields.keys ([("type", .array types), ("nullable", marker)] ++
      optionalField "validate" validate), key ∈ ["nullable", "validate", "$ref", "type"] := by
    cases validate <;> simp
  refine Fields.distinct_append ?_ (distinct_remaining h) fun key hkey ↦
    notMem_keys_remaining h (hkeys key hkey)
  cases validate <;> simp

theorem get?_typeAndRemaining {fields : Fields Json} (h : fields.Distinct) (key : String) :
    Fields.get? (optionalField "type" (fields.get? "type") ++ remaining fields) key =
      if key ∈ ["nullable", "validate", "$ref"] then none else fields.get? key := by
  rw [Fields.get?_append, get?_optionalField, get?_remaining h]
  by_cases htype : "type" = key
  · subst htype
    simp
  · simp [htype, Ne.symm htype]

/-- Keywords that list properties say what holds of others. -/
def Closed (fields : Fields Json) : Prop :=
  ∀ key ∈ ["properties", "patternProperties"], (fields.get? key).isSome →
    (fields.get? "additionalProperties").isSome

/-- The keywords of a node of which all is settled but whether it is nullable or a reference. -/
structure Settled (fields : Fields Json) : Prop where
  distinct : fields.Distinct
  parts : ∀ key value, fields.get? key = some value → WellFormedParts key value
  required : ∀ value, fields.get? "required" ≠ some (.bool value)
  reference : fields.get? "$ref" = none ∨ fields.get? "type" = none
  closed : Closed fields
  type : ∀ name, fields.get? "type" = some (.string name) → name ∈ validTypeNames

namespace Settled

variable {fields : Fields Json}

/-- What is left of a settled node is well-formed if it is no reference and as closed as before. -/
theorem everywhere_of_subset (h : Settled fields) {kept : Fields Json}
    (hkept : ∀ key value, kept.get? key = some value → fields.get? key = some value)
    (href : kept.get? "$ref" = none)
    (hclosed : kept.get? "additionalProperties" = fields.get? "additionalProperties") :
    Everywhere WellFormedNode (.object kept) := by
  refine everywhere_object_iff.2 ⟨⟨?_, ?_, ?_, ?_⟩, ?_⟩
  · exact fun value hvalue ↦ h.required value (hkept _ _ hvalue)
  · simp [href]
  · intro key hkey properties hproperties
    rw [Json.get?, hclosed]
    exact h.closed key hkey (Option.isSome_of_eq_some (hkept _ _ hproperties))
  · exact fun name hname ↦ h.type name (hkept _ _ hname)
  · exact fun key value hvalue ↦ h.parts key value (hkept _ _ hvalue)

theorem everywhere_notNull (h : Settled fields) :
    Everywhere WellFormedNode
      (.object (optionalField "type" (fields.get? "type") ++ remaining fields)) := by
  have hget := get?_typeAndRemaining h.distinct
  refine h.everywhere_of_subset (fun key value hvalue ↦ ?_) (by simp [hget]) (by simp [hget])
  rw [hget] at hvalue
  split at hvalue
  · simp at hvalue
  · exact hvalue

theorem everywhere_allowNull (h : Settled fields) :
    Everywhere WellFormedNode (allowNull fields) := by
  rw [allowNull]
  split
  · -- a node of the type `null` stays as it is, and it is no reference
    rename_i hnull
    refine h.everywhere_of_subset (fun _ _ hvalue ↦ hvalue) (h.reference.resolve_right ?_) rfl
    intro htype
    simp [htype] at hnull
  · dsimp only
    split
    · -- what constrains values goes into the alternative to `null`
      refine everywhere_alternatives ?_ _ _
      split
      · exact everywhere_reference _
      · exact h.everywhere_notNull
    · -- otherwise `null` joins the types
      rename_i hharmless
      simp only [Bool.or_eq_true, not_or, List.any_eq_true, decide_eq_true_eq, not_exists, not_and,
        not_not] at hharmless
      exact everywhere_types hharmless.2 _ _ _

/-- **Finishing a node.** -/
theorem everywhere_finishNode (h : Settled fields) :
    Everywhere WellFormedNode (finishNode fields) := by
  rw [finishNode]
  split
  · exact h.everywhere_allowNull
  · split
    · exact everywhere_reference _
    · rename_i href
      exact h.everywhere_of_subset (fun _ _ hvalue ↦ hvalue) href rfl

end Settled

end Schema

end ModelCatalog
