import ModelCatalog.Proofs.Schema.Edits
import ModelCatalog.Proofs.Schema.WellFormed

/-!
# Settling the markers of a node

Once the type of a node is resolved, its keywords fit into a well-formed node one by one
(`Converted`). Adding a format and settling `required` and `default` keep this, and leave no truth
value for the required names. Which names those are is read off the nodes that the properties stand
for.
-/

namespace ModelCatalog

open Outcome

namespace Schema

/-- The value of a keyword fits into a well-formed node. -/
structure Fit (key : String) (value : Json) : Prop where
  parts : WellFormedParts key value
  list : key = "allOf" → value.isArray
  type : key = "type" → ∀ name, value = .string name → name ∈ validTypeNames

theorem fit_of_plain {key : String} (hplain : Role.of key = .plain) (htype : key ≠ "type")
    (value : Json) : Fit key value := by
  refine ⟨wellFormedParts_of_plain hplain value, ?_, fun heq ↦ absurd heq htype⟩
  rintro rfl
  simp [Role.of, compositeKeywords] at hplain

/-! ## Converted keywords -/

/-- The keywords of a node whose type is resolved. -/
structure Converted (fields : Fields Json) : Prop where
  distinct : fields.Distinct
  fit : ∀ key value, fields.get? key = some value → Fit key value
  reference : fields.get? "$ref" = none ∨ fields.get? "type" = none
  closed : Closed fields

namespace Converted

variable {fields : Fields Json}

theorem remove (h : Converted fields) {key : String} (hkey : key ≠ "additionalProperties") :
    Converted (fields.remove key) := by
  have hget := Fields.get?_remove h.distinct key
  refine ⟨h.distinct.remove key, fun other value hvalue ↦ ?_, ?_, fun other hother hsome ↦ ?_⟩
  · rw [hget] at hvalue
    split at hvalue
    · simp at hvalue
    · exact h.fit other value hvalue
  · refine h.reference.imp (fun href ↦ ?_) fun htype ↦ ?_
    · simp [hget, href]
    · simp [hget, htype]
  · rw [hget] at hsome
    rw [hget, if_neg hkey]
    split at hsome
    · simp at hsome
    · exact h.closed other hother hsome

theorem insert_of_reference (h : Converted fields) {key : String} {value : Json}
    (hkey : key ∉ ["properties", "patternProperties"]) (hfit : Fit key value)
    (href : (fields.insert key value).get? "$ref" = none ∨
      (fields.insert key value).get? "type" = none) : Converted (fields.insert key value) := by
  have hget := Fields.get?_insert fields key value
  refine ⟨h.distinct.insert key value, fun other held hheld ↦ ?_, href, fun other hother hsome ↦ ?_⟩
  · rw [hget] at hheld
    split at hheld
    · rename_i heq
      subst heq
      exact Option.some.inj hheld ▸ hfit
    · exact h.fit other held hheld
  · have hne : key ≠ other := fun heq ↦ hkey (heq ▸ hother)
    rw [hget, if_neg hne] at hsome
    rw [hget]
    split
    · rfl
    · exact h.closed other hother hsome

theorem insert (h : Converted fields) {key : String} {value : Json}
    (hkey : key ∉ ["properties", "patternProperties"]) (href : key ∉ ["$ref", "type"])
    (hfit : Fit key value) : Converted (fields.insert key value) := by
  have hne : ∀ other ∈ ["$ref", "type"], other ≠ key := fun other hother heq ↦ href (heq ▸ hother)
  refine h.insert_of_reference hkey hfit ?_
  rw [Fields.get?_insert_of_ne _ (hne _ (by simp)), Fields.get?_insert_of_ne _ (hne _ (by simp))]
  exact h.reference

theorem replaceLast (h : Converted fields) {key : String} {value : Json}
    (hkey : key ∉ ["properties", "patternProperties"]) (href : key ∉ ["$ref", "type"])
    (hclosed : key ≠ "additionalProperties") (hfit : Fit key value) :
    Converted (replaceLast fields key value) :=
  (h.remove hclosed).insert hkey href hfit

/-! ### Formats -/

theorem everywhere_ofFormat (format : Json) : Everywhere WellFormedNode (ofFormat format) :=
  everywhere_single (by decide) (by decide) fun _ hkey _ ↦ by simp at hkey

/-- Well-formed schemas may be appended to the `allOf`, and a format too. -/
theorem addToAllOf (h : Converted fields) (format : String) {entries : List Json}
    (hentries : ∀ entry ∈ entries, Everywhere WellFormedNode entry) :
    Converted (withFormat.addToAllOf format fields entries) := by
  -- the schemas in the list so far; another value than a list does not fit
  have hlisted : ∀ entry ∈ allOfEntries (fields.get? "allOf"), Everywhere WellFormedNode entry := by
    intro entry hentry
    cases hallOf : fields.get? "allOf" with
    | none => simp [hallOf, allOfEntries] at hentry
    | some value =>
      have hfit := h.fit "allOf" value hallOf
      cases value with
      | array listed =>
        rw [hallOf, allOfEntries] at hentry
        exact hfit.parts entry hentry
      | _ =>
        have hlist := hfit.list rfl
        simp [Json.isArray, Json.array?] at hlist
  have hfit : ∀ listed : List Json, (∀ entry ∈ listed, Everywhere WellFormedNode entry) →
      Fit "allOf" (.array listed) := fun listed hall ↦
    ⟨hall, fun _ ↦ rfl, fun hkey ↦ by simp at hkey⟩
  rw [withFormat.addToAllOf]
  refine (h.remove (by decide)).insert (by decide) (by decide) (hfit _ fun entry hentry ↦ ?_)
  have hbefore : ∀ entry ∈ allOfEntries (fields.get? "allOf") ++ entries,
      Everywhere WellFormedNode entry := fun entry hentry ↦
    (List.mem_append.1 hentry).elim (hlisted entry) (hentries entry)
  split at hentry
  · exact hbefore entry hentry
  · rcases List.mem_append.1 hentry with hentry | hentry
    · exact hbefore entry hentry
    · rw [List.mem_singleton.1 hentry]
      exact everywhere_ofFormat _

theorem withFormat (h : Converted fields) (format : String) :
    Converted (withFormat fields format) := by
  have hrest := h.remove (by decide : "format" ≠ "additionalProperties")
  have hformat := hrest.insert (by decide) (by decide)
    (fit_of_plain (by decide : Role.of "format" = .plain) (by decide) (.string format))
  unfold Schema.withFormat
  dsimp only
  split
  · split
    · exact hrest.addToAllOf format (by simp)
    · exact hformat
  · rename_i existing _
    split
    · exact hformat
    · refine hrest.addToAllOf format fun entry hentry ↦ ?_
      rw [List.mem_singleton.1 hentry]
      exact everywhere_ofFormat existing

/-! ### Markers -/

theorem settleDefault (h : Converted fields) : Converted (settleDefault fields) := by
  rw [Schema.settleDefault]
  split
  · split
    · exact h.remove (by decide)
    · exact h.replaceLast (by decide) (by decide) (by decide)
        (fit_of_plain (by decide) (by decide) _)
  · exact h

theorem settleMarkers (h : Converted fields) : Converted (settleMarkers fields) := by
  rw [Schema.settleMarkers]
  split
  · split
    · exact h.remove (by decide)
    · exact h
  · refine Converted.settleDefault ?_
    split
    · exact (h.remove (by decide)).withFormat "required"
    · exact h.remove (by decide)
    · exact h

end Converted

namespace Converted

variable {fields : Fields Json}

theorem get?_settleMarkers (h : Converted fields) (value : Bool) :
    (Schema.settleMarkers fields).get? "required" ≠ some (.bool value) := by
  have hremove := Fields.get?_remove_self h.distinct "required"
  have hrest := h.remove (by decide : "required" ≠ "additionalProperties")
  rw [Schema.settleMarkers]
  split
  · split
    · simp [hremove]
    · rename_i hbool
      exact hbool value
  · split
    · have hformat := EditsOnly.withFormat hrest.distinct "required"
      rw [(EditsOnly.settleDefault hformat.distinct).get? _ (by decide),
        hformat.get? _ (by decide), hremove]
      simp
    · rw [(EditsOnly.settleDefault hrest.distinct).get? _ (by decide), hremove]
      simp
    · -- nothing is removed, because there is no truth value to remove
      rename_i htrue hfalse
      rw [(EditsOnly.settleDefault h.distinct).get? _ (by decide)]
      cases value with
      | true => exact htrue
      | false => exact hfalse

/-- **Settling the markers.** -/
theorem settled (h : Converted fields) : Settled (Schema.settleMarkers fields) where
  distinct := h.settleMarkers.distinct
  parts key value hvalue := (h.settleMarkers.fit key value hvalue).parts
  required := h.get?_settleMarkers
  reference := h.settleMarkers.reference
  closed := h.settleMarkers.closed
  type name hname := (h.settleMarkers.fit "type" _ hname).type rfl name rfl

end Converted

/-! ## Required properties -/

theorem isRequired_eq (property : Json) : isRequired property =
    (inFull property).any fun fields ↦ (Fields.get? fields "required").any Json.isTrue := by
  cases property with
  | array items => rcases items with _ | ⟨first, _ | ⟨second, rest⟩⟩ <;> rfl
  | object fields =>
    simp only [isRequired, inFull, Option.any_some]
    cases isExplicit fields <;> rfl
  | _ => rfl

/-- The node that a schema stands for is marked as required. -/
def MarkedRequired (schema : Json) : Prop :=
  ∃ fields, inFull schema = some fields ∧ fields.get? "required" = some (.bool true)

theorem any_isTrue_iff {found : Option Json} :
    found.any Json.isTrue ↔ found = some (.bool true) := by
  cases found with
  | none => simp
  | some value =>
    cases value with
    | bool truth => cases truth <;> simp [Json.isTrue]
    | _ => simp [Json.isTrue]

theorem isRequired_iff {schema : Json} : isRequired schema ↔ MarkedRequired schema := by
  simp only [isRequired_eq, MarkedRequired, ← any_isTrue_iff]
  cases inFull schema <;> simp

end Schema

end ModelCatalog
