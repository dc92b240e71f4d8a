import ModelCatalog.Json.Basic

/-!
# Documents without repeated keys

A JSON value that is held as a map names no key twice, at any depth. Values that are read from a
text come by this through `Json.merged`.
-/

namespace ModelCatalog

namespace Json

mutual

/-- No object of the value names a key twice. -/
def Distinct : Json → Prop
  | .array items => DistinctItems items
  | .object fields => Fields.Distinct fields ∧ DistinctFields fields
  | _ => True

def DistinctItems : List Json → Prop
  | [] => True
  | item :: items => Distinct item ∧ DistinctItems items

def DistinctFields : List (String × Json) → Prop
  | [] => True
  | (_, value) :: fields => Distinct value ∧ DistinctFields fields

end

@[simp] theorem distinct_string (value : String) : (string value).Distinct := by
  rw [Distinct] <;> simp

@[simp] theorem distinct_bool (value : Bool) : (bool value).Distinct := by
  rw [Distinct] <;> simp

theorem distinctItems_iff {items : List Json} :
    DistinctItems items ↔ ∀ item ∈ items, item.Distinct := by
  induction items with
  | nil => simp [DistinctItems]
  | cons item items ih => simp [DistinctItems, ih]

theorem distinctFields_iff {fields : List (String × Json)} :
    DistinctFields fields ↔ ∀ entry ∈ fields, entry.2.Distinct := by
  induction fields with
  | nil => simp [DistinctFields]
  | cons entry fields ih => simp [DistinctFields, ih]

@[simp] theorem distinct_array_iff {items : List Json} :
    (array items).Distinct ↔ ∀ item ∈ items, item.Distinct := by
  rw [Distinct, distinctItems_iff]

@[simp] theorem distinct_object_iff {fields : List (String × Json)} :
    (object fields).Distinct ↔
      Fields.Distinct fields ∧ ∀ entry ∈ fields, entry.2.Distinct := by
  rw [Distinct, distinctFields_iff]

theorem Distinct.of_get? {fields : Fields Json} (h : (object fields).Distinct) {key : String}
    {value : Json} (hvalue : fields.get? key = some value) : value.Distinct :=
  (distinct_object_iff.1 h).2 (key, value) (Fields.mem_of_get? hvalue)

mutual

theorem distinct_merged : ∀ value : Json, value.merged.Distinct
  | .null | .bool _ | .number _ | .string _ => by simp [merged, Distinct]
  | .array items => by
    rw [merged, distinct_array_iff]
    exact distinct_mergedItems items
  | .object fields => by
    rw [merged, distinct_object_iff]
    refine ⟨Fields.distinct_ofList _, fun entry hentry ↦ ?_⟩
    exact distinct_mergedFields fields entry (Fields.mem_of_mem_ofList hentry)

theorem distinct_mergedItems : ∀ items : List Json, ∀ item ∈ mergedItems items, item.Distinct
  | [], _, h => by simp [mergedItems] at h
  | first :: rest, item, h => by
    rw [mergedItems] at h
    rcases List.mem_cons.1 h with rfl | h
    · exact distinct_merged first
    · exact distinct_mergedItems rest item h

theorem distinct_mergedFields : ∀ fields : List (String × Json),
    ∀ entry ∈ mergedFields fields, entry.2.Distinct
  | [], _, h => by simp [mergedFields] at h
  | (key, value) :: rest, entry, h => by
    rw [mergedFields] at h
    rcases List.mem_cons.1 h with rfl | h
    · exact distinct_merged value
    · exact distinct_mergedFields rest entry h

end

mutual

theorem merged_eq_self : ∀ {value : Json}, value.Distinct → value.merged = value
  | .null, _ | .bool _, _ | .number _, _ | .string _, _ => by simp [merged]
  | .array items, h => by
    rw [merged, mergedItems_eq_self (distinct_array_iff.1 h)]
  | .object fields, h => by
    obtain ⟨hkeys, hvalues⟩ := distinct_object_iff.1 h
    rw [merged, mergedFields_eq_self hvalues, Fields.ofList_eq_self hkeys]

theorem mergedItems_eq_self : ∀ {items : List Json}, (∀ item ∈ items, item.Distinct) →
    mergedItems items = items
  | [], _ => by rw [mergedItems]
  | first :: rest, h => by
    obtain ⟨hfirst, hrest⟩ := List.forall_mem_cons.1 h
    rw [mergedItems, merged_eq_self hfirst, mergedItems_eq_self hrest]

theorem mergedFields_eq_self : ∀ {fields : List (String × Json)},
    (∀ entry ∈ fields, entry.2.Distinct) → mergedFields fields = fields
  | [], _ => by rw [mergedFields]
  | (key, value) :: rest, h => by
    obtain ⟨hfirst, hrest⟩ := List.forall_mem_cons.1 h
    rw [mergedFields, merged_eq_self hfirst, mergedFields_eq_self hrest]

end

end Json

end ModelCatalog
