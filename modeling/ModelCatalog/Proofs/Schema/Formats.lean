import Mathlib.Data.Set.Insert
import ModelCatalog.Proofs.Schema.Edits

/-!
# Formats accumulate

A node has room for one format. A further one goes into the `allOf` of the node together with the
one that was there, so that a value has to meet both. In which of the two places a format stands
makes no difference to what the node asks for: `Schema.formats` collects them from both. Each
addition adds one format to them and loses none, whatever the node looked like before, and so do any
number of additions (`Schema.formats_foldl_withFormat`).
-/

namespace ModelCatalog

namespace Schema

variable {fields : Fields Json} {format : String}

/-! ## Moving a keyword to the end -/

private theorem replaceLast_eq_append (h : fields.Distinct) (key : String) (value : Json) :
    replaceLast fields key value = fields.remove key ++ [(key, value)] := by
  have hkey : key ∉ (fields.remove key).keys :=
    Fields.get?_eq_none_iff.1 (Fields.get?_remove_self h key)
  rw [replaceLast, Fields.insert_of_notMem hkey]

theorem replaceLast_replaceLast (h : fields.Distinct) (key : String) (value : Json) :
    replaceLast (replaceLast fields key value) key value = replaceLast fields key value := by
  have hkey : key ∉ (fields.remove key).keys :=
    Fields.get?_eq_none_iff.1 (Fields.get?_remove_self h key)
  rw [replaceLast_eq_append h, replaceLast, Fields.remove_append_singleton hkey,
    Fields.insert_of_notMem hkey]

/-! ## The two places for a format

A format becomes the node's own if that is its format anyway, or if there is none and nothing to
combine it with. In all other cases the node is left with no format of its own. -/

/-- The format can be the node's own: it is already, or there is no format to combine it with. -/
def HasRoomFor (fields : Fields Json) (format : String) : Prop :=
  fields.get? "format" = some (.string format) ∨
    fields.get? "format" = none ∧ fields.get? "allOf" = none

/-- What the node combines, with its own format among it. -/
def combined (fields : Fields Json) : List Json :=
  allOfEntries (fields.get? "allOf") ++ (fields.get? "format").toList.map ofFormat

/-- The entries, and one that asks for the format unless there is one. -/
def withEntry (entries : List Json) (format : String) : List Json :=
  if entries.any (hasFormat · format) then entries else entries ++ [ofFormat (.string format)]

theorem withFormat_of_hasRoomFor (h : HasRoomFor fields format) :
    withFormat fields format = replaceLast fields "format" (.string format) := by
  rcases h with hformat | ⟨hformat, hallOf⟩
  · simp [withFormat, replaceLast, hformat]
  · simp [withFormat, replaceLast, hformat, Fields.contains, hallOf]

theorem withFormat_of_not_hasRoomFor (hfields : fields.Distinct) (h : ¬HasRoomFor fields format) :
    withFormat fields format = replaceLast (fields.remove "format") "allOf"
      (.array (withEntry (combined fields) format)) := by
  have hadd : ∀ entries, withFormat.addToAllOf format (fields.remove "format") entries =
      replaceLast (fields.remove "format") "allOf"
        (.array (withEntry (allOfEntries (fields.get? "allOf") ++ entries) format)) := by
    intro entries
    rw [← Fields.get?_remove_of_ne hfields (by decide : "allOf" ≠ "format")]
    rfl
  rw [HasRoomFor, not_or] at h
  rw [withFormat, combined]
  cases hformat : fields.get? "format" with
  | none =>
    have hallOf : fields.contains "allOf" := by
      rw [Fields.contains, Option.isSome_iff_ne_none]
      exact fun hnone ↦ h.2 ⟨hformat, hnone⟩
    simp only [hallOf, if_true]
    exact hadd []
  | some existing =>
    have hother : ¬existing.isString format := by
      rw [Json.isString_iff]
      rintro rfl
      exact h.1 hformat
    simp only [hother]
    exact hadd [ofFormat existing]

/-! ## The formats of a node

As a set, the formats of a node do not depend on where they stand. -/

def entryFormats (entries : List Json) : Set Json :=
  {format | ∃ entry ∈ entries, entry.get? "format" = some format}

/-- The formats that a node asks for: its own, and those of the entries of its `allOf`. -/
def formats (fields : Fields Json) : Set Json :=
  {format | fields.get? "format" = some format} ∪ entryFormats (allOfEntries (fields.get? "allOf"))

theorem hasFormat_iff {schema : Json} :
    hasFormat schema format ↔ schema.get? "format" = some (.string format) := by
  cases hformat : schema.get? "format" <;> simp [hasFormat, hformat, Json.isString_iff]

private theorem entryFormats_append (entries entries' : List Json) :
    entryFormats (entries ++ entries') = entryFormats entries ∪ entryFormats entries' := by
  ext value
  simp [entryFormats, or_and_right, exists_or]

private theorem entryFormats_ofFormat (own : Option Json) :
    entryFormats (own.toList.map ofFormat) = {value | own = some value} := by
  ext value
  cases own <;> simp [entryFormats, ofFormat]

/-- The node's own format may as well be among what it combines. -/
theorem entryFormats_combined (fields : Fields Json) :
    entryFormats (combined fields) = formats fields := by
  rw [combined, entryFormats_append, entryFormats_ofFormat, formats, Set.union_comm]

private theorem entryFormats_withEntry (entries : List Json) (format : String) :
    entryFormats (withEntry entries format) = insert (.string format) (entryFormats entries) := by
  rw [withEntry]
  split
  · rename_i hlisted
    obtain ⟨entry, hentry, hformat⟩ := List.any_eq_true.1 hlisted
    have hmem : .string format ∈ entryFormats entries := ⟨entry, hentry, hasFormat_iff.1 hformat⟩
    exact (Set.insert_eq_of_mem hmem).symm
  · have hown := entryFormats_ofFormat (some (.string format))
    rw [Option.toList_some, List.map_singleton] at hown
    rw [entryFormats_append, hown, Set.union_comm]
    ext value
    simp [eq_comm]

private theorem any_hasFormat_withEntry (entries : List Json) (format : String) :
    (withEntry entries format).any (hasFormat · format) := by
  rw [withEntry]
  split
  · assumption
  · have hown : hasFormat (ofFormat (.string format)) format := hasFormat_iff.2 rfl
    simp [hown]

private theorem withEntry_withEntry (entries : List Json) (format : String) :
    withEntry (withEntry entries format) format = withEntry entries format :=
  if_pos (any_hasFormat_withEntry entries format)

private theorem formats_eq_insert (hformat : fields.get? "format" = some (.string format)) :
    formats fields =
      insert (.string format) (entryFormats (allOfEntries (fields.get? "allOf"))) := by
  ext value
  simp [formats, hformat, eq_comm]

private theorem formats_eq_entryFormats (hformat : fields.get? "format" = none) :
    formats fields = entryFormats (allOfEntries (fields.get? "allOf")) := by
  simp [formats, hformat]

/-- **An addition adds one format.** -/
theorem formats_withFormat (h : fields.Distinct) (format : String) :
    formats (withFormat fields format) = insert (.string format) (formats fields) := by
  by_cases hroom : HasRoomFor fields format
  · rw [withFormat_of_hasRoomFor hroom, formats_eq_insert (get?_replaceLast_self _ _ _),
      get?_replaceLast_of_ne h (by decide)]
    rcases hroom with hformat | ⟨hformat, hallOf⟩
    · rw [formats_eq_insert hformat, Set.insert_idem]
    · rw [formats_eq_entryFormats hformat]
  · have hnone : (replaceLast (fields.remove "format") "allOf"
        (.array (withEntry (combined fields) format))).get? "format" = none := by
      rw [get?_replaceLast_of_ne (h.remove _) (by decide), Fields.get?_remove_self h]
    rw [withFormat_of_not_hasRoomFor h hroom, formats_eq_entryFormats hnone,
      get?_replaceLast_self, allOfEntries, entryFormats_withEntry, entryFormats_combined]

/-- **Any number of additions.** No format is lost on the way, in whatever order they come. -/
theorem formats_foldl_withFormat (h : fields.Distinct) (added : List String) :
    formats (added.foldl withFormat fields) =
      {value | ∃ format ∈ added, value = .string format} ∪ formats fields := by
  induction added generalizing fields with
  | nil => simp
  | cons format added ih =>
    rw [List.foldl_cons, ih (EditsOnly.withFormat h format).distinct, formats_withFormat h,
      Set.union_insert, ← Set.insert_union]
    congr 1
    ext value
    simp

/-! ## What else stays as it is

A format that goes into `allOf` goes to its end, and all keywords but these two keep their
values. -/

/-- What a node combines stays in place, and formats are only added behind it. -/
theorem exists_get?_allOf_withFormat (h : fields.Distinct) {entries : List Json}
    (hentries : fields.get? "allOf" = some (.array entries)) (format : String) :
    ∃ more, (withFormat fields format).get? "allOf" = some (.array (entries ++ more)) := by
  by_cases hroom : HasRoomFor fields format
  · rw [withFormat_of_hasRoomFor hroom, get?_replaceLast_of_ne h (by decide), hentries]
    exact ⟨[], by simp⟩
  · rw [withFormat_of_not_hasRoomFor h hroom, get?_replaceLast_self, withEntry, combined, hentries,
      allOfEntries]
    split
    · exact ⟨_, rfl⟩
    · exact ⟨_, by rw [List.append_assoc]⟩

theorem withFormat_withFormat (h : fields.Distinct) (format : String) :
    withFormat (withFormat fields format) format = withFormat fields format := by
  by_cases hroom : HasRoomFor fields format
  · have hroom' : HasRoomFor (replaceLast fields "format" (.string format)) format :=
      .inl (get?_replaceLast_self _ _ _)
    rw [withFormat_of_hasRoomFor hroom, withFormat_of_hasRoomFor hroom', replaceLast_replaceLast h]
  · have hrest := h.remove "format"
    generalize hout : replaceLast (fields.remove "format") "allOf"
      (.array (withEntry (combined fields) format)) = out
    have hdistinct : out.Distinct := hout ▸ (EditsOnly.replaceLast hrest _).distinct
    have hformat : out.get? "format" = none := by
      rw [← hout, get?_replaceLast_of_ne hrest (by decide), Fields.get?_remove_self h]
    have hallOf : out.get? "allOf" = some (.array (withEntry (combined fields) format)) := by
      rw [← hout, get?_replaceLast_self]
    have hroom' : ¬HasRoomFor out format := by simp [HasRoomFor, hformat, hallOf]
    have hcombined : combined out = withEntry (combined fields) format := by
      simp [combined, hformat, hallOf, allOfEntries]
    -- the own format is gone, and the `allOf` stands at the end already
    rw [withFormat_of_not_hasRoomFor h hroom, hout, withFormat_of_not_hasRoomFor hdistinct hroom',
      Fields.remove_of_notMem (Fields.get?_eq_none_iff.1 hformat), hcombined, withEntry_withEntry,
      ← hout, replaceLast_replaceLast hrest]

/-- **What an addition changes.** -/
theorem formats_withFormat_and_rest (h : fields.Distinct) (format : String) :
    formats (withFormat fields format) = insert (.string format) (formats fields) ∧
    (∀ entries, fields.get? "allOf" = some (.array entries) →
      ∃ more, (withFormat fields format).get? "allOf" = some (.array (entries ++ more))) ∧
    (∀ key, key ≠ "format" → key ≠ "allOf" →
      (withFormat fields format).get? key = fields.get? key) ∧
    withFormat (withFormat fields format) format = withFormat fields format := by
  refine ⟨formats_withFormat h format,
    fun entries hentries ↦ exists_get?_allOf_withFormat h hentries format,
    fun key hformat hallOf ↦ ?_, withFormat_withFormat h format⟩
  exact (EditsOnly.withFormat h format).get? key (by simp [hformat, hallOf])

/-- A node with a format of its own and another one among what it combines. -/
def emailNode : Fields Json :=
  [("type", .string "string"), ("format", .string "email"),
    ("allOf", .array [ofFormat (.string "idn-email"), .object [("minLength", .int 3)]]),
    ("title", .string "E-mail")]

theorem formats_withFormat_and_rest_emailNode :
    emailNode.Distinct ∧
    withFormat emailNode "required" = [("type", .string "string"), ("title", .string "E-mail"),
      ("allOf", .array [ofFormat (.string "idn-email"), .object [("minLength", .int 3)],
        ofFormat (.string "email"), ofFormat (.string "required")])] ∧
    formats (withFormat emailNode "required") = insert (.string "required") (formats emailNode) ∧
    (∃ more, (withFormat emailNode "required").get? "allOf" =
      some (.array ([ofFormat (.string "idn-email"), .object [("minLength", .int 3)]] ++ more))) ∧
    (withFormat emailNode "required").get? "title" = emailNode.get? "title" ∧
    withFormat (withFormat emailNode "required") "required" =
      withFormat emailNode "required" := by
  have hdistinct : emailNode.Distinct := by
    rw [Fields.Distinct]
    decide
  obtain ⟨hformats, hentries, hothers, hagain⟩ := formats_withFormat_and_rest hdistinct "required"
  exact ⟨hdistinct, rfl, hformats, hentries _ rfl, hothers "title" (by decide) (by decide), hagain⟩

end Schema

end ModelCatalog
