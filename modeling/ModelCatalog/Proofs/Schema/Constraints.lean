import ModelCatalog.Proofs.Schema.NonNull
import ModelCatalog.Proofs.Schema.Visits

/-!
# Constraints that a node keeps

A node constrains values by the schemas under its keywords. Conversion takes such a keyword out,
converts its value and puts it back, and a value of another shape than it expects is not put back:
a composition that is no list, or the properties of an object that are no mapping. The constraint
is then lost without an error. What is negated and the items of arrays have no such shape, since
every value stands for a schema or is an error.

## Two ways to be there

The only keyword that conversion adds on its own account is `allOf`, for formats. A composition that
was lost may therefore seem to be there again, with nothing in it but formats. `Gone` allows for
this, and `FormatsAdded` is what all steps after the compositions have in common.
-/

namespace ModelCatalog

open Outcome

namespace Schema

/-- The value of a keyword has the shape that conversion expects on the node. -/
def Fits (fields : Fields Json) (key : String) (value : Json) : Prop :=
  (key ∈ compositeKeywords → value.isArray) ∧
    (key ∈ ["properties", "patternProperties"] → Declares (.object fields) "object" →
      value.isObject)

/-- A constraint is gone: its keyword is, or an `allOf` under which only formats are left that
conversion has put there. -/
def Gone (key : String) (found : Option Json) : Prop :=
  found = none ∨ key = "allOf" ∧ ∃ formats : List Json, found = some (.array (formats.map ofFormat))

variable {options : ConversionOptions} {keywords : Fields Keyword} {keyword : Keyword}
  {fields out : Fields Json} {key : String} {s : Json}

/-! ## Step by step -/

theorem isSome_get?_replaceLast (fields : Fields Json) (key : String) (value : Json) :
    ((replaceLast fields key value).get? key).isSome := by
  rw [get?_replaceLast_self]
  rfl

private theorem isSome_get?_convertComposite (h : fields.Distinct)
    (hkeyword : keywords.get? key = some keyword)
    (hout : convertComposite keywords fields key = .ok out) :
    (out.get? key).isSome ↔ keyword.written.isArray := by
  rw [convertComposite_eq hkeyword] at hout
  split at hout
  · rename_i harray
    obtain ⟨value, -, rfl⟩ := map_eq_ok_iff.1 hout
    exact iff_of_true (isSome_get?_replaceLast fields key value) harray
  · rename_i harray
    rw [← Except.ok.inj hout, Fields.get?_remove_self h]
    simp [harray]

private theorem isSome_get?_foldlM_convertComposite {keys : List String} (h : fields.Distinct)
    (hnodup : keys.Nodup) (hkey : key ∈ keys) (hkeyword : keywords.get? key = some keyword)
    (hout : keys.foldlM (convertComposite keywords) fields = .ok out) :
    (out.get? key).isSome ↔ keyword.written.isArray := by
  induction keys generalizing fields with
  | nil => simp at hkey
  | cons first rest ih =>
    obtain ⟨next, hnext, hothers⟩ := bind_eq_ok_iff.1 hout
    have hstep := EditsOnly.convertComposite h hnext
    obtain ⟨hfirst, hrest⟩ := List.nodup_cons.1 hnodup
    rcases List.mem_cons.1 hkey with rfl | hkey
    · rw [(EditsOnly.foldlM_convertComposite hstep.distinct hothers).get? key hfirst]
      exact isSome_get?_convertComposite h hkeyword hnext
    · exact ih hstep.distinct hrest hkey hothers

private theorem isSome_get?_convertSchemaKeyword (hkeyword : keywords.get? key = some keyword)
    (hout : convertSchemaKeyword keywords fields key = .ok out) : (out.get? key).isSome := by
  rw [convertSchemaKeyword, hkeyword] at hout
  obtain ⟨value, -, hout⟩ := bind_eq_ok_iff.1 hout
  rw [← pure_eq_ok_iff.1 hout]
  exact isSome_get?_replaceLast fields key value

private theorem isSome_get?_convertMapping (h : fields.Distinct)
    (hkeyword : keywords.get? key = some keyword) {named : Bool}
    (hout : convertMapping keywords fields key = .ok (out, named)) :
    (out.get? key).isSome ↔ keyword.written.isObject := by
  rw [convertMapping_eq hkeyword] at hout
  split at hout
  · rename_i hobject
    obtain ⟨value, -, hout⟩ := map_eq_ok_iff.1 hout
    rw [← (Prod.mk.inj hout).1]
    exact iff_of_true (isSome_get?_replaceLast fields key value) hobject
  · rename_i hobject
    rw [← (Prod.mk.inj (Except.ok.inj hout)).1, Fields.get?_remove_self h]
    simp [hobject]

private theorem isSome_get?_convertObject (h : fields.Distinct)
    (hkey : key ∈ ["properties", "patternProperties"])
    (hkeyword : keywords.get? key = some keyword)
    (hout : convertObject keywords fields = .ok out) :
    (out.get? key).isSome ↔ keyword.written.isObject := by
  obtain ⟨⟨listed, named⟩, hlisted, hout⟩ := bind_eq_ok_iff.1 hout
  obtain ⟨⟨closed, patterned⟩, hclosed, hout⟩ := bind_eq_ok_iff.1 hout
  have hlists := EditsOnly.convertMapping h hlisted
  have hrequires := EditsOnly.addRequired hlists.distinct
    (requiredNames (((keywords.get? "properties").bind (·.written.object?)).getD []))
  have hcloses := EditsOnly.convertMapping hrequires.distinct hclosed
  have hkept : out.get? key = closed.get? key := by
    rw [← pure_eq_ok_iff.1 hout]
    split
    · exact (EditsOnly.insert hcloses.distinct _).get? key fun hmem ↦ by
        simp_all
    · rfl
  rw [hkept]
  rcases List.mem_pair.1 hkey with rfl | rfl
  · rw [hcloses.get? _ (by decide), hrequires.get? _ (by decide)]
    exact isSome_get?_convertMapping h hkeyword hlisted
  · exact isSome_get?_convertMapping hrequires.distinct hkeyword hclosed

/-! ## Resolving a type

Which keywords with schemas are read at all depends on the type: a name or a list, that of objects,
that of arrays, or neither. The cases differ in the steps that are taken, and `TypeSteps` covers all
of them. -/

/-- The steps of resolving a type that is no model: the type itself, the keywords of objects and
those of arrays where the node is to have them, and the format of dates. -/
structure TypeSteps (keywords : Fields Keyword) (isObject isArray : Prop)
    (fields typed listed itemized out : Fields Json) : Prop where
  resolves : EditsOnly ["type"] fields typed
  object : isObject → convertObject keywords typed = .ok listed
  noObject : ¬isObject → listed = typed
  array : isArray → convertArray keywords listed = .ok itemized
  noArray : ¬isArray → itemized = listed
  format : out = itemized ∨ out = withFormat itemized "date-time"

namespace TypeSteps

variable {isObject isArray : Prop} {typed listed itemized : Fields Json}

theorem of_neither (hresolves : EditsOnly ["type"] fields typed) (hobject : ¬isObject)
    (harray : ¬isArray) (hformat : out = typed ∨ out = withFormat typed "date-time") :
    TypeSteps keywords isObject isArray fields typed typed typed out :=
  ⟨hresolves, fun h ↦ absurd h hobject, fun _ ↦ rfl, fun h ↦ absurd h harray, fun _ ↦ rfl, hformat⟩

theorem edits_object (h : TypeSteps keywords isObject isArray fields typed listed itemized out) :
    EditsOnly ["properties", "patternProperties", "required", "additionalProperties"]
      typed listed := by
  by_cases hobject : isObject
  · exact .convertObject h.resolves.distinct (h.object hobject)
  · rw [h.noObject hobject]
    exact .refl _ h.resolves.distinct

theorem edits_array (h : TypeSteps keywords isObject isArray fields typed listed itemized out) :
    EditsOnly ["items"] listed itemized := by
  by_cases harray : isArray
  · exact .convertArray h.edits_object.distinct (h.array harray)
  · rw [h.noArray harray]
    exact .refl _ h.edits_object.distinct

theorem edits_format (h : TypeSteps keywords isObject isArray fields typed listed itemized out) :
    EditsOnly ["format", "allOf"] itemized out := by
  rcases h.format with rfl | rfl
  · exact .refl _ h.edits_array.distinct
  · exact .withFormat h.edits_array.distinct _

theorem edits (h : TypeSteps keywords isObject isArray fields typed listed itemized out) :
    EditsOnly ["type", "properties", "patternProperties", "required", "additionalProperties",
      "items", "format", "allOf"] fields out :=
  ((h.resolves.append h.edits_object).append h.edits_array).append h.edits_format

theorem isSome_get?_mapping
    (h : TypeSteps keywords isObject isArray fields typed listed itemized out)
    {keyword : Keyword} (hkey : key ∈ ["properties", "patternProperties"])
    (hkeyword : keywords.get? key = some keyword) (hfields : (fields.get? key).isSome) :
    (out.get? key).isSome ↔ (isObject → keyword.written.isObject) := by
  have hne : key ∉ ["format", "allOf"] ∧ key ∉ ["items"] ∧ key ∉ ["type"] := by
    rcases List.mem_pair.1 hkey with rfl | rfl <;> decide
  rw [h.edits_format.get? key hne.1, h.edits_array.get? key hne.2.1]
  by_cases hobject : isObject
  · rw [isSome_get?_convertObject h.resolves.distinct hkey hkeyword (h.object hobject)]
    exact ⟨fun hwritten _ ↦ hwritten, fun hwritten ↦ hwritten hobject⟩
  · rw [h.noObject hobject, h.resolves.get? key hne.2.2]
    exact iff_of_true hfields fun h ↦ absurd h hobject

theorem isSome_get?_items
    (h : TypeSteps keywords isObject isArray fields typed listed itemized out)
    (hkeyword : keywords.get? "items" = some keyword) (hfields : (fields.get? "items").isSome) :
    (out.get? "items").isSome := by
  rw [h.edits_format.get? "items" (by decide)]
  by_cases harray : isArray
  · exact isSome_get?_convertSchemaKeyword hkeyword (h.array harray)
  · rw [h.noArray harray, h.edits_object.get? "items" (by decide),
      h.resolves.get? "items" (by decide)]
    exact hfields

end TypeSteps

private theorem exists_steps_of_convertTypeName (h : fields.Distinct) {name : String}
    (hmodel : ∀ model, DeclaredType.ofName name ≠ .model model)
    (hout : convertTypeName options keywords fields name = .ok out) :
    ∃ typed listed itemized, TypeSteps keywords (name = "object") (name = "array") fields typed
      listed itemized out := by
  have hne : ∀ other, DeclaredType.ofName name ≠ DeclaredType.ofName other → name ≠ other :=
    fun other h heq ↦ h (heq ▸ rfl)
  rw [convertTypeName] at hout
  split at hout
  · rename_i type hdeclared
    rw [hdeclared] at hne
    have hresolves : EditsOnly ["type"] fields (fields.insert "type" (.string type.name)) :=
      .insert h _
    cases type with
    | object =>
      have hobject : name = "object" := eq_name_of_ofName hdeclared (by simp)
      have harray := hne "array" (by decide)
      exact ⟨_, out, out, hresolves, fun _ ↦ hout, fun h ↦ absurd hobject h,
        fun h ↦ absurd h harray, fun _ ↦ rfl, .inl rfl⟩
    | array =>
      have harray : name = "array" := eq_name_of_ofName hdeclared (by simp)
      have hobject := hne "object" (by decide)
      exact ⟨_, _, out, hresolves, fun h ↦ absurd h hobject, fun _ ↦ rfl, fun _ ↦ hout,
        fun h ↦ absurd harray h, .inl rfl⟩
    | _ =>
      exact ⟨_, _, _, .of_neither hresolves (hne "object" (by decide)) (hne "array" (by decide))
        (.inl (Except.ok.inj hout).symm)⟩
  · rename_i hdeclared
    rw [hdeclared] at hne
    exact ⟨_, _, _, .of_neither (EditsOnly.insert h _) (hne "object" (by decide))
      (hne "array" (by decide)) (.inr (Except.ok.inj hout).symm)⟩
  · rename_i model hdeclared
    exact absurd hdeclared (hmodel model)

private theorem exists_steps_of_convertType (h : fields.Distinct)
    (hmodel : ∀ name, fields.get? "type" = some (.string name) →
      ∀ model, DeclaredType.ofName name ≠ .model model)
    (hout : convertType options keywords fields = .ok out) :
    ∃ typed listed itemized, TypeSteps keywords (Declares (.object fields) "object")
      (Declares (.object fields) "array") fields typed listed itemized out := by
  by_cases hlist : ∃ types, fields.get? "type" = some (.array types)
  · obtain ⟨types, htype⟩ := hlist
    rw [declares_iff_of_array htype, declares_iff_of_array htype]
    rw [convertType_of_types htype] at hout
    obtain ⟨listed, hlisted, hout⟩ := bind_eq_ok_iff.1 hout
    refine ⟨fields, listed, out, .refl _ h, fun hobject ↦ ?_, fun hobject ↦ ?_, fun harray ↦ ?_,
      fun harray ↦ ?_, .inl rfl⟩
    · rwa [if_pos hobject] at hlisted
    · rw [if_neg hobject] at hlisted
      exact (Except.ok.inj hlisted).symm
    · rwa [if_pos harray] at hout
    · rw [if_neg harray] at hout
      exact (Except.ok.inj hout).symm
  · rw [convertType] at hout
    split at hout
    · rename_i name htype
      rw [declares_iff_of_string htype, declares_iff_of_string htype]
      exact exists_steps_of_convertTypeName h (hmodel name htype) hout
    · rename_i types htype
      exact absurd ⟨types, htype⟩ hlist
    · rename_i hstring harray
      have hnone := not_declares rfl hstring harray
      exact ⟨_, _, _, .of_neither (.refl _ h) (hnone _) (hnone _)
        (.inl (Except.ok.inj hout).symm)⟩

/-! ## Formats among what a node combines

Later steps touch the compositions of a node in one way only, by adding formats to `allOf`. -/

/-- Nothing has happened to the value of an `allOf`, or it is a list to which formats have been
added. -/
def FormatsAdded (found found' : Option Json) : Prop :=
  found' = found ∨
    ∃ formats : List Json, found' = some (.array (allOfEntries found ++ formats.map ofFormat))

namespace FormatsAdded

variable {found found' found'' : Option Json}

theorem trans (h : FormatsAdded found found') (h' : FormatsAdded found' found'') :
    FormatsAdded found found'' := by
  rcases h' with rfl | ⟨formats', rfl⟩
  · exact h
  · rcases h with rfl | ⟨formats, rfl⟩
    · exact .inr ⟨formats', rfl⟩
    · exact .inr ⟨formats ++ formats', by simp [allOfEntries]⟩

theorem isSome (h : FormatsAdded found found') (hfound : found.isSome) : found'.isSome := by
  rcases h with rfl | ⟨formats, rfl⟩
  · exact hfound
  · rfl

theorem gone (h : FormatsAdded none found) : Gone "allOf" found :=
  h.imp_right fun ⟨formats, hfound⟩ ↦ ⟨rfl, formats, hfound⟩

end FormatsAdded

private theorem formatsAdded_addToAllOf (fields : Fields Json) (format : String)
    (formats : List Json) :
    FormatsAdded (fields.get? "allOf")
      ((withFormat.addToAllOf format fields (formats.map ofFormat)).get? "allOf") := by
  rw [withFormat.addToAllOf, Fields.get?_insert_self]
  split
  · exact .inr ⟨formats, rfl⟩
  · exact .inr ⟨formats ++ [.string format], by simp⟩

theorem formatsAdded_withFormat (h : fields.Distinct) (format : String) :
    FormatsAdded (fields.get? "allOf") ((withFormat fields format).get? "allOf") := by
  have hrest : (fields.remove "format").get? "allOf" = fields.get? "allOf" :=
    Fields.get?_remove_of_ne h (by decide)
  have hformat : ((fields.remove "format").insert "format" (.string format)).get? "allOf" =
      fields.get? "allOf" := by
    rw [Fields.get?_insert_of_ne _ (by decide), hrest]
  have hadd := formatsAdded_addToAllOf (fields.remove "format") format
  rw [hrest] at hadd
  unfold withFormat
  dsimp only
  split
  · split
    · exact hadd []
    · exact .inl hformat
  · rename_i existing _
    split
    · exact .inl hformat
    · exact hadd [existing]

private theorem formatsAdded_settleMarkers (h : fields.Distinct) :
    FormatsAdded (fields.get? "allOf") ((settleMarkers fields).get? "allOf") := by
  have hremove : (fields.remove "required").get? "allOf" = fields.get? "allOf" :=
    Fields.get?_remove_of_ne h (by decide)
  have hdefault : ∀ next : Fields Json, next.Distinct →
      (settleDefault next).get? "allOf" = next.get? "allOf" := fun next hnext ↦
    (EditsOnly.settleDefault hnext).get? "allOf" (by decide)
  rw [settleMarkers]
  split
  · split
    · exact .inl hremove
    · exact .inl rfl
  · split
    · rw [hdefault _ (EditsOnly.withFormat (h.remove _) _).distinct, ← hremove]
      exact formatsAdded_withFormat (h.remove _) _
    · exact .inl ((hdefault _ (h.remove _)).trans hremove)
    · exact .inl (hdefault _ h)

theorem TypeSteps.formatsAdded {isObject isArray : Prop} {typed listed itemized : Fields Json}
    (h : TypeSteps keywords isObject isArray fields typed listed itemized out) :
    FormatsAdded (fields.get? "allOf") (out.get? "allOf") := by
  rw [← h.resolves.get? "allOf" (by decide), ← h.edits_object.get? "allOf" (by decide),
    ← h.edits_array.get? "allOf" (by decide)]
  rcases h.format with rfl | rfl
  · exact .inl rfl
  · exact formatsAdded_withFormat h.edits_array.distinct _

/-! ## Nodes -/

private theorem fits_composite_iff {value : Json} (hkey : key ∈ compositeKeywords) :
    Fits fields key value ↔ value.isArray := by
  have hmapping : key ∉ ["properties", "patternProperties"] :=
    (by decide : ∀ key ∈ compositeKeywords, key ∉ ["properties", "patternProperties"]) key hkey
  simp [Fits, hkey, hmapping]

private theorem fits_mapping_iff {value : Json} (hkey : key ∈ ["properties", "patternProperties"]) :
    Fits fields key value ↔ (Declares (.object fields) "object" → value.isObject) := by
  have hcomposite : key ∉ compositeKeywords :=
    (by decide : ∀ key ∈ ["properties", "patternProperties"], key ∉ compositeKeywords) key hkey
  simp [Fits, hkey, hcomposite]

private theorem kept_or_gone {p : Prop} {found : Option Json} (h : found.isSome ↔ p) :
    (p → found.isSome) ∧ (¬p → Gone key found) :=
  ⟨h.2, fun hp ↦ .inl (Option.not_isSome_iff_eq_none.1 fun hfound ↦ hp (h.1 hfound))⟩

/-- The keywords of a node with everything settled but whether it is nullable, key by key. -/
theorem exists_settled_of_convert (hfields : fields.Distinct) (hexplicit : isExplicit fields)
    (hmodel : ∀ name, fields.get? "type" = some (.string name) →
      ∀ model, DeclaredType.ofName name ≠ .model model)
    (hkey : key ∈ expandedKeywords) {value : Json} (hvalue : fields.get? key = some value)
    (h : convert options (.object fields) = .ok s) :
    ∃ settled : Fields Json, settled.Distinct ∧ settled.get? "$ref" = fields.get? "$ref" ∧
      finishNode settled = s ∧ (Fits fields key value → (settled.get? key).isSome) ∧
        (¬Fits fields key value → Gone key (settled.get? key)) := by
  obtain ⟨combined, negated, typed, hcombined, hnegated, hedits, htyped, hs⟩ :=
    exists_typed_of_convert hfields hexplicit h
  have hcombines := EditsOnly.foldlM_convertComposite hfields hcombined
  have hnegates := EditsOnly.convertSchemaKeyword hcombines.distinct hnegated
  have htype : negated.get? "type" = fields.get? "type" := hedits.get? "type" (by decide)
  obtain ⟨named, listed, itemized, hsteps⟩ :=
    exists_steps_of_convertType hedits.distinct (by rwa [htype]) htyped
  have hsettles := EditsOnly.settleMarkers hsteps.edits.distinct
  have hkept := ((hedits.append hsteps.edits).append hsettles).get?
  obtain ⟨keyword, hkeyword, hwritten⟩ : ∃ keyword, Fields.get?
      ((conversion options).runKeywords "" fields) key = some keyword ∧ keyword.written = value :=
    ⟨_, by rw [Pass.get?_runKeywords, hvalue]; rfl, rfl⟩
  refine ⟨settleMarkers typed, hsettles.distinct, hkept "$ref" (by decide), hs, ?_⟩
  have hcombine : key ∈ compositeKeywords →
      ((negated.get? key).isSome ↔ Fits fields key value) := by
    intro hcomposite
    have hnot : key ∉ ["not"] :=
      (by decide : ∀ key ∈ compositeKeywords, key ∉ ["not"]) key hcomposite
    rw [hnegates.get? key hnot, fits_composite_iff hcomposite, ← hwritten]
    exact isSome_get?_foldlM_convertComposite hfields (by decide) hcomposite hkeyword hcombined
  have hmapping : key ∈ ["properties", "patternProperties"] →
      (((settleMarkers typed).get? key).isSome ↔ Fits fields key value) := by
    intro hproperties
    have hne : key ∉ "not" :: compositeKeywords ∧
        key ∉ ["required", "format", "allOf", "default"] := by
      rcases List.mem_pair.1 hproperties with rfl | rfl <;> decide
    rw [hsettles.get? key hne.2, hsteps.isSome_get?_mapping hproperties hkeyword
      (by simp [hedits.get? key hne.1, hvalue]), fits_mapping_iff hproperties, hwritten]
    simp only [Declares, Json.get?, htype]
  have hafter := (hsteps.edits.append hsettles).get?
  simp only [expandedKeywords, List.mem_cons, List.not_mem_nil, or_false] at hkey
  rcases hkey with rfl | rfl | rfl | rfl | rfl | rfl | rfl
  · exact kept_or_gone (hmapping (by simp))
  · exact kept_or_gone (hmapping (by simp))
  · -- items are kept whatever they are
    have hitems := hsteps.isSome_get?_items hkeyword
      (by simp [hedits.get? "items" (by decide), hvalue])
    rw [hsettles.get? "items" (by decide)]
    exact kept_or_gone (iff_of_true hitems (by simp [Fits, compositeKeywords]))
  · have hadded := hsteps.formatsAdded.trans (formatsAdded_settleMarkers hsteps.edits.distinct)
    refine ⟨fun hfits ↦ hadded.isSome ((hcombine (by decide)).2 hfits), fun hfits ↦ ?_⟩
    rw [Option.not_isSome_iff_eq_none.1 (mt (hcombine (by decide)).1 hfits)] at hadded
    exact hadded.gone
  · rw [hafter "anyOf" (by decide)]
    exact kept_or_gone (hcombine (by decide))
  · rw [hafter "oneOf" (by decide)]
    exact kept_or_gone (hcombine (by decide))
  · have hnot := isSome_get?_convertSchemaKeyword hkeyword hnegated
    rw [hafter "not" (by decide)]
    exact kept_or_gone (iff_of_true hnot (by simp [Fits, compositeKeywords]))

/-- **Constraints.** On a node that is no reference, a keyword with schemas is still there after
conversion, at the node or in the alternative to `null` that it has become, if its value has the
shape that conversion expects. If it has not, the keyword is dropped without an error. -/
theorem constraint_of_convert (hfields : fields.Distinct) (hexplicit : isExplicit fields)
    (href : fields.get? "$ref" = none)
    (hmodel : ∀ name, fields.get? "type" = some (.string name) →
      ∀ model, DeclaredType.ofName name ≠ .model model)
    (hkey : key ∈ expandedKeywords) {value : Json} (hvalue : fields.get? key = some value)
    (h : convert options (.object fields) = .ok s) :
    (Fits fields key value → ((nonNull s).get? key).isSome) ∧
      (¬Fits fields key value → Gone key ((nonNull s).get? key)) := by
  obtain ⟨settled, hdistinct, hreference, rfl, houtcome⟩ :=
    exists_settled_of_convert hfields hexplicit hmodel hkey hvalue h
  have hne : key ∉ ["nullable", "validate", "$ref", "type"] :=
    (by decide : ∀ key ∈ expandedKeywords, key ∉ ["nullable", "validate", "$ref", "type"]) key hkey
  rwa [get?_nonNull_finishNode hdistinct (hreference.trans href) hne]

/-- The keywords of an address, which may be missing. -/
def optionalAddress : Fields Json :=
  [("type", .string "object"), ("nullable", .bool true),
    ("properties", .object [("street", .string "text")])]

theorem constraint_of_convert_optionalAddress :
    ∃ s, convert ⟨false⟩ (.object optionalAddress) = .ok s ∧ nonNull s ≠ s ∧
      Fits optionalAddress "properties" (.object [("street", .string "text")]) ∧
        ((nonNull s).get? "properties").isSome := by
  have hdistinct : optionalAddress.Distinct := by
    simp [optionalAddress]
  have hmodel : ∀ name, optionalAddress.get? "type" = some (.string name) →
      ∀ model, DeclaredType.ofName name ≠ .model model := by
    intro name hname
    obtain rfl : "object" = name := Json.string.inj (Option.some.inj hname)
    simp [show DeclaredType.ofName "object" = .json .object by decide]
  have hconvert : convert ⟨false⟩ (.object optionalAddress) = .ok (.object (orNull
      [("type", .string "object"), ("properties", .object [("street", .object (ofName "string"))]),
        ("additionalProperties", .bool false)] none)) := rfl
  have hfits : Fits optionalAddress "properties" (.object [("street", .string "text")]) :=
    ⟨fun hkey ↦ absurd hkey (by decide), fun _ _ ↦ rfl⟩
  refine ⟨_, hconvert, ?_, hfits, (constraint_of_convert hdistinct rfl rfl hmodel (by decide) rfl
    hconvert).1 hfits⟩
  rw [nonNull_orNull]
  simp

/-- The keywords of a text whose alternatives are not in a list. -/
def strayAlternatives : Fields Json :=
  [("type", .string "string"), ("anyOf", .object (ofName "integer"))]

/-- A composition that is no list is lost. -/
theorem not_kept_strayAlternatives :
    isExplicit strayAlternatives ∧ strayAlternatives.get? "$ref" = none ∧
      (∀ model, DeclaredType.ofName "string" ≠ .model model) ∧
        (strayAlternatives.get? "anyOf").isSome ∧
          ∀ options, ∃ s, convert options (.object strayAlternatives) = .ok s ∧
            (nonNull s).get? "anyOf" = none := by
  have hstring : DeclaredType.ofName "string" = .json .string := by decide
  refine ⟨rfl, rfl, by simp [hstring], rfl, fun options ↦ ⟨.object (ofName "string"), rfl, rfl⟩⟩

end Schema

end ModelCatalog
