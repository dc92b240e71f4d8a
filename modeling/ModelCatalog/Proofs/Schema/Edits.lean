import ModelCatalog.Proofs.Schema.Tree
import ModelCatalog.Schema.Conversion

/-!
# What a step of conversion leaves in place

A node is converted by editing its keywords one after another. `EditsOnly` bounds the keywords that
a step touches, so that what is known of the others is known after it as well.
-/

namespace ModelCatalog

open Outcome

namespace Schema

variable {keywords : Fields Keyword} {fields out : Fields Json} {key : String}
  {options : ConversionOptions}

theorem get?_replaceLast_of_ne {fields : Fields Json} (h : fields.Distinct) {key other : String}
    (hne : other ≠ key) (value : Json) :
    (replaceLast fields key value).get? other = fields.get? other := by
  rw [replaceLast, Fields.get?_insert_of_ne _ hne, Fields.get?_remove_of_ne h hne]

theorem get?_replaceLast_self (fields : Fields Json) (key : String) (value : Json) :
    (replaceLast fields key value).get? key = some value :=
  Fields.get?_insert_self _ key value

theorem convertComposite_eq {keyword : Keyword} (hkeyword : keywords.get? key = some keyword) :
    convertComposite keywords fields key =
      if keyword.written.isArray then replaceLast fields key <$> keyword.compiled
      else .ok (fields.remove key) := by
  obtain ⟨written, compiled⟩ := keyword
  rw [convertComposite, hkeyword]
  cases written <;> rfl

theorem convertMapping_eq {keyword : Keyword} (hkeyword : keywords.get? key = some keyword) :
    convertMapping keywords fields key =
      if keyword.written.isObject then
        (fun value ↦ (replaceLast fields key value, true)) <$> keyword.compiled
      else .ok (fields.remove key, false) := by
  obtain ⟨written, compiled⟩ := keyword
  rw [convertMapping, hkeyword]
  cases written <;> rfl

/-- On a node with a list of types, the keywords of objects and those of arrays are converted. -/
theorem convertType_of_types {types : List Json}
    (htype : fields.get? "type" = some (.array types)) :
    convertType options keywords fields =
      (if types.any (·.isString "object") then convertObject keywords fields else .ok fields) >>=
        fun next ↦ if types.any (·.isString "array") then convertArray keywords next
          else .ok next := by
  rw [convertType, htype]
  dsimp only
  split <;> rfl

/-- Where no truth value marks the node as required or not, at most a default is settled. -/
theorem settleMarkers_of_ne_bool (h : ∀ value, fields.get? "required" ≠ some (.bool value)) :
    settleMarkers fields =
      if (fields.get? "type").any (·.isString "object") then fields else settleDefault fields := by
  rw [settleMarkers]
  split
  · split
    · rename_i value hvalue
      exact absurd hvalue (h value)
    · rfl
  · split
    · rename_i hvalue
      exact absurd hvalue (h true)
    · rename_i hvalue
      exact absurd hvalue (h false)
    · rfl

/-- No values but those under the given keywords have changed. -/
structure EditsOnly (keys : List String) (fields out : Fields Json) : Prop where
  distinct : out.Distinct
  get? : ∀ key ∉ keys, out.get? key = fields.get? key

namespace EditsOnly

theorem refl (keys : List String) (h : fields.Distinct) : EditsOnly keys fields fields :=
  ⟨h, fun _ _ ↦ rfl⟩

theorem trans {keys : List String} {next : Fields Json} (h : EditsOnly keys fields next)
    (h' : EditsOnly keys next out) : EditsOnly keys fields out :=
  ⟨h'.distinct, fun key hkey ↦ (h'.get? key hkey).trans (h.get? key hkey)⟩

theorem append {keys keys' : List String} {next : Fields Json} (h : EditsOnly keys fields next)
    (h' : EditsOnly keys' next out) : EditsOnly (keys ++ keys') fields out :=
  ⟨h'.distinct, fun key hkey ↦ by
    rw [List.mem_append, not_or] at hkey
    exact (h'.get? key hkey.2).trans (h.get? key hkey.1)⟩

theorem remove (h : fields.Distinct) : EditsOnly [key] fields (fields.remove key) :=
  ⟨h.remove key, fun _ hother ↦ Fields.get?_remove_of_ne h (List.ne_of_not_mem_cons hother)⟩

theorem replaceLast (h : fields.Distinct) (value : Json) :
    EditsOnly [key] fields (replaceLast fields key value) :=
  ⟨(h.remove key).insert key value,
    fun _ hother ↦ get?_replaceLast_of_ne h (List.ne_of_not_mem_cons hother) value⟩

theorem convertComposite (h : fields.Distinct)
    (hout : convertComposite keywords fields key = .ok out) : EditsOnly [key] fields out := by
  rw [Schema.convertComposite] at hout
  split at hout
  · obtain ⟨value, -, hout⟩ := bind_eq_ok_iff.1 hout
    rw [← pure_eq_ok_iff.1 hout]
    exact replaceLast h value
  · rw [← Except.ok.inj hout]
    exact remove h
  · rw [← Except.ok.inj hout]
    exact refl [key] h

theorem convertSchemaKeyword (h : fields.Distinct)
    (hout : convertSchemaKeyword keywords fields key = .ok out) : EditsOnly [key] fields out := by
  rw [Schema.convertSchemaKeyword] at hout
  split at hout
  · obtain ⟨value, -, hout⟩ := bind_eq_ok_iff.1 hout
    rw [← pure_eq_ok_iff.1 hout]
    exact replaceLast h value
  · rw [← Except.ok.inj hout]
    exact refl [key] h

theorem mono {keys keys' : List String} (h : EditsOnly keys fields out) (hkeys : keys ⊆ keys') :
    EditsOnly keys' fields out :=
  ⟨h.distinct, fun key hkey ↦ h.get? key fun hmem ↦ hkey (hkeys hmem)⟩

theorem foldlM_convertComposite {keys : List String} (h : fields.Distinct)
    (hout : keys.foldlM (Schema.convertComposite keywords) fields = .ok out) :
    EditsOnly keys fields out := by
  induction keys generalizing fields with
  | nil =>
    rw [← pure_eq_ok_iff.1 hout]
    exact refl [] h
  | cons key keys ih =>
    obtain ⟨next, hnext, hout⟩ := bind_eq_ok_iff.1 hout
    have hstep := convertComposite h hnext
    exact (hstep.mono (by simp)).trans ((ih hstep.distinct hout).mono (by simp))

theorem insert (h : fields.Distinct) (value : Json) :
    EditsOnly [key] fields (fields.insert key value) :=
  ⟨h.insert key value, fun _ hother ↦
    Fields.get?_insert_of_ne _ (List.ne_of_not_mem_cons hother) value⟩

theorem convertMapping (h : fields.Distinct) {named : Bool}
    (hout : convertMapping keywords fields key = .ok (out, named)) :
    EditsOnly [key] fields out := by
  rw [Schema.convertMapping] at hout
  split at hout
  · obtain ⟨value, -, hout⟩ := bind_eq_ok_iff.1 hout
    rw [← (Prod.mk.inj (pure_eq_ok_iff.1 hout)).1]
    exact replaceLast h value
  · rw [← (Prod.mk.inj (Except.ok.inj hout)).1]
    exact remove h
  · rw [← (Prod.mk.inj (Except.ok.inj hout)).1]
    exact refl [key] h

theorem addRequired (h : fields.Distinct) (names : List String) :
    EditsOnly ["required"] fields (addRequired fields names) := by
  rw [Schema.addRequired]
  split
  · exact refl _ h
  · exact replaceLast h _

theorem convertObject (h : fields.Distinct) (hout : convertObject keywords fields = .ok out) :
    EditsOnly ["properties", "patternProperties", "required", "additionalProperties"]
      fields out := by
  obtain ⟨⟨listed, named⟩, hlisted, hout⟩ := bind_eq_ok_iff.1 hout
  obtain ⟨⟨closed, patterned⟩, hclosed, hout⟩ := bind_eq_ok_iff.1 hout
  have hlisted := convertMapping h hlisted
  have hrequired := addRequired hlisted.distinct
    (requiredNames (((keywords.get? "properties").bind (·.written.object?)).getD []))
  have hclosed := convertMapping hrequired.distinct hclosed
  have hedits : EditsOnly ["properties", "patternProperties", "required", "additionalProperties"]
      fields closed := (hlisted.mono (by simp)).trans ((hrequired.mono (by simp)).trans
    (hclosed.mono (by simp)))
  rw [← pure_eq_ok_iff.1 hout]
  split
  · exact hedits.trans ((insert hclosed.distinct _).mono (by simp))
  · exact hedits

theorem convertArray (h : fields.Distinct) (hout : convertArray keywords fields = .ok out) :
    EditsOnly ["items"] fields out := convertSchemaKeyword h hout

theorem addToAllOf (h : fields.Distinct) (format : String) (entries : List Json) :
    EditsOnly ["allOf"] fields (withFormat.addToAllOf format fields entries) := by
  rw [withFormat.addToAllOf]
  exact replaceLast h _

theorem withFormat (h : fields.Distinct) (format : String) :
    EditsOnly ["format", "allOf"] fields (withFormat fields format) := by
  have hrest : EditsOnly ["format", "allOf"] fields (fields.remove "format") :=
    (remove h).mono (by simp)
  have hformat : EditsOnly ["format", "allOf"] fields
      ((fields.remove "format").insert "format" (.string format)) :=
    hrest.trans ((insert hrest.distinct _).mono (by simp))
  have hallOf : ∀ entries, EditsOnly ["format", "allOf"] fields
      (withFormat.addToAllOf format (fields.remove "format") entries) := fun entries ↦
    hrest.trans ((addToAllOf hrest.distinct format entries).mono (by simp))
  unfold Schema.withFormat
  dsimp only
  split
  · split
    · exact hallOf []
    · exact hformat
  · split
    · exact hformat
    · exact hallOf _

theorem settleDefault (h : fields.Distinct) :
    EditsOnly ["default"] fields (settleDefault fields) := by
  rw [Schema.settleDefault]
  split
  · split
    · exact remove h
    · exact replaceLast h _
  · exact refl _ h

/-- Settling the markers may turn `required` into a format. -/
theorem settleMarkers (h : fields.Distinct) :
    EditsOnly ["required", "format", "allOf", "default"] fields (settleMarkers fields) := by
  have hremove : EditsOnly ["required", "format", "allOf", "default"] fields
      (fields.remove "required") := (remove h).mono (by simp)
  have hdefault : ∀ next, EditsOnly ["required", "format", "allOf", "default"] fields next →
      EditsOnly ["required", "format", "allOf", "default"] fields (Schema.settleDefault next) :=
    fun next hnext ↦ hnext.trans ((settleDefault hnext.distinct).mono (by simp))
  rw [Schema.settleMarkers]
  split
  · split
    · exact hremove
    · exact refl _ h
  · refine hdefault _ ?_
    split
    · exact hremove.trans ((withFormat hremove.distinct "required").mono (by simp))
    · exact hremove
    · exact refl _ h

theorem convertTypes (h : fields.Distinct) {types : List Json}
    (htype : fields.get? "type" = some (.array types))
    (hout : convertType options keywords fields = .ok out) :
    EditsOnly ["properties", "patternProperties", "required", "additionalProperties", "items"]
      fields out := by
  rw [convertType_of_types htype] at hout
  obtain ⟨next, hnext, hout⟩ := bind_eq_ok_iff.1 hout
  have hobject : EditsOnly ["properties", "patternProperties", "required", "additionalProperties",
      "items"] fields next := by
    split at hnext
    · exact (convertObject h hnext).mono (by simp)
    · rw [← Except.ok.inj hnext]
      exact refl _ h
  split at hout
  · exact hobject.trans ((convertArray hobject.distinct hout).mono (by simp))
  · rw [← Except.ok.inj hout]
    exact hobject

/-- A type name that is no model changes the type, the keywords that belong to it, or a format. -/
theorem convertTypeName_of_ne_model (h : fields.Distinct) {name : String}
    (hmodel : ∀ model, DeclaredType.ofName name ≠ .model model)
    (hout : convertTypeName options keywords fields name = .ok out) :
    EditsOnly ["type", "properties", "patternProperties", "required", "additionalProperties",
      "items", "format", "allOf"] fields out := by
  rw [Schema.convertTypeName] at hout
  split at hout
  · rename_i type _
    have htype : EditsOnly ["type"] fields (fields.insert "type" (.string type.name)) :=
      insert h _
    cases type with
    | object =>
      exact (htype.mono (by simp)).trans ((convertObject htype.distinct hout).mono (by simp))
    | array =>
      exact (htype.mono (by simp)).trans ((convertArray htype.distinct hout).mono (by simp))
    | _ =>
      rw [← Except.ok.inj hout]
      exact htype.mono (by simp)
  · have htype : EditsOnly ["type"] fields
        (fields.insert "type" (Json.strings ["string", "object"])) := insert h _
    rw [← Except.ok.inj hout]
    exact (htype.mono (by simp)).trans ((withFormat htype.distinct _).mono (by simp))
  · rename_i model hdeclared
    exact absurd hdeclared (hmodel model)

theorem convertTypeName (h : fields.Distinct) {name : String}
    (hout : convertTypeName options keywords fields name = .ok out) :
    EditsOnly ["type", "properties", "patternProperties", "required", "additionalProperties",
      "items", "format", "allOf", "$ref", "instanceof"] fields out := by
  cases hdeclared : DeclaredType.ofName name with
  | model model =>
    rw [Schema.convertTypeName, hdeclared] at hout
    dsimp only at hout
    split at hout
    · have htype : EditsOnly ["type"] fields (fields.insert "type" (.string "object")) := insert h _
      rw [← Except.ok.inj hout]
      exact (htype.mono (by simp)).trans ((insert htype.distinct _).mono (by simp))
    · have htype : EditsOnly ["type"] fields (fields.remove "type") := remove h
      rw [← Except.ok.inj hout]
      exact (htype.mono (by simp)).trans ((insert htype.distinct _).mono (by simp))
  | _ => exact (convertTypeName_of_ne_model h (by simp [hdeclared]) hout).mono (by simp)

end EditsOnly

/-! ## Nodes

Edits compose, and a conversion is a chain of edits up to the point where the node is finished. What
none of them touches is there as it was written. -/

/-- Converting a node converts what it combines and negates, resolves its type, settles its markers
and finishes it. -/
theorem exists_typed_of_convertNode {s : Json}
    (hdistinct : (keywords.mapValues (·.written)).Distinct)
    (h : convertNode options keywords = .ok s) : ∃ combined negated typed,
      compositeKeywords.foldlM (convertComposite keywords) (keywords.mapValues (·.written)) =
          .ok combined ∧
        convertSchemaKeyword keywords combined "not" = .ok negated ∧
          EditsOnly ("not" :: compositeKeywords) (keywords.mapValues (·.written)) negated ∧
            convertType options keywords negated = .ok typed ∧
              finishNode (settleMarkers typed) = s := by
  obtain ⟨combined, hcombined, h⟩ := bind_eq_ok_iff.1 h
  obtain ⟨negated, hnegated, h⟩ := bind_eq_ok_iff.1 h
  obtain ⟨typed, htyped, h⟩ := bind_eq_ok_iff.1 h
  have hcombines := EditsOnly.foldlM_convertComposite hdistinct hcombined
  have hnegates := EditsOnly.convertSchemaKeyword hcombines.distinct hnegated
  exact ⟨combined, negated, typed, hcombined, hnegated,
    (hcombines.mono (by simp)).trans (hnegates.mono (by simp)), htyped, pure_eq_ok_iff.1 h⟩

theorem exists_typed_of_convert {s : Json} (hfields : fields.Distinct)
    (hexplicit : isExplicit fields) (h : convert options (.object fields) = .ok s) :
    ∃ combined negated typed,
      compositeKeywords.foldlM (convertComposite ((conversion options).runKeywords "" fields))
          fields = .ok combined ∧
        convertSchemaKeyword ((conversion options).runKeywords "" fields) combined "not" =
            .ok negated ∧
          EditsOnly ("not" :: compositeKeywords) fields negated ∧
            convertType options ((conversion options).runKeywords "" fields) negated = .ok typed ∧
              finishNode (settleMarkers typed) = s := by
  rw [convert, Pass.run_of_inFull (inFull_of_isExplicit hexplicit)] at h
  have hwritten : Fields.mapValues (·.written) ((conversion options).runKeywords "" fields) =
      fields := Pass.mapValues_runKeywords fields
  have hnode := exists_typed_of_convertNode (by rwa [hwritten]) h
  rwa [hwritten] at hnode

end Schema

end ModelCatalog
