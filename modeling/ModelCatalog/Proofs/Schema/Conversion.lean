import ModelCatalog.Proofs.Json.Distinct
import ModelCatalog.Proofs.Schema.Expansion
import ModelCatalog.Proofs.Schema.Markers

/-!
# Conversion yields well-formed schemas

A node is converted by editing its keywords one after another. `Stage` describes the keywords in the
middle of this: some are pending and still as written, and all others fit into a well-formed node.
Each step takes the next keyword from the pending ones, until the type of the node is resolved and
only its markers are left.
-/

namespace ModelCatalog

open Outcome

namespace Schema

/-- What conversion may assume of the keywords of a node. -/
structure Ready (keywords : Fields Keyword) : Prop where
  distinct : (keywords.mapValues (·.written)).Distinct
  placed : PlacedNode (.object (keywords.mapValues (·.written)))
  parts : ∀ key keyword, keywords.get? key = some keyword →
    expandsInto key keyword.written ∨ key = "not" → ∀ value, keyword.compiled = .ok value →
      WellFormedParts key value
  list : ∀ key keyword, keywords.get? key = some keyword → Role.of key = .composite →
    keyword.written.isArray → ∀ value, keyword.compiled = .ok value → value.isArray

/-- The keywords of a node that is being converted: those that are pending are as written, and all
others fit. -/
structure Stage (keywords : Fields Keyword) (pending : List String) (fields : Fields Json) :
    Prop where
  distinct : fields.Distinct
  written : ∀ key ∈ pending, fields.get? key = (keywords.get? key).map (·.written)
  fit : ∀ key ∉ pending, ∀ value, fields.get? key = some value → Fit key value
  reference : fields.get? "$ref" = none ∨ fields.get? "type" = none

variable {keywords : Fields Keyword} {pending : List String} {fields out : Fields Json}
  {key : String}

namespace Stage

/-- A step that edits one keyword. -/
theorem edit {rest : List String} (h : Stage keywords pending fields) (hkey : key ∉ rest)
    (hrest : ∀ other, other ≠ key → (other ∈ rest ↔ other ∈ pending)) (hdistinct : out.Distinct)
    (hother : ∀ other, other ≠ key → out.get? other = fields.get? other)
    (hfit : ∀ value, out.get? key = some value → Fit key value)
    (href : out.get? "$ref" = none ∨ out.get? "type" = none) : Stage keywords rest out := by
  refine ⟨hdistinct, fun other hmem ↦ ?_, fun other hmem value hvalue ↦ ?_, href⟩
  · have hne : other ≠ key := fun heq ↦ hkey (heq ▸ hmem)
    rw [hother other hne]
    exact h.written other ((hrest other hne).1 hmem)
  · by_cases hne : other = key
    · subst hne
      exact hfit value hvalue
    · rw [hother other hne] at hvalue
      exact h.fit other (fun hpending ↦ hmem ((hrest other hne).2 hpending)) value hvalue

/-- A pending keyword that fits as it is needs no step. -/
theorem accept (h : Stage keywords (key :: pending) fields)
    (hfit : ∀ value, fields.get? key = some value → Fit key value) :
    Stage keywords pending fields := by
  refine ⟨h.distinct, fun other hmem ↦ h.written other (List.mem_cons_of_mem _ hmem),
    fun other hmem value hvalue ↦ ?_, h.reference⟩
  by_cases heq : other = key
  · subst heq
    exact hfit value hvalue
  · exact h.fit other (by simp [heq, hmem]) value hvalue

theorem skip (h : Stage keywords (key :: pending) fields) (hkey : keywords.get? key = none) :
    Stage keywords pending fields :=
  h.accept fun value hvalue ↦ by simp [h.written key (by simp), hkey] at hvalue

theorem remove {rest : List String} (h : Stage keywords pending fields) (hkey : key ∉ rest)
    (hrest : ∀ other, other ≠ key → (other ∈ rest ↔ other ∈ pending)) :
    Stage keywords rest (fields.remove key) := by
  refine h.edit hkey hrest (h.distinct.remove key)
    (fun _ hne ↦ Fields.get?_remove_of_ne h.distinct hne) (fun value hvalue ↦ ?_)
    (h.reference.imp (fun href ↦ ?_) fun htype ↦ ?_)
  · simp [Fields.get?_remove_self h.distinct] at hvalue
  · simp [Fields.get?_remove h.distinct, href]
  · simp [Fields.get?_remove h.distinct, htype]

theorem drop (h : Stage keywords (key :: pending) fields) (hkey : key ∉ pending) :
    Stage keywords pending (fields.remove key) :=
  h.remove hkey fun _ hne ↦ (List.mem_cons.trans (or_iff_right hne)).symm

theorem insert (h : Stage keywords pending fields) (hkey : key ∉ pending)
    (hreference : key ∉ ["$ref", "type"]) {value : Json} (hfit : Fit key value) :
    Stage keywords pending (fields.insert key value) := by
  have hne : ∀ other ∈ ["$ref", "type"], other ≠ key := fun other hother heq ↦
    hreference (heq ▸ hother)
  refine h.edit hkey (fun _ _ ↦ Iff.rfl) (h.distinct.insert key value)
    (fun _ hne ↦ Fields.get?_insert_of_ne _ hne value) (fun held hheld ↦ ?_) ?_
  · rw [Fields.get?_insert_self] at hheld
    exact Option.some.inj hheld ▸ hfit
  · rw [Fields.get?_insert_of_ne _ (hne _ (by simp)), Fields.get?_insert_of_ne _ (hne _ (by simp))]
    exact h.reference

/-- The schemas in the value of a pending keyword may be replaced. -/
theorem replace (h : Stage keywords (key :: pending) fields) (hkey : key ∉ pending)
    (hrole : Role.of key ≠ .plain) {value : Json} (hparts : WellFormedParts key value)
    (hlist : Role.of key = .composite → value.isArray) :
    Stage keywords pending (replaceLast fields key value) := by
  have hreference : key ∉ ["$ref", "type"] := by
    intro hmem
    rcases List.mem_pair.1 hmem with rfl | rfl
    · exact hrole (by decide)
    · exact hrole (by decide)
  refine (h.drop hkey).insert hkey hreference ⟨hparts, ?_, ?_⟩
  · rintro rfl
    exact hlist (by decide)
  · rintro rfl
    exact absurd (by decide) hrole

/-! ### Keywords that hold schemas -/

theorem composite (hready : Ready keywords) (h : Stage keywords (key :: pending) fields)
    (hkey : key ∉ pending) (hrole : Role.of key = .composite)
    (hout : convertComposite keywords fields key = .ok out) : Stage keywords pending out := by
  rw [convertComposite] at hout
  split at hout
  · rename_i items compiled hkeyword
    obtain ⟨value, hvalue, hout⟩ := bind_eq_ok_iff.1 hout
    rw [← pure_eq_ok_iff.1 hout]
    have hinto : expandsInto key (.array items) := by
      simp [expandsInto, hrole]
    exact h.replace hkey (by simp [hrole]) (hready.parts key _ hkeyword (.inl hinto) value hvalue)
      fun _ ↦ hready.list key _ hkeyword hrole rfl value hvalue
  · obtain rfl := Except.ok.inj hout
    exact h.drop hkey
  · rename_i hkeyword
    obtain rfl := Except.ok.inj hout
    exact h.skip hkeyword

/-- A single schema is converted, and no other keyword changes. -/
theorem schemaKeyword (hready : Ready keywords) (h : Stage keywords (key :: pending) fields)
    (hkey : key ∉ pending) (hschema : key = "items" ∨ key = "not")
    (hout : convertSchemaKeyword keywords fields key = .ok out) :
    Stage keywords pending out ∧ ∀ other, other ≠ key → out.get? other = fields.get? other := by
  have hrole : Role.of key = .items ∨ Role.of key = .negation := by
    rcases hschema with rfl | rfl <;> decide
  rw [convertSchemaKeyword] at hout
  split at hout
  · rename_i keyword hkeyword
    obtain ⟨value, hvalue, hout⟩ := bind_eq_ok_iff.1 hout
    rw [← pure_eq_ok_iff.1 hout]
    have hinto : expandsInto key keyword.written ∨ key = "not" := by
      refine hschema.imp_left ?_
      rintro rfl
      simp [expandsInto, Role.of, compositeKeywords]
    refine ⟨h.replace hkey ?_ (hready.parts key keyword hkeyword hinto value hvalue) ?_,
      fun _ hne ↦ get?_replaceLast_of_ne h.distinct hne value⟩
    · rcases hrole with hrole | hrole <;> simp [hrole]
    · rcases hrole with hrole | hrole <;> simp [hrole]
  · rename_i hkeyword
    obtain rfl := Except.ok.inj hout
    exact ⟨h.skip hkeyword, fun _ _ ↦ rfl⟩

/-- A mapping of properties is converted, and no other keyword changes. If there is none, there is
no value under the keyword any more. -/
theorem mapping (hready : Ready keywords) (h : Stage keywords (key :: pending) fields)
    (hkey : key ∉ pending) (hrole : Role.of key = .properties) {named : Bool}
    (hout : convertMapping keywords fields key = .ok (out, named)) :
    Stage keywords pending out ∧ (∀ other, other ≠ key → out.get? other = fields.get? other) ∧
      (named = false → out.get? key = none) := by
  rw [convertMapping] at hout
  split at hout
  · rename_i properties compiled hkeyword
    obtain ⟨value, hvalue, hout⟩ := bind_eq_ok_iff.1 hout
    obtain ⟨rfl, rfl⟩ := Prod.mk.inj (pure_eq_ok_iff.1 hout)
    have hinto : expandsInto key (.object properties) := by
      simp [expandsInto, hrole]
    refine ⟨h.replace hkey (by simp [hrole])
      (hready.parts key _ hkeyword (.inl hinto) value hvalue) (by simp [hrole]),
        fun _ hne ↦ get?_replaceLast_of_ne h.distinct hne value, by simp⟩
  · obtain ⟨rfl, rfl⟩ := Prod.mk.inj (Except.ok.inj hout)
    exact ⟨h.drop hkey, fun _ hne ↦ Fields.get?_remove_of_ne h.distinct hne,
      fun _ ↦ Fields.get?_remove_self h.distinct key⟩
  · rename_i hkeyword
    obtain ⟨rfl, rfl⟩ := Prod.mk.inj (Except.ok.inj hout)
    refine ⟨h.skip hkeyword, fun _ _ ↦ rfl, fun _ ↦ ?_⟩
    rw [h.written key (by simp), hkeyword]
    rfl

/-- Listing required names touches nothing but their list. -/
theorem addRequired (h : Stage keywords pending fields) (hpending : "required" ∉ pending)
    (names : List String) : Stage keywords pending (addRequired fields names) ∧
      ∀ other, other ≠ "required" → (addRequired fields names).get? other = fields.get? other := by
  rw [Schema.addRequired]
  split
  · exact ⟨h, fun _ _ ↦ rfl⟩
  · refine ⟨(h.remove hpending fun _ _ ↦ Iff.rfl).insert hpending (by decide)
      (fit_of_plain (by decide) (by decide) _),
        fun _ hne ↦ get?_replaceLast_of_ne h.distinct hne _⟩

/-- Objects that list their properties end up closed. -/
theorem object (hready : Ready keywords)
    (h : Stage keywords ["properties", "patternProperties", "items"] fields)
    (hout : convertObject keywords fields = .ok out) :
    Stage keywords ["items"] out ∧ Closed out := by
  obtain ⟨⟨listed, named⟩, hlisted, hout⟩ := bind_eq_ok_iff.1 hout
  obtain ⟨hstage, -, hnamed⟩ := h.mapping hready (by decide) (by decide) hlisted
  obtain ⟨hstage, hother⟩ := hstage.addRequired (by decide)
    (requiredNames (((keywords.get? "properties").bind (·.written.object?)).getD []))
  obtain ⟨⟨closed, patterned⟩, hclosed, hout⟩ := bind_eq_ok_iff.1 hout
  obtain ⟨hstage, hother', hpatterned⟩ := hstage.mapping hready (by decide) (by decide) hclosed
  have hproperties : named = false → closed.get? "properties" = none := fun h ↦ by
    rw [hother' _ (by decide), hother _ (by decide)]
    exact hnamed h
  rw [← pure_eq_ok_iff.1 hout]
  split
  · refine ⟨hstage.insert (by decide) (by decide) (fit_of_plain (by decide) (by decide) _),
      fun key _ _ ↦ ?_⟩
    rw [Fields.get?_insert_self]
    rfl
  · -- a node that stays open has neither mapping
    rename_i hopen
    refine ⟨hstage, fun key hkey hsome ↦ ?_⟩
    by_contra hadditional
    rw [Fields.contains, Option.not_isSome_iff_eq_none.1 hadditional] at hopen
    have hnone : named = false ∧ patterned = false := by simpa using hopen
    rcases List.mem_pair.1 hkey with rfl | rfl
    · simp [hproperties hnone.1] at hsome
    · simp [hpatterned hnone.2] at hsome

theorem absent (h : Stage keywords ["properties", "patternProperties", "items"] fields)
    (hproperties : ∀ key ∈ ["properties", "patternProperties"], keywords.get? key = none) :
    Stage keywords ["items"] fields ∧ Closed fields := by
  refine ⟨(h.skip (hproperties _ (by simp))).skip (hproperties _ (by simp)),
    fun key hkey hsome ↦ ?_⟩
  rw [h.written key (by rcases List.mem_pair.1 hkey with rfl | rfl <;> decide),
    hproperties key hkey] at hsome
  simp at hsome

theorem converted (h : Stage keywords [] fields) (hclosed : Closed fields) : Converted fields :=
  ⟨h.distinct, fun key value hvalue ↦ h.fit key (by simp) value hvalue, h.reference, hclosed⟩

end Stage

/-! ## The type of a node

When it comes to the type of a node, all keywords that belong to a type are still pending. Those of
the node's own type are converted, and the others must not be there. -/

section

variable {name : String} {types : List Json}

theorem declares_iff_of_string (htype : fields.get? "type" = some (.string name)) {other : String} :
    Declares (.object fields) other ↔ name = other := by
  simp [Declares, htype]

theorem declares_iff_of_array (htype : fields.get? "type" = some (.array types)) {other : String} :
    Declares (.object fields) other ↔ types.any (·.isString other) := by
  simp [Declares, htype]

theorem not_declares {type : Option Json} (htype : fields.get? "type" = type)
    (hstring : ∀ name, type ≠ some (.string name)) (harray : ∀ types, type ≠ some (.array types))
    (other : String) : ¬Declares (.object fields) other := by
  rintro ⟨held, hheld, rfl | ⟨types, rfl, -⟩⟩
  · exact hstring other (htype ▸ hheld)
  · exact harray types (htype ▸ hheld)

end

namespace Ready

theorem get?_written (key : String) : (keywords.mapValues (·.written)).get? key =
    (keywords.get? key).map (·.written) := Fields.get?_mapValues _ keywords key

theorem get?_properties_eq_none (h : Ready keywords)
    (hobject : ¬Declares (.object (keywords.mapValues (·.written))) "object") :
    ∀ key ∈ ["properties", "patternProperties"], keywords.get? key = none := by
  intro key hkey
  by_contra hsome
  refine hobject (h.placed.properties key hkey ?_)
  rw [Json.get?, get?_written]
  simpa using Option.isSome_iff_ne_none.2 hsome

theorem get?_items_eq_none (h : Ready keywords)
    (harray : ¬Declares (.object (keywords.mapValues (·.written))) "array") :
    keywords.get? "items" = none := by
  by_contra hsome
  refine harray (h.placed.items ?_)
  rw [Json.get?, get?_written]
  simpa using Option.isSome_iff_ne_none.2 hsome

end Ready

namespace Stage

/-- What is left of a node after its properties: its items, which only arrays have. -/
theorem array (hready : Ready keywords) (h : Stage keywords ["items"] fields)
    (hclosed : Closed fields) (hout : convertArray keywords fields = .ok out) : Converted out := by
  obtain ⟨hstage, hother⟩ := h.schemaKeyword hready (by decide) (.inl rfl) hout
  refine hstage.converted fun key hkey hsome ↦ ?_
  have hne : key ≠ "items" := by
    rcases List.mem_pair.1 hkey with rfl | rfl <;> decide
  rw [hother key hne] at hsome
  rw [hother _ (by decide)]
  exact hclosed key hkey hsome

theorem resolve (h : Stage keywords ("type" :: pending) fields) (hkey : "type" ∉ pending)
    (htype : fields.get? "type" ≠ none) {value : Json} (hfit : Fit "type" value) :
    Stage keywords pending (fields.insert "type" value) := by
  refine h.edit hkey (fun _ hne ↦ (List.mem_cons.trans (or_iff_right hne)).symm)
    (h.distinct.insert "type" value) (fun _ hne ↦ Fields.get?_insert_of_ne _ hne value)
    (fun held hheld ↦ ?_) (.inl ?_)
  · rw [Fields.get?_insert_self] at hheld
    exact Option.some.inj hheld ▸ hfit
  · rw [Fields.get?_insert_of_ne _ (by decide)]
    exact h.reference.resolve_right htype

end Stage

private theorem fit_type {value : Json}
    (hvalue : ∀ name, value = .string name → name ∈ validTypeNames) : Fit "type" value :=
  ⟨wellFormedParts_of_plain (by decide) value, by simp, fun _ ↦ hvalue⟩

/-- Resolving a type name, with all keywords that belong to a type still pending. -/
theorem converted_of_convertTypeName {options : ConversionOptions} {name : String}
    (hready : Ready keywords)
    (h : Stage keywords ["type", "properties", "patternProperties", "items"] fields)
    (htype : fields.get? "type" = some (.string name))
    (hout : convertTypeName options keywords fields name = .ok out) : Converted out := by
  have hwritten : (keywords.mapValues (·.written)).get? "type" = some (.string name) := by
    rw [Ready.get?_written, ← h.written "type" (by simp), htype]
  have hproperties : name ≠ "object" →
      ∀ key ∈ ["properties", "patternProperties"], keywords.get? key = none := fun hne ↦
    hready.get?_properties_eq_none (mt (declares_iff_of_string hwritten).1 hne)
  have hitems : name ≠ "array" → keywords.get? "items" = none := fun hne ↦
    hready.get?_items_eq_none (mt (declares_iff_of_string hwritten).1 hne)
  have hne : ∀ other, DeclaredType.ofName name ≠ DeclaredType.ofName other → name ≠ other :=
    fun other h heq ↦ h (heq ▸ rfl)
  -- a node of another type than those of objects and arrays has no keywords that belong to a type
  have hplain : DeclaredType.ofName name ≠ .json .object → DeclaredType.ofName name ≠ .json .array →
      ∀ {plain : Fields Json},
        Stage keywords ["properties", "patternProperties", "items"] plain → Converted plain := by
    intro hobject harray plain hstage
    obtain ⟨hstage, hclosed⟩ := hstage.absent (hproperties (hne "object" hobject))
    exact (hstage.skip (hitems (hne "array" harray))).converted hclosed
  have hpresent : fields.get? "type" ≠ none := by simp [htype]
  rw [convertTypeName] at hout
  split at hout
  · -- a type of validation schemas
    rename_i type hdeclared
    rw [hdeclared] at hplain hne
    have hvalid : type.name ∈ validTypeNames := by cases type <;> decide
    have hstage := h.resolve (by decide) hpresent
      (fit_type fun other heq ↦ Json.string.inj heq ▸ hvalid)
    split at hout
    · obtain ⟨hstage, hclosed⟩ := hstage.object hready hout
      exact (hstage.skip (hitems (hne "array" (by decide)))).converted hclosed
    · obtain ⟨hstage, hclosed⟩ := hstage.absent (hproperties (hne "object" (by decide)))
      exact hstage.array hready hclosed hout
    · rename_i hobject harray
      obtain rfl := Except.ok.inj hout
      exact hplain (by simpa using hobject) (by simpa using harray) hstage
  · -- a date: text in the format of dates, or an object
    rename_i hdeclared
    rw [hdeclared] at hplain
    obtain rfl := Except.ok.inj hout
    refine (hplain (by simp) (by simp) (h.resolve (by decide) hpresent (fit_type ?_))).withFormat _
    simp [Json.strings]
  · -- a model: an object of a class, or a reference in the place of the type
    rename_i model hdeclared
    rw [hdeclared] at hplain
    split at hout
    · obtain rfl := Except.ok.inj hout
      have hstage := h.resolve (by decide) hpresent
        (fit_type fun other heq ↦ Json.string.inj heq ▸ (by decide : "object" ∈ validTypeNames))
      exact (hplain (by simp) (by simp) hstage).insert (by decide) (by decide)
        (fit_of_plain (by decide) (by decide) _)
    · obtain rfl := Except.ok.inj hout
      refine (hplain (by simp) (by simp) (h.drop (by decide))).insert_of_reference (by decide)
        (fit_of_plain (by decide) (by decide) _) (.inr ?_)
      rw [Fields.get?_insert_of_ne _ (by decide), Fields.get?_remove_self h.distinct]

/-- Resolving the type of a node. -/
theorem converted_of_convertType {options : ConversionOptions} (hready : Ready keywords)
    (h : Stage keywords ["type", "properties", "patternProperties", "items"] fields)
    (hout : convertType options keywords fields = .ok out) : Converted out := by
  have hwritten : fields.get? "type" = (keywords.mapValues (·.written)).get? "type" := by
    rw [Ready.get?_written, h.written "type" (by simp)]
  rw [convertType] at hout
  split at hout
  · rename_i name htype
    exact converted_of_convertTypeName hready h htype hout
  · rename_i types htype
    have hdeclares : ∀ other, Declares (.object (keywords.mapValues (·.written))) other ↔
        types.any (·.isString other) := fun _ ↦ declares_iff_of_array (hwritten ▸ htype)
    have hstage := h.accept fun value hvalue ↦ fit_type fun name hname ↦ by
      simp [htype, hname] at hvalue
    -- each of the two parts is skipped where its type is not in the list
    obtain ⟨next, ⟨hstage, hclosed⟩, hout⟩ : ∃ next, (Stage keywords ["items"] next ∧ Closed next) ∧
        (if types.any (·.isString "array") then convertArray keywords next else .ok next) =
          .ok out := by
      dsimp only at hout
      split at hout
      · obtain ⟨next, hnext, hout⟩ := bind_eq_ok_iff.1 hout
        exact ⟨next, hstage.object hready hnext, hout⟩
      · rename_i hobject
        obtain ⟨next, hnext, hout⟩ := bind_eq_ok_iff.1 hout
        obtain rfl := Except.ok.inj hnext
        exact ⟨fields, hstage.absent
          (hready.get?_properties_eq_none (mt (hdeclares "object").1 hobject)), hout⟩
    split at hout
    · exact hstage.array hready hclosed hout
    · rename_i harray
      obtain rfl := Except.ok.inj hout
      exact (hstage.skip (hready.get?_items_eq_none (mt (hdeclares "array").1 harray))).converted
        hclosed
  · -- no type is declared, so no keyword belongs to one
    rename_i hstring harray
    obtain rfl := Except.ok.inj hout
    have hnone := not_declares hwritten.symm hstring harray
    have hstage := h.accept fun value hvalue ↦ fit_type fun name hname ↦
      absurd (hname ▸ hvalue) (hstring name)
    obtain ⟨hstage, hclosed⟩ := hstage.absent (hready.get?_properties_eq_none (hnone "object"))
    exact (hstage.skip (hready.get?_items_eq_none (hnone "array"))).converted hclosed

/-- **Converting a node.** -/
theorem everywhere_of_convertNode {options : ConversionOptions} {s : Json} (hready : Ready keywords)
    (h : convertNode options keywords = .ok s) : Everywhere WellFormedNode s := by
  -- before the first step nothing has been edited
  have hstart : Stage keywords ["allOf", "anyOf", "oneOf", "not", "type", "properties",
      "patternProperties", "items"] (keywords.mapValues (·.written)) := by
    refine ⟨hready.distinct, fun key _ ↦ Ready.get?_written key, fun key hkey value _ ↦ ?_,
      hready.placed.reference⟩
    simp only [List.mem_cons, List.not_mem_nil, or_false, not_or] at hkey
    refine fit_of_plain ?_ ?_ value
    · simp [Role.of, compositeKeywords, hkey]
    · simp [hkey]
  obtain ⟨combined, hcombined, h⟩ := bind_eq_ok_iff.1 h
  obtain ⟨afterAll, hall, hcombined⟩ := bind_eq_ok_iff.1 hcombined
  obtain ⟨afterAny, hany, hcombined⟩ := bind_eq_ok_iff.1 hcombined
  obtain ⟨afterOne, hone, hcombined⟩ := bind_eq_ok_iff.1 hcombined
  obtain rfl := pure_eq_ok_iff.1 hcombined
  obtain ⟨negated, hnot, h⟩ := bind_eq_ok_iff.1 h
  obtain ⟨typed, htyped, h⟩ := bind_eq_ok_iff.1 h
  have hstage := hstart.composite hready (by decide) (by decide) hall
  have hstage := hstage.composite hready (by decide) (by decide) hany
  have hstage := hstage.composite hready (by decide) (by decide) hone
  obtain ⟨hstage, -⟩ := hstage.schemaKeyword hready (by decide) (.inr rfl) hnot
  rw [← pure_eq_ok_iff.1 h]
  exact (converted_of_convertType hready hstage htyped).settled.everywhere_finishNode

end Schema

end ModelCatalog
