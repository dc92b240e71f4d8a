import ModelCatalog.Proofs.Schema.Agreement
import ModelCatalog.Proofs.Schema.Place

/-!
# What the two passes visit

A pass has a result at a node exactly if it has one at each schema that it visits from there.

## Where they part

Expansion visits every schema that stands in its place, whatever the node is. Conversion visits the
properties of a node and its items only where the node declares their type, and drops or keeps them
unread elsewhere. So a schema may convert and yet have no expansion, and the reason is always a
stray: a schema below a keyword that does not belong to the type of its node (`Strays`).
-/

namespace ModelCatalog

open Outcome

namespace Schema

variable {keywords : Fields Keyword} {fields out : Fields Json} {key : String}
  {options : ConversionOptions}

/-! ## Results at a node

A step fails only if an outcome that it takes over is an error. So whether a node has a result can
be told from the outcomes under its keywords. -/

/-- If the value under a keyword is of a kind, the schemas in it have results. -/
def Compiles (keywords : Fields Keyword) (key : String) (p : Json → Prop) : Prop :=
  ∀ keyword, keywords.get? key = some keyword → p keyword.written → Succeeds keyword.compiled

private theorem succeeds_expandKeyword_iff :
    Succeeds (expandKeyword keywords fields key) ↔
      Compiles keywords key (fun value ↦ expandsInto key value) := by
  rw [expandKeyword, Compiles]
  cases keywords.get? key with
  | none => simp
  | some keyword =>
    by_cases hinto : expandsInto key keyword.written
    · simp [hinto, bind_pure_comp]
    · simp [hinto]

/-- Expansion has a result at a node if it has one wherever it descends. -/
theorem succeeds_expandNode_iff : Succeeds (expandNode keywords) ↔
    ∀ key, Compiles keywords key (fun value ↦ expandsInto key value) := by
  simp only [expandNode, bind_pure_comp, succeeds_map_iff]
  refine (succeeds_foldlM_iff (P := fun key ↦ Compiles keywords key (expandsInto key ·))
    fun _ _ ↦ succeeds_expandKeyword_iff).trans ?_
  exact ⟨fun h key keyword hkey hinto ↦ h key (mem_expandedKeywords hinto) keyword hkey hinto,
    fun h key _ ↦ h key⟩

private theorem succeeds_convertComposite_iff : Succeeds (convertComposite keywords fields key) ↔
    Compiles keywords key (fun value ↦ value.isArray) := by
  rw [Compiles]
  cases hkey : keywords.get? key with
  | none => simp [convertComposite, hkey]
  | some keyword =>
    rw [convertComposite_eq hkey]
    by_cases harray : keyword.written.isArray
    · simp [harray]
    · simp [harray]

theorem succeeds_convertSchemaKeyword_iff : Succeeds (convertSchemaKeyword keywords fields key) ↔
    Compiles keywords key (fun _ ↦ True) := by
  rw [convertSchemaKeyword, Compiles]
  cases keywords.get? key with
  | none => simp
  | some keyword => simp [bind_pure_comp]

private theorem succeeds_convertMapping_iff : Succeeds (convertMapping keywords fields key) ↔
    Compiles keywords key (fun value ↦ value.isObject) := by
  rw [Compiles]
  cases hkey : keywords.get? key with
  | none => simp [convertMapping, hkey]
  | some keyword =>
    rw [convertMapping_eq hkey]
    by_cases hobject : keyword.written.isObject
    · simp [hobject]
    · simp [hobject]

theorem succeeds_convertObject_iff : Succeeds (convertObject keywords fields) ↔
    ∀ key ∈ ["properties", "patternProperties"],
      Compiles keywords key (fun value ↦ value.isObject) := by
  rw [convertObject]
  refine (succeeds_bind_iff_and
    (Q := Compiles keywords "patternProperties" (fun value ↦ value.isObject))
    fun listed _ ↦ ?_).trans ?_
  · dsimp only
    rw [bind_pure_comp, succeeds_map_iff, succeeds_convertMapping_iff]
  · rw [succeeds_convertMapping_iff]
    simp

theorem eq_name_of_ofName {name : String} {type : JsonType}
    (h : DeclaredType.ofName name = .json type) (htype : type ≠ .string) : name = type.name := by
  have hjson : JsonType.ofName? name = some type := by
    rw [DeclaredType.ofName] at h
    split at h
    · rename_i found hfound
      rw [hfound, DeclaredType.json.inj h]
    · split at h <;> cases h
  unfold JsonType.ofName? at hjson
  repeat' split at hjson
  all_goals cases hjson
  all_goals first | assumption | exact absurd rfl htype

/-- A type name makes conversion read the keywords of objects or of arrays, or none. -/
theorem succeeds_convertTypeName_iff {name : String} :
    Succeeds (convertTypeName options keywords fields name) ↔
      (name = "object" → ∀ key ∈ ["properties", "patternProperties"],
        Compiles keywords key (fun value ↦ value.isObject)) ∧
      (name = "array" → Compiles keywords "items" (fun _ ↦ True)) := by
  have hobject : DeclaredType.ofName "object" = .json .object := by decide
  have harray : DeclaredType.ofName "array" = .json .array := by decide
  by_cases hname : name = "object"
  · subst hname
    simp [convertTypeName, hobject, succeeds_convertObject_iff]
  by_cases hname' : name = "array"
  · subst hname'
    simp [convertTypeName, harray, convertArray, succeeds_convertSchemaKeyword_iff]
  · refine iff_of_true ?_ ⟨fun h ↦ absurd h hname, fun h ↦ absurd h hname'⟩
    rw [convertTypeName]
    split
    · rename_i type htype
      cases type with
      | object => exact absurd (eq_name_of_ofName htype (by simp)) hname
      | array => exact absurd (eq_name_of_ofName htype (by simp)) hname'
      | _ => exact succeeds_ok _
    · exact succeeds_ok _
    · split <;> exact succeeds_ok _

private theorem succeeds_convertType_iff : Succeeds (convertType options keywords fields) ↔
    (Declares (.object fields) "object" → ∀ key ∈ ["properties", "patternProperties"],
      Compiles keywords key (fun value ↦ value.isObject)) ∧
    (Declares (.object fields) "array" → Compiles keywords "items" (fun _ ↦ True)) := by
  rw [convertType]
  split
  · rename_i name htype
    rw [succeeds_convertTypeName_iff, declares_iff_of_string htype, declares_iff_of_string htype]
  · rename_i types htype
    rw [declares_iff_of_array htype, declares_iff_of_array htype]
    have hitems : ∀ fields, Succeeds (if types.any (·.isString "array")
        then convertArray keywords fields else .ok fields) ↔
          (types.any (·.isString "array") → Compiles keywords "items" (fun _ ↦ True)) := by
      intro fields
      split
      · simp [*, convertArray, succeeds_convertSchemaKeyword_iff]
      · simp [*]
    dsimp only
    split
    · rename_i hobject
      rw [succeeds_bind_iff_and fun next _ ↦ hitems next, succeeds_convertObject_iff]
      simp [hobject]
    · rename_i hobject
      rw [succeeds_bind_iff_and fun next _ ↦ hitems next]
      simp [hobject]
  · rename_i hstring harray
    have hnone := not_declares rfl hstring harray
    exact iff_of_true (succeeds_ok fields)
      ⟨fun h ↦ absurd h (hnone "object"), fun h ↦ absurd h (hnone "array")⟩

/-- Conversion descends into a value under a keyword of a node. -/
def ConvertsInto (node : Json) (key : String) (value : Json) : Prop :=
  key ∈ compositeKeywords ∧ value.isArray ∨ key = "not" ∨
    key ∈ ["properties", "patternProperties"] ∧ value.isObject ∧ Declares node "object" ∨
      key = "items" ∧ Declares node "array"

private theorem forall_compiles_iff {node : Json} :
    (∀ key, Compiles keywords key (ConvertsInto node key)) ↔
      (∀ key ∈ compositeKeywords, Compiles keywords key (fun value ↦ value.isArray)) ∧
      Compiles keywords "not" (fun _ ↦ True) ∧
      (Declares node "object" → ∀ key ∈ ["properties", "patternProperties"],
        Compiles keywords key (fun value ↦ value.isObject)) ∧
      (Declares node "array" → Compiles keywords "items" (fun _ ↦ True)) := by
  constructor
  · intro h
    refine ⟨fun key hkey keyword hkeyword harray ↦ ?_, fun keyword hkeyword _ ↦ ?_,
      fun hobject key hkey keyword hkeyword hmapping ↦ ?_, fun harray keyword hkeyword _ ↦ ?_⟩
    · exact h key keyword hkeyword (.inl ⟨hkey, harray⟩)
    · exact h "not" keyword hkeyword (.inr (.inl rfl))
    · exact h key keyword hkeyword (.inr (.inr (.inl ⟨hkey, hmapping, hobject⟩)))
    · exact h "items" keyword hkeyword (.inr (.inr (.inr ⟨rfl, harray⟩)))
  · rintro ⟨hcomposites, hnot, hobjects, hitems⟩ key keyword hkeyword hinto
    rcases hinto with ⟨hkey, harray⟩ | rfl | ⟨hkey, hmapping, hobject⟩ | ⟨rfl, harray⟩
    · exact hcomposites key hkey keyword hkeyword harray
    · exact hnot keyword hkeyword trivial
    · exact hobjects hobject key hkey keyword hkeyword hmapping
    · exact hitems harray keyword hkeyword trivial

/-- Conversion has a result at a node if it has one wherever it descends. -/
theorem succeeds_convertNode_iff (hdistinct : (keywords.mapValues (·.written)).Distinct) :
    Succeeds (convertNode options keywords) ↔ ∀ key, Compiles keywords key
      (ConvertsInto (.object (keywords.mapValues (·.written))) key) := by
  rw [convertNode, forall_compiles_iff]
  refine (succeeds_bind_iff_and fun combined hcombined ↦ ?_).trans (and_congr_left' ?_)
  · have hedits := EditsOnly.foldlM_convertComposite hdistinct hcombined
    refine (succeeds_bind_iff_and fun negated hnegated ↦ ?_).trans
      (and_congr_left' succeeds_convertSchemaKeyword_iff)
    -- the type is still as written
    have htype := ((EditsOnly.convertSchemaKeyword hedits.distinct hnegated).get? "type"
      (by decide)).trans (hedits.get? "type" (by decide))
    rw [bind_pure_comp, succeeds_map_iff, succeeds_convertType_iff]
    simp only [Declares, Json.get?, htype]
  · exact succeeds_foldlM_iff (P := fun key ↦ Compiles keywords key (fun value ↦ value.isArray))
      fun _ _ ↦ succeeds_convertComposite_iff

/-! ## Results on a tree

On a tree the outcomes are those of the schemas that the node holds, so the conditions can be read
off the schema. -/

/-- Expansion visits the second schema from the first: it stands in the node that the first schema
stands for, in a value that has the shape for it. -/
def Holds (schema part : Json) : Prop :=
  ∃ fields key value, inFull schema = some fields ∧ fields.get? key = some value ∧
    part ∈ schemasUnder key value

/-- The second schema stands in the node that the first stands for, below a keyword that does not
belong to the type of the node: a property of no object, or an item of no array. -/
def Strays (schema part : Json) : Prop :=
  ∃ fields key value, inFull schema = some fields ∧ fields.get? key = some value ∧
    part ∈ schemasUnder key value ∧
      (key ∈ ["properties", "patternProperties"] ∧ ¬Declares (.object fields) "object" ∨
        key = "items" ∧ ¬Declares (.object fields) "array")

theorem Strays.holds {schema part : Json} (h : Strays schema part) : Holds schema part := by
  obtain ⟨fields, key, value, hfull, hvalue, hpart, -⟩ := h
  exact ⟨fields, key, value, hfull, hvalue, hpart⟩

theorem Pass.Extensional.compiles_runKeywords_iff {pass : Pass} (hpass : pass.Extensional)
    {path : String} {p : Json → Prop} : Compiles (pass.runKeywords path fields) key p ↔
      ∀ value, fields.get? key = some value → p value →
        ∀ part ∈ (Role.of key).schemas value, Succeeds (pass.run "" part) := by
  rw [Compiles, get?_runKeywords]
  cases fields.get? key with
  | none => simp
  | some value => simp [hpass.succeeds_onKeyword_iff]

theorem succeeds_expand_iff {v : Json} (hfull : inFull v = some fields) :
    Succeeds (expand v) ↔ ∀ part, Holds v part → Succeeds (expand part) := by
  have hnode : Succeeds (expand v) ↔ ∀ key value, fields.get? key = some value →
      ∀ part ∈ schemasUnder key value, Succeeds (expand part) := by
    rw [expand, Pass.run_of_inFull hfull]
    refine succeeds_expandNode_iff.trans (forall_congr' fun key ↦ ?_)
    rw [extensional_expansion.compiles_runKeywords_iff]
    refine forall₂_congr fun value hvalue ↦ ?_
    rw [schemasUnder_eq]
    by_cases hinto : expandsInto key value
    · simp [hinto, expand]
    · simp [hinto]
  rw [hnode]
  constructor
  · rintro h part ⟨fields', key, value, hfull', hvalue, hpart⟩
    obtain rfl := Option.some.inj (hfull.symm.trans hfull')
    exact h key value hvalue part hpart
  · exact fun h key value hvalue part hpart ↦ h part ⟨fields, key, value, hfull, hvalue, hpart⟩

theorem succeeds_convert_iff {v : Json} (hfull : inFull v = some fields)
    (hdistinct : fields.Distinct) : Succeeds (convert options v) ↔
      ∀ key value, fields.get? key = some value → ConvertsInto (.object fields) key value →
        ∀ part ∈ (Role.of key).schemas value, Succeeds (convert options part) := by
  rw [convert, Pass.run_of_inFull hfull]
  have hwritten : Fields.mapValues (·.written) ((conversion options).runKeywords "" fields) =
      fields := Pass.mapValues_runKeywords fields
  refine (succeeds_convertNode_iff (by rwa [hwritten])).trans (forall_congr' fun key ↦ ?_)
  rw [(extensional_conversion options).compiles_runKeywords_iff, hwritten]
  rfl

/-- What expansion descends into, conversion descends into too, unless the type of the node is
another. -/
theorem convertsInto_or (node : Json) {value part : Json} (h : part ∈ schemasUnder key value) :
    ConvertsInto node key value ∨
      key ∈ ["properties", "patternProperties"] ∧ ¬Declares node "object" ∨
        key = "items" ∧ ¬Declares node "array" := by
  have hitems : key = "items" → ConvertsInto node key value ∨
      key = "items" ∧ ¬Declares node "array" := by
    intro hkey
    by_cases harray : Declares node "array"
    · exact .inl (.inr (.inr (.inr ⟨hkey, harray⟩)))
    · exact .inr ⟨hkey, harray⟩
  unfold schemasUnder at h
  split at h
  · split at h
    · rename_i hkey
      rcases List.mem_cons.1 hkey with hkey | hkey
      · exact (hitems hkey).imp_right .inr
      · exact .inl (.inl ⟨hkey, rfl⟩)
    · simp at h
  · split at h
    · rename_i hkey
      by_cases hobject : Declares node "object"
      · exact .inl (.inr (.inr (.inl ⟨hkey, rfl, hobject⟩)))
      · exact .inr (.inl ⟨hkey, hobject⟩)
    · split at h
      · rename_i hkey
        rcases List.mem_pair.1 hkey with hkey | hkey
        · exact (hitems hkey).imp_right .inr
        · exact .inl (.inr (.inl hkey))
      · simp at h
  · split at h
    · rename_i hkey
      exact (hitems hkey).imp_right .inr
    · simp at h

/-- Where a schema has an expansion, all schemas that expansion visits have one. -/
theorem succeeds_expand_of_holds {v w : Json} (h : Succeeds (expand v))
    (hw : Relation.ReflTransGen Holds v w) : Succeeds (expand w) := by
  induction hw with
  | refl => exact h
  | tail _ hstep ih =>
    obtain ⟨fields, key, value, hfull, hvalue, hpart⟩ := hstep
    exact (succeeds_expand_iff hfull).1 ih _ ⟨fields, key, value, hfull, hvalue, hpart⟩

/-- **What converts and does not expand.** A schema that converts has an expansion exactly if all
strays in it have one. -/
theorem succeeds_expand_iff_of_convert {v : Json} (hdistinct : v.Distinct)
    (h : Succeeds (convert options v)) : Succeeds (expand v) ↔
      ∀ w part, Relation.ReflTransGen Holds v w → Strays w part → Succeeds (expand part) := by
  constructor
  · exact fun hexpand w part hw hstray ↦ succeeds_expand_of_holds hexpand (.tail hw hstray.holds)
  · intro hstrays
    induction v using induction_inFull with
    | step v ih =>
      cases hfull : inFull v with
      | none =>
        obtain ⟨s, hs⟩ := h
        obtain ⟨value, rfl, -⟩ := Pass.eq_bool_of_inFull hfull hs
        exact ⟨.bool value, by rw [expand, Pass.run]⟩
      | some fields =>
        have hfields := distinct_of_inFull hdistinct hfull
        refine (succeeds_expand_iff hfull).2 fun part hholds ↦ ?_
        obtain ⟨fields', key, value, hfull', hvalue, hunder⟩ := hholds
        obtain rfl := Option.some.inj (hfull.symm.trans hfull')
        rcases convertsInto_or (.object fields) hunder with hinto | hstray
        · -- conversion has been there, and the strays below are strays of the whole
          have hpart : part ∈ (Role.of key).schemas value := by
            rw [schemasUnder_eq] at hunder
            split at hunder
            · exact hunder
            · simp at hunder
          have hconvert := (succeeds_convert_iff hfull (Json.distinct_object_iff.1 hfields).1).1 h
          have hhas : HasPart (.object fields) part := ⟨key, value, hvalue, hpart⟩
          refine ih fields hfull part hhas (distinct_of_hasPart hfields hhas)
            (hconvert key value hvalue hinto part hpart) fun w part' hw ↦ ?_
          exact hstrays w part' (.head ⟨fields, key, value, hfull, hvalue, hunder⟩ hw)
        · exact hstrays v part .refl ⟨fields, key, value, hfull, hvalue, hunder, hstray⟩

end Schema

end ModelCatalog
