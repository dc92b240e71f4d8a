import ModelCatalog.Proofs.Schema.Conversion

/-!
# Well-placed schemas compile to well-formed ones

Expansion and conversion visit the same schemas. So where all keywords of the expanded schema are
well placed, each node meets what its conversion assumes, and the validation schema is well-formed
at every place.
-/

namespace ModelCatalog

open Outcome

namespace Schema

/-! ## Nodes without repeated keywords -/

private theorem distinct_of_mem_schemas {role : Role} {value part : Json} (h : value.Distinct)
    (hpart : part ∈ role.schemas value) : part.Distinct := by
  unfold Role.schemas at hpart
  split at hpart
  · exact Json.distinct_array_iff.1 h part hpart
  · obtain ⟨entry, hentry, rfl⟩ := List.mem_map.1 hpart
    exact (Json.distinct_object_iff.1 h).2 entry hentry
  · exact Json.distinct_array_iff.1 h part hpart
  · exact List.mem_singleton.1 hpart ▸ h
  · exact List.mem_singleton.1 hpart ▸ h
  · simp at hpart

theorem distinct_of_hasPart {fields : Fields Json} {part : Json} (h : (Json.object fields).Distinct)
    (hpart : HasPart (.object fields) part) : part.Distinct := by
  obtain ⟨key, value, hvalue, hmem⟩ := hpart
  exact distinct_of_mem_schemas (h.of_get? hvalue) hmem

private theorem distinct_listOf {items : Json} (h : items.Distinct) :
    (Json.object (listOf items)).Distinct := by
  simp [listOf, h]

theorem distinct_of_inFull {v : Json} {fields : Fields Json} (h : v.Distinct)
    (hfull : inFull v = some fields) : (Json.object fields).Distinct := by
  cases standsFor_of_inFull hfull with
  | name name => simp [ofName]
  | list item => exact distinct_listOf (Json.distinct_array_iff.1 h item (by simp))
  | alternatives first second rest =>
    refine distinct_listOf (Json.distinct_object_iff.2 ⟨?_, ?_⟩)
    · simp [anyOf]
    · simpa [anyOf] using h
  | explicit => exact h
  | properties =>
    refine Json.distinct_object_iff.2 ⟨?_, ?_⟩
    · simp [closedObject]
    · simpa [closedObject] using h

/-! ## Nodes are mappings -/

private theorem isObject_finishNode (fields : Fields Json) : (finishNode fields).isObject := by
  unfold finishNode allowNull
  dsimp only
  repeat' split
  all_goals rfl

private theorem isObject_of_convertNode {options : ConversionOptions} {keywords : Fields Keyword}
    {s : Json} (h : convertNode options keywords = .ok s) : s.isObject := by
  obtain ⟨combined, -, h⟩ := bind_eq_ok_iff.1 h
  obtain ⟨negated, -, h⟩ := bind_eq_ok_iff.1 h
  obtain ⟨typed, -, h⟩ := bind_eq_ok_iff.1 h
  rw [← pure_eq_ok_iff.1 h]
  exact isObject_finishNode _

/-! ## From the expanded schema to the compiled one

The condition is on the expanded schema, but conversion works on the schema as written. Both stand
for nodes with the same keywords, which carries the condition over, node by node. -/

variable {options : ConversionOptions}

/-- A node whose expansion is well placed is ready for conversion, if the schemas inside it compile
to well-formed ones. -/
theorem ready_of_expandNode {fields : Fields Json} {path path' : String} {e : Json}
    (hdistinct : fields.Distinct) (he : expandNode (expansion.runKeywords path fields) = .ok e)
    (hplaced : Everywhere PlacedNode e)
    (ih : ∀ part, HasPart (.object fields) part → ∀ e s, expansion.Yields part e →
      (conversion options).Yields part s → Everywhere PlacedNode e → Everywhere WellFormedNode s) :
    Ready ((conversion options).runKeywords path' fields) := by
  obtain ⟨hroot, hinside⟩ := everywhere_iff.1 hplaced
  have hkeyword : ∀ {key keyword},
      Fields.get? ((conversion options).runKeywords path' fields) key = some keyword →
        ∃ value, fields.get? key = some value ∧ keyword =
          ⟨value, (conversion options).onKeyword (below path' key) (Role.of key) value⟩ := by
    intro key keyword hkey
    rw [Pass.get?_runKeywords, Option.map_eq_some_iff] at hkey
    obtain ⟨value, hvalue, hkeyword⟩ := hkey
    exact ⟨value, hvalue, hkeyword.symm⟩
  refine ⟨?_, ?_, fun key keyword hkey hinto out hout part' hpart' ↦ ?_,
    fun key keyword hkey hcomposite harray out hout ↦ ?_⟩
  · rw [Pass.mapValues_runKeywords]
    exact hdistinct
  · have hplaced := PlacedNode.of_expandNode he hroot
    rw [Pass.mapValues_runKeywords] at hplaced ⊢
    exact hplaced
  · obtain ⟨value, hvalue, rfl⟩ := hkeyword hkey
    obtain ⟨part, hpart, hyields⟩ := exists_left_of_forall₂
      (Pass.forall₂_onKeyword (fun _ _ ↦ isObject_of_convertNode) hout) hpart'
    have hexpanded : Fields.get? (expansion.runKeywords path fields) key =
        some ⟨value, expansion.onKeyword (below path key) (Role.of key) value⟩ := by
      rw [Pass.get?_runKeywords, hvalue]
      rfl
    by_cases hvalue_into : expandsInto key value
    · -- both passes have visited the schema
      obtain ⟨e', he', hget⟩ := get?_of_expandsInto he hexpanded hvalue_into
      obtain ⟨e'', hmem, hyields'⟩ := exists_right_of_forall₂
        (Pass.forall₂_onKeyword (fun _ _ ↦ isObject_of_expandNode) he') hpart
      exact ih part ⟨key, value, hvalue, hpart⟩ e'' part' hyields' hyields
        (hinside e'' ⟨key, e', hget, hmem⟩)
    · -- expansion leaves only a negated truth value alone
      obtain rfl := hinto.resolve_left hvalue_into
      rcases hroot.negation value (get?_of_not_expandsInto he hexpanded hvalue_into) with
        hobject | ⟨b, rfl⟩
      · exact absurd hobject hvalue_into
      · obtain rfl := List.mem_singleton.1 hpart
        obtain ⟨path, hrun⟩ := hyields
        obtain ⟨value, -, rfl⟩ := Pass.eq_bool_of_inFull rfl hrun
        exact everywhere_wellFormed_bool value
  · obtain ⟨value, hvalue, rfl⟩ := hkeyword hkey
    cases value with
    | array items =>
      dsimp only at hout
      rw [hcomposite, Pass.onKeyword] at hout
      obtain ⟨outs, -, rfl⟩ := map_eq_ok_iff.1 hout
      rfl
    | _ => simp [Json.isArray, Json.array?] at harray

private theorem everywhere_of_yields {v e s : Json} (hdistinct : v.Distinct)
    (he : expansion.Yields v e) (hs : (conversion options).Yields v s)
    (hplaced : Everywhere PlacedNode e) :
    Everywhere WellFormedNode s := by
  induction v using induction_inFull generalizing e s with
  | step v ih =>
    obtain ⟨path, he⟩ := he
    obtain ⟨path', hs⟩ := hs
    cases hfull : inFull v with
    | none =>
      obtain ⟨value, -, rfl⟩ := Pass.eq_bool_of_inFull hfull hs
      exact everywhere_wellFormed_bool value
    | some fields =>
      rw [Pass.run_of_inFull hfull] at he hs
      have hfields := distinct_of_inFull hdistinct hfull
      have hdistinct := (Json.distinct_object_iff.1 hfields).1
      refine everywhere_of_convertNode (ready_of_expandNode hdistinct he hplaced
        fun part hpart e s he hs hplaced ↦ ?_) hs
      exact ih fields hfull part hpart (distinct_of_hasPart hfields hpart) he hs hplaced

/-- **Compiling a well-placed schema.** Every place of the validation schema is well-formed,
whatever the options. A schema is held as a map, so no keyword of it stands twice. -/
theorem everywhere_wellFormedNode_of_convert {v s : Json} (hdistinct : v.Distinct)
    (hplaced : WellPlaced v) (h : convert options v = .ok s) : Everywhere WellFormedNode s := by
  obtain ⟨e, he, hplaced⟩ := hplaced
  exact everywhere_of_yields hdistinct ⟨"", he⟩ ⟨"", h⟩ hplaced

/-- The properties of a pet: its owner, whom it may lack, and its birth. -/
def petProperties : Fields Json :=
  [("owner", .object [("type", .string "Person"), ("nullable", .bool true),
      ("required", .bool true)]),
    ("born", .object [("type", .string "date"), ("required", .bool true)])]

theorem everywhere_wellFormedNode_of_convert_petProperties :
    ∃ s, convert ⟨false⟩ (.object petProperties) = .ok s ∧ Everywhere WellFormedNode s := by
  have hdistinct : (Json.object petProperties).Distinct := by
    simp [petProperties]
  have hexpand : expand (.object petProperties) = .ok (.object (closedObject petProperties)) := rfl
  have hplaced : Everywhere PlacedNode (.object (closedObject petProperties)) := by
    refine everywhere_iff.2
      ⟨⟨fun _ _ _ ↦ ⟨_, rfl, .inl rfl⟩, ?_, ?_, .inl rfl⟩, fun part hpart ↦ ?_⟩
    · simp [closedObject]
    · simp [closedObject]
    · have hmem := hasPart_closedObject.1 hpart
      simp only [petProperties, List.map_cons, List.map_nil, List.mem_pair] at hmem
      rcases hmem with rfl | rfl
      · exact everywhere_placedNode (by decide) rfl
      · exact everywhere_placedNode (by decide) rfl
  have hok : (convert ⟨false⟩ (.object petProperties)).toBool = true := by decide +kernel
  cases h : convert ⟨false⟩ (.object petProperties) with
  | error e => simp [h, Except.toBool] at hok
  | ok s => exact ⟨s, rfl, everywhere_wellFormedNode_of_convert hdistinct ⟨_, hexpand, hplaced⟩ h⟩

end Schema

end ModelCatalog
