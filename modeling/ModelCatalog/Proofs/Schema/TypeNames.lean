import ModelCatalog.Proofs.Schema.Compilation
import ModelCatalog.Proofs.Schema.NonNull
import ModelCatalog.Proofs.Schema.Nullability

/-!
# The type names of compiled schemas

A type that is given by one name is resolved: aliases to the JSON type, dates to the types of their
two forms, and models to references. The names in a list of types are kept as they are, so a
compiled schema can name types that JSON Schema does not have, and does so exactly where the list
does, unless the node is a reference, of which nothing else is left.
-/

namespace ModelCatalog

open Outcome

namespace Schema

/-- All types that a compiled node names, at its root or in the alternative to `null` that it has
become, are types of JSON Schema. -/
def NamesJsonTypes (schema : Json) : Prop :=
  ∀ node ∈ [schema, nonNull schema], ∀ name, Declares node name → name ∈ validTypeNames

variable {options : ConversionOptions} {keywords : Fields Keyword} {fields out : Fields Json}
  {s : Json}

private theorem namesJsonTypes_iff_nonNull {schema : Json} : NamesJsonTypes schema ↔
    ∀ name, Declares (nonNull schema) name → name ∈ validTypeNames := by
  refine ⟨fun h ↦ h _ (by simp), fun h node hnode name hname ↦ h name ?_⟩
  rcases List.mem_pair.1 hnode with rfl | rfl
  · exact declares_nonNull_of_declares hname
  · exact hname

/-! ## A single name -/

private theorem name_mem_validTypeNames (type : JsonType) : type.name ∈ validTypeNames := by
  cases type <;> decide

/-- The types that a resolved name leaves are types of JSON Schema. -/
theorem mem_validTypeNames_of_convertTypeName (h : fields.Distinct) {declared name : String}
    (hout : convertTypeName options keywords fields declared = .ok out)
    (hname : Declares (.object out) name) : name ∈ validTypeNames := by
  rw [declares_iff_mem_typeList, Json.get?] at hname
  rw [convertTypeName] at hout
  split at hout
  · rename_i type _
    have htype : (fields.insert "type" (.string type.name)).get? "type" =
        some (.string type.name) := Fields.get?_insert_self _ _ _
    have hdistinct := h.insert "type" (.string type.name)
    suffices hkept : out.get? "type" = some (.string type.name) by
      rw [hkept] at hname
      rw [Json.string.inj (List.mem_singleton.1 hname)]
      exact name_mem_validTypeNames type
    rw [← htype]
    cases type with
    | object => exact (EditsOnly.convertObject hdistinct hout).get? "type" (by decide)
    | array => exact (EditsOnly.convertArray hdistinct hout).get? "type" (by decide)
    | _ => rw [← Except.ok.inj hout]
  · rw [← Except.ok.inj hout, (EditsOnly.withFormat (h.insert _ _) _).get? "type" (by decide),
      Fields.get?_insert_self] at hname
    have htypes : name ∈ ["string", "object"] := by simpa [typeList, Json.strings] using hname
    exact (by decide : ["string", "object"] ⊆ validTypeNames) htypes
  · split at hout
    · rw [← Except.ok.inj hout, Fields.get?_insert_of_ne _ (by decide),
        Fields.get?_insert_self] at hname
      rw [Json.string.inj (List.mem_singleton.1 hname)]
      decide
    · rw [← Except.ok.inj hout, Fields.get?_insert_of_ne _ (by decide),
        Fields.get?_remove_self h] at hname
      simp [typeList] at hname

/-! ## Nodes

A list of types is neither resolved nor checked. The names in it stay, next to `null` at most. -/

/-- A node whose type is given by one name is left with types of JSON Schema only. -/
theorem namesJsonTypes_of_name (hfields : fields.Distinct) {name : String}
    (htype : fields.get? "type" = some (.string name))
    (h : convert options (.object fields) = .ok s) : NamesJsonTypes s := by
  obtain ⟨-, negated, typed, -, -, hedits, htyped, rfl⟩ :=
    exists_typed_of_convert hfields (isExplicit_of_type htype) h
  have hnegated : negated.get? "type" = some (.string name) :=
    (hedits.get? "type" (by decide)).trans htype
  rw [convertType, hnegated] at htyped
  have hresolved := EditsOnly.convertTypeName hedits.distinct htyped
  have hsettled := EditsOnly.settleMarkers hresolved.distinct
  refine namesJsonTypes_iff_nonNull.2 fun other hother ↦ ?_
  obtain ⟨-, hdeclares | rfl⟩ := declares_of_nonNull_finishNode hsettled.distinct hother
  · rw [declares_iff_mem_typeList, Json.get?, hsettled.get? "type" (by decide)] at hdeclares
    exact mem_validTypeNames_of_convertTypeName hedits.distinct htyped
      (declares_iff_mem_typeList.2 hdeclares)
  · decide

/-- **Type names.** A compiled node names types of JSON Schema only, exactly if its type is given by
one name, or by a list of such types, or if the node is reduced to a reference. -/
theorem namesJsonTypes_iff (hfields : fields.Distinct) {type : Json}
    (htype : fields.get? "type" = some type) (hdeclares : declaresType type)
    (h : convert options (.object fields) = .ok s) :
    NamesJsonTypes s ↔ ∀ types, type = .array types →
      (∀ name, .string name ∈ types → name ∈ validTypeNames) ∨
        fields.get? "$ref" ≠ none ∧
          (fields.get? "nullable" = some (.bool true) → .string "null" ∉ types) := by
  have hexplicit : isExplicit fields := by simp [isExplicit, htype, hdeclares]
  cases type with
  | string name => exact iff_of_true (namesJsonTypes_of_name hfields htype h) (by simp)
  | array types =>
    obtain ⟨-, negated, typed, -, -, hedits, htyped, rfl⟩ :=
      exists_typed_of_convert hfields hexplicit h
    have hnegated : negated.get? "type" = some (.array types) :=
      (hedits.get? "type" (by decide)).trans htype
    -- a list of types is as written when the node is finished
    have hlist := EditsOnly.convertTypes hedits.distinct hnegated htyped
    have hsettled := EditsOnly.settleMarkers hlist.distinct
    have hkept := ((hedits.append hlist).append hsettled).get?
    have hnames : ∀ name, Declares (.object (settleMarkers typed)) name ↔
        .string name ∈ types := by
      intro name
      rw [declares_iff_mem_typeList, Json.get?, hkept "type" (by decide), htype]
      rfl
    have hkeeps : KeepsTypes (settleMarkers typed) ↔ fields.get? "$ref" = none ∨
        fields.get? "nullable" = some (.bool true) ∧ .string "null" ∈ types := by
      rw [KeepsTypes, ListsNull, hkept "$ref" (by decide), hkept "nullable" (by decide),
        hkept "type" (by decide), htype, Option.any_some, listsNull_iff]
      simp
    simp only [namesJsonTypes_iff_nonNull, Json.array.injEq, forall_eq']
    constructor
    · intro hvalid
      by_cases hreduced : KeepsTypes (settleMarkers typed)
      · exact .inl fun name hname ↦ hvalid name
          (declares_nonNull_finishNode hsettled.distinct hreduced ((hnames name).2 hname))
      · rw [hkeeps, not_or, not_and] at hreduced
        exact .inr hreduced
    · intro hvalid name hname
      obtain ⟨hkept, hdeclared⟩ := declares_of_nonNull_finishNode hsettled.distinct hname
      rcases hvalid with hvalid | ⟨href, hnull⟩
      · rcases hdeclared with hdeclared | rfl
        · exact hvalid name ((hnames name).1 hdeclared)
        · decide
      · -- of a reference no type is left
        rcases hkeeps.1 hkept with hnone | ⟨hnullable, hmem⟩
        · exact absurd hnone href
        · exact absurd hmem (hnull hnullable)
  | _ => simp [declaresType] at hdeclares

/-- The keywords of a code, which is a short text or an integer, or missing. -/
def codeTypes : Fields Json :=
  [("type", .array [.string "string", .string "integer"]), ("nullable", .bool true),
    ("maxLength", Json.int 8)]

theorem namesJsonTypes_iff_codeTypes :
    ∃ s, codeTypes.Distinct ∧ convert ⟨false⟩ (.object codeTypes) = .ok s ∧
      nonNull s ≠ s ∧ NamesJsonTypes s := by
  have hdistinct : codeTypes.Distinct := by
    simp [codeTypes]
  have hconvert : convert ⟨false⟩ (.object codeTypes) = .ok (.object (orNull
      [("type", .array [.string "string", .string "integer"]), ("maxLength", Json.int 8)] none)) :=
    rfl
  refine ⟨_, hdistinct, hconvert, ?_, (namesJsonTypes_iff hdistinct rfl rfl hconvert).2 ?_⟩
  · rw [nonNull_orNull]
    simp
  · rintro types htypes
    obtain rfl := Json.array.inj htypes
    refine .inl fun name hname ↦ ?_
    have hmem : name ∈ ["string", "integer"] := by simpa using hname
    exact (by decide : ["string", "integer"] ⊆ validTypeNames) hmem

/-- An alias in a list is no type of JSON Schema, and is left as it is. -/
theorem not_namesJsonTypes_textOrNull :
    ∃ s, convert ⟨false⟩ (.object [("type", .array [.string "text", .string "null"])]) = .ok s ∧
      ¬NamesJsonTypes s := by
  refine ⟨.object [("type", .array [.string "text", .string "null"])], rfl, fun hvalid ↦ ?_⟩
  have htext : Declares (.object [("type", .array [.string "text", .string "null"])]) "text" :=
    ⟨_, rfl, .inr ⟨_, rfl, by simp⟩⟩
  exact absurd (hvalid _ (List.mem_cons_self ..) "text" htext) (by decide)

end Schema

end ModelCatalog
