import ModelCatalog.Proofs.Schema.Expansion
import ModelCatalog.Proofs.Schema.Markers

/-!
# What a compiled node says of values other than `null`

Finishing a node gives it one of five forms (`Finished`). In two of them the node is an alternative
to `null`, and what it says of other values has moved there; `nonNull` finds it in every form. All
keywords of the node are found again in that place, except that `null` may have joined its types.
-/

namespace ModelCatalog

open Outcome

namespace Schema

/-! ## The forms of a finished node -/

/-- The keywords of a node that offers `null` or an alternative. -/
abbrev orNull (notNull : Fields Json) (validate : Option Json) : Fields Json :=
  [("anyOf", .array [.object (ofName "null"), .object notNull]), ("nullable", .bool true)] ++
    optionalField "validate" validate

/-- The keywords of a node that has `null` among its types. -/
abbrev withNull (type : Option Json) (validate : Option Json) (rest : Fields Json) : Fields Json :=
  [("type", .array (.string "null" :: typeList type)), ("nullable", .bool true)] ++
    optionalField "validate" validate ++ rest

/-- The node accepts `null` as it is, because its types say so. -/
def ListsNull (fields : Fields Json) : Prop := (fields.get? "type").any listsNull

/-- The node is not reduced to a reference: it is none, or its types say that it accepts `null`. -/
def KeepsTypes (fields : Fields Json) : Prop :=
  fields.get? "$ref" = none ∨ fields.get? "nullable" = some (.bool true) ∧ ListsNull fields

/-- The forms of a finished node. -/
inductive Finished (fields : Fields Json) : Json → Prop
  | node (hkept : KeepsTypes fields)
      (htyped : fields.get? "nullable" = some (.bool true) → ListsNull fields) :
      Finished fields (.object fields)
  | reference {reference : Json} (href : fields.get? "$ref" = some reference)
      (hnullable : fields.get? "nullable" ≠ some (.bool true)) :
      Finished fields (.object [("$ref", reference)])
  | referenceOrNull {reference : Json} (href : fields.get? "$ref" = some reference)
      (htype : ¬ListsNull fields) :
      Finished fields (.object (orNull [("$ref", reference)] (fields.get? "validate")))
  | nodeOrNull (href : fields.get? "$ref" = none) (htype : ¬ListsNull fields) :
      Finished fields (.object (orNull
        (optionalField "type" (fields.get? "type") ++ remaining fields) (fields.get? "validate")))
  | nullableTypes (href : fields.get? "$ref" = none) (htype : ¬ListsNull fields)
      (hharmless : ∀ key ∈ (remaining fields).keys, key ∈ harmlessKeywords) :
      Finished fields (.object
        (withNull (fields.get? "type") (fields.get? "validate") (remaining fields)))

variable {fields notNull : Fields Json} {schema : Json} {key name : String}

theorem finished_finishNode (fields : Fields Json) : Finished fields (finishNode fields) := by
  rw [finishNode]
  split
  · rename_i hnullable
    rw [any_isTrue_iff] at hnullable
    rw [allowNull]
    split
    · rename_i htype
      exact .node (.inr ⟨hnullable, htype⟩) fun _ ↦ htype
    · rename_i htype
      rw [hnullable]
      dsimp only
      split
      · cases href : fields.get? "$ref" with
        | some reference => exact .referenceOrNull href htype
        | none => exact .nodeOrNull href htype
      · rename_i hharmless
        simp only [Bool.or_eq_true, not_or, List.any_eq_true, decide_eq_true_eq, not_exists,
          not_and, not_not] at hharmless
        exact .nullableTypes (by simpa using hharmless.1) htype hharmless.2
  · rename_i hnullable
    rw [any_isTrue_iff] at hnullable
    split
    · rename_i reference href
      exact .reference href hnullable
    · rename_i href
      exact .node (.inl href) fun h ↦ absurd h hnullable

/-! ## The place of what is not `null`

The wrapped form is told by its marks. A node that gives its type has not been wrapped, since the
type has moved into the alternative. -/

/-- The alternative to `null` of a node that nullability has wrapped, and any other node itself. A
wrapped node is told by being nullable without giving a type. -/
def nonNull (schema : Json) : Json :=
  match schema.get? "nullable", schema.get? "type", schema.get? "anyOf" with
  | some (.bool true), none, some (.array [_, alternative]) => alternative
  | _, _, _ => schema

theorem nonNull_of_type (h : schema.get? "type" ≠ none) : nonNull schema = schema := by
  unfold nonNull
  split
  · rename_i htype _
    exact absurd htype h
  · rfl

theorem nonNull_of_not_nullable (h : schema.get? "nullable" ≠ some (.bool true)) :
    nonNull schema = schema := by
  unfold nonNull
  split
  · rename_i hnullable _ _
    exact absurd hnullable h
  · rfl

theorem nonNull_orNull (notNull : Fields Json) (validate : Option Json) :
    nonNull (.object (orNull notNull validate)) = .object notNull := by
  simp only [nonNull, Json.get?, get?_alternatives]
  simp

theorem nonNull_node (htyped : fields.get? "nullable" = some (.bool true) → ListsNull fields) :
    nonNull (.object fields) = .object fields := by
  by_cases hnullable : fields.get? "nullable" = some (.bool true)
  · refine nonNull_of_type fun hnone ↦ ?_
    have htype := htyped hnullable
    rw [ListsNull, show fields.get? "type" = none from hnone] at htype
    cases htype
  · exact nonNull_of_not_nullable hnullable

theorem nonNull_withNull (type validate : Option Json) (rest : Fields Json) :
    nonNull (.object (withNull type validate rest)) = .object (withNull type validate rest) :=
  nonNull_of_type (by rw [Json.get?, get?_nullableTypes]; simp)

/-- Finishing a node that is no reference keeps its keywords, the markers of nullability and the
type aside. -/
theorem get?_nonNull_finishNode (h : fields.Distinct) (href : fields.get? "$ref" = none)
    (hkey : key ∉ ["nullable", "validate", "$ref", "type"]) :
    (nonNull (finishNode fields)).get? key = fields.get? key := by
  simp only [List.mem_cons, List.not_mem_nil, or_false, not_or] at hkey
  obtain ⟨hnullable, hvalidate, hreference, htype⟩ := hkey
  generalize hs : finishNode fields = s
  cases hs ▸ finished_finishNode fields with
  | node _ htyped => rw [nonNull_node htyped, Json.get?]
  | reference href' => simp [href] at href'
  | referenceOrNull href' => simp [href] at href'
  | nodeOrNull =>
    rw [nonNull_orNull, Json.get?, get?_typeAndRemaining h]
    simp [hnullable, hvalidate, hreference]
  | nullableTypes =>
    rw [nonNull_withNull, Json.get?, get?_nullableTypes, get?_remaining h]
    simp [Ne.symm hnullable, Ne.symm hvalidate, Ne.symm htype, hnullable, hvalidate, hreference,
      htype]

/-! ## Types -/

theorem declares_iff_mem_typeList :
    Declares schema name ↔ .string name ∈ typeList (schema.get? "type") := by
  cases htype : schema.get? "type" with
  | none => simp [Declares, htype, typeList]
  | some type => cases type <;> simp [Declares, htype, typeList, eq_comm]

theorem declares_nonNull_of_declares (h : Declares schema name) :
    Declares (nonNull schema) name := by
  obtain ⟨type, htype, hname⟩ := h
  rw [nonNull_of_type (by simp [htype])]
  exact ⟨type, htype, hname⟩

/-- Finishing a node adds no type to it but `null`. -/
theorem declares_of_nonNull_finishNode (h : fields.Distinct)
    (hname : Declares (nonNull (finishNode fields)) name) :
    KeepsTypes fields ∧ (Declares (.object fields) name ∨ name = "null") := by
  generalize hs : finishNode fields = s at hname
  cases hs ▸ finished_finishNode fields with
  | node hkept htyped =>
    rw [nonNull_node htyped] at hname
    exact ⟨hkept, .inl hname⟩
  | reference =>
    rw [nonNull_of_not_nullable (by simp)] at hname
    simp [Declares] at hname
  | referenceOrNull =>
    rw [nonNull_orNull] at hname
    simp [Declares] at hname
  | nodeOrNull href =>
    rw [nonNull_orNull, declares_iff_mem_typeList, Json.get?, get?_typeAndRemaining h] at hname
    exact ⟨.inl href, .inl (declares_iff_mem_typeList.2 hname)⟩
  | nullableTypes href =>
    rw [nonNull_withNull, declares_iff_mem_typeList, Json.get?, get?_nullableTypes] at hname
    refine ⟨.inl href, ?_⟩
    rcases List.mem_cons.1 hname with heq | hmem
    · exact .inr (Json.string.inj heq)
    · exact .inl (declares_iff_mem_typeList.2 hmem)

theorem declares_nonNull_finishNode (h : fields.Distinct) (hkeeps : KeepsTypes fields)
    (hname : Declares (.object fields) name) : Declares (nonNull (finishNode fields)) name := by
  generalize hs : finishNode fields = s
  cases hs ▸ finished_finishNode fields with
  | node hkept htyped => rwa [nonNull_node htyped]
  | reference href hnullable =>
    rcases hkeeps with hnone | ⟨hnullable', -⟩
    · simp [href] at hnone
    · exact absurd hnullable' hnullable
  | referenceOrNull href htype =>
    rcases hkeeps with hnone | ⟨-, htype'⟩
    · simp [href] at hnone
    · exact absurd htype' htype
  | nodeOrNull =>
    rw [declares_iff_mem_typeList] at hname ⊢
    rwa [nonNull_orNull, Json.get?, get?_typeAndRemaining h]
  | nullableTypes =>
    rw [declares_iff_mem_typeList] at hname ⊢
    rw [nonNull_withNull, Json.get?, get?_nullableTypes]
    exact List.mem_cons_of_mem _ hname

end Schema

end ModelCatalog
