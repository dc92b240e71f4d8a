import ModelCatalog.Proofs.Query.Notation

/-!
# Nested mappings and dotted keys

The path of a condition may be written by nesting mappings or with dots in a key. A mapping under an
outer key is read as the mapping in which that key, with a dot, stands in front of each key, or both
are refused. Keys are read differently at the top level, where the name of an operator is the name
of a property, so this needs that no key is only the name of an operator, unless it leads to a
mapping.

## The invariant

Below the top level the path above a key counts by its dotted form alone. `Filter.SamePath` relates
two paths below the top level that have one dotted form. It is kept on the way down, so an induction
over the mappings carries the statement from the entries to all depths.
-/

namespace ModelCatalog

open Outcome Text

namespace Filter

/-! ## Paths that read alike

The path above a key is a list of segments, and a condition takes over no more of it than its dotted
form, provided that there is a path at all. -/

/-- Two lists of segments above a key with the same dotted form. The top level has none, and keys
are read in another way there. -/
structure SamePath (parents parents' : List String) : Prop where
  ne_nil : parents ≠ []
  ne_nil' : parents' ≠ []
  join_eq : ".".intercalate parents = ".".intercalate parents'

private theorem intercalate_append_singleton {parents : List String} (h : parents ≠ [])
    (segment : String) :
    ".".intercalate (parents ++ [segment]) = ".".intercalate parents ++ "." ++ segment := by
  rw [String.intercalate_append_of_ne_nil h (by simp), String.intercalate_singleton]

/-- A segment may be written in one with the one above it. -/
theorem samePath_pair (outer inner : String) : SamePath [outer, inner] [outer ++ "." ++ inner] where
  ne_nil := by simp
  ne_nil' := by simp
  join_eq := by
    have houter : [outer] ≠ [] := by simp
    rw [String.intercalate_singleton]
    exact intercalate_append_singleton houter inner

namespace SamePath

variable {parents parents' : List String}

theorem append (h : SamePath parents parents') (segment : String) :
    SamePath (parents ++ [segment]) (parents' ++ [segment]) where
  ne_nil := by simp
  ne_nil' := by simp
  join_eq := by
    rw [intercalate_append_singleton h.ne_nil, intercalate_append_singleton h.ne_nil', h.join_eq]

theorem ofLeaf_eq (h : SamePath parents parents') (segment : String)
    (operator : Option Operator) (value : Json) :
    ofLeaf parents segment operator value = ofLeaf parents' segment operator value := by
  simp only [ofLeaf, h.join_eq, (h.append segment).join_eq,
    List.isEmpty_eq_false_iff.2 h.ne_nil, List.isEmpty_eq_false_iff.2 h.ne_nil']

end SamePath

mutual

/-- Below the top level a mapping is read by the dotted form of the path above it alone. -/
theorem SamePath.ofFields_eq : ∀ {parents parents' : List String}, SamePath parents parents' →
    ∀ fields : List (String × Json), ofFields parents fields = ofFields parents' fields
  | _, _, _, [] => by rw [ofFields, ofFields]
  | _, _, h, (key, value) :: fields => by
    rw [ofFields, ofFields, SamePath.ofField_eq h key value, SamePath.ofFields_eq h fields]

theorem SamePath.ofField_eq : ∀ {parents parents' : List String}, SamePath parents parents' →
    ∀ (key : String) (value : Json), ofField parents key value = ofField parents' key value
  | _, _, h, key, .object fields => by
    rw [ofField, ofField]
    refine bind_congr_of_ok fun parts _ ↦ ?_
    simp only [SamePath.ofFields_eq (h.append parts.1) fields]
  | _, _, h, key, .null | _, _, h, key, .bool _ | _, _, h, key, .number _
  | _, _, h, key, .string _ | _, _, h, key, .array _ => by
    simp only [ofField, h.ofLeaf_eq]

end

/-! ## Dotted keys

A key may end in the name of an operator. Putting an outer key in front leaves the operator alone
and makes the segment longer, unless the key is nothing but the operator. -/

/-- Whether the key is the name of an operator, up to white space behind it. -/
def isBareOperator (key : String) : Bool := (Operator.ofName? (trimEnd key)).isSome

/-- The entries of a mapping with an outer key written in front of each key. -/
def dotted (outer : String) (fields : Fields Json) : Fields Json :=
  fields.map fun (key, value) ↦ (outer ++ "." ++ key, value)

private theorem isWord_dotted {outer word : String} (houter : IsWord outer) (hword : IsWord word) :
    IsWord (outer ++ "." ++ word) := by
  refine ⟨fun hempty ↦ hword.1 (by simp_all), fun c hc ↦ ?_⟩
  simp only [String.toList_append, List.mem_append] at hc
  rcases hc with (hc | hc) | hc
  · exact houter.2 c hc
  · rw [List.mem_singleton.1 hc]
    rfl
  · exact hword.2 c hc

variable {outer key : String}

/-- An outer key in front of a key goes to its segment, and nothing else changes. -/
theorem splitKey_dotted (houter : IsWord outer) (hkey : BeginsWord key) :
    (∃ e e', splitKey key = .error e ∧ splitKey (outer ++ "." ++ key) = .error e') ∨
      ∃ segment operator, splitKey key = .ok (segment, operator) ∧
        splitKey (outer ++ "." ++ key) = .ok (outer ++ "." ++ segment, operator) ∧
        (operator = none → trimEnd key = segment) := by
  obtain ⟨word, rest, rfl, hword, hrest⟩ := hkey.exists_append
  have hwords := words_append_rest hword hrest
  have hdotted := words_append_rest (isWord_dotted houter hword) hrest
  rw [String.append_assoc] at hdotted
  rw [splitKey, splitKey, hwords, hdotted]
  cases hmore : words rest with
  | nil =>
    have htrim : trimEnd (word ++ rest) = word :=
      trimEnd_append hword (isBlank_of_words_eq_nil hmore)
    exact .inr ⟨word, none, rfl, rfl, fun _ ↦ htrim⟩
  | cons name more =>
    cases more with
    | nil =>
      cases hname : Operator.ofName? name with
      | none =>
        simp only [readWords?, hname, Option.map_none]
        exact .inl ⟨_, _, rfl, rfl⟩
      | some op =>
        exact .inr ⟨word, some op, by simp [readWords?, hname], by simp [readWords?, hname],
          by simp⟩
    | cons _ _ => exact .inl ⟨_, _, rfl, rfl⟩

theorem ofField_dotted (houter : IsWord outer) (hkey : BeginsWord key) {value : Json}
    (hbare : value.isObject = false → isBareOperator key = false) :
    SameResult (ofField [outer] key value) (ofField [] (outer ++ "." ++ key) value) := by
  obtain ⟨e, e', herror, herror'⟩ | ⟨segment, operator, hsplit, hsplit', htrim⟩ :=
    splitKey_dotted houter hkey
  · cases value <;> simp only [ofField, herror, herror'] <;> exact .error trivial
  · have hleaf : value.isObject = false → ofLeaf [outer] segment operator value =
        ofLeaf [] (outer ++ "." ++ segment) operator value := by
      intro hvalue
      cases operator with
      | some op => simp [ofLeaf]
      | none =>
        -- a segment that names an operator would apply to the path above it
        have hname : Operator.ofName? segment = none := by
          have hnot := hbare hvalue
          rwa [isBareOperator, htrim rfl, Option.isSome_eq_false_iff, Option.isNone_iff_eq_none]
            at hnot
        simp [ofLeaf, hname]
    cases value with
    | object inner =>
      simp only [ofField, hsplit, hsplit', ok_bind]
      cases operator with
      | some op => exact .error trivial
      | none => exact .of_eq ((samePath_pair outer segment).ofFields_eq inner)
    | _ =>
      simp only [ofField, hsplit, hsplit', ok_bind, hleaf rfl]
      exact .of_eq rfl

private theorem ofFields_dotted (houter : IsWord outer) {fields : Fields Json}
    (hkeys : ∀ entry ∈ fields, BeginsWord entry.1)
    (hbare : ∀ entry ∈ fields, entry.2.isObject = false → isBareOperator entry.1 = false) :
    SameResult (ofFields [outer] fields) (ofFields [] (dotted outer fields)) := by
  induction fields with
  | nil => exact .of_eq (by rw [dotted, List.map_nil, ofFields, ofFields])
  | cons entry fields ih =>
    obtain ⟨key, value⟩ := entry
    obtain ⟨hkey, hkeys⟩ := List.forall_mem_cons.1 hkeys
    obtain ⟨hvalue, hbare⟩ := List.forall_mem_cons.1 hbare
    rw [dotted, List.map_cons, ← dotted, ofFields, ofFields]
    refine (ofField_dotted houter hkey hvalue).bind fun filters ↦ ?_
    exact (ih hkeys hbare).bind fun more ↦ .of_eq rfl

/-- **Nested mappings and dotted keys.** -/
theorem readConditions_dotted {outer : String} (houter : IsWord outer) {fields : Fields Json}
    (hkeys : ∀ entry ∈ fields, BeginsWord entry.1)
    (hbare : ∀ entry ∈ fields, entry.2.isObject = false → isBareOperator entry.1 = false) :
    SameResult (readConditions (.object [(outer, .object fields)]))
      (readConditions (.object (dotted outer fields))) := by
  rw [readConditions, readConditions, ofFields_singleton, ofField_object houter, List.nil_append]
  exact ofFields_dotted houter hkeys hbare

/-- Conditions with an operator behind a key, on a level of its own, and in a path. -/
def bookConditions : Fields Json :=
  [("title in", .string "A, B"), ("like", .object [("age ", .object [(">", .int 3)])])]

theorem readConditions_dotted_bookConditions :
    readConditions (.object [("book", .object bookConditions)]) =
      .ok [⟨"book.title", .isIn, .strings ["A", "B"]⟩, ⟨"book.like.age", .gt, .int 3⟩] ∧
    readConditions (.object [("book.title in", .string "A, B"),
        ("book.like", .object [("age ", .object [(">", .int 3)])])]) =
      .ok [⟨"book.title", .isIn, .strings ["A", "B"]⟩, ⟨"book.like.age", .gt, .int 3⟩] := by
  have houter : IsWord "book" := by decide
  have hkeys : ∀ entry ∈ bookConditions, BeginsWord entry.1 := by decide
  have hbare : ∀ entry ∈ bookConditions,
      entry.2.isObject = false → isBareOperator entry.1 = false := by decide
  have hsame := readConditions_dotted houter hkeys hbare
  have hnested : readConditions (.object [("book", .object bookConditions)]) =
      .ok [⟨"book.title", .isIn, .strings ["A", "B"]⟩, ⟨"book.like.age", .gt, .int 3⟩] := by
    rfl
  exact ⟨hnested, (sameResult_iff.1 hsame _).1 hnested⟩

end Filter

end ModelCatalog
