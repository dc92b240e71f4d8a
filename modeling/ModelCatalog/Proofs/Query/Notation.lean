import ModelCatalog.Proofs.Outcome
import ModelCatalog.Proofs.Text.Cut
import ModelCatalog.Query.Filter

/-!
# The notations of a condition agree

A condition may be written as an entry of text, as nested mappings whose innermost key ends in the
operator, or with one more level of nesting for the operator. All three are read as the condition
that `Filter.make` builds from the dotted path, the operator and the value, with the same error
where it refuses them.
-/

namespace ModelCatalog

open Outcome Text

namespace Operator

/-- Whether the name of an operator is a symbol. -/
def isSymbol : Operator → Bool
  | .eq | .ne | .lt | .le | .gt | .ge => true
  | _ => false

theorem isWord_name (op : Operator) : IsWord op.name := by
  cases op <;> decide

end Operator

namespace Filter

/-! ## Paths

Segments hold nothing that a reader of conditions could stumble over: no dot, no blank, and no
character that begins a symbol. -/

/-- A text that can stand as a segment of a path in every notation. -/
structure IsSegment (s : String) : Prop where
  isWord : IsWord s
  not_dot : ∀ c ∈ s.toList, (c == '.') = false
  not_symbol : ∀ c ∈ s.toList, beginsSymbol c = false

theorem isSegment_iff {s : String} : IsSegment s ↔
    IsWord s ∧ s.toList.all (fun c ↦ !(c == '.')) ∧ s.toList.all (!beginsSymbol ·) := by
  simp only [List.all_eq_true, Bool.not_eq_true']
  exact ⟨fun h ↦ ⟨h.isWord, h.not_dot, h.not_symbol⟩,
    fun ⟨hword, hdot, hsymbol⟩ ↦ ⟨hword, hdot, hsymbol⟩⟩

instance (s : String) : Decidable (IsSegment s) := decidable_of_iff' _ isSegment_iff

/-- A path that every notation can write. -/
structure Path where
  front : List String
  last : String
  isSegment : ∀ s ∈ front ++ [last], IsSegment s

namespace Path

variable (path : Path)

def segments : List String := path.front ++ [path.last]

def reference : String := ".".intercalate path.segments

private theorem segments_ne_nil : path.segments ≠ [] := by simp [segments]

private theorem last_mem_segments : path.last ∈ path.segments := by simp [segments]

theorem isSegment_of_mem {s : String} (hs : s ∈ path.segments) : IsSegment s := path.isSegment s hs

theorem toList_reference :
    path.reference.toList = ['.'].intercalate (path.segments.map String.toList) := by
  simp [reference, String.toList_intercalate]

/-- What holds of the dot and of all characters of the segments holds throughout the reference. -/
theorem forall_mem_reference {p : Char → Prop} (hdot : p '.')
    (h : ∀ s ∈ path.segments, ∀ c ∈ s.toList, p c) : ∀ c ∈ path.reference.toList, p c := by
  rw [toList_reference]
  exact forall_mem_intercalate (by simpa using hdot) (by simpa using h)

private theorem beginsSymbol_of_mem_reference :
    ∀ c ∈ path.reference.toList, beginsSymbol c = false :=
  path.forall_mem_reference (by decide) fun _ hs ↦ (path.isSegment_of_mem hs).not_symbol

end Path

theorem segments_reference (path : Path) : segments path.reference = path.segments := by
  have hpieces : ∀ piece ∈ path.segments.map String.toList, '.' ∉ piece := by
    rintro piece hpiece hdot
    obtain ⟨s, hs, rfl⟩ := List.mem_map.1 hpiece
    exact absurd ((path.isSegment_of_mem hs).not_dot _ hdot) (by decide)
  rw [segments, splitAt, path.toList_reference,
    List.splitOn_intercalate _ hpieces (by simpa using path.segments_ne_nil)]
  simp

theorem Path.isWord_reference (path : Path) : IsWord path.reference := by
  refine ⟨fun hempty ↦ ?_, ?_⟩
  · -- the empty text has no segments but an empty one
    have hsegments : path.segments = [""] := by
      rw [← segments_reference, hempty]
      rfl
    have hlast : path.last ∈ [""] := hsegments ▸ path.last_mem_segments
    exact (path.isSegment_of_mem path.last_mem_segments).isWord.1 (List.mem_singleton.1 hlast)
  · exact path.forall_mem_reference (by decide) fun _ hs ↦ (path.isSegment_of_mem hs).isWord.2

/-! ## Entries of text

An entry is read from the left. The reference ends where a symbol begins, and of the symbols that
begin there the longest one is read. -/

/-- A condition as an entry of text: a symbol stands between the reference and the value, the name
of any other operator is a word of its own. -/
def entry (reference : String) (op : Operator) (value : String) : String :=
  if op.isSymbol then reference ++ op.name ++ value
  else reference ++ " " ++ op.name ++ "=" ++ value

/-- Whether a symbol stands for its operator between a reference and a value, and is not read as a
longer one. -/
structure Legible (reference : String) (op : Operator) (value : String) : Prop where
  eq : op = .eq → reference.toList.getLast? ≠ some '!'
  order : op = .lt ∨ op = .gt → value.toList.head? ≠ some '='

instance (reference : String) (op : Operator) (value : String) :
    Decidable (Legible reference op value) :=
  decidable_of_iff ((op = .eq → reference.toList.getLast? ≠ some '!') ∧
      (op = .lt ∨ op = .gt → value.toList.head? ≠ some '='))
    ⟨fun ⟨heq, horder⟩ ↦ ⟨heq, horder⟩, fun h ↦ ⟨h.eq, h.order⟩⟩

private theorem exists_beginsSymbol_of_readSymbol {cs value : List Char} {op : Operator}
    (h : readSymbol cs = some (op, value)) : ∃ c rest, cs = c :: rest ∧ beginsSymbol c := by
  unfold readSymbol at h
  split at h <;> first | exact ⟨_, _, rfl, by decide⟩ | cases h

/-- An entry falls apart before the first character that may begin a symbol. -/
theorem cutSymbol_append {head cs value : List Char} {op : Operator}
    (hhead : ∀ c ∈ head, beginsSymbol c = false) (h : readSymbol cs = some (op, value)) :
    cutSymbol (head ++ cs) =
      if op = .eq ∧ head.getLast? = some '!' then (head.dropLast, some (.ne, value))
      else (head, some (op, value)) := by
  obtain ⟨c, rest, rfl, hc⟩ := exists_beginsSymbol_of_readSymbol h
  have hbefore : ∀ d ∈ head, (!beginsSymbol d) = true := by simpa using hhead
  rw [cutSymbol, List.takeWhile_append_of_pos hbefore, List.dropWhile_append_of_pos hbefore]
  simp only [List.takeWhile_cons, List.dropWhile_cons, hc, Bool.not_true, Bool.false_eq_true,
    if_false, List.append_nil, h]
  cases op <;> simp

/-- A symbol that no longer one hides is read at the start of a text. -/
theorem readSymbol_name {op : Operator} {cs : List Char} (hop : op.isSymbol) (hne : op ≠ .ne)
    (h : op = .lt ∨ op = .gt → cs.head? ≠ some '=') :
    readSymbol (op.name.toList ++ cs) = some (op, cs) := by
  cases op with
  | ne => exact absurd rfl hne
  | eq | le | ge => rfl
  | lt | gt =>
    cases cs with
    | nil => rfl
    | cons c cs =>
      have hc : c ≠ '=' := by simpa using h (by simp)
      simp [Operator.name, readSymbol, hc]
  | _ => simp [Operator.isSymbol] at hop

/-- A legible symbol is read between what it stands between. -/
theorem cutSymbol_symbol {reference value : String} {op : Operator} (hop : op.isSymbol)
    (hreference : ∀ c ∈ reference.toList, beginsSymbol c = false)
    (h : Legible reference op value) :
    cutSymbol (reference ++ op.name ++ value).toList =
      (reference.toList, some (op, value.toList)) := by
  by_cases hne : op = .ne
  · -- the exclamation mark comes first into what stands before the equals sign
    subst hne
    have htoList : (reference ++ Operator.ne.name ++ value).toList =
        (reference.toList ++ ['!']) ++ '=' :: value.toList := by simp [Operator.name]
    have hhead : ∀ c ∈ reference.toList ++ ['!'], beginsSymbol c = false := by
      intro c hc
      rcases List.mem_append.1 hc with hc | hc
      · exact hreference c hc
      · rw [List.mem_singleton.1 hc]
        rfl
    rw [htoList, cutSymbol_append hhead rfl]
    simp
  · have htoList : (reference ++ op.name ++ value).toList =
        reference.toList ++ (op.name.toList ++ value.toList) := by simp
    rw [htoList, cutSymbol_append hreference (readSymbol_name hop hne h.order),
      if_neg fun heq ↦ h.eq heq.1 heq.2]

/-- The name of an operator that is not a symbol is cut off together with the reference. -/
theorem cutSymbol_name {reference value : String} {op : Operator} (hop : op.isSymbol = false)
    (hreference : ∀ c ∈ reference.toList, beginsSymbol c = false) :
    cutSymbol (reference ++ " " ++ op.name ++ "=" ++ value).toList =
      ((reference ++ " " ++ op.name).toList, some (.eq, value.toList)) := by
  obtain ⟨hname, hlast⟩ : op.name.toList.all (!beginsSymbol ·) ∧
      op.name.toList.getLast? ≠ some '!' := by
    cases op <;> first | exact absurd hop (by decide) | decide
  have htoList : (reference ++ " " ++ op.name ++ "=" ++ value).toList =
      (reference ++ " " ++ op.name).toList ++ '=' :: value.toList := by simp
  have hhead : ∀ c ∈ (reference ++ " " ++ op.name).toList, beginsSymbol c = false := by
    simp only [String.toList_append, List.forall_mem_append]
    exact ⟨⟨hreference, by simp [beginsSymbol]⟩, by simpa using hname⟩
  have hend : (reference ++ " " ++ op.name).toList.getLast? = op.name.toList.getLast? := by
    rw [String.toList_append, List.getLast?_append_of_ne_nil _ op.isWord_name.toList_ne_nil]
  -- no such name ends in an exclamation mark, so the equals sign stands alone
  rw [htoList, cutSymbol_append hhead rfl, if_neg fun heq ↦ hlast (hend ▸ heq.2)]

/-- An entry of text is read as what it was written from. -/
theorem parts?_entry (path : Path) {op : Operator} {value : String}
    (h : Legible path.reference op value) :
    parts? (entry path.reference op value) = some (path.reference, op, .string value) := by
  have hsymbol := path.beginsSymbol_of_mem_reference
  cases hop : op.isSymbol with
  | true =>
    rw [parts?, entry, if_pos hop, cutSymbol_symbol hop hsymbol h]
    simp [words_of_isWord path.isWord_reference, readWords?, combine]
  | false =>
    rw [parts?, entry, hop, if_neg Bool.false_ne_true, cutSymbol_name hop hsymbol]
    simp only [String.ofList_toList, words_append path.isWord_reference op.isWord_name]
    simp [readWords?, combine]

/-! ## Nested mappings -/

/-- A mapping that leads through the outer keys to a value behind the inner key. -/
def nested : List String → String → Json → Json
  | [], key, value => .object [(key, value)]
  | outer :: front, key, value => .object [(outer, nested front key value)]

private theorem splitKey_of_isWord {s : String} (h : IsWord s) : splitKey s = .ok (s, none) := by
  simp [splitKey, words_of_isWord h, readWords?]

private theorem splitKey_operator {s : String} (h : IsWord s) (op : Operator) :
    splitKey (s ++ " " ++ op.name) = .ok (s, some op) := by
  simp [splitKey, words_append h op.isWord_name, readWords?]

theorem ofFields_singleton (parents : List String) (key : String) (value : Json) :
    ofFields parents [(key, value)] = ofField parents key value := by
  rw [ofFields, ofFields]
  cases ofField parents key value with
  | ok filters => simp
  | error => rfl

/-- A word before a mapping leads one level down. -/
theorem ofField_object {s : String} (h : IsWord s) (parents : List String)
    (fields : List (String × Json)) :
    ofField parents s (.object fields) = ofFields (parents ++ [s]) fields := by
  simp [ofField, splitKey_of_isWord h]

/-- The words of the front lead down to the inner key. -/
theorem ofField_nested {front : List String} (hfront : ∀ s ∈ front, IsWord s) {s : String}
    (hs : IsWord s) (parents : List String) (key : String) (value : Json) :
    ofField parents s (nested front key value) = ofField (parents ++ s :: front) key value := by
  induction front generalizing s parents with
  | nil => rw [nested, ofField_object hs, ofFields_singleton]
  | cons next front ih =>
    obtain ⟨hnext, hfront⟩ := List.forall_mem_cons.1 hfront
    rw [nested, ofField_object hs, ofFields_singleton, ih hfront hnext]
    simp

theorem readConditions_nested {front : List String} (hfront : ∀ s ∈ front, IsWord s)
    (key : String) (value : Json) :
    readConditions (nested front key value) = ofField front key value := by
  cases front with
  | nil => rw [nested, readConditions, ofFields_singleton]
  | cons s front =>
    obtain ⟨hs, hfront⟩ := List.forall_mem_cons.1 hfront
    rw [nested, readConditions, ofFields_singleton, ofField_nested hfront hs, List.nil_append]

private theorem ofField_string (parents : List String) (key text : String) :
    ofField parents key (.string text) = (do
      let (segment, operator) ← splitKey key
      (fun filter ↦ [filter]) <$> ofLeaf parents segment operator (.string text)) := by
  simp [ofField]

/-! ## The notations -/

private theorem readConditions_entry (path : Path) {op : Operator} {value : String}
    (h : Legible path.reference op value) :
    readConditions (.string (entry path.reference op value)) =
      (fun filter ↦ [filter]) <$> make path.reference op (.string value) := by
  rw [readConditions, parse, parts?_entry path h]
  rfl

variable (path : Path) (op : Operator) (value : String)

private theorem readConditions_keyed :
    readConditions (nested path.front (path.last ++ " " ++ op.name) (.string value)) =
      (fun filter ↦ [filter]) <$> make path.reference op (.string value) := by
  have hlast : IsWord path.last := (path.isSegment_of_mem path.last_mem_segments).isWord
  rw [readConditions_nested fun s hs ↦ (path.isSegment s (by simp [hs])).isWord, ofField_string,
    splitKey_operator hlast]
  rfl

private theorem readConditions_leveled :
    readConditions (nested path.segments op.name (.string value)) =
      (fun filter ↦ [filter]) <$> make path.reference op (.string value) := by
  have hleaf : ofLeaf path.segments op.name none (.string value) =
      make path.reference op (.string value) := by
    simp [ofLeaf, path.segments_ne_nil, Path.reference]
  rw [readConditions_nested fun s hs ↦ (path.isSegment_of_mem hs).isWord, ofField_string,
    splitKey_of_isWord op.isWord_name, ← hleaf]
  rfl

/-- The notations agree: what a path, an operator and a text are written into is read as the
condition made of them, or refused for the same reason. -/
theorem readConditions_notations :
    (Legible path.reference op value →
      readConditions (.string (entry path.reference op value)) =
        (fun filter ↦ [filter]) <$> make path.reference op (.string value)) ∧
    readConditions (nested path.front (path.last ++ " " ++ op.name) (.string value)) =
      (fun filter ↦ [filter]) <$> make path.reference op (.string value) ∧
    readConditions (nested path.segments op.name (.string value)) =
      (fun filter ↦ [filter]) <$> make path.reference op (.string value) :=
  ⟨readConditions_entry path, readConditions_keyed path op value,
    readConditions_leveled path op value⟩

/-- A path whose segments are names of operators or end in an exclamation mark. -/
def likeInPath : Path where
  front := ["like", "in"]
  last := "tags!"
  isSegment := by decide

theorem readConditions_notations_likeInPath :
    Legible likeInPath.reference .lt "1=<2.x y" ∧
    readConditions (.string "like.in.tags!<1=<2.x y") =
      .ok [⟨"like.in.tags!", .lt, .string "1=<2.x y"⟩] ∧
    readConditions (.object [("like", .object [("in",
      .object [("tags! <", .string "1=<2.x y")])])]) =
      .ok [⟨"like.in.tags!", .lt, .string "1=<2.x y"⟩] ∧
    readConditions (.object [("like", .object [("in",
      .object [("tags!", .object [("<", .string "1=<2.x y")])])])]) =
      .ok [⟨"like.in.tags!", .lt, .string "1=<2.x y"⟩] := by
  have hlegible : Legible likeInPath.reference .lt "1=<2.x y" := by decide
  obtain ⟨hentry, hkeyed, hleveled⟩ := readConditions_notations likeInPath .lt "1=<2.x y"
  exact ⟨hlegible, hentry hlegible, hkeyed, hleveled⟩

end Filter

end ModelCatalog
