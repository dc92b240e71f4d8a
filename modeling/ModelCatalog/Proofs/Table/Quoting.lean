import ModelCatalog.Proofs.Outcome
import ModelCatalog.Table.Migration
import Mathlib.Data.List.Infix

/-!
# Names read back from statements

A database reads a quoted text as follows: it starts at a mark, the mark written twice stands for
one, the backslash is a character like any other, and the first mark that is not doubled ends the
text. The mark of names is the double quote, that of literals the single quote.

Literals follow this rule. Names do not: the double quote and the backslash inside a name get a
backslash, which the database takes for a part of the name. So the names that are read from a
statement are those that were meant exactly if all of them are free of both characters
(`Sql.IsSafe`).

## Composing statements

A statement is put together from quoted texts and from text without marks. `Reads` says of a part
that its names are read, in front of whatever does not begin with a mark, exactly if all of them are
safe. Parts with this property are appended to each other as long as no mark follows a quoted text
at once, because the reader would take the two marks for one.
-/

namespace ModelCatalog

namespace Sql

/-! ## Quoted texts

The reader stops at the first mark that is not doubled. Doubling every mark of a text is therefore
undone by it, and nothing else is read as the text. -/

/-- The rest of a text between marks, and what stands behind the mark that ends it. -/
def readRest? (mark : Char) : List Char → Option (List Char × List Char)
  | [] => none
  | [c] => if c = mark then some ([], []) else none
  | c :: d :: cs =>
    if c = mark then
      if d = mark then (readRest? mark cs).map fun (text, rest) ↦ (mark :: text, rest)
      else some ([], d :: cs)
    else (readRest? mark (d :: cs)).map fun (text, rest) ↦ (c :: text, rest)

/-- The text between marks that a text begins with, and what stands behind it. -/
def readQuoted? (mark : Char) : List Char → Option (List Char × List Char)
  | [] => none
  | c :: cs => if c = mark then readRest? mark cs else none

section

variable {mark : Char} {cs ds text rest : List Char}

theorem readRest?_cons_of_ne {c : Char} (h : c ≠ mark) (cs : List Char) :
    readRest? mark (c :: cs) = (readRest? mark cs).map fun (text, rest) ↦ (c :: text, rest) := by
  rcases cs with - | ⟨d, cs⟩ <;> simp [readRest?, h]

private theorem readRest?_mark_mark (mark : Char) (cs : List Char) :
    readRest? mark (mark :: mark :: cs) =
      (readRest? mark cs).map fun (text, rest) ↦ (mark :: text, rest) := by
  simp [readRest?]

private theorem readRest?_mark (h : rest.head? ≠ some mark) :
    readRest? mark (mark :: rest) = some ([], rest) := by
  rcases rest with - | ⟨d, rest⟩
  · simp [readRest?]
  · have hd : d ≠ mark := by simpa using h
    simp [readRest?, hd]

theorem readRest?_append (h : mark ∉ cs) : readRest? mark (cs ++ ds) =
    (readRest? mark ds).map fun (text, rest) ↦ (cs ++ text, rest) := by
  induction cs with
  | nil => simp
  | cons c cs ih =>
    obtain ⟨hc, hcs⟩ : mark ≠ c ∧ mark ∉ cs := by simpa using h
    rw [List.cons_append, readRest?_cons_of_ne hc.symm, ih hcs, Option.map_map]
    rfl

/-- A text with each mark in it written twice. -/
def doubled (mark : Char) (cs : List Char) : List Char :=
  cs.flatMap fun c ↦ if c = mark then [mark, mark] else [c]

@[simp] theorem doubled_nil (mark : Char) : doubled mark [] = [] := rfl

@[simp] theorem doubled_mark (mark : Char) (cs : List Char) :
    doubled mark (mark :: cs) = mark :: mark :: doubled mark cs := by
  simp [doubled]

private theorem doubled_cons_of_ne {c : Char} (h : c ≠ mark) (cs : List Char) :
    doubled mark (c :: cs) = c :: doubled mark cs := by
  simp [doubled, h]

/-- What has its marks doubled is read as it was. -/
theorem readRest?_doubled (cs : List Char) (h : rest.head? ≠ some mark) :
    readRest? mark (doubled mark cs ++ mark :: rest) = some (cs, rest) := by
  induction cs with
  | nil => exact readRest?_mark h
  | cons c cs ih =>
    by_cases hc : c = mark
    · simp [hc, readRest?_mark_mark, ih]
    · simp [doubled_cons_of_ne hc, readRest?_cons_of_ne hc, ih]

/-- What is read has stood there with its marks doubled, up to a mark that is not doubled. -/
theorem eq_of_readRest? (h : readRest? mark cs = some (text, rest)) :
    cs = doubled mark text ++ mark :: rest ∧ rest.head? ≠ some mark := by
  induction cs using readRest?.induct mark generalizing text with
  | case1 => simp [readRest?] at h
  | case2 =>
    obtain ⟨rfl, rfl⟩ : [] = text ∧ [] = rest := by simpa [readRest?] using h
    simp
  | case3 c hc => simp [readRest?, hc] at h
  | case4 cs ih =>
    rw [readRest?_mark_mark] at h
    obtain ⟨⟨text', rest'⟩, h', heq⟩ := Option.map_eq_some_iff.1 h
    obtain ⟨rfl, rfl⟩ := Prod.mk.inj heq
    obtain ⟨rfl, hhead⟩ := ih h'
    exact ⟨by simp, hhead⟩
  | case5 d cs hd =>
    obtain ⟨rfl, rfl⟩ : [] = text ∧ d :: cs = rest := by simpa [readRest?, hd] using h
    simp [hd]
  | case6 c d cs hc ih =>
    rw [readRest?_cons_of_ne hc] at h
    obtain ⟨⟨text', rest'⟩, h', heq⟩ := Option.map_eq_some_iff.1 h
    obtain ⟨rfl, rfl⟩ := Prod.mk.inj heq
    obtain ⟨hcs, hhead⟩ := ih h'
    exact ⟨by simp [doubled_cons_of_ne hc, hcs], hhead⟩

/-- A quoted text is read exactly where it stands with its marks doubled, up to the first mark that
is not doubled. -/
theorem readQuoted?_eq_some_iff : readQuoted? mark cs = some (text, rest) ↔
    cs = mark :: (doubled mark text ++ mark :: rest) ∧ rest.head? ≠ some mark := by
  constructor
  · intro h
    rcases cs with - | ⟨c, cs⟩
    · cases h
    · by_cases hc : c = mark
      · rw [readQuoted?, if_pos hc] at h
        obtain ⟨rfl, hhead⟩ := eq_of_readRest? h
        exact ⟨by rw [hc], hhead⟩
      · simp [readQuoted?, hc] at h
  · rintro ⟨rfl, hhead⟩
    rw [readQuoted?, if_pos rfl, readRest?_doubled text hhead]

private theorem length_lt_of_readRest? (h : readRest? mark cs = some (text, rest)) :
    rest.length < cs.length := by
  obtain ⟨rfl, -⟩ := eq_of_readRest? h
  rw [List.length_append, List.length_cons]
  omega

end

theorem toList_literal_append (text : String) (rest : List Char) :
    (literal text).toList ++ rest = '\'' :: (doubled '\'' text.toList ++ '\'' :: rest) := by
  have hescape : escapeLiteral = fun c ↦ if c = '\'' then ['\'', '\''] else [c] := by
    funext c
    simp [escapeLiteral]
  simp [literal, doubled, hescape]

/-! ## Names

Every character that is escaped makes a name longer, and the reader drops no backslash. So a name
that is not safe is read as a longer one, if it is read at all. -/

/-- A name without the characters that get a backslash. -/
def IsSafe (name : String) : Prop := ∀ c ∈ name.toList, c ≠ '"' ∧ c ≠ '\\'

instance (name : String) : Decidable (IsSafe name) :=
  decidable_of_iff (name.toList.all fun c ↦ c != '"' && c != '\\') (by simp [IsSafe])

private theorem flatMap_escapeIdentifier {cs : List Char} (h : ∀ c ∈ cs, c ≠ '"' ∧ c ≠ '\\') :
    cs.flatMap escapeIdentifier = cs := by
  induction cs with
  | nil => rfl
  | cons c cs ih =>
    obtain ⟨hc, hcs⟩ := List.forall_mem_cons.1 h
    simp [escapeIdentifier, hc, ih hcs]

/-- Every character that gets a backslash makes the name longer. -/
theorem length_flatMap_escapeIdentifier (cs : List Char) : (cs.flatMap escapeIdentifier).length =
    cs.length + cs.countP (fun c ↦ c == '\\' || c == '"') := by
  induction cs with
  | nil => rfl
  | cons c cs ih =>
    rw [List.flatMap_cons, List.length_append, ih, List.countP_cons, escapeIdentifier]
    split <;> simp [*] <;> omega

private theorem mark_notMem_escapeIdentifier {cs : List Char} (h : '"' ∉ cs) :
    '"' ∉ cs.flatMap escapeIdentifier := by
  simp only [List.mem_flatMap, escapeIdentifier, not_exists, not_and]
  intro c hc
  have hne : c ≠ '"' := fun heq ↦ h (heq ▸ hc)
  split <;> simp [hne.symm]

/-- A name that gets a backslash is read as another one, if it is read at all. -/
theorem isSafe_of_readRest? {cs rest ds : List Char}
    (h : readRest? '"' (cs.flatMap escapeIdentifier ++ ds) = some (cs, rest)) :
    ∀ c ∈ cs, c ≠ '"' ∧ c ≠ '\\' := by
  by_cases hmark : '"' ∈ cs
  · -- what is read begins with all that stands up to the backslash of the first double quote, in
    -- which there is none, while the name has its double quote by then
    exfalso
    obtain ⟨front, back, hcs, hfront⟩ := List.eq_append_cons_of_mem hmark
    have hwritten : cs.flatMap escapeIdentifier ++ ds =
        (front.flatMap escapeIdentifier ++ ['\\']) ++
          '"' :: (back.flatMap escapeIdentifier ++ ds) := by
      simp [hcs, escapeIdentifier]
    have hnone : '"' ∉ front.flatMap escapeIdentifier ++ ['\\'] := by
      simp [mark_notMem_escapeIdentifier hfront]
    rw [hwritten, readRest?_append hnone] at h
    obtain ⟨⟨text, rest'⟩, -, hmap⟩ := Option.map_eq_some_iff.1 h
    have htext : (front.flatMap escapeIdentifier ++ ['\\']) ++ text = cs := congrArg Prod.fst hmap
    have hlength : (front ++ ['"']).length ≤ (front.flatMap escapeIdentifier ++ ['\\']).length := by
      rw [List.length_append, List.length_append, length_flatMap_escapeIdentifier,
        List.length_singleton, List.length_singleton]
      omega
    have hbegins : front ++ ['"'] <+: front.flatMap escapeIdentifier ++ ['\\'] :=
      List.prefix_of_prefix_length_le ⟨back, by simp [hcs]⟩ ⟨text, htext⟩ hlength
    exact hnone (hbegins.subset (by simp))
  · -- without a double quote all is read that is written, backslashes included
    rw [readRest?_append (mark_notMem_escapeIdentifier hmark)] at h
    obtain ⟨⟨text, rest'⟩, -, hmap⟩ := Option.map_eq_some_iff.1 h
    have htext : cs.flatMap escapeIdentifier ++ text = cs := congrArg Prod.fst hmap
    have hlength := congrArg List.length htext
    rw [List.length_append, length_flatMap_escapeIdentifier] at hlength
    have hcount : cs.countP (fun c ↦ c == '\\' || c == '"') = 0 := by omega
    intro c hc
    have hnot := List.countP_eq_zero.1 hcount c hc
    simp only [Bool.or_eq_true, beq_iff_eq, not_or] at hnot
    exact hnot.symm

/-- A name that gets no backslash is read back where no double quote follows. -/
theorem readRest?_of_isSafe {name : String} (hsafe : IsSafe name) {rest : List Char}
    (h : rest.head? ≠ some '"') :
    readRest? '"' (name.toList.flatMap escapeIdentifier ++ '"' :: rest) =
      some (name.toList, rest) := by
  have hmark : '"' ∉ name.toList := fun hmem ↦ (hsafe _ hmem).1 rfl
  rw [flatMap_escapeIdentifier hsafe, readRest?_append hmark, readRest?_mark h]
  simp

theorem toList_identifier_append (name : String) (rest : List Char) :
    (identifier name).toList ++ rest =
      '"' :: (name.toList.flatMap escapeIdentifier ++ '"' :: rest) := by
  simp [identifier]

/-- Of the names in front of a text that does not go on with a double quote, those come back that
get no backslash. -/
theorem readQuoted?_identifier_iff {name : String} {rest : List Char} (h : rest.head? ≠ some '"') :
    readQuoted? '"' ((identifier name).toList ++ rest) = some (name.toList, rest) ↔
      IsSafe name := by
  rw [toList_identifier_append, readQuoted?, if_pos rfl]
  exact ⟨isSafe_of_readRest?, fun hsafe ↦ readRest?_of_isSafe hsafe h⟩

/-! ## Statements -/

/-- The names in a statement, in order: each text between double quotes, unless it stands in a
literal. A quoted text that does not end is an error. Statements here have no comments. -/
def readNames? : List Char → Option (List String)
  | [] => some []
  | c :: cs =>
    if c = '"' then
      match _h : readRest? '"' cs with
      | none => none
      | some (name, rest) => (readNames? rest).map (String.ofList name :: ·)
    else if c = '\'' then
      match _h : readRest? '\'' cs with
      | none => none
      | some (_, rest) => readNames? rest
    else readNames? cs
termination_by cs => cs.length
decreasing_by
  · have := length_lt_of_readRest? _h
    simp only [List.length_cons]
    omega
  · have := length_lt_of_readRest? _h
    simp only [List.length_cons]
    omega
  · simp

private theorem readNames?_identifier {cs : List Char} : readNames? ('"' :: cs) =
    (readRest? '"' cs).bind fun (name, rest) ↦ (readNames? rest).map (String.ofList name :: ·) := by
  rw [readNames?, if_pos rfl]
  split <;> simp [*]

private theorem readNames?_literal {cs : List Char} :
    readNames? ('\'' :: cs) = (readRest? '\'' cs).bind fun (_, rest) ↦ readNames? rest := by
  rw [readNames?, if_neg (by decide), if_pos rfl]
  split <;> simp [*]

def isMark (c : Char) : Bool := c == '"' || c == '\''

private theorem readNames?_cons {c : Char} (h : isMark c = false) (cs : List Char) :
    readNames? (c :: cs) = readNames? cs := by
  simp only [isMark, Bool.or_eq_false_iff, beq_eq_false_iff_ne] at h
  rw [readNames?, if_neg h.1, if_neg h.2]

/-- A text without quoted texts. -/
def IsBare (text : String) : Prop := text.toList.all (!isMark ·)

/-- A text that does not begin with a quoted text. -/
def BeginsBare (cs : List Char) : Prop := cs.head?.all (!isMark ·)

instance (text : String) : Decidable (IsBare text) :=
  inferInstanceAs (Decidable (text.toList.all (!isMark ·) = true))

instance (cs : List Char) : Decidable (BeginsBare cs) :=
  inferInstanceAs (Decidable (cs.head?.all (!isMark ·) = true))

theorem BeginsBare.append {cs ds : List Char} (hcs : BeginsBare cs) (hds : BeginsBare ds) :
    BeginsBare (cs ++ ds) := by
  rcases cs with - | ⟨c, cs⟩
  · exact hds
  · exact hcs

theorem IsBare.beginsBare {text : String} (h : IsBare text) : BeginsBare text.toList := by
  rcases hlist : text.toList with - | ⟨c, cs⟩
  · rfl
  · rw [IsBare, hlist, List.all_cons, Bool.and_eq_true] at h
    exact h.1

theorem IsBare.append {a b : String} (ha : IsBare a) (hb : IsBare b) : IsBare (a ++ b) := by
  simp only [IsBare, String.toList_append, List.all_append, Bool.and_eq_true] at *
  exact ⟨ha, hb⟩

theorem IsBare.append_if {a b : String} (ha : IsBare a) (condition : Bool) (hb : IsBare b) :
    IsBare (a ++ if condition then b else "") := by
  refine ha.append ?_
  split
  · exact hb
  · rfl

theorem IsBare.beginsBare_append {text : String} (h : IsBare text) (hne : text ≠ "")
    (other : String) : BeginsBare (text ++ other).toList := by
  have hbegins := h.beginsBare
  rw [String.toList_append]
  rcases hlist : text.toList with - | ⟨c, cs⟩
  · exact absurd (String.toList_eq_nil_iff.1 hlist) hne
  · rw [hlist] at hbegins
    exact hbegins

theorem BeginsBare.head?_ne {cs : List Char} (h : BeginsBare cs) {c : Char} (hc : isMark c) :
    cs.head? ≠ some c := by
  intro hhead
  simp [BeginsBare, hhead, hc] at h

theorem readNames?_append {text : String} (h : IsBare text) (cs : List Char) :
    readNames? (text.toList ++ cs) = readNames? cs := by
  have hbare : ∀ c ∈ text.toList, isMark c = false := by simpa [IsBare] using h
  generalize text.toList = ds at hbare
  induction ds with
  | nil => rfl
  | cons d ds ih =>
    obtain ⟨hd, hds⟩ := List.forall_mem_cons.1 hbare
    rw [List.cons_append, readNames?_cons hd, ih hds]

/-- In front of whatever does not begin with a quoted text, these names are read exactly if all of
them are safe. -/
def Reads (text : String) (names : List String) : Prop :=
  ∀ cs more, BeginsBare cs → (readNames? (text.toList ++ cs) = some (names ++ more) ↔
    (∀ name ∈ names, IsSafe name) ∧ readNames? cs = some more)

theorem Reads.readNames?_iff {text : String} {names : List String} (h : Reads text names) :
    readNames? text.toList = some names ↔ ∀ name ∈ names, IsSafe name := by
  have hread := h [] [] rfl
  simpa [readNames?] using hread

theorem reads_of_isBare {text : String} (h : IsBare text) : Reads text [] := by
  intro cs more _
  simp [readNames?_append h]

theorem reads_identifier (name : String) : Reads (identifier name) [name] := by
  intro cs more hcs
  have hcs : cs.head? ≠ some '"' := hcs.head?_ne rfl
  rw [toList_identifier_append, readNames?_identifier, List.singleton_append,
    List.forall_mem_singleton]
  constructor
  · intro h
    obtain ⟨⟨text, rest⟩, hread, hmore⟩ := Option.bind_eq_some_iff.1 h
    obtain ⟨names, hnames, heq⟩ := Option.map_eq_some_iff.1 hmore
    obtain ⟨htext, rfl⟩ := List.cons.inj heq
    obtain rfl : text = name.toList := by rw [← htext, String.toList_ofList]
    have hsafe : IsSafe name := isSafe_of_readRest? hread
    rw [readRest?_of_isSafe hsafe hcs] at hread
    obtain rfl : cs = rest := congrArg Prod.snd (Option.some.inj hread)
    exact ⟨hsafe, hnames⟩
  · rintro ⟨hsafe, hmore⟩
    simp [readRest?_of_isSafe hsafe hcs, hmore]

private theorem reads_literal (text : String) : Reads (literal text) [] := by
  intro cs more hcs
  rw [toList_literal_append, readNames?_literal, readRest?_doubled _ (hcs.head?_ne rfl)]
  simp

namespace Reads

variable {a b : String} {names more : List String}

theorem append (ha : Reads a names) (hb : Reads b more) (hbegin : BeginsBare b.toList) :
    Reads (a ++ b) (names ++ more) := by
  intro cs others hcs
  rw [String.toList_append, List.append_assoc, List.append_assoc, ha _ _ (hbegin.append hcs),
    hb _ _ hcs, ← and_assoc, List.forall_mem_append]

theorem append_bare (ha : Reads a names) (hb : IsBare b) : Reads (a ++ b) names := by
  have happend := ha.append (reads_of_isBare hb) hb.beginsBare
  rwa [List.append_nil] at happend

theorem append_if (ha : Reads a names) (condition : Bool) (hb : IsBare b) :
    Reads (a ++ if condition then b else "") names := by
  refine ha.append_bare ?_
  split
  · exact hb
  · rfl

theorem bare_append (ha : IsBare a) (hb : Reads b more) : Reads (a ++ b) more := by
  intro cs others hcs
  rw [String.toList_append, List.append_assoc, readNames?_append ha, hb _ _ hcs]

/-- Anything may follow where a text without quoted texts stands between. -/
theorem apart {sep : String} (ha : Reads a names) (hsep : IsBare sep) (hne : sep ≠ "")
    (hb : Reads b more) : Reads (a ++ sep ++ b) (names ++ more) := by
  rw [String.append_assoc]
  exact ha.append (bare_append hsep hb) (hsep.beginsBare_append hne b)

theorem intercalate {sep : String} (hsep : IsBare sep) (hne : sep ≠ "") {texts : List String}
    {names : List (List String)} (h : List.Forall₂ Reads texts names) :
    Reads (sep.intercalate texts) names.flatten := by
  induction h with
  | nil => exact reads_of_isBare rfl
  | @cons text own texts others htext hrest ih =>
    rcases texts with - | ⟨next, texts⟩
    · obtain rfl : others = [] := List.forall₂_nil_left_iff.1 hrest
      simpa using htext
    · rw [String.intercalate_cons_cons, List.flatten_cons]
      exact htext.apart hsep hne ih

end Reads

private theorem reads_identifierList (names : List String) : Reads
    (identifierList names) names := by
  have hnames : List.Forall₂ Reads (names.map identifier) (names.map fun name ↦ [name]) := by
    rw [List.forall₂_map_left_iff, List.forall₂_map_right_iff, List.forall₂_same]
    exact fun name _ ↦ reads_identifier name
  have hlist : Reads (", ".intercalate (names.map identifier)) names := by
    have hflatten := Reads.intercalate (by decide : IsBare ", ") (by decide) hnames
    rwa [← List.flatMap_def, List.flatMap_singleton'] at hflatten
  have hopened : Reads ("(" ++ ", ".intercalate (names.map identifier)) names :=
    .bare_append (by decide) hlist
  exact hopened.append_bare (by decide)

end Sql

/-! ### Numbers

The default of a column may be a number, which is written out in digits. No number has a mark, in
whichever of its forms it is written. -/

/-- A character that the written form of a number is made of. -/
def IsNumeral (c : Char) : Prop := c.isDigit ∨ c ∈ ['-', '+', '.', 'e']

theorem isNumeral_of_mem_decimalDigits {n : Nat} {c : Char} (h : c ∈ decimalDigits n) :
    IsNumeral c :=
  .inl (Nat.isDigit_of_mem_toDigits (b := 10) (by decide) (by decide) h)

private theorem isNumeral_of_mem_replicate {n : Nat} {c : Char} (h : c ∈ List.replicate n '0') :
    IsNumeral c := by
  obtain rfl := List.eq_of_mem_replicate h
  exact .inl rfl

private theorem Decimal.isNumeral_of_mem_text {d : Decimal} (h : ∀ c ∈ d.digits, IsNumeral c) :
    ∀ c ∈ d.text, IsNumeral c := by
  have hdot : IsNumeral '.' := by simp [IsNumeral]
  have hzero : IsNumeral '0' := .inl rfl
  have hpositional : ∀ c ∈ d.positional, IsNumeral c := by
    rw [Decimal.positional]
    split
    · simp only [List.cons_append, List.mem_cons, List.mem_append]
      rintro c (rfl | rfl | hc | hc)
      · exact hzero
      · exact hdot
      · exact isNumeral_of_mem_replicate hc
      · exact h c hc
    · simp only [List.mem_append, List.mem_cons]
      rintro c ((hc | hc) | rfl | hc)
      · exact h c (List.mem_of_mem_take hc)
      · exact isNumeral_of_mem_replicate hc
      · exact hdot
      · split at hc
        · exact List.mem_singleton.1 hc ▸ hzero
        · exact h c (List.mem_of_mem_drop hc)
  have hscientific : ∀ c ∈ d.scientific, IsNumeral c := by
    rw [Decimal.scientific]
    simp only [List.mem_append, List.mem_cons]
    rintro c ((hc | hc) | rfl | rfl | hc)
    · exact h c (List.mem_of_mem_take hc)
    · split at hc
      · simp at hc
      · rcases List.mem_cons.1 hc with rfl | hc
        · exact hdot
        · exact h c (List.mem_of_mem_drop hc)
    · simp [IsNumeral]
    · split <;> simp [IsNumeral]
    · exact isNumeral_of_mem_decimalDigits hc
  rw [Decimal.text]
  split
  · exact hpositional
  · exact hscientific

private theorem Binary64.isNumeral_of_mem_shortest (x : Binary64) :
    ∀ c ∈ x.shortest.digits, IsNumeral c := by
  intro c hc
  rw [Binary64.shortest] at hc
  have hdigits := (List.dropWhile_sublist _).subset (List.mem_reverse.1 hc)
  exact isNumeral_of_mem_decimalDigits (List.mem_reverse.1 hdigits)

private theorem Binary64.isNumeral_of_mem_toText (x : Binary64) :
    ∀ c ∈ x.toText.toList, IsNumeral c := by
  have hmagnitude : ∀ c ∈ (if x.isZero then ['0', '.', '0'] else x.shortest.text), IsNumeral c := by
    split
    · simp [IsNumeral]
    · exact Decimal.isNumeral_of_mem_text x.isNumeral_of_mem_shortest
  rw [Binary64.toText, String.toList_ofList]
  split
  · exact List.forall_mem_cons.2 ⟨by simp [IsNumeral], hmagnitude⟩
  · exact hmagnitude

private theorem Number.isNumeral_of_mem_text (value : Number) :
    ∀ c ∈ value.text.toList, IsNumeral c := by
  rcases value with value | x
  · rw [Number.text, Int.toString_eq_repr, Int.repr_eq_if]
    have hdigits : ∀ n : Nat, ∀ c ∈ n.repr.toList, IsNumeral c := by
      intro n c hc
      rw [Nat.repr_eq_ofList_toDigits, String.toList_ofList] at hc
      exact isNumeral_of_mem_decimalDigits hc
    split
    · exact hdigits _
    · rw [String.toList_append, List.forall_mem_append]
      exact ⟨by simp [IsNumeral], hdigits _⟩
  · exact x.isNumeral_of_mem_toText

/-! ### Tables -/

open Sql

theorem Sql.isBare_number (value : Number) : IsBare value.text := by
  have hnumeral : ∀ c, IsNumeral c → isMark c = false := by
    rintro c (hdigit | hc)
    · simp only [isMark, Bool.or_eq_false_iff, beq_eq_false_iff_ne]
      exact ⟨by rintro rfl; contradiction, by rintro rfl; contradiction⟩
    · simp only [List.mem_cons, List.not_mem_nil, or_false] at hc
      rcases hc with rfl | rfl | rfl | rfl <;> rfl
  rw [IsBare, List.all_eq_true]
  intro c hc
  rw [hnumeral c (value.isNumeral_of_mem_text c hc), Bool.not_false]

private theorem Sql.Default.reads_sql (value : Sql.Default) : Reads value.sql [] := by
  rcases value with - | text | number | truth | document
  · exact reads_of_isBare (by decide)
  · exact reads_literal text
  · exact reads_of_isBare (isBare_number number)
  · rcases truth with - | - <;> exact reads_of_isBare (by decide)
  · exact (reads_literal document.text).append_bare (by decide)

private theorem ForeignKey.reads_sql (key : ForeignKey) : Reads key.sql
    [key.table, key.column] := by
  have htable : Reads (" REFERENCES " ++ Sql.identifier key.table) [key.table] :=
    .bare_append (by decide) (reads_identifier key.table)
  have hcolumn : Reads (" REFERENCES " ++ Sql.identifier key.table ++ " (" ++
      Sql.identifier key.column) [key.table, key.column] :=
    htable.apart (by decide) (by decide) (reads_identifier key.column)
  exact (hcolumn.append_bare (by decide)).append_if key.cascade (by decide)

private theorem ForeignKey.beginsBare_sql (key : ForeignKey) : BeginsBare key.sql.toList := by
  have hsql : key.sql = " REFERENCES " ++ Sql.identifier key.table ++ " (" ++
      Sql.identifier key.column ++ ")" ++ (if key.cascade then " ON DELETE CASCADE" else "") := rfl
  rw [hsql, String.append_assoc, String.append_assoc, String.append_assoc, String.append_assoc]
  exact (by decide : IsBare " REFERENCES ").beginsBare_append (by decide) _

/-- The names in the statement of a column: its own, and those of the column that it refers to. -/
def Column.names (c : Column) : List String :=
  c.name :: (c.references.map fun key ↦ [key.table, key.column]).getD []

private theorem Column.reads_sql (c : Column) : Reads c.sql c.names := by
  have htype : IsBare c.type.sql := by rcases c.type <;> decide
  have hname : Reads (Sql.identifier c.name ++ " " ++ c.type.sql) [c.name] :=
    (reads_identifier c.name).apart (by decide) (by decide) (reads_of_isBare htype)
  have hflags := (hname.append_if c.primary (by decide : IsBare " PRIMARY KEY")).append_if
    c.notNull (by decide : IsBare " NOT NULL")
  have hreferences : Reads ((c.references.map ForeignKey.sql).getD "")
      ((c.references.map fun key ↦ [key.table, key.column]).getD []) ∧
        BeginsBare ((c.references.map ForeignKey.sql).getD "").toList := by
    rcases c.references with - | key
    · exact ⟨reads_of_isBare (by decide), by decide⟩
    · exact ⟨key.reads_sql, key.beginsBare_sql⟩
  have hdefault : Reads ((c.default.map fun value ↦ " DEFAULT " ++ value.sql).getD "") [] ∧
      BeginsBare ((c.default.map fun value ↦ " DEFAULT " ++ value.sql).getD "").toList := by
    rcases c.default with - | value
    · exact ⟨reads_of_isBare (by decide), by decide⟩
    · have hsql := (by decide : IsBare " DEFAULT ").beginsBare_append (by decide)
      exact ⟨.bare_append (by decide) value.reads_sql, hsql value.sql⟩
  have hunique := (hflags.append hreferences.1 hreferences.2).append_if c.unique
    (by decide : IsBare " UNIQUE")
  have hall := hunique.append hdefault.1 hdefault.2
  rwa [List.append_nil] at hall

namespace Table

variable (t : Table)

/-- The names in the statement that creates a table: its own, those of the columns, and those of
the primary key if it is apart. -/
def names : List String := t.name :: (t.columns.flatMap Column.names ++ t.primaryKey.getD [])

private theorem reads_declarations : List.Forall₂ Reads t.declarations
    (t.columns.map Column.names ++ t.primaryKey.toList) := by
  have hcolumns : List.Forall₂ Reads (t.columns.map Column.sql) (t.columns.map Column.names) := by
    rw [List.forall₂_map_left_iff, List.forall₂_map_right_iff, List.forall₂_same]
    exact fun c _ ↦ c.reads_sql
  refine List.rel_append hcolumns ?_
  rcases t.primaryKey with - | names
  · exact .nil
  · exact .cons (.bare_append (by decide) (reads_identifierList names)) .nil

theorem reads_createStatement : Reads t.createStatement t.names := by
  have hname : Reads ("CREATE TABLE IF NOT EXISTS " ++ Sql.identifier t.name) [t.name] :=
    .bare_append (by decide) (reads_identifier t.name)
  have hdeclarations : Reads (",\n  ".intercalate t.declarations)
      (t.columns.flatMap Column.names ++ t.primaryKey.getD []) := by
    have hflatten := Reads.intercalate (by decide : IsBare ",\n  ") (by decide) t.reads_declarations
    have hkey : t.primaryKey.toList.flatten = t.primaryKey.getD [] := by
      rcases t.primaryKey with - | names <;> simp
    rwa [List.flatten_append, ← List.flatMap_def, hkey] at hflatten
  exact (hname.apart (by decide) (by decide) hdeclarations).append_bare (by decide)

theorem reads_dropStatement : Reads t.dropStatement [t.name] :=
  .bare_append (by decide) (reads_identifier t.name)

/-- **Names in statements.** A name is read back from between its quotes, with what follows left
over, exactly if it gets no backslash; the names of a table are read back from its statements
exactly if none of them does. -/
theorem namesReadBack_iff (name : String) (rest : List Char) (h : rest.head? ≠ some '"') :
    (readQuoted? '"' ((Sql.identifier name).toList ++ rest) = some (name.toList, rest) ↔
      IsSafe name) ∧
    (readNames? t.createStatement.toList = some t.names ↔ ∀ other ∈ t.names, IsSafe other) ∧
    (readNames? t.dropStatement.toList = some [t.name] ↔ IsSafe t.name) := by
  refine ⟨readQuoted?_identifier_iff h, ?_, ?_⟩
  · exact t.reads_createStatement.readNames?_iff
  · simpa using t.reads_dropStatement.readNames?_iff

/-- A table with a foreign key and with defaults of which one has quotes of both kinds in it. -/
def posts : Table where
  name := "posts"
  columns := [{ Column.plain "id" .serial with primary := true },
    { Column.plain "authorId" .integer with references := some ⟨"users", "id", true⟩ },
    { Column.plain "tags" .document with default := some (.document (.array [.string "it's"])) },
    { Column.plain "rank" .double with default := some (.number (.int (-1))) }]
  primaryKey := none

theorem namesReadBack_iff_posts : " (".toList.head? ≠ some '"' ∧
    readQuoted? '"' ((Sql.identifier "users").toList ++ " (".toList) =
      some ("users".toList, " (".toList) ∧
    readNames? posts.createStatement.toList =
      some ["posts", "id", "authorId", "users", "id", "tags", "rank"] ∧
    readNames? posts.dropStatement.toList = some ["posts"] := by
  have hrest : " (".toList.head? ≠ some '"' := by decide
  obtain ⟨hname, hcreate, hdrop⟩ := namesReadBack_iff posts "users" " (".toList hrest
  exact ⟨hrest, hname.2 (by decide), hcreate.2 (by decide), hdrop.2 (by decide)⟩

end Table

/-- A model whose table has a double quote in its name. -/
def Catalog.quotedUsers : List ModelDefinition :=
  [⟨"User", some "us\"ers", none, false, [("name", .string "string")], [], []⟩]

/-- The models pass all checks, and the name of the table ends early in its statements. -/
theorem Catalog.not_namesReadBack_quotedUsers : ∃ c, resolve quotedUsers = .ok c ∧
    ∃ ms, c.migrations ⟨false⟩ ⟨2024, 3, 9, 8, 5, 7⟩ = .ok ms ∧ ∃ m ∈ ms,
      readQuoted? '"' ((Sql.identifier m.table.name).toList ++ " (".toList) =
        some ("us\\".toList, "ers\" (".toList) ∧
      readNames? m.table.createStatement.toList ≠ some m.table.names ∧
      readNames? m.table.dropStatement.toList ≠ some [m.table.name] := by
  have hrenders : (resolve quotedUsers).toOption.any fun c ↦
      (c.migrations ⟨false⟩ ⟨2024, 3, 9, 8, 5, 7⟩).toOption.any fun ms ↦
        ms.any fun m ↦ m.table.name == "us\"ers" := by
    decide +kernel
  obtain ⟨c, hc, hrenders⟩ := Outcome.exists_of_any hrenders
  obtain ⟨ms, hms, hrenders⟩ := Outcome.exists_of_any hrenders
  obtain ⟨m, hm, hname⟩ := List.any_eq_true.1 hrenders
  have hname : m.table.name = "us\"ers" := by simpa using hname
  have hunsafe : ¬IsSafe m.table.name := by
    rw [hname]
    decide
  refine ⟨c, hc, ms, hms, m, hm, by rw [hname]; decide, ?_, ?_⟩
  · rw [ne_eq, m.table.reads_createStatement.readNames?_iff]
    exact fun h ↦ hunsafe (h _ (by simp [Table.names]))
  · rw [ne_eq, m.table.reads_dropStatement.readNames?_iff]
    exact fun h ↦ hunsafe (h _ (by simp))

end ModelCatalog
