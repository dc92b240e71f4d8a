import Mathlib.Data.List.TakeWhile
import ModelCatalog.Proofs.Json.Reader
import ModelCatalog.Query.Parameters

/-!
# Quoted words

An expression is read after quotes have been put around its words and colons before the lists that
follow a word at once. What the result is read as can be told from the expression itself: every word
is a string, punctuation stands for itself, and nothing else may occur. No other token comes about,
whatever the expression is, as long as it has no quotes of its own.

## Two passes as one

Quotes and colons are put in by two passes over the whole expression. The proofs go through the
expression once: `quoted` is what both passes leave of it, and it is computed from the front, word
by word, so that each token is found where the rest of the expression is still to be quoted.
-/

namespace ModelCatalog

open Text

namespace PropertiesExpression

/-! ## Expressions as tokens -/

/-- Spaces, tabs and line ends only. -/
def IsGap (cs : List Char) : Prop := ∀ c ∈ cs, Token.isGap c

theorem isGap_nil : IsGap [] := List.forall_mem_nil _

theorem IsGap.append {cs others : List Char} (h : IsGap cs) (hothers : IsGap others) :
    IsGap (cs ++ others) := by
  intro c hc
  rcases List.mem_append.1 hc with hc | hc
  · exact h c hc
  · exact hothers c hc

/-- The characters of a word. A word never stands beside another word character, so it is a maximal
run of them. -/
def Word (cs : List Char) (word : String) : Prop :=
  cs ≠ [] ∧ (∀ c ∈ cs, isWordChar c) ∧ word = String.ofList cs

/-- Whether a text begins in the middle of a word. -/
def beginsWord (cs : List Char) : Bool := cs.head?.any isWordChar

@[simp] theorem beginsWord_nil : beginsWord [] = false := rfl

@[simp] theorem beginsWord_cons (c : Char) (cs : List Char) : beginsWord (c :: cs) = isWordChar c :=
  rfl

/-- The colon between a word and a list that follows at once. -/
def linkTokens : List Char → List Token
  | '[' :: _ => [.colon]
  | _ => []

/-- The tokens of an expression: words, and the punctuation between them. -/
inductive Spells : List Char → List Token → Prop
  | nil : Spells [] []
  | gap {c : Char} {cs : List Char} {tokens : List Token} : Token.isGap c → Spells cs tokens →
    Spells (c :: cs) tokens
  | punctuation {c : Char} {token : Token} {cs : List Char} {tokens : List Token} :
    Token.ofPunctuation? c = some token → Spells cs tokens → Spells (c :: cs) (token :: tokens)
  | word {cs rest : List Char} {word : String} {tokens : List Token} : Word cs word →
    ¬beginsWord rest → Spells rest tokens →
      Spells (cs ++ rest) (.string word :: (linkTokens rest ++ tokens))

/-! ## Quoted words

A word is quoted character by character, and the closing quote is put where the first character
follows that does not belong to a word. -/

theorem ne_quote_of_isWordChar {c : Char} (h : isWordChar c) : c ≠ '"' := by
  rintro rfl
  exact absurd h (by decide)

/-- The characters of words stand for themselves in a string. -/
theorem step?_of_isWordChar {c : Char} (h : isWordChar c) (read : List Char) :
    (Token.StringScan.text read).step? c = some (.text (c :: read)) := by
  have hquote : c ≠ '"' := ne_quote_of_isWordChar h
  have hbackslash : c ≠ '\\' := by
    rintro rfl
    exact absurd h (by decide)
  have hcontrol : ¬c.toNat < 0x20 := by
    have hnone : ∀ n < 0x20, isWordChar (Char.ofNat n) = false := by decide
    intro hlt
    simpa [h] using hnone c.toNat hlt
  simp [Token.StringScan.step?, hquote, hbackslash, hcontrol]

private theorem finish?_word {cs : List Char} (h : ∀ c ∈ cs, isWordChar c) (read rest : List Char) :
    (Token.StringScan.text read).finish? (cs ++ '"' :: rest) =
      some (String.ofList (read.reverse ++ cs), rest) := by
  induction cs generalizing read with
  | nil => simp [Token.StringScan.finish?, Token.StringScan.step?]
  | cons c cs ih =>
    obtain ⟨hc, hcs⟩ := List.forall_mem_cons.1 h
    rw [List.cons_append, Token.StringScan.finish?, step?_of_isWordChar hc]
    simpa using ih hcs (c :: read)

/-- An expression with quotes around its words and colons behind the models. -/
def quoted (cs : List Char) : List Char := linkLists (quoteWords false cs)

theorem linkLists_cons {c : Char} (h : c ≠ '"') (cs : List Char) :
    linkLists (c :: cs) = c :: linkLists cs := by
  rw [linkLists]
  rintro _ rfl
  exact absurd rfl h

private theorem linkLists_append {cs : List Char} (h : ∀ c ∈ cs, c ≠ '"') (rest : List Char) :
    linkLists (cs ++ rest) = cs ++ linkLists rest := by
  induction cs with
  | nil => rfl
  | cons c cs ih =>
    obtain ⟨hc, hcs⟩ := List.forall_mem_cons.1 h
    rw [List.cons_append, linkLists_cons hc, ih hcs, List.cons_append]

theorem quoted_cons {c : Char} (hword : ¬isWordChar c) (hquote : c ≠ '"') (cs : List Char) :
    quoted (c :: cs) = c :: quoted cs := by
  rw [quoted, quoteWords, if_neg hword, if_neg Bool.false_ne_true, linkLists_cons hquote, quoted]

private theorem quoteWords_true_append {cs rest : List Char} (h : ∀ c ∈ cs, isWordChar c)
    (hrest : ¬beginsWord rest) :
    quoteWords true (cs ++ rest) = cs ++ '"' :: quoteWords false rest := by
  induction cs with
  | nil =>
    cases rest with
    | nil => rfl
    | cons c rest =>
      have hc : ¬isWordChar c := by simpa using hrest
      simp [quoteWords, hc]
  | cons c cs ih =>
    obtain ⟨hc, hcs⟩ := List.forall_mem_cons.1 h
    rw [List.cons_append, quoteWords, if_pos hc, if_pos rfl, ih hcs, List.cons_append]

def linkText : List Char → List Char
  | '[' :: _ => [':']
  | _ => []

/-- Behind the closing quote of a word comes the colon, if a list follows at once. -/
theorem linkLists_closing {rest : List Char} (hrest : ¬beginsWord rest) :
    linkLists ('"' :: quoteWords false rest) = '"' :: (linkText rest ++ quoted rest) := by
  cases rest with
  | nil => rfl
  | cons c rest =>
    have hc : ¬isWordChar c := by simpa using hrest
    rw [quoted, quoteWords, if_neg hc, if_neg Bool.false_ne_true]
    by_cases hlist : c = '['
    · subst hlist
      rw [linkLists, linkLists_cons (by decide)]
      rfl
    · have hlink : linkText (c :: rest) = [] := by
        unfold linkText
        split <;> simp_all
      rw [hlink, linkLists]
      · rfl
      · rintro _ - ⟨⟩
        exact hlist rfl

private theorem quoted_word {cs rest : List Char} {word : String} (h : Word cs word)
    (hrest : ¬beginsWord rest) :
    quoted (cs ++ rest) = '"' :: (cs ++ '"' :: (linkText rest ++ quoted rest)) := by
  obtain ⟨hne, hcs, -⟩ := h
  obtain ⟨c, cs, rfl⟩ := List.exists_cons_of_ne_nil hne
  have hc : isWordChar c := hcs c List.mem_cons_self
  have hquotes : quoteWords false (c :: cs ++ rest) =
      '"' :: c :: (cs ++ '"' :: quoteWords false rest) := by
    rw [List.cons_append, quoteWords, if_pos hc, if_neg Bool.false_ne_true,
      quoteWords_true_append (fun d hd ↦ hcs d (List.mem_cons_of_mem _ hd)) hrest]
  have hfirst : c ≠ '[' := by
    rintro rfl
    exact absurd hc (by decide)
  have hplain : ∀ d ∈ c :: cs, d ≠ '"' := fun d hd ↦ ne_quote_of_isWordChar (hcs d hd)
  rw [quoted, hquotes, linkLists, ← List.cons_append, linkLists_append hplain,
    linkLists_closing hrest]
  rintro _ - ⟨⟩
  exact hfirst rfl

/-! ## Tokens of quoted words -/

private theorem next?_word {cs : List Char} {word : String} (h : Word cs word) (rest : List Char) :
    Token.next? ('"' :: (cs ++ '"' :: rest)) = some (.string word, rest) := by
  obtain ⟨-, hcs, rfl⟩ := h
  rw [Token.next?, if_neg (by decide), if_pos (by decide), finish?_word hcs]
  rfl

private theorem isWordChar_of_isDigit {c : Char} (h : c.isDigit) : isWordChar c := by
  have hascii : c.toNat < 128 := by
    simp only [Char.isDigit, Bool.and_eq_true, decide_eq_true_eq] at h
    have hle := UInt32.le_iff_toNat_le.1 h.2
    exact Nat.lt_of_le_of_lt hle (by decide)
  simp [isWordChar, hascii, Char.isAlphanum, h]

/-- What does not begin in a word does not begin with a number. -/
theorem read?_eq_none {cs : List Char} (h : ¬beginsWord (NumberLiteral.readMinus cs).2) :
    NumberLiteral.read? cs = none := by
  have hdigits : (readDigits (NumberLiteral.readMinus cs).2).1 = [] := by
    generalize (NumberLiteral.readMinus cs).2 = digits at h
    cases digits with
    | nil => rfl
    | cons c digits =>
      have hword : ¬isWordChar c := by simpa using h
      have hc : ¬c.isDigit := fun hdigit ↦ hword (isWordChar_of_isDigit hdigit)
      simp [readDigits, hc]
  simp [NumberLiteral.read?, hdigits]

private theorem readWord?_eq_none {c : Char} {cs : List Char} (hc : ¬isWordChar c)
    (hcs : ¬beginsWord cs) :
    Token.readWord? (c :: cs) = none := by
  have hminus : ¬beginsWord (NumberLiteral.readMinus (c :: cs)).2 := by
    unfold NumberLiteral.readMinus
    split
    · rename_i heq
      obtain ⟨rfl, rfl⟩ := List.cons.inj heq
      exact hcs
    · simpa using hc
  have hletter : ∀ d, isWordChar d → c ≠ d := by
    rintro d hd rfl
    exact hc hd
  unfold Token.readWord?
  split
  · exact absurd (List.cons.inj ‹_›).1 (hletter 'n' (by decide))
  · exact absurd (List.cons.inj ‹_›).1 (hletter 't' (by decide))
  · exact absurd (List.cons.inj ‹_›).1 (hletter 'f' (by decide))
  · rw [read?_eq_none hminus, Option.bind_none]

private theorem next?_eq_none {c : Char} {cs : List Char} (hgap : ¬Token.isGap c) (hquote : c ≠ '"')
    (hpunctuation : Token.ofPunctuation? c = none) (hc : ¬isWordChar c) (hcs : ¬beginsWord cs) :
    Token.next? (c :: cs) = none := by
  rw [Token.next?, if_neg hgap, if_neg (by simpa using hquote), hpunctuation]
  simp [readWord?_eq_none hc hcs]

private theorem not_beginsWord_quoted (cs : List Char) : ¬beginsWord (quoted cs ++ ['}']) := by
  cases cs with
  | nil => decide
  | cons c cs =>
    have hhead : ∀ ds : List Char, (linkLists ds).head? = ds.head? := by
      intro ds
      unfold linkLists
      split <;> rfl
    by_cases hc : isWordChar c
    · have hquoted : (quoted (c :: cs)).head? = some '"' := by
        rw [quoted, hhead, quoteWords, if_pos hc, if_neg Bool.false_ne_true, List.head?_cons]
      have hquote : ¬isWordChar '"' := by decide
      simp [beginsWord, hquoted, hquote]
    · have hquoted : (quoted (c :: cs)).head? = some c := by
        rw [quoted, hhead, quoteWords, if_neg hc, if_neg Bool.false_ne_true, List.head?_cons]
      simp [beginsWord, hquoted, hc]

/-! ## The text that is read

An expression is followed by a closing brace when it is read, so its last token always ends inside
the text. -/

private theorem exists_word_append {c : Char} (hc : isWordChar c) (cs : List Char) :
    ∃ word rest, c :: cs = word ++ rest ∧ Word word (String.ofList word) ∧ ¬beginsWord rest := by
  refine ⟨(c :: cs).takeWhile isWordChar, (c :: cs).dropWhile isWordChar,
    List.takeWhile_append_dropWhile.symm, ⟨?_, fun d hd ↦ List.mem_takeWhile_imp hd, rfl⟩, ?_⟩
  · simp [hc]
  · have hnot := List.head?_dropWhile_not isWordChar (c :: cs)
    simp only [beginsWord, Option.any_eq_true, not_exists, not_and]
    intro d hd
    simpa [hd] using hnot

theorem not_isWordChar_of_isGap {c : Char} (h : Token.isGap c) : ¬isWordChar c := by
  simp only [Token.isGap, Bool.or_eq_true, beq_iff_eq] at h
  rcases h with ((rfl | rfl) | rfl) | rfl <;> decide

private theorem not_isWordChar_of_ofPunctuation? {c : Char} {token : Token}
    (h : Token.ofPunctuation? c = some token) : ¬isWordChar c := by
  have hmem := List.mem_map_of_mem (f := Prod.fst) (Token.ofPunctuation?_eq_some h)
  have hall : ['[', ']', '{', '}', ',', ':'].all (!isWordChar ·) := by decide
  simpa using List.all_eq_true.1 hall c hmem

private theorem quoted_gap {c : Char} (h : Token.isGap c) (cs : List Char) :
    quoted (c :: cs) = c :: quoted cs :=
  quoted_cons (not_isWordChar_of_isGap h) (by rintro rfl; cases h) cs

private theorem quoted_punctuation {c : Char} {token : Token}
    (h : Token.ofPunctuation? c = some token) (cs : List Char) :
    quoted (c :: cs) = c :: quoted cs :=
  quoted_cons (not_isWordChar_of_ofPunctuation? h) (by rintro rfl; cases h) cs

section

variable {cs others rest : List Char} {tokens : List Token}

/-- A text with a brace behind it is not read off without a token. -/
theorem lexes_iff {token : Token} (hnext : Token.next? cs = some (token, others))
    (hbrace : '}' ∈ cs) (hrest : IsGap rest) :
    Token.Lexes cs tokens rest ↔
      ∃ further, tokens = token :: further ∧ Token.Lexes others further rest := by
  constructor
  · rintro (_ | ⟨hfirst, hfurther⟩)
    · exact absurd (hrest _ hbrace) (by decide)
    · obtain ⟨rfl, rfl⟩ := Prod.mk.inj (Option.some.inj (hnext.symm.trans hfirst))
      exact ⟨_, rfl, hfurther⟩
  · rintro ⟨further, rfl, hfurther⟩
    exact .cons hnext hfurther

private theorem not_lexes (hnext : Token.next? cs = none) (hbrace : '}' ∈ cs) (hrest : IsGap rest) :
    ¬Token.Lexes cs tokens rest := by
  rintro (_ | ⟨hfirst, -⟩)
  · exact absurd (hrest _ hbrace) (by decide)
  · cases hnext.symm.trans hfirst

private theorem lexes_gap {c : Char} (hc : Token.isGap c) (hbrace : '}' ∈ cs) (hrest : IsGap rest) :
    Token.Lexes (c :: cs) tokens rest ↔ Token.Lexes cs tokens rest := by
  have hnext : Token.next? (c :: cs) = Token.next? cs := by rw [Token.next?, if_pos hc]
  cases h : Token.next? cs with
  | none =>
    exact iff_of_false (not_lexes (hnext.trans h) (List.mem_cons_of_mem _ hbrace) hrest)
      (not_lexes h hbrace hrest)
  | some first =>
    rw [lexes_iff (hnext.trans h) (List.mem_cons_of_mem _ hbrace) hrest, lexes_iff h hbrace hrest]

private theorem lexes_word {word : String} (h : Word cs word) (hothers : ¬beginsWord others)
    (hrest : IsGap rest) :
    Token.Lexes (quoted (cs ++ others) ++ ['}']) tokens rest ↔
      ∃ further, tokens = .string word :: (linkTokens others ++ further) ∧
        Token.Lexes (quoted others ++ ['}']) further rest := by
  have hnext : Token.next? (quoted (cs ++ others) ++ ['}']) =
      some (.string word, linkText others ++ (quoted others ++ ['}'])) := by
    rw [quoted_word h hothers]
    simpa using next?_word h (linkText others ++ (quoted others ++ ['}']))
  have hlink : ∀ tokens, Token.Lexes (linkText others ++ (quoted others ++ ['}'])) tokens rest ↔
      ∃ further, tokens = linkTokens others ++ further ∧
        Token.Lexes (quoted others ++ ['}']) further rest := by
    intro tokens
    unfold linkText linkTokens
    split
    · exact lexes_iff (Token.next?_punctuation rfl _) (by simp) hrest
    · simp
  rw [lexes_iff hnext (by simp) hrest]
  simp only [hlink]
  constructor
  · rintro ⟨_, rfl, further, rfl, hfurther⟩
    exact ⟨further, rfl, hfurther⟩
  · rintro ⟨further, rfl, hfurther⟩
    exact ⟨_, rfl, further, rfl, hfurther⟩

end

/-- The quoted text is read as what the expression spells. -/
theorem exists_spells_of_lexes {cs : List Char} {tokens : List Token} {rest : List Char}
    (hquote : '"' ∉ cs) (hrest : IsGap rest)
    (h : Token.Lexes (quoted cs ++ ['}']) tokens rest) :
    ∃ spelled, tokens = spelled ++ [.closeObject] ∧ Spells cs spelled := by
  match cs with
  | [] =>
    obtain ⟨further, rfl, hfurther⟩ := (lexes_iff rfl (by simp) hrest).1 h
    obtain _ | ⟨hnext, -⟩ := hfurther
    · exact ⟨[], rfl, .nil⟩
    · cases hnext
  | c :: cs =>
    have hquotes : ∀ others, others <:+ c :: cs → '"' ∉ others :=
      fun others hothers hmem ↦ hquote (hothers.subset hmem)
    -- a word, a gap or punctuation begins the text, and no token begins with anything else
    by_cases hc : isWordChar c
    · obtain ⟨word, others, heq, hword, hothers⟩ := exists_word_append hc cs
      have hshorter : others.length < cs.length + 1 := by
        have hpositive := List.length_pos_iff.2 hword.1
        rw [← List.length_cons (a := c), heq, List.length_append]
        omega
      rw [heq, lexes_word hword hothers hrest] at h
      obtain ⟨further, rfl, hfurther⟩ := h
      obtain ⟨spelled, rfl, hspelled⟩ :=
        exists_spells_of_lexes (hquotes others ⟨word, heq.symm⟩) hrest hfurther
      have hspells := Spells.word hword hothers hspelled
      exact ⟨_, by simp, heq ▸ hspells⟩
    · have hcs : '"' ∉ cs := hquotes cs (List.suffix_cons c cs)
      have hne : c ≠ '"' := fun heq ↦ hquote (by simp [heq])
      rw [quoted_cons hc hne, List.cons_append] at h
      by_cases hgap : Token.isGap c
      · rw [lexes_gap hgap (by simp) hrest] at h
        obtain ⟨spelled, rfl, hspelled⟩ := exists_spells_of_lexes hcs hrest h
        exact ⟨spelled, rfl, .gap hgap hspelled⟩
      · cases hpunctuation : Token.ofPunctuation? c with
        | none =>
          have hnone := next?_eq_none hgap hne hpunctuation hc (not_beginsWord_quoted cs)
          exact absurd h (not_lexes hnone (by simp) hrest)
        | some token =>
          rw [lexes_iff (Token.next?_punctuation hpunctuation _) (by simp) hrest] at h
          obtain ⟨further, rfl, hfurther⟩ := h
          obtain ⟨spelled, rfl, hspelled⟩ := exists_spells_of_lexes hcs hrest hfurther
          exact ⟨token :: spelled, rfl, .punctuation hpunctuation hspelled⟩
termination_by cs.length

theorem lexes_of_spells {cs : List Char} {tokens : List Token} (h : Spells cs tokens) :
    Token.Lexes (quoted cs ++ ['}']) (tokens ++ [.closeObject]) [] := by
  induction h with
  | nil => exact .cons rfl (.nil [])
  | gap hc _ ih => rwa [quoted_gap hc, List.cons_append, lexes_gap hc (by simp) isGap_nil]
  | punctuation hc _ ih =>
    rw [quoted_punctuation hc, List.cons_append, List.cons_append]
    exact .cons (Token.next?_punctuation hc _) ih
  | word hword hothers _ ih =>
    rw [lexes_word hword hothers isGap_nil]
    exact ⟨_, by simp, ih⟩

namespace Spells

variable {cs : List Char} {tokens : List Token}

theorem gaps {gap : List Char} (hgap : IsGap gap) (h : Spells cs tokens) :
    Spells (gap ++ cs) tokens := by
  induction gap with
  | nil => exact h
  | cons c gap ih =>
    obtain ⟨hc, hgap⟩ := List.forall_mem_cons.1 hgap
    exact .gap hc (ih hgap)

theorem nil_iff : Spells cs [] ↔ IsGap cs := by
  constructor
  · intro h
    generalize htokens : [] = tokens at h
    induction h with
    | nil => exact isGap_nil
    | gap hc _ ih => exact List.forall_mem_cons.2 ⟨hc, ih htokens⟩
    | punctuation => cases htokens
    | word => cases htokens
  · intro h
    simpa using gaps h .nil

theorem punctuation_iff {c : Char} {token : Token} (hc : Token.ofPunctuation? c = some token) :
    Spells cs (token :: tokens) ↔
      ∃ gap others, cs = gap ++ c :: others ∧ IsGap gap ∧ Spells others tokens := by
  constructor
  · intro h
    generalize htokens : token :: tokens = spelled at h
    induction h with
    | nil => cases htokens
    | gap hd _ ih =>
      obtain ⟨gap, others, rfl, hgap, hothers⟩ := ih htokens
      exact ⟨_ :: gap, others, rfl, List.forall_mem_cons.2 ⟨hd, hgap⟩, hothers⟩
    | punctuation hd hothers =>
      obtain ⟨rfl, rfl⟩ := List.cons.inj htokens
      obtain rfl := Token.eq_of_ofPunctuation? hc hd
      exact ⟨[], _, rfl, isGap_nil, hothers⟩
    | word =>
      obtain ⟨rfl, -⟩ := List.cons.inj htokens
      simpa using Token.ofPunctuation?_eq_some hc
  · rintro ⟨gap, others, rfl, hgap, hothers⟩
    exact gaps hgap (.punctuation hc hothers)

/-- A word is spelled by its characters, and the colon before a list by nothing. -/
theorem string_iff {word : String} :
    Spells cs (.string word :: tokens) ↔ ∃ gap read others further, cs = gap ++ (read ++ others) ∧
      tokens = linkTokens others ++ further ∧ IsGap gap ∧ Word read word ∧ ¬beginsWord others ∧
        Spells others further := by
  constructor
  · intro h
    generalize htokens : Token.string word :: tokens = spelled at h
    induction h with
    | nil => cases htokens
    | gap hd _ ih =>
      obtain ⟨gap, read, others, further, rfl, htokens, hgap, hread⟩ := ih htokens
      exact ⟨_ :: gap, read, others, further, rfl, htokens, List.forall_mem_cons.2 ⟨hd, hgap⟩,
        hread⟩
    | punctuation hd hothers =>
      obtain ⟨rfl, -⟩ := List.cons.inj htokens
      simpa using Token.ofPunctuation?_eq_some hd
    | word hread hothers hfurther =>
      obtain ⟨hword, rfl⟩ := List.cons.inj htokens
      obtain rfl := Token.string.inj hword
      exact ⟨[], _, _, _, rfl, rfl, isGap_nil, hread, hothers, hfurther⟩
  · rintro ⟨gap, read, others, further, rfl, rfl, hgap, hread, hothers, hfurther⟩
    exact gaps hgap (.word hread hothers hfurther)

end Spells

end PropertiesExpression

end ModelCatalog
