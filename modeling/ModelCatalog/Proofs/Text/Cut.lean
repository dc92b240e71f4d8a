import ModelCatalog.Text.Basic
import Mathlib.Data.List.Basic

/-!
# Cutting undoes joining

Pieces without separators come back when a text that joins them is cut, be it into words, at every
occurrence of a character, or at the first one.
-/

namespace ModelCatalog.Text

/-! ## Joining -/

theorem forall_mem_intercalate {α : Type*} {p : α → Prop} {sep : List α} {pieces : List (List α)}
    (hsep : ∀ c ∈ sep, p c) (h : ∀ piece ∈ pieces, ∀ c ∈ piece, p c) :
    ∀ c ∈ sep.intercalate pieces, p c := by
  induction pieces with
  | nil => simp
  | cons piece pieces ih =>
    have hpieces := ih fun other hother ↦ h other (List.mem_cons_of_mem _ hother)
    cases pieces with
    | nil => simpa using h piece (by simp)
    | cons next rest =>
      rw [List.intercalate_cons_cons]
      intro c hc
      rcases List.mem_append.1 hc with hc | hc
      · exact (List.mem_append.1 hc).elim (h piece (by simp) c) (hsep c)
      · exact hpieces c hc

theorem mem_intercalate_of_mem {α : Type*} {sep piece : List α} {pieces : List (List α)} {c : α}
    (hpiece : piece ∈ pieces) (hc : c ∈ piece) : c ∈ sep.intercalate pieces := by
  induction pieces with
  | nil => cases hpiece
  | cons first pieces ih =>
    cases pieces with
    | nil =>
      obtain rfl := List.mem_singleton.1 hpiece
      rwa [List.intercalate_singleton]
    | cons next rest =>
      rw [List.intercalate_cons_cons]
      rcases List.mem_cons.1 hpiece with rfl | hpiece
      · exact List.mem_append_left _ (List.mem_append_left _ hc)
      · exact List.mem_append_right _ (ih hpiece)

/-! ## Splitting -/

theorem mem_of_mem_splitOn {sep c : Char} {cs piece : List Char} (hpiece : piece ∈ cs.splitOn sep)
    (hc : c ∈ piece) : c ∈ cs := by
  have hjoined : [sep].intercalate (cs.splitOn sep) = cs := List.intercalate_splitOn sep
  rw [← hjoined]
  exact mem_intercalate_of_mem hpiece hc

theorem eq_false_of_mem_splitOnP {p : Char → Bool} {c : Char} {cs piece : List Char}
    (hpiece : piece ∈ cs.splitOnP p) (hc : c ∈ piece) : p c = false := by
  induction cs generalizing piece with
  | nil =>
    obtain rfl := List.mem_singleton.1 (List.splitOnP_nil ▸ hpiece)
    cases hc
  | cons d cs ih =>
    obtain ⟨first, pieces, hpieces⟩ := List.exists_cons_of_ne_nil (List.splitOnP_ne_nil p cs)
    rw [List.splitOnP_cons_eq_if_modifyHead, hpieces] at hpiece
    rw [hpieces] at ih
    split at hpiece
    · rcases List.mem_cons.1 hpiece with rfl | hpiece
      · cases hc
      · exact ih hpiece hc
    · rename_i hd
      rcases List.mem_cons.1 hpiece with rfl | hpiece
      · rcases List.mem_cons.1 hc with rfl | hc
        · simpa using hd
        · exact ih List.mem_cons_self hc
      · exact ih (List.mem_cons_of_mem _ hpiece) hc

/-! ## Words

A word is a text without blanks that is not empty. Where texts are put together with a blank in
between, the words of the one are followed by those of the other. -/

/-- A text without blanks that is not empty is one word. -/
def IsWord (s : String) : Prop := s ≠ "" ∧ ∀ c ∈ s.toList, isBlank c = false

instance (s : String) : Decidable (IsWord s) :=
  decidable_of_iff (s ≠ "" ∧ s.toList.all (!isBlank ·)) (by simp [IsWord])

theorem IsWord.toList_ne_nil {s : String} (h : IsWord s) : s.toList ≠ [] := by
  simpa using h.1

theorem wordLists_of_isWord {s : String} (h : IsWord s) : wordLists s.toList = [s.toList] := by
  rw [wordLists, List.splitOnP_eq_singleton h.2]
  simp [h.toList_ne_nil]

/-- The words before a blank and those behind it. Everything about words in texts that are put
together follows from this equation. -/
theorem wordLists_append_cons {blank : Char} (h : isBlank blank) (cs ds : List Char) :
    wordLists (cs ++ blank :: ds) = wordLists cs ++ wordLists ds := by
  rw [wordLists, List.splitOnP_append_cons cs ds h, List.filter_append]
  rfl

theorem words_of_isWord {s : String} (h : IsWord s) : words s = [s] := by
  simp [words, wordLists_of_isWord h]

theorem words_append {s t : String} (hs : IsWord s) (ht : IsWord t) :
    words (s ++ " " ++ t) = [s, t] := by
  have htoList : (s ++ " " ++ t).toList = s.toList ++ ' ' :: t.toList := by simp
  rw [words, htoList, wordLists_append_cons (by decide), wordLists_of_isWord hs,
    wordLists_of_isWord ht]
  simp

theorem isBlank_of_mem_words {s word : String} (h : word ∈ words s) {c : Char}
    (hc : c ∈ word.toList) : isBlank c = false := by
  obtain ⟨piece, hpiece, rfl⟩ := List.mem_map.1 h
  rw [String.toList_ofList] at hc
  exact eq_false_of_mem_splitOnP (List.mem_of_mem_filter hpiece) hc

theorem isBlank_of_words_eq_nil {s : String} (h : words s = []) : ∀ c ∈ s.toList, isBlank c := by
  rw [words, List.map_eq_nil_iff] at h
  revert h
  induction s.toList with
  | nil => simp
  | cons c cs ih =>
    intro h
    by_cases hc : isBlank c
    · rw [← List.nil_append (c :: cs), wordLists_append_cons hc, List.append_eq_nil_iff] at h
      exact List.forall_mem_cons.2 ⟨hc, ih h.2⟩
    · -- the first piece begins with the character, so it is a word
      obtain ⟨first, pieces, hpieces⟩ :=
        List.exists_cons_of_ne_nil (List.splitOnP_ne_nil isBlank cs)
      rw [wordLists, List.splitOnP_cons_eq_if_modifyHead, if_neg hc, hpieces] at h
      simp at h

/-- The text is not empty and does not begin with a blank. -/
def BeginsWord (s : String) : Prop := s ≠ "" ∧ ∀ c, s.toList.head? = some c → isBlank c = false

instance (s : String) : Decidable (BeginsWord s) :=
  decidable_of_iff (s.toList.head?.any (!isBlank ·)) <| by
    rw [BeginsWord, ne_eq, ← String.toList_eq_nil_iff]
    cases s.toList <;> simp

/-- A text that begins with a word falls apart behind it. -/
theorem BeginsWord.exists_append {s : String} (h : BeginsWord s) :
    ∃ word rest, s = word ++ rest ∧ IsWord word ∧
      ∀ c, rest.toList.head? = some c → isBlank c := by
  refine ⟨String.ofList (s.toList.takeWhile (!isBlank ·)),
    String.ofList (s.toList.dropWhile (!isBlank ·)), ?_, ⟨?_, fun c hc ↦ ?_⟩, fun c hc ↦ ?_⟩
  · rw [← String.toList_inj]
    simp
  · obtain ⟨hne, hhead⟩ := h
    cases hs : s.toList with
    | nil => simp_all
    | cons c cs => simp [hhead c (by simp [hs])]
  · rw [String.toList_ofList] at hc
    simpa using List.all_eq_true.1 List.all_takeWhile c hc
  · have hhead := List.head?_dropWhile_not (!isBlank ·) s.toList
    rw [String.toList_ofList] at hc
    rw [hc] at hhead
    simpa using hhead

theorem words_append_rest {word rest : String} (hword : IsWord word)
    (hrest : ∀ c, rest.toList.head? = some c → isBlank c) :
    words (word ++ rest) = word :: words rest := by
  rw [words, words, String.toList_append]
  cases hcs : rest.toList with
  | nil =>
    rw [List.append_nil, wordLists_of_isWord hword]
    simp [wordLists]
  | cons c cs =>
    have hc : isBlank c := hrest c (by simp [hcs])
    have hwords : wordLists (c :: cs) = wordLists cs := wordLists_append_cons hc [] cs
    rw [wordLists_append_cons hc, wordLists_of_isWord hword, hwords]
    simp

/-- The text without the blanks at its end. -/
def trimEnd (s : String) : String := String.ofList (s.toList.reverse.dropWhile isBlank).reverse

theorem trimEnd_append {word blanks : String} (hword : IsWord word)
    (hblanks : ∀ c ∈ blanks.toList, isBlank c) : trimEnd (word ++ blanks) = word := by
  have hkept : word.toList.reverse.dropWhile isBlank = word.toList.reverse := by
    cases hreverse : word.toList.reverse with
    | nil => rfl
    | cons c cs =>
      have hc : c ∈ word.toList := by
        rw [← List.mem_reverse, hreverse]
        simp
      rw [List.dropWhile_cons_of_neg (by simp [hword.2 c hc])]
  rw [trimEnd, String.toList_append, List.reverse_append,
    List.dropWhile_append_of_pos (by simpa using hblanks), hkept, List.reverse_reverse,
    String.ofList_toList]

/-! ## The first occurrence -/

private theorem cutList_append_cons {sep : Char} {left right : List Char} (h : sep ∉ left) :
    cutList sep (left ++ sep :: right) = some (left, right) := by
  induction left with
  | nil => simp [cutList]
  | cons c left ih =>
    obtain ⟨hc, hleft⟩ : sep ≠ c ∧ sep ∉ left := by simpa using h
    simp [cutList, ih hleft, Ne.symm hc]

private theorem cutList_eq_some_iff {sep : Char} {cs left right : List Char} :
    cutList sep cs = some (left, right) ↔ cs = left ++ sep :: right ∧ sep ∉ left := by
  refine ⟨fun h ↦ ?_, fun ⟨h, hleft⟩ ↦ h ▸ cutList_append_cons hleft⟩
  induction cs generalizing left with
  | nil => simp [cutList] at h
  | cons c cs ih =>
    rw [cutList] at h
    by_cases hc : c = sep
    · subst hc
      obtain ⟨rfl, rfl⟩ : [] = left ∧ cs = right := by simpa using h
      simp
    · obtain ⟨left', h', rfl⟩ :
          ∃ left', cutList sep cs = some (left', right) ∧ c :: left' = left := by
        simpa [hc] using h
      obtain ⟨rfl, hleft'⟩ := ih h'
      simp [hleft', Ne.symm hc]

/-- The first occurrence of a character parts a text into what it joins. -/
theorem cut_eq_some_iff {sep : Char} {s left right : String} :
    cut sep s = some (left, right) ↔
      s = left ++ String.singleton sep ++ right ∧ sep ∉ left.toList := by
  have hcut : cut sep s = some (left, right) ↔
      cutList sep s.toList = some (left.toList, right.toList) := by
    rw [cut, Option.map_eq_some_iff]
    constructor
    · rintro ⟨⟨cs, ds⟩, h, heq⟩
      obtain ⟨rfl, rfl⟩ := Prod.mk.inj heq
      simpa using h
    · exact fun h ↦ ⟨_, h, by simp⟩
  rw [hcut, cutList_eq_some_iff, ← String.toList_inj]
  simp

theorem isSome_cut_iff {sep : Char} {s : String} : (cut sep s).isSome ↔ sep ∈ s.toList := by
  constructor
  · intro h
    obtain ⟨⟨left, right⟩, hcut⟩ := Option.isSome_iff_exists.1 h
    rw [(cut_eq_some_iff.1 hcut).1]
    simp
  · intro h
    obtain ⟨left, right, hs, hleft⟩ := List.eq_append_cons_of_mem h
    rw [cut, hs, cutList_append_cons hleft]
    rfl

end ModelCatalog.Text
