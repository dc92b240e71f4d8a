import Mathlib.Data.Set.Function
import ModelCatalog.Text.Casing

/-!
# Identifier styles on ASCII names

On ASCII letters and digits the full case mapping is that of single characters, and none of them
joins words. So what `snakeCase` writes can be read back: the underscores are where the capitals
were. Only at the start of a name does a capital leave no underscore. It is read back as a small
letter, and names that differ in nothing else become one.
-/

namespace ModelCatalog.Text

/-- The name consists of ASCII letters and digits, and does not start with a capital. -/
def IsCamelName (s : String) : Prop :=
  (∀ c ∈ s.toList, c.isAlphanum) ∧ ∀ c ∈ s.toList.head?, ¬c.isUpper

instance (s : String) : Decidable (IsCamelName s) :=
  decidable_of_iff (s.toList.all Char.isAlphanum ∧ s.toList.head?.all (!·.isUpper)) <| by
    simp [IsCamelName, List.all_eq_true, Option.all_eq_true]

/-! ## ASCII characters -/

section

variable {c : Char}

theorem forall_of_ascii {p : Char → Prop} (h : ∀ n < 128, p (Char.ofNat n)) (hc : c.toNat < 128) :
    p c := by
  have hself := h c.toNat hc
  rwa [Char.ofNat_toNat] at hself

theorem toNat_lt_of_isAlphanum (h : c.isAlphanum) : c.toNat < 128 := by
  have hlast : ∀ last : Char, c.val ≤ last.val → last.toNat < 128 → c.toNat < 128 :=
    fun last hle hlt ↦ Nat.lt_of_le_of_lt (UInt32.le_iff_toNat_le.1 hle) hlt
  rcases Bool.or_eq_true_iff.1 h with hletter | hdigit
  · rcases Bool.or_eq_true_iff.1 hletter with hcapital | hsmall
    · exact hlast 'Z' (of_decide_eq_true hcapital).2 (by decide)
    · exact hlast 'z' (of_decide_eq_true (Bool.and_eq_true_iff.1 hsmall).2) (by decide)
  · exact hlast '9' (of_decide_eq_true (Bool.and_eq_true_iff.1 hdigit).2) (by decide)

private theorem isUpper_of_isAlphanum (h : c.isAlphanum) : isUpper c = c.isUpper :=
  forall_of_ascii (p := fun c ↦ isUpper c = c.isUpper) (by decide +kernel)
    (toNat_lt_of_isAlphanum h)

theorem lower_of_isAlphanum (h : c.isAlphanum) : lower c = [c.toLower] := by
  rw [lower, if_pos (toNat_lt_of_isAlphanum h)]

private theorem upper_toLower (hc : c.toNat < 128) (h : c.isUpper) : upper c.toLower = [c] :=
  forall_of_ascii (p := fun c ↦ c.isUpper → upper c.toLower = [c]) (by decide +kernel) hc h

private theorem toLower_of_not_isUpper (hc : c.toNat < 128) (h : ¬c.isUpper) : c.toLower = c :=
  forall_of_ascii (p := fun c ↦ ¬c.isUpper → c.toLower = c) (by decide +kernel) hc h

private theorem not_isJoiner_of_isAlphanum (h : c.isAlphanum) : isJoiner c = false :=
  forall_of_ascii (p := fun c ↦ c.isAlphanum → isJoiner c = false) (by decide +kernel)
    (toNat_lt_of_isAlphanum h) h

theorem isAlphanum_toLower (h : c.isAlphanum) : c.toLower.isAlphanum :=
  forall_of_ascii (p := fun c ↦ c.isAlphanum → c.toLower.isAlphanum) (by decide +kernel)
    (toNat_lt_of_isAlphanum h) h

end

/-! ## Reading capitals back

This goes character by character: an underscore and the small letter behind it come from one
capital, and any other character from itself. -/

variable {cs : List Char}

/-- **Reading back.** Each underscore stands for the capital behind it. -/
theorem camelFrom_snakeFrom (h : ∀ c ∈ cs, c.isAlphanum) :
    camelFrom true false (snakeFrom false cs) = cs := by
  induction cs with
  | nil => rfl
  | cons c cs ih =>
    have hc : c.isAlphanum := h c List.mem_cons_self
    have hrest := ih fun d hd ↦ h d (List.mem_cons_of_mem _ hd)
    rw [snakeFrom, isUpper_of_isAlphanum hc]
    by_cases hupper : c.isUpper
    · have hsmall : isJoiner c.toLower = false :=
        not_isJoiner_of_isAlphanum (isAlphanum_toLower hc)
      have hunderscore : isJoiner '_' := by decide
      rw [if_pos hupper, lower_of_isAlphanum hc]
      simp [camelFrom, hunderscore, hsmall, upper_toLower (toNat_lt_of_isAlphanum hc) hupper, hrest]
    · simp [camelFrom, hupper, not_isJoiner_of_isAlphanum hc, hrest]

/-- At the start a capital is written like the small letter. -/
theorem snakeFrom_start_cons {c : Char} (hc : c.isAlphanum) (cs : List Char) :
    snakeFrom true (c :: cs) = c.toLower :: snakeFrom false cs := by
  rw [snakeFrom, isUpper_of_isAlphanum hc]
  by_cases hupper : c.isUpper
  · simp [hupper, lower_of_isAlphanum hc]
  · simp [hupper, toLower_of_not_isUpper (toNat_lt_of_isAlphanum hc) hupper]

private theorem camelFrom_snakeFrom_start (h : ∀ c ∈ cs, c.isAlphanum) :
    camelFrom false false (snakeFrom true cs) = mapFirst lower cs := by
  cases cs with
  | nil => rfl
  | cons c cs =>
    have hc : c.isAlphanum := h c List.mem_cons_self
    have hrest := camelFrom_snakeFrom fun d hd ↦ h d (List.mem_cons_of_mem c hd)
    have hsmall : isJoiner c.toLower = false := not_isJoiner_of_isAlphanum (isAlphanum_toLower hc)
    simp [snakeFrom_start_cons hc, camelFrom, hsmall, hrest, mapFirst, lower_of_isAlphanum hc]

private theorem snakeFrom_mapFirst_lower (h : ∀ c ∈ cs, c.isAlphanum) :
    snakeFrom true (mapFirst lower cs) = snakeFrom true cs := by
  cases cs with
  | nil => rfl
  | cons c cs =>
    have hc : c.isAlphanum := h c List.mem_cons_self
    have hlower : c.toLower.toLower = c.toLower :=
      forall_of_ascii (p := fun c ↦ c.toLower.toLower = c.toLower) (by decide +kernel)
        (toNat_lt_of_isAlphanum hc)
    rw [mapFirst, lower_of_isAlphanum hc, List.singleton_append,
      snakeFrom_start_cons (isAlphanum_toLower hc), snakeFrom_start_cons hc, hlower]

/-! ## Names -/

variable {s t : String}

/-- A name in snake case is read back, up to a capital at the start. -/
theorem camelCase_snakeCase_of_isAlphanum (h : ∀ c ∈ s.toList, c.isAlphanum) :
    camelCase (snakeCase s) = lowerFirst s := by
  rw [camelCase, snakeCase, String.toList_ofList, camelFrom_snakeFrom_start h, lowerFirst]

/-- Names become one in snake case exactly if they differ at most in a capital at the start. -/
theorem snakeCase_eq_snakeCase_iff (hs : ∀ c ∈ s.toList, c.isAlphanum)
    (ht : ∀ c ∈ t.toList, c.isAlphanum) :
    snakeCase s = snakeCase t ↔ lowerFirst s = lowerFirst t := by
  have hsnake : ∀ u : String, (∀ c ∈ u.toList, c.isAlphanum) →
      snakeCase (lowerFirst u) = snakeCase u := by
    intro u hu
    rw [snakeCase, lowerFirst, String.toList_ofList, snakeFrom_mapFirst_lower hu, snakeCase]
  constructor
  · intro h
    rw [← camelCase_snakeCase_of_isAlphanum hs, h, camelCase_snakeCase_of_isAlphanum ht]
  · intro h
    rw [← hsnake s hs, h, hsnake t ht]

theorem lowerFirst_of_isCamelName (h : IsCamelName s) : lowerFirst s = s := by
  obtain ⟨halphanum, hstart⟩ := h
  rw [lowerFirst, ← String.toList_inj, String.toList_ofList]
  cases hcs : s.toList with
  | nil => rfl
  | cons c cs =>
    have hc : c.isAlphanum := halphanum c (by simp [hcs])
    have hupper : ¬c.isUpper := hstart c (by simp [hcs])
    rw [mapFirst, lower_of_isAlphanum hc, toLower_of_not_isUpper (toNat_lt_of_isAlphanum hc) hupper,
      List.singleton_append]

/-- No two such names become one. -/
theorem snakeCase_injOn : Set.InjOn snakeCase {s | IsCamelName s} := by
  intro s hs t ht heq
  rw [← lowerFirst_of_isCamelName hs, ← lowerFirst_of_isCamelName ht]
  exact (snakeCase_eq_snakeCase_iff hs.1 ht.1).1 heq

end ModelCatalog.Text
