import Mathlib.Algebra.Order.Ring.Int
import Mathlib.Tactic.LinearCombination
import Mathlib.Tactic.Ring
import ModelCatalog.Number.Binary64

/-!
# Integers as floating-point numbers

A significand of 53 bits holds some integers exactly; any other integer becomes the one of these
that is nearest to it.

## The argument

Between two powers of two, the integers that are held are the multiples of one unit, and rounding
the quotient by this unit finds the nearest of them (`nearestMultiple`). Rounding may lead up to the
next power of two, which is held as well.
-/

namespace ModelCatalog

open Binary64 (hiddenBit)

/-- An integer that a significand of 53 bits holds. -/
def IsExact (n : Int) : Prop := ∃ m k : Nat, m < 2 * hiddenBit ∧ n.natAbs = m * 2 ^ k

/-- The exact integer nearest to another one; of two, the one that is an even multiple of what lies
between them. -/
structure IsNearest (n x : Int) : Prop where
  exact : IsExact x
  nearest : ∀ y, IsExact y → (x - n).natAbs ≤ (y - n).natAbs
  even : ∀ y, IsExact y → (y - n).natAbs = (x - n).natAbs → y ≠ x → 2 * (y - x) ∣ x

namespace IsExact

variable {n : Int}

theorem neg (h : IsExact n) : IsExact (-n) := by
  rwa [IsExact, Int.natAbs_neg]

theorem of_natAbs_lt (h : n.natAbs < 2 * hiddenBit) : IsExact n :=
  ⟨n.natAbs, 0, h, by rw [pow_zero, mul_one]⟩

/-- From where units of `2 ^ k` fill the significand on, exact integers are multiples of them. -/
theorem dvd_or_natAbs_lt (h : IsExact n) (k : Nat) :
    ((2 ^ k : Nat) : Int) ∣ n ∨ n.natAbs < hiddenBit * 2 ^ k := by
  obtain ⟨m, l, hm, hn⟩ := h
  by_cases hkl : k ≤ l
  · exact .inl (Int.natCast_dvd.2 (hn ▸ (Nat.pow_dvd_pow 2 hkl).mul_left m))
  · right
    calc n.natAbs = m * 2 ^ l := hn
      _ < 2 * hiddenBit * 2 ^ l := Nat.mul_lt_mul_of_pos_right hm (Nat.two_pow_pos l)
      _ = hiddenBit * 2 ^ (l + 1) := by ring
      _ ≤ hiddenBit * 2 ^ k := Nat.mul_le_mul_left _ (Nat.pow_le_pow_right (by decide) (by omega))

end IsExact

namespace IsNearest

variable {n n' x y : Int}

theorem neg (h : IsNearest n x) : IsNearest (-n) (-x) := by
  refine ⟨h.exact.neg, fun y hy ↦ ?_, fun y hy hdist hne ↦ ?_⟩
  · have := h.nearest (-y) hy.neg
    omega
  · have hdvd := h.even (-y) hy.neg (by omega) (by omega)
    have heq : 2 * (-y - x) = -(2 * (y - -x)) := by ring
    rwa [heq, Int.neg_dvd, ← Int.dvd_neg] at hdvd

theorem of_isExact (h : IsExact n) : IsNearest n n where
  exact := h
  nearest y _ := by omega
  even y _ hdist hne := absurd hdist (by omega)

theorem unique (hx : IsNearest n x) (hy : IsNearest n y) : x = y := by
  by_contra hne
  have hle := hx.nearest y hy.exact
  have hge := hy.nearest x hx.exact
  obtain ⟨a, ha⟩ := hx.even y hy.exact (by omega) (Ne.symm hne)
  obtain ⟨b, hb⟩ := hy.even x hx.exact (by omega) hne
  -- both are even multiples of their difference, which is a single one of it
  have hone : (y - x) * (2 * (a + b) + 1) = 0 := by linear_combination hb - ha
  rcases Int.mul_eq_zero.1 hone with hzero | hzero <;> omega

theorem eq_of_isExact (h : IsNearest n x) (hn : IsExact n) : x = n := h.unique (of_isExact hn)

/-- **Rounding keeps the order.** -/
theorem mono (h : IsNearest n x) (h' : IsNearest n' y) (hle : n ≤ n') : x ≤ y := by
  by_contra hlt
  have hx := h.nearest y h'.exact
  have hy := h'.nearest x h.exact
  obtain rfl : n = n' := by omega
  exact hlt (h.unique h').le

end IsNearest

/-! ## Rounding to multiples

Half a unit at most lies between an integer and the nearest multiple of the unit, and a tie goes to
the even multiple. -/

/-- The nearest multiple of a unit, an even one where two are equally near. -/
def nearestMultiple (n unit : Nat) : Nat := roundQuotient n unit * unit

section Rounding

variable {n d : Nat}

/-- The nearest multiple is half a unit away at most, and an even one if it is half a unit away. -/
theorem natAbs_nearestMultiple_sub_le (hd : 0 < d) :
    2 * ((nearestMultiple n d : Int) - n).natAbs ≤ d ∧
      (2 * ((nearestMultiple n d : Int) - n).natAbs = d → 2 ∣ roundQuotient n d) := by
  have hrest := Nat.mod_lt n hd
  have hn := Nat.div_add_mod n d
  have hup : (n / d + 1) * d = d * (n / d) + d := by ring
  have hdown : n / d * d = d * (n / d) := Nat.mul_comm _ _
  rw [nearestMultiple, roundQuotient]
  split
  · rename_i hcond
    simp only [Bool.or_eq_true, decide_eq_true_eq, Bool.and_eq_true, beq_iff_eq] at hcond
    rw [hdown]
    omega
  · rename_i hcond
    simp only [Bool.or_eq_true, decide_eq_true_eq, Bool.and_eq_true, beq_iff_eq] at hcond
    rw [hup]
    omega

private theorem roundQuotient_bounds :
    n / d ≤ roundQuotient n d ∧ roundQuotient n d ≤ n / d + 1 := by
  rw [roundQuotient]
  split <;> omega

@[simp]
theorem roundQuotient_one : roundQuotient n 1 = n := by
  simp [roundQuotient, Nat.mod_one]

private theorem dvd_nearestMultiple : (d : Int) ∣ nearestMultiple n d :=
  Int.natCast_dvd_natCast.2 (Nat.dvd_mul_left _ _)

/-- No multiple is nearer. -/
theorem natAbs_nearestMultiple_le (hd : 0 < d) {y : Int} (hy : (d : Int) ∣ y) :
    ((nearestMultiple n d : Int) - n).natAbs ≤ (y - n).natAbs ∧
      ((y - n).natAbs = ((nearestMultiple n d : Int) - n).natAbs → y ≠ nearestMultiple n d →
        2 * (y - nearestMultiple n d) ∣ (nearestMultiple n d : Int)) := by
  obtain ⟨hhalf, heven⟩ := natAbs_nearestMultiple_sub_le (n := n) hd
  have hx : (d : Int) ∣ nearestMultiple n d := dvd_nearestMultiple
  have hdouble : 2 ∣ roundQuotient n d → ((2 * d : Nat) : Int) ∣ nearestMultiple n d :=
    fun h ↦ Int.natCast_dvd_natCast.2 (Nat.mul_dvd_mul_right h d)
  generalize nearestMultiple n d = x at *
  by_cases hne : y = x
  · exact ⟨by rw [hne], fun _ h ↦ absurd hne h⟩
  -- two multiples are a whole unit apart
  have hapart : d ≤ (y - x).natAbs :=
    Nat.le_of_dvd (by omega) (Int.natCast_dvd.1 (Int.dvd_sub hy hx))
  refine ⟨by omega, fun hdist _ ↦ ?_⟩
  have hunit : (y - x).natAbs = d := by omega
  have hdvd := hdouble (heven (by omega))
  rcases Int.natAbs_eq (y - x) with h | h <;> rw [h, hunit]
  · simpa using hdvd
  · simpa using hdvd

/-- **Rounding to the bits of a significand.** Where units of `2 ^ k` fill the significand, the
nearest multiple is the nearest exact integer. -/
theorem isNearest_nearestMultiple {k : Nat} (hlow : hiddenBit * 2 ^ k ≤ n)
    (hhigh : n < 2 * hiddenBit * 2 ^ k) : IsNearest n (nearestMultiple n (2 ^ k)) := by
  have hpos := Nat.two_pow_pos k
  have hquotient : n / 2 ^ k < 2 * hiddenBit := Nat.div_lt_of_lt_mul (by rwa [Nat.mul_comm])
  have hexact : IsExact (nearestMultiple n (2 ^ k)) := by
    rw [nearestMultiple]
    by_cases hfull : roundQuotient n (2 ^ k) = 2 * hiddenBit
    · exact ⟨hiddenBit, k + 1, by decide, by rw [Int.natAbs_natCast, hfull]; ring⟩
    · have hbounds := roundQuotient_bounds (n := n) (d := 2 ^ k)
      exact ⟨_, k, by omega, Int.natAbs_natCast _⟩
  -- an exact integer that is no multiple is below all of the units
  have hbelow : ∀ y, IsExact y → ((2 ^ k : Nat) : Int) ∣ y ∨
      ((nearestMultiple n (2 ^ k) : Int) - n).natAbs < (y - n).natAbs := by
    intro y hy
    refine (hy.dvd_or_natAbs_lt k).imp_right fun hlt ↦ ?_
    have hleast : ((2 ^ k : Nat) : Int) ∣ (hiddenBit * 2 ^ k : Nat) :=
      Int.natCast_dvd_natCast.2 (Nat.dvd_mul_left _ _)
    have hnear := (natAbs_nearestMultiple_le (n := n) hpos hleast).1
    omega
  refine ⟨hexact, fun y hy ↦ ?_, fun y hy hdist hne ↦ ?_⟩
  · rcases hbelow y hy with hdvd | hlt
    · exact (natAbs_nearestMultiple_le hpos hdvd).1
    · exact hlt.le
  · rcases hbelow y hy with hdvd | hlt
    · exact (natAbs_nearestMultiple_le hpos hdvd).2 hdist hne
    · omega

end Rounding

namespace Binary64

/-! ## Numbers that are integers -/

/-- The integer that a number is. -/
structure HasValue (b : Binary64) (x : Int) : Prop where
  sign : if b.negative then x ≤ 0 else 0 ≤ x
  magnitude : b.significand * 2 ^ b.exponent.toNat = x.natAbs * 2 ^ (-b.exponent).toNat

namespace HasValue

variable {b c : Binary64} {x y e : Int}

theorem alignedAt_mul (h : b.HasValue x) (he : e ≤ b.exponent) :
    b.alignedAt e * 2 ^ e.toNat = x * 2 ^ (-e).toNat := by
  have hmagnitude : b.significand * 2 ^ (b.exponent - e).toNat * 2 ^ e.toNat =
      x.natAbs * 2 ^ (-e).toNat := by
    refine Nat.eq_of_mul_eq_mul_right (Nat.two_pow_pos (-b.exponent).toNat) ?_
    calc b.significand * 2 ^ (b.exponent - e).toNat * 2 ^ e.toNat * 2 ^ (-b.exponent).toNat
        = b.significand * 2 ^ ((b.exponent - e).toNat + e.toNat + (-b.exponent).toNat) := by
          rw [pow_add, pow_add]; ring
      _ = b.significand * 2 ^ (b.exponent.toNat + (-e).toNat) := by congr 2; omega
      _ = x.natAbs * 2 ^ (-b.exponent).toNat * 2 ^ (-e).toNat := by
          rw [pow_add, ← Nat.mul_assoc, h.magnitude]
      _ = x.natAbs * 2 ^ (-e).toNat * 2 ^ (-b.exponent).toNat := by ring
  have hsign := h.sign
  have hcast := congrArg (Nat.cast : Nat → Int) hmagnitude
  push_cast at hcast
  rw [alignedAt]
  dsimp only [Nat.pow_eq]
  push_cast
  split at hsign
  · rename_i hnegative
    rw [if_pos hnegative, Int.neg_mul, hcast, abs_of_nonpos hsign, Int.neg_mul, Int.neg_neg]
  · rename_i hnegative
    rw [if_neg hnegative, hcast, abs_of_nonneg hsign]

theorem le_iff (hb : b.HasValue x) (hc : c.HasValue y) : b.le c ↔ x ≤ y := by
  have hbx := hb.alignedAt_mul (min_le_left b.exponent c.exponent)
  have hcy := hc.alignedAt_mul (min_le_right b.exponent c.exponent)
  generalize hmin : min b.exponent c.exponent = e at *
  have hup : (0 : Int) < 2 ^ e.toNat := Int.pow_pos (by decide)
  have hdown : (0 : Int) < 2 ^ (-e).toNat := Int.pow_pos (by decide)
  rw [le, decide_eq_true_iff, hmin, ← Int.mul_le_mul_iff_of_pos_right hup, hbx, hcy,
    Int.mul_le_mul_iff_of_pos_right hdown]

end HasValue

theorem shiftRatio_one (n : Nat) (e : Int) :
    shiftRatio n 1 e = (n * 2 ^ (-e).toNat, 2 ^ e.toNat) := by
  rw [shiftRatio]
  split
  · have hdown : (-e).toNat = 0 := by omega
    simp [hdown]
  · have hup : e.toNat = 0 := by omega
    simp [hup]

theorem HasValue.truncate_eq {b : Binary64} {x : Int} (h : b.HasValue x) : b.truncate = x := by
  have hsign := h.sign
  rw [truncate, ratio, shiftRatio_one, Int.neg_neg]
  dsimp only
  rw [h.magnitude, Nat.mul_div_cancel _ (Nat.two_pow_pos _)]
  split at hsign
  · rename_i hnegative
    rw [if_pos hnegative]
    omega
  · rename_i hnegative
    rw [if_neg hnegative]
    omega

/-! ## Integers as numbers

A significand of one bit more than it may have is a power of two and is written with the next
exponent. Apart from this case, the exponent of an integer tells the unit. -/

variable {n : Nat}

/-- A rounded significand of one bit more is written with a greater exponent. -/
theorem hiddenBit_mul_pow {x : Nat} {e : Int}
    (h : 2 * hiddenBit * 2 ^ e.toNat = x * 2 ^ (-e).toNat) :
    hiddenBit * 2 ^ (e + 1).toNat = x * 2 ^ (-(e + 1)).toNat := by
  by_cases he : 0 ≤ e
  · have hup : (e + 1).toNat = e.toNat + 1 := by omega
    have hdown : (-(e + 1)).toNat = (-e).toNat := by omega
    rw [hup, hdown, ← h]
    ring
  · have hup : (e + 1).toNat = e.toNat := by omega
    have hdown : (-e).toNat = (-(e + 1)).toNat + 1 := by omega
    rw [hdown, pow_succ, ← Nat.mul_assoc] at h
    rw [hup]
    generalize x * 2 ^ (-(e + 1)).toNat = magnitude at *
    rw [Nat.mul_assoc] at h
    omega

private theorem exponentOf_one (hn : n ≠ 0) : exponentOf n 1 = n.log2 - 52 := by
  have hlog := Nat.log2_self_le hn
  have hone : Nat.log2 1 = 0 := by decide
  rw [exponentOf, shiftRatio_one, hone]
  dsimp only
  generalize hguess : (n.log2 : Int) - (0 : Nat) - 53 = guess
  have hfull : ¬ n * 2 ^ (-guess).toNat < 2 * hiddenBit * 2 ^ guess.toNat := by
    have hbits : 2 * hiddenBit = 2 ^ 53 := by decide
    have hsum : 53 + guess.toNat = n.log2 + (-guess).toNat := by omega
    rw [hbits, ← pow_add, hsum, pow_add, not_lt]
    exact Nat.mul_le_mul_right _ hlog
  rw [if_neg hfull, minExponent]
  omega

/-- The significand at the exponent of an integer is that of the nearest exact integer. -/
theorem exists_isNearest_mul (hn : n ≠ 0) {e : Int} (he : n.log2 - 52 = e) :
    ∃ x : Nat, IsNearest n x ∧
      nearestMultiple (n * 2 ^ (-e).toNat) (2 ^ e.toNat) = x * 2 ^ (-e).toNat := by
  have hlow := Nat.log2_self_le hn
  have hhigh : n < 2 ^ (n.log2 + 1) := Nat.lt_log2_self
  by_cases hlog : 0 ≤ e
  · have hdown : (-e).toNat = 0 := by omega
    have hsum : n.log2 = 52 + e.toNat := by omega
    rw [hdown, pow_zero, Nat.mul_one]
    refine ⟨_, isNearest_nearestMultiple ?_ ?_, (Nat.mul_one _).symm⟩
    · calc hiddenBit * 2 ^ e.toNat = 2 ^ (52 + e.toNat) := by rw [pow_add]; rfl
        _ ≤ n := hsum ▸ hlow
    · calc n < 2 ^ (52 + e.toNat + 1) := hsum ▸ hhigh
        _ = 2 ^ 53 * 2 ^ e.toNat := by ring
        _ = 2 * hiddenBit * 2 ^ e.toNat := rfl
  · have hup : e.toNat = 0 := by omega
    have hsmall : n < 2 * hiddenBit :=
      calc n < 2 ^ (n.log2 + 1) := hhigh
        _ ≤ 2 ^ 53 := Nat.pow_le_pow_right (by decide) (by omega)
        _ = 2 * hiddenBit := by decide
    refine ⟨n, .of_isExact (.of_natAbs_lt (by rwa [Int.natAbs_natCast])), ?_⟩
    rw [hup, pow_zero, nearestMultiple, roundQuotient_one, mul_one]

private theorem exists_ofRatio?_eq_some (negative : Bool) (hn : n < 2 ^ 64) :
    ∃ b : Binary64, ∃ x : Nat, ofRatio? negative n 1 = some b ∧ b.negative = negative ∧
      IsNearest n x ∧ b.significand * 2 ^ b.exponent.toNat = x * 2 ^ (-b.exponent).toNat := by
  by_cases hzero : n = 0
  · subst hzero
    exact ⟨zero negative, 0, rfl, rfl, .of_isExact (.of_natAbs_lt (by decide)), by simp [zero]⟩
  have hlog : n.log2 < 64 := (Nat.log2_lt hzero).2 hn
  rw [ofRatio?, if_neg hzero, exponentOf_one hzero]
  generalize he : (n.log2 : Int) - 52 = e
  obtain ⟨x, hx, hmul⟩ := exists_isNearest_mul hzero he
  rw [nearestMultiple] at hmul
  simp only [shiftRatio_one]
  by_cases hfull : roundQuotient (n * 2 ^ (-e).toNat) (2 ^ e.toNat) = 2 * hiddenBit
  · rw [hfull] at hmul
    rw [if_pos hfull]
    dsimp only
    rw [if_pos (by rw [maxExponent]; omega)]
    exact ⟨_, x, rfl, rfl, hx, hiddenBit_mul_pow hmul⟩
  · rw [if_neg hfull]
    dsimp only
    rw [if_pos (by rw [maxExponent]; omega)]
    exact ⟨_, x, rfl, rfl, hx, hmul⟩

/-- **Integers are rounded to the nearest.** -/
theorem exists_ofInt?_eq_some {n : Int} (hn : n.natAbs < 2 ^ 64) :
    ∃ b x, ofInt? n = some b ∧ b.HasValue x ∧ IsNearest n x := by
  obtain ⟨b, x, hb, hnegative, hx, hmagnitude⟩ := exists_ofRatio?_eq_some (decide (n < 0)) hn
  by_cases hlt : n < 0
  · have heq : -(n.natAbs : Int) = n := by omega
    refine ⟨b, -x, hb, ⟨?_, by rwa [Int.natAbs_neg]⟩, heq ▸ hx.neg⟩
    rw [hnegative, if_pos (decide_eq_true hlt)]
    omega
  · have heq : (n.natAbs : Int) = n := by omega
    refine ⟨b, x, hb, ⟨?_, hmagnitude⟩, heq ▸ hx⟩
    rw [hnegative, if_neg (by simpa using hlt)]
    omega

end Binary64

end ModelCatalog
