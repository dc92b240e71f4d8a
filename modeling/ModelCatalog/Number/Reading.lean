import ModelCatalog.Number.Binary64
import ModelCatalog.Text.Basic

/-!
# Reading numbers

Numbers are read in two ways that differ. In a document a number is a literal of the grammar of
JSON, and how it is written decides what it is: a literal without point and exponent that fits
`-2 ^ 63 … 2 ^ 64 - 1` is an integer, all others, among them `-0`, are floating-point numbers. In
free text, as in a query string, a number is a decimal with an optional sign and digits on at least
one side of an optional point, or a count with an optional plus sign.

## Rounding

A floating-point literal keeps as many leading digits as fit 64 bits. The digits that do not fit
count as zeros before the point and are ignored behind it; the kept digits are then scaled by the
power of ten that the literal asks for, which may be off by the last bit from the nearest number.
A literal too large for any number is refused.

A decimal in free text is rounded once, to the nearest number.
-/

namespace ModelCatalog

/-! ## Literals -/

/-- A number of a document. -/
inductive Number where
  | int (value : Int)
  | float (value : Binary64)
  deriving DecidableEq, Repr

namespace Number

/-- The least integer, `-2 ^ 63`. -/
def minInt : Int := -9223372036854775808

/-- The number of integers from zero up, `2 ^ 64`. -/
def intLimit : Nat := 18446744073709551616

def text : Number → String
  | .int value => toString value
  | .float value => value.toText

def toBinary64? : Number → Option Binary64
  | .int value => Binary64.ofInt? value
  | .float value => some value

/-- The number as a count: an integer that is not negative. -/
def toNat? : Number → Option Nat
  | .int value => value.toNat?
  | .float _ => none

/-- Equality of values of the same kind; the two zeros are equal. -/
def equiv : Number → Number → Bool
  | .int x, .int y => x == y
  | .float x, .float y => x.le y && y.le x
  | _, _ => false

end Number

/-- A number as written: its sign, the digits before the point, those behind it if there is a
point, and the exponent if there is one. -/
structure NumberLiteral where
  negative : Bool
  whole : List Nat
  fraction : Option (List Nat)
  exponent : Option Int
  deriving DecidableEq, Repr

def digitValue (c : Char) : Nat := c.toNat - '0'.toNat

/-- The leading decimal digits of a text and what follows them. -/
def readDigits (cs : List Char) : List Nat × List Char :=
  ((cs.takeWhile Char.isDigit).map digitValue, cs.dropWhile Char.isDigit)

def ofDigits (digits : List Nat) : Nat := digits.foldl (fun n d ↦ 10 * n + d) 0

/-- The sign in front of a text, and the text behind it. -/
def readSign : List Char → Bool × List Char
  | '-' :: cs => (true, cs)
  | '+' :: cs => (false, cs)
  | cs => (false, cs)

/-- The exponent that a text begins with, if it begins with one, and the text behind it. The mark
of an exponent needs digits behind it. -/
def readExponent? : List Char → Option (Option Int × List Char)
  | [] => some (none, [])
  | c :: cs =>
    if c == 'e' || c == 'E' then
      let (negative, cs) := readSign cs
      match readDigits cs with
      | ([], _) => none
      | (digits, rest) =>
        let magnitude : Int := ofDigits digits
        some (some (if negative then -magnitude else magnitude), rest)
    else some (none, c :: cs)

/-- Every character is a digit or stands behind the digits. -/
theorem length_readDigits (cs : List Char) :
    (readDigits cs).1.length + (readDigits cs).2.length = cs.length := by
  rw [readDigits, List.length_map, ← List.length_append, List.takeWhile_append_dropWhile]

theorem length_readSign_le (cs : List Char) : (readSign cs).2.length ≤ cs.length := by
  unfold readSign
  split <;> simp

theorem length_le_of_readExponent? {cs rest : List Char} {exponent : Option Int}
    (h : readExponent? cs = some (exponent, rest)) : rest.length ≤ cs.length := by
  unfold readExponent? at h
  split at h
  · simp_all
  · rename_i c cs
    split at h
    · have hsign := length_readSign_le cs
      have hdigits := length_readDigits (readSign cs).2
      simp only at h
      split at h
      · simp at h
      · rename_i digits rest' _ heq
        simp only [Option.some.injEq, Prod.mk.injEq] at h
        simp only [heq, h.2, List.length_cons] at hdigits ⊢
        omega
    · simp_all

namespace NumberLiteral

/-- The digits behind a point, if the text begins with one, and the text behind them. A point needs
digits behind it. -/
def readFraction? : List Char → Option (Option (List Nat) × List Char)
  | '.' :: cs =>
    match readDigits cs with
    | ([], _) => none
    | (digits, rest) => some (some digits, rest)
  | cs => some (none, cs)

/-- The minus sign in front of a text, and the text behind it. -/
def readMinus : List Char → Bool × List Char
  | '-' :: cs => (true, cs)
  | cs => (false, cs)

/-- The literal that a text begins with, and the text behind it: an optional minus sign, digits
without a leading zero, an optional point with digits, an optional exponent. The literal takes as
much of the text as it can. -/
def read? (cs : List Char) : Option (NumberLiteral × List Char) := do
  let (negative, cs) := readMinus cs
  let (whole, cs) := readDigits cs
  match whole with
  | [] => none
  | 0 :: _ :: _ => none
  | _ =>
    let (fraction, cs) ← readFraction? cs
    let (exponent, cs) ← readExponent? cs
    some (⟨negative, whole, fraction, exponent⟩, cs)

theorem length_le_of_readFraction? {cs rest : List Char} {fraction : Option (List Nat)}
    (h : readFraction? cs = some (fraction, rest)) : rest.length ≤ cs.length := by
  unfold readFraction? at h
  split at h
  · rename_i cs
    split at h
    · simp at h
    · rename_i digits rest' _ hdigits
      simp only [Option.some.injEq, Prod.mk.injEq] at h
      have := length_readDigits cs
      simp only [hdigits, h.2, List.length_cons] at this ⊢
      omega
  · simp_all

/-- The text behind a literal is shorter than the text with it. -/
theorem length_lt_of_read? {cs rest : List Char} {literal : NumberLiteral}
    (h : read? cs = some (literal, rest)) : rest.length < cs.length := by
  unfold read? at h
  have hminus : (readMinus cs).2.length ≤ cs.length := by
    unfold readMinus
    split <;> simp
  have hdigits := length_readDigits (readMinus cs).2
  simp only at h
  generalize readDigits (readMinus cs).2 = digits at h hdigits
  split at h
  · simp at h
  · simp at h
  · rename_i hne _
    obtain ⟨⟨fraction, rest₁⟩, hfraction, h⟩ := Option.bind_eq_some_iff.1 h
    obtain ⟨⟨exponent, rest₂⟩, hexponent, h⟩ := Option.bind_eq_some_iff.1 h
    have hrest : rest₂ = rest := (Prod.mk.inj (Option.some.inj h)).2
    have hf := length_le_of_readFraction? hfraction
    have he : rest₂.length ≤ rest₁.length := length_le_of_readExponent? hexponent
    have hd : 0 < digits.1.length := List.length_pos_iff.2 hne
    rw [← hrest]
    omega

/-- Append digits to a significand while the result fits 64 bits; the second part is the number of
digits left over. -/
def takeFitting (significand : Nat) : List Nat → Nat × Nat
  | [] => (significand, 0)
  | d :: ds =>
    if 10 * significand + d < Number.intLimit then takeFitting (10 * significand + d) ds
    else (significand, ds.length + 1)

/-- The significand of 64 bits and the power of ten that scales it. -/
def parts (l : NumberLiteral) : Nat × Int :=
  let (significand, dropped) := takeFitting 0 l.whole
  let fraction := l.fraction.getD []
  let (significand, ignored) := takeFitting significand fraction
  (significand, dropped - (fraction.length - ignored : Int) + l.exponent.getD 0)

def toBinary64? (l : NumberLiteral) : Option Binary64 := do
  let (significand, exponent) := l.parts
  let x ← Binary64.ofRatio? l.negative significand 1
  x.scaleTen? exponent 4

/-- The integer that a literal without point and exponent writes, if it is in range. -/
def toInt? (l : NumberLiteral) : Option Int :=
  match l.fraction, l.exponent with
  | none, none =>
    let magnitude := ofDigits l.whole
    if l.negative then
      if magnitude ≠ 0 ∧ Number.minInt ≤ -magnitude then some (-magnitude) else none
    else if magnitude < Number.intLimit then some magnitude else none
  | _, _ => none

/-- The number that a literal stands for. -/
def value? (l : NumberLiteral) : Option Number :=
  match l.toInt? with
  | some value => some (.int value)
  | none => l.toBinary64?.map .float

end NumberLiteral

/-! ## Free text

The range check on the exponent of a decimal only spares the arithmetic with powers of ten that no
number reaches. -/

/-- The digits behind a point, if there is one, and what follows them. -/
def readFraction : List Char → List Nat × List Char
  | '.' :: cs => readDigits cs
  | cs => ([], cs)

/-- The number nearest to `±n · 10 ^ e`; `none` if it is too large. -/
def Binary64.ofDecimal? (negative : Bool) (n : Nat) (e : Int) : Option Binary64 :=
  if n = 0 then some (zero negative) else
    let magnitude := e + (decimalDigits n).length
    if 310 < magnitude then none
    else if magnitude < -330 then some (zero negative)
    else if 0 ≤ e then ofRatio? negative (n * Nat.pow 10 e.toNat) 1
    else ofRatio? negative n (Nat.pow 10 (-e).toNat)

/-- The number nearest to a decimal text; `none` if the text is no decimal, or too large. -/
def Binary64.ofText? (cs : List Char) : Option Binary64 :=
  let (negative, cs) := readSign cs
  let (whole, cs) := readDigits cs
  let (fraction, cs) := readFraction cs
  if whole.isEmpty && fraction.isEmpty then none
  else match readExponent? cs with
    | some (exponent, []) =>
      ofDecimal? negative (ofDigits (whole ++ fraction)) (exponent.getD 0 - fraction.length)
    | _ => none

/-- A count of 64 bits in a text that holds nothing else. -/
def readCount? (cs : List Char) : Option Nat :=
  let cs := match cs with
    | '+' :: cs => cs
    | cs => cs
  match readDigits cs with
  | (digits, []) =>
    if digits.isEmpty then none
    else
      let n := ofDigits digits
      if n < Number.intLimit then some n else none
  | _ => none

end ModelCatalog
