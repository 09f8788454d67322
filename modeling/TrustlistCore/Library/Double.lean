import TrustlistCore.Library.Decimal
import TrustlistCore.Library.Shortest

namespace TrustlistCore.Library

def binary64 : Format where
  precision := 53
  least := -1074
  greatest := 971
  precise := by decide
  fine := by decide
  ordered := by decide

inductive Double
  | finite (negative : Bool) (magnitude : binary64.Magnitude)
  | infinity (negative : Bool)
  | nan
  deriving DecidableEq

namespace Double

open Format Decimal

-- The double a numeral denotes, which is an infinity past the largest one.
def ofNumber (number : Number) : Double :=
  match binary64.nearest number.magnitude with
  | some x => .finite number.negative x
  | none => .infinity number.negative

def isInteger : Double → Bool
  | .finite _ x => x.val.den = 1
  | _ => false

def significand (x : binary64.Magnitude) (h : x.val ≠ 0) : Significand :=
  Significand.ofNat (shortest x).1 (shortest_pos h)

-- Where the point of the shortest decimal stands, counted from its first digit.
def point (x : binary64.Magnitude) : ℤ :=
  (shortest x).2 + (Nat.toDigits 10 (shortest x).1).length

-- The value of the shortest decimal.
def decimal (x : binary64.Magnitude) : ℚ :=
  (shortest x).1 * (10 : ℚ) ^ (shortest x).2

-- `Number::toString`, for which zero has no sign.
def display (negative : Bool) (x : binary64.Magnitude) : Number :=
  if h : x.val = 0 then ⟨integerNumeral false 0, integerNumeral_wellFormed _ _⟩
  else if -6 < point x ∧ point x ≤ 21 then
    ⟨positional negative (significand x h) (point x) 0, positional_wellFormed ..⟩
  else ⟨scientific negative (significand x h) (point x) 0, scientific_wellFormed ..⟩

def zeroNumeral (negative : Bool) : Numeral :=
  { negative, integer := ['0'], fraction := ['0'], exponent := none }

theorem zeroNumeral_wellFormed (negative : Bool) : (zeroNumeral negative).WellFormed where
  unpadded := ⟨by simp [zeroNumeral], fun _ => rfl⟩
  integer := by simp [zeroNumeral, Numeral.Digits]
  fraction := by simp [zeroNumeral, Numeral.Digits]
  exponent := by simp [zeroNumeral]

-- `float.__repr__`, which always shows a point or an exponent.
def repr (negative : Bool) (x : binary64.Magnitude) : Number :=
  if h : x.val = 0 then ⟨zeroNumeral negative, zeroNumeral_wellFormed negative⟩
  else if -4 < point x ∧ point x ≤ 16 then
    ⟨positional negative (significand x h) (point x) 1, positional_wellFormed ..⟩
  else ⟨scientific negative (significand x h) (point x) 2, scientific_wellFormed ..⟩

theorem nearest_decimal (x : binary64.Magnitude) : binary64.nearest (decimal x) = some x :=
  nearest_shortest x

theorem value_significand {x : binary64.Magnitude} (h : x.val ≠ 0) :
    (significand x h).value * (10 : ℚ) ^ (point x - (significand x h).length) = decimal x := by
  unfold significand decimal point
  rw [Significand.value_ofNat]
  congr 2
  simp [Significand.length, Significand.ofNat]

theorem nearest_zero {x : binary64.Magnitude} (h : x.val = 0) : binary64.nearest 0 = some x := by
  rw [nearest_of_representable representable_zero]
  exact congrArg some (Subtype.ext h.symm)

theorem magnitude_display (negative : Bool) {x : binary64.Magnitude} (h : x.val ≠ 0) :
    (display negative x).magnitude = decimal x := by
  rw [← value_significand h]
  unfold display
  rw [dif_neg h]
  split
  · exact magnitude_positional ..
  · exact magnitude_scientific ..

theorem magnitude_repr (negative : Bool) {x : binary64.Magnitude} (h : x.val ≠ 0) :
    (repr negative x).magnitude = decimal x := by
  rw [← value_significand h]
  unfold repr
  rw [dif_neg h]
  split
  · exact magnitude_positional ..
  · exact magnitude_scientific ..

theorem negative_positional (negative : Bool) (significand : Significand) (point : ℤ)
    (zeros : ℕ) : (positional negative significand point zeros).negative = negative := by
  unfold positional
  split
  · rfl
  split <;> rfl

theorem negative_repr (negative : Bool) (x : binary64.Magnitude) :
    (repr negative x).negative = negative := by
  unfold repr
  split
  · rfl
  split
  · exact negative_positional ..
  · rfl

theorem isInteger_repr (negative : Bool) (x : binary64.Magnitude) :
    (repr negative x).isInteger = false := by
  unfold repr
  split
  · rfl
  split
  · exact isInteger_positional ..
  · exact isInteger_scientific ..

-- `repr` reads back as the very float it shows.
theorem ofNumber_repr (negative : Bool) (x : binary64.Magnitude) :
    ofNumber (repr negative x) = .finite negative x := by
  have hnearest : binary64.nearest (repr negative x).magnitude = some x := by
    by_cases h : x.val = 0
    · have hzero : (repr negative x).magnitude = 0 := by
        unfold repr
        rw [dif_pos h]
        simp [Number.magnitude, Numeral.magnitude, zeroNumeral, Nat.ofDigitChars]
      rw [hzero]
      exact nearest_zero h
    · rw [magnitude_repr negative h]
      exact nearest_decimal x
  unfold ofNumber
  rw [hnearest, negative_repr]

end Double

end TrustlistCore.Library
