import Mathlib.Tactic.IntervalCases
import Mathlib.Tactic.Linarith
import Mathlib.Tactic.NormNum
import TrustlistCore.Library.Numeral

namespace TrustlistCore.Library

namespace Decimal

open Numeral

theorem digits_toDigits (n : ℕ) : Digits (Nat.toDigits 10 n) :=
  fun _ hc => Nat.isDigit_of_mem_toDigits (by decide) (by decide) hc

theorem head_toDigits {n : ℕ} (h : 0 < n) : (Nat.toDigits 10 n).head? ≠ some '0' := by
  induction n using Nat.strong_induction_on with
  | _ n ih =>
      by_cases hsmall : n < 10
      · rw [Nat.toDigits_of_lt_base hsmall]
        interval_cases n <;> decide
      · rw [Nat.toDigits_of_base_le (by decide) (by omega), List.head?_append_of_ne_nil _
          Nat.toDigits_ne_nil]
        exact ih (n / 10) (by omega) (by omega)

theorem unpadded_toDigits (n : ℕ) : Unpadded (Nat.toDigits 10 n) := by
  refine ⟨Nat.toDigits_ne_nil, ?_⟩
  intro h
  cases n with
  | zero => rfl
  | succ n => exact absurd h (head_toDigits (Nat.succ_pos n))

-- The decimal digits of a significand, which starts with the first one that counts.
structure Significand where
  digits : List Char
  isDigits : Digits digits
  nonempty : digits ≠ []
  leading : digits.head? ≠ some '0'

namespace Significand

def ofNat (n : ℕ) (h : 0 < n) : Significand where
  digits := Nat.toDigits 10 n
  isDigits := digits_toDigits n
  nonempty := Nat.toDigits_ne_nil
  leading := head_toDigits h

def value (significand : Significand) : ℕ :=
  Nat.ofDigitChars 10 significand.digits 0

def length (significand : Significand) : ℕ :=
  significand.digits.length

@[simp] theorem value_ofNat (n : ℕ) (h : 0 < n) : (ofNat n h).value = n :=
  Nat.ofDigitChars_ten_toDigits

theorem length_pos (significand : Significand) : 0 < significand.length :=
  List.length_pos_iff.mpr significand.nonempty

theorem unpadded (significand : Significand) (more : List Char) :
    Unpadded (significand.digits ++ more) := by
  have hne := significand.nonempty
  refine ⟨by simp [hne], ?_⟩
  intro h
  rw [List.head?_append_of_ne_nil _ hne] at h
  exact absurd h significand.leading

theorem unpadded_take (significand : Significand) {n : ℕ} (h : 0 < n) :
    Unpadded (significand.digits.take n) := by
  have hne := significand.nonempty
  have hlead := significand.leading
  cases hd : significand.digits with
  | nil => exact absurd hd hne
  | cons c digits =>
      cases n with
      | zero => exact absurd h (Nat.lt_irrefl 0)
      | succ n =>
          refine ⟨by simp, ?_⟩
          intro hhead
          rw [hd] at hlead
          exact absurd hhead hlead

end Significand

theorem digits_append {digits more : List Char} (h : Digits digits) (hmore : Digits more) :
    Digits (digits ++ more) := by
  intro c hc
  rcases List.mem_append.mp hc with hc | hc
  · exact h c hc
  · exact hmore c hc

theorem digits_zeros (n : ℕ) : Digits (List.replicate n '0') := by
  intro c hc
  rw [List.eq_of_mem_replicate hc]
  rfl

theorem digits_of_subset {digits more : List Char} (h : Digits more) (hsub : digits ⊆ more) :
    Digits digits :=
  fun c hc => h c (hsub hc)

def integerNumeral (negative : Bool) (n : ℕ) : Numeral :=
  { negative, integer := Nat.toDigits 10 n, fraction := [], exponent := none }

theorem integerNumeral_wellFormed (negative : Bool) (n : ℕ) :
    (integerNumeral negative n).WellFormed where
  unpadded := unpadded_toDigits n
  integer := digits_toDigits n
  fraction := by simp [integerNumeral, Digits]
  exponent := by simp [integerNumeral]

-- `significand × 10 ^ (point - length)` with its point where it belongs; a whole number
-- has `zeros` digits after the point.
def positional (negative : Bool) (significand : Significand) (point : ℤ) (zeros : ℕ) : Numeral :=
  if significand.length ≤ point then
    { negative
      integer := significand.digits ++ List.replicate (point - significand.length).toNat '0'
      fraction := List.replicate zeros '0'
      exponent := none }
  else if 0 < point then
    { negative
      integer := significand.digits.take point.toNat
      fraction := significand.digits.drop point.toNat
      exponent := none }
  else
    { negative
      integer := ['0']
      fraction := List.replicate (-point).toNat '0' ++ significand.digits
      exponent := none }

-- One digit before the point and an exponent of at least `width` digits.
def scientific (negative : Bool) (significand : Significand) (point : ℤ) (width : ℕ) : Numeral :=
  let digits := Nat.toDigits 10 (point - 1).natAbs
  { negative
    integer := significand.digits.take 1
    fraction := significand.digits.drop 1
    exponent :=
      some (decide (point - 1 < 0), List.replicate (width - digits.length) '0' ++ digits) }

theorem positional_wellFormed (negative : Bool) (significand : Significand) (point : ℤ)
    (zeros : ℕ) : (positional negative significand point zeros).WellFormed := by
  have hdigits := significand.isDigits
  unfold positional
  split
  · exact ⟨significand.unpadded _, digits_append hdigits (digits_zeros _), digits_zeros _,
      by simp⟩
  split
  · rename_i hpoint
    exact ⟨significand.unpadded_take (by omega), digits_of_subset hdigits (List.take_subset _ _),
      digits_of_subset hdigits (List.drop_subset _ _), by simp⟩
  · exact ⟨⟨by simp, fun _ => rfl⟩, by simp [Digits], digits_append (digits_zeros _) hdigits,
      by simp⟩

theorem scientific_wellFormed (negative : Bool) (significand : Significand) (point : ℤ)
    (width : ℕ) : (scientific negative significand point width).WellFormed := by
  have hdigits := significand.isDigits
  refine ⟨significand.unpadded_take Nat.one_pos, digits_of_subset hdigits (List.take_subset _ _),
    digits_of_subset hdigits (List.drop_subset _ _), ?_⟩
  intro exponent he
  simp only [scientific, Option.mem_some] at he
  subst he
  exact ⟨by simp [Nat.toDigits_ne_nil], digits_append (digits_zeros _) (digits_toDigits _)⟩

theorem ofDigitChars_zeros_append (n : ℕ) (digits : List Char) :
    Nat.ofDigitChars 10 (List.replicate n '0' ++ digits) 0 = Nat.ofDigitChars 10 digits 0 := by
  rw [Nat.ofDigitChars_append, Nat.ofDigitChars_replicate_zero, Nat.mul_zero]

theorem ofDigitChars_append_zeros (n : ℕ) (digits : List Char) :
    Nat.ofDigitChars 10 (digits ++ List.replicate n '0') 0 =
      10 ^ n * Nat.ofDigitChars 10 digits 0 := by
  rw [Nat.ofDigitChars_append, Nat.ofDigitChars_replicate_zero]

theorem magnitude_integerNumeral (negative : Bool) (n : ℕ) :
    (integerNumeral negative n).magnitude = n := by
  simp [integerNumeral, Numeral.magnitude, exponentValue, Nat.ofDigitChars_ten_toDigits]

theorem magnitude_positional (negative : Bool) (significand : Significand) (point : ℤ)
    (zeros : ℕ) :
    (positional negative significand point zeros).magnitude =
      significand.value * (10 : ℚ) ^ (point - significand.length) := by
  unfold positional
  split
  · rename_i h
    simp only [Numeral.magnitude, exponentValue, ofDigitChars_append_zeros, List.length_replicate,
      Significand.value]
    push_cast
    have hpoint : point - significand.length = ((point - significand.length).toNat : ℤ) := by
      omega
    rw [hpoint, zpow_natCast, zero_sub, zpow_neg, zpow_natCast, Int.toNat_natCast]
    field_simp
  split
  · rename_i h hpos
    have hlen : (significand.digits.drop point.toNat).length = significand.length - point.toNat :=
      List.length_drop
    have hle : point.toNat ≤ significand.length := by omega
    simp only [Numeral.magnitude, exponentValue, List.take_append_drop, hlen, Significand.value]
    congr 2
    omega
  · rename_i h hpos
    simp only [Numeral.magnitude, exponentValue, ← List.append_assoc, List.length_append,
      List.length_replicate, Significand.value]
    have hzero : ['0'] ++ List.replicate (-point).toNat '0' =
        List.replicate ((-point).toNat + 1) '0' := rfl
    rw [hzero, ofDigitChars_zeros_append]
    congr 2
    unfold Significand.length
    omega

theorem magnitude_scientific (negative : Bool) (significand : Significand) (point : ℤ)
    (width : ℕ) :
    (scientific negative significand point width).magnitude =
      significand.value * (10 : ℚ) ^ (point - significand.length) := by
  have hlen : (significand.digits.drop 1).length = significand.length - 1 := List.length_drop
  have hpos := significand.length_pos
  simp only [scientific, Numeral.magnitude, List.take_append_drop, hlen, exponentValue,
    ofDigitChars_zeros_append, Nat.ofDigitChars_ten_toDigits, Significand.value,
    decide_eq_true_eq]
  congr 2
  split <;> omega

theorem exponent_positional (negative : Bool) (significand : Significand) (point : ℤ)
    (zeros : ℕ) : (positional negative significand point zeros).exponent = none := by
  unfold positional
  split
  · rfl
  split <;> rfl

theorem positional_ne_scientific (negative negative' : Bool) (significand other : Significand)
    (point point' : ℤ) (zeros width : ℕ) :
    positional negative significand point zeros ≠ scientific negative' other point' width := by
  intro h
  have hexponent := congrArg Numeral.exponent h
  rw [exponent_positional] at hexponent
  exact Option.some_ne_none _ hexponent.symm

-- The digits past the point differ just where the number is whole.
theorem positional_eq_iff (negative : Bool) (significand : Significand) (point : ℤ) :
    positional negative significand point 0 = positional negative significand point 1 ↔
      point < significand.length := by
  constructor
  · intro h
    by_contra hlen
    have hle : (significand.length : ℤ) ≤ point := by omega
    unfold positional at h
    rw [if_pos hle, if_pos hle] at h
    exact absurd (congrArg Numeral.fraction h) (by simp)
  · intro h
    have hlen : ¬ (significand.length : ℤ) ≤ point := by omega
    unfold positional
    rw [if_neg hlen, if_neg hlen]

-- Two digits are too many just for an exponent of one.
theorem scientific_eq_iff (negative : Bool) (significand : Significand) (point : ℤ) :
    scientific negative significand point 0 = scientific negative significand point 2 ↔
      10 ≤ (point - 1).natAbs := by
  have hlen : (Nat.toDigits 10 (point - 1).natAbs).length ≤ 1 ↔ (point - 1).natAbs < 10 ^ 1 :=
    Nat.length_toDigits_le_iff (by decide) Nat.one_pos
  constructor
  · intro h
    have hexponent := congrArg Numeral.exponent h
    simp only [scientific, Option.some.injEq, Prod.mk.injEq, true_and] at hexponent
    have hcount := congrArg List.length hexponent
    simp only [List.length_append, List.length_replicate] at hcount
    omega
  · intro h
    unfold scientific
    simp only [show 0 - (Nat.toDigits 10 (point - 1).natAbs).length = 0 by omega,
      show 2 - (Nat.toDigits 10 (point - 1).natAbs).length = 0 by omega]

theorem integerNumeral_ne_scientific (negative negative' : Bool) (n : ℕ)
    (significand : Significand) (point : ℤ) (width : ℕ) :
    integerNumeral negative n ≠ scientific negative' significand point width := by
  intro h
  exact Option.some_ne_none _ (congrArg Numeral.exponent h).symm

-- With a digit called for after the point, the numeral is none of an integer.
theorem isInteger_positional (negative : Bool) (significand : Significand) (point : ℤ) :
    (positional negative significand point 1).isInteger = false := by
  have hdigits : significand.digits ≠ [] := List.ne_nil_of_length_pos significand.length_pos
  have hfraction : (positional negative significand point 1).fraction ≠ [] := by
    unfold positional
    by_cases hwhole : (significand.length : ℤ) ≤ point
    · rw [if_pos hwhole]
      exact List.cons_ne_nil _ _
    rw [if_neg hwhole]
    by_cases hpoint : 0 < point
    · rw [if_pos hpoint]
      unfold Significand.length at hwhole
      simp only [ne_eq, List.drop_eq_nil_iff]
      omega
    · rw [if_neg hpoint]
      exact List.append_ne_nil_of_right_ne_nil _ hdigits
  simp [Numeral.isInteger, hfraction]

theorem isInteger_scientific (negative : Bool) (significand : Significand) (point : ℤ)
    (width : ℕ) : (scientific negative significand point width).isInteger = false := by
  simp [Numeral.isInteger, scientific]

end Decimal

namespace Number

open Decimal

def ofInt (n : ℤ) : Number :=
  ⟨integerNumeral (decide (n < 0)) n.natAbs, integerNumeral_wellFormed _ _⟩

theorem toInt_ofInt (n : ℤ) : (ofInt n).toInt = n := by
  simp only [toInt, ofInt, integerNumeral, Nat.ofDigitChars_ten_toDigits, decide_eq_true_eq]
  split <;> omega

theorem isInteger_ofInt (n : ℤ) : (ofInt n).isInteger = true := rfl

theorem magnitude_of_isInteger {number : Number} (h : number.isInteger = true) :
    number.magnitude = number.toInt.natAbs := by
  have hparts : number.fraction = [] ∧ number.exponent = none := by
    simpa [Number.isInteger, Numeral.isInteger] using h
  have habs : number.toInt.natAbs = Nat.ofDigitChars 10 number.integer 0 := by
    unfold Number.toInt
    split <;> omega
  rw [habs, Number.magnitude, Numeral.magnitude, hparts.1, hparts.2]
  simp [Numeral.exponentValue]

theorem magnitude_ofInt (n : ℤ) : (ofInt n).magnitude = n.natAbs :=
  magnitude_integerNumeral _ _

theorem ofInt_injective {n m : ℤ} (h : ofInt n = ofInt m) : n = m := by
  rw [← toInt_ofInt n, h, toInt_ofInt]

end Number

end TrustlistCore.Library
