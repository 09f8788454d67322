import Mathlib.Data.List.DropRight
import TrustlistCore.Library.Decimal

namespace TrustlistCore.Library.IntLiteral

-- The blanks that `int` passes over at either end of a text in ASCII.
def isBlank (c : Char) : Bool :=
  c = ' ' ∨ (0x09 ≤ c.toNat ∧ c.toNat ≤ 0x0D)

def strip (text : List Char) : List Char :=
  (text.dropWhile isBlank).rdropWhile isBlank

-- The digits of a literal, with one underscore allowed between two of them; the first
-- argument says whether there is a digit just before.
def ungroup : Bool → List Char → Option (List Char)
  | digit, [] => if digit then some [] else none
  | digit, c :: rest =>
      if c = '_' then (if digit then ungroup false rest else none)
      else if c.isDigit then (ungroup true rest).map (c :: ·)
      else none

-- The sign and the digits of an integer literal in base ten.
def read (text : List Char) : Option (Bool × List Char) :=
  let (negative, digits) := Numeral.readSign (strip text)
  (ungroup false digits).map fun digits => (negative, digits)

def toInt (literal : Bool × List Char) : ℤ :=
  if literal.1 then -(Nat.ofDigitChars 10 literal.2 0 : ℤ) else Nat.ofDigitChars 10 literal.2 0

theorem ungroup_digits {digits : List Char} (h : Numeral.Digits digits) :
    ∀ digit, (digit = true ∨ digits ≠ []) → ungroup digit digits = some digits := by
  induction digits with
  | nil =>
      intro digit hdigit
      rcases hdigit with rfl | hne
      · rfl
      · exact absurd rfl hne
  | cons c rest ih =>
      intro digit _
      have hc : c.isDigit = true := h c List.mem_cons_self
      have hunderscore : c ≠ '_' := by
        rintro rfl
        exact absurd hc (by decide)
      rw [ungroup, if_neg hunderscore, if_pos hc,
        ih (fun d hd => h d (List.mem_cons_of_mem _ hd)) true (.inl rfl)]
      rfl

theorem strip_eq_self {text : List Char} (h : ∀ c ∈ text, isBlank c = false) :
    strip text = text := by
  have hfirst : text.dropWhile isBlank = text := by
    cases text with
    | nil => rfl
    | cons c rest => exact List.dropWhile_cons_of_neg (by simp [h c List.mem_cons_self])
  rw [strip, hfirst, List.rdropWhile_eq_self_iff]
  intro hne hlast
  rw [h _ (List.getLast_mem hne)] at hlast
  exact absurd hlast (by decide)

theorem not_blank_of_digit {c : Char} (h : c.isDigit = true ∨ c = '-') : isBlank c = false := by
  rcases h with h | rfl
  · have hrange : 48 ≤ c.toNat ∧ c.toNat ≤ 57 := Char.isDigit_iff_toNat.mp h
    rw [isBlank, decide_eq_false_iff_not]
    rintro (rfl | hblank)
    · exact absurd h (by decide)
    · omega
  · decide

theorem text_ofInt (n : ℤ) : (Number.ofInt n).text =
    (if decide (n < 0) then ['-'] else []) ++ Nat.toDigits 10 n.natAbs := by
  simp [Number.text, Number.ofInt, Decimal.integerNumeral, Numeral.text, Numeral.fractionText,
    Numeral.exponentText]

theorem digit_or_minus_of_mem {n : ℤ} {c : Char} (h : c ∈ (Number.ofInt n).text) :
    c.isDigit = true ∨ c = '-' := by
  have hdigits : Numeral.Digits (Nat.toDigits 10 n.natAbs) := (Number.ofInt n).wellFormed.integer
  rw [text_ofInt, List.mem_append] at h
  cases h with
  | inl hminus =>
      split at hminus
      · exact .inr (List.mem_singleton.mp hminus)
      · simp at hminus
  | inr hdigit => exact .inl (hdigits c hdigit)

theorem ascii_ofInt {n : ℤ} {c : Char} (h : c ∈ (Number.ofInt n).text) : c.toNat < 0x80 := by
  cases digit_or_minus_of_mem h with
  | inl hdigit =>
      have hrange : 48 ≤ c.toNat ∧ c.toNat ≤ 57 := Char.isDigit_iff_toNat.mp hdigit
      omega
  | inr hminus =>
      rw [hminus]
      decide

-- What `str` writes, `int` reads.
theorem read_ofInt (n : ℤ) :
    read (Number.ofInt n).text = some (decide (n < 0), Nat.toDigits 10 n.natAbs) := by
  have hwell := (Number.ofInt n).wellFormed
  have hdigits : Numeral.Digits (Nat.toDigits 10 n.natAbs) := hwell.integer
  have hne : Nat.toDigits 10 n.natAbs ≠ [] := hwell.unpadded.1
  have hsign : Numeral.readSign ((if decide (n < 0) then ['-'] else []) ++
      Nat.toDigits 10 n.natAbs) = (decide (n < 0), Nat.toDigits 10 n.natAbs) := by
    cases hd : decide (n < 0) with
    | true => rfl
    | false =>
        cases hlist : Nat.toDigits 10 n.natAbs with
        | nil => exact absurd hlist hne
        | cons c rest =>
            have hc : c.isDigit = true := hdigits c (hlist ▸ List.mem_cons_self)
            simp only [Bool.false_eq_true, ↓reduceIte, List.nil_append]
            unfold Numeral.readSign
            split
            · exact absurd hc (by simp_all)
            · exact absurd hc (by simp_all)
            · rfl
  have hblank : ∀ c ∈ (Number.ofInt n).text, isBlank c = false :=
    fun c hc => not_blank_of_digit (digit_or_minus_of_mem hc)
  rw [read, strip_eq_self hblank, text_ofInt, hsign]
  simp only
  rw [ungroup_digits hdigits false (.inr hne)]
  rfl

theorem toInt_read (n : ℤ) : toInt (decide (n < 0), Nat.toDigits 10 n.natAbs) = n := by
  simp only [toInt, Nat.ofDigitChars_ten_toDigits, decide_eq_true_eq]
  split <;> omega

end TrustlistCore.Library.IntLiteral
