import Mathlib.Algebra.Order.Field.Rat
import Mathlib.Data.List.Basic
import Mathlib.Tactic.FieldSimp
import Mathlib.Tactic.Ring

namespace TrustlistCore.Library

-- A decimal number as it is spelled; an empty fraction has no point.
structure Numeral where
  negative : Bool
  integer : List Char
  fraction : List Char
  exponent : Option (Bool × List Char)
  deriving DecidableEq, Repr

namespace Numeral

def Digits (digits : List Char) : Prop :=
  ∀ c ∈ digits, c.isDigit = true

instance (digits : List Char) : Decidable (Digits digits) :=
  inferInstanceAs (Decidable (∀ c ∈ digits, c.isDigit = true))

def Unpadded (digits : List Char) : Prop :=
  digits ≠ [] ∧ (digits.head? = some '0' → digits = ['0'])

instance (digits : List Char) : Decidable (Unpadded digits) :=
  inferInstanceAs (Decidable (_ ∧ _))

structure WellFormed (numeral : Numeral) : Prop where
  unpadded : Unpadded numeral.integer
  integer : Digits numeral.integer
  fraction : Digits numeral.fraction
  exponent : ∀ exponent ∈ numeral.exponent, exponent.2 ≠ [] ∧ Digits exponent.2

instance (numeral : Numeral) : Decidable numeral.WellFormed :=
  decidable_of_iff
    (Unpadded numeral.integer ∧ Digits numeral.integer ∧ Digits numeral.fraction ∧
      ∀ exponent ∈ numeral.exponent, exponent.2 ≠ [] ∧ Digits exponent.2)
    ⟨fun h => ⟨h.1, h.2.1, h.2.2.1, h.2.2.2⟩,
      fun h => ⟨h.unpadded, h.integer, h.fraction, h.exponent⟩⟩

def fractionText (digits : List Char) : List Char :=
  if digits = [] then [] else '.' :: digits

def exponentText : Option (Bool × List Char) → List Char
  | none => []
  | some (negative, digits) => 'e' :: (if negative then '-' else '+') :: digits

def text (numeral : Numeral) : List Char :=
  (if numeral.negative then ['-'] else []) ++ numeral.integer ++
    fractionText numeral.fraction ++ exponentText numeral.exponent

def exponentValue : Option (Bool × List Char) → ℤ
  | none => 0
  | some (negative, digits) =>
      if negative then -(Nat.ofDigitChars 10 digits 0 : ℤ) else Nat.ofDigitChars 10 digits 0

def magnitude (numeral : Numeral) : ℚ :=
  Nat.ofDigitChars 10 (numeral.integer ++ numeral.fraction) 0 *
    (10 : ℚ) ^ (exponentValue numeral.exponent - numeral.fraction.length)

-- Spelled with neither a point nor an exponent.
def isInteger (numeral : Numeral) : Bool :=
  numeral.fraction = [] ∧ numeral.exponent = none

end Numeral

structure Number extends Numeral where
  wellFormed : toNumeral.WellFormed
  deriving DecidableEq

namespace Number

theorem ext {number other : Number} (h : number.toNumeral = other.toNumeral) :
    number = other := by
  cases number
  cases other
  cases h
  rfl

def text (number : Number) : List Char :=
  number.toNumeral.text

def magnitude (number : Number) : ℚ :=
  number.toNumeral.magnitude

def isInteger (number : Number) : Bool :=
  number.toNumeral.isInteger

def toInt (number : Number) : ℤ :=
  if number.negative then -(Nat.ofDigitChars 10 number.integer 0 : ℤ)
  else Nat.ofDigitChars 10 number.integer 0

end Number

namespace Numeral

def readSign : List Char → Bool × List Char
  | '-' :: rest => (true, rest)
  | '+' :: rest => (false, rest)
  | rest => (false, rest)

-- `0|[1-9]\d*`
def readInteger : List Char → List Char × List Char
  | '0' :: rest => (['0'], rest)
  | text => (text.takeWhile Char.isDigit, text.dropWhile Char.isDigit)

-- `(\.\d+)?`
def readFraction : List Char → List Char × List Char
  | '.' :: rest =>
      if rest.takeWhile Char.isDigit = [] then ([], '.' :: rest)
      else (rest.takeWhile Char.isDigit, rest.dropWhile Char.isDigit)
  | text => ([], text)

-- `([eE][-+]?\d+)?`
def readExponent : List Char → Option (Bool × List Char) × List Char
  | mark :: rest =>
      if mark = 'e' ∨ mark = 'E' then
        let (negative, digits) := readSign rest
        if digits.takeWhile Char.isDigit = [] then (none, mark :: rest)
        else (some (negative, digits.takeWhile Char.isDigit), digits.dropWhile Char.isDigit)
      else (none, mark :: rest)
  | [] => (none, [])

def readMinus : List Char → Bool × List Char
  | '-' :: rest => (true, rest)
  | rest => (false, rest)

-- The longest number at the head of the text, and what follows it.
def read (text : List Char) : Numeral × List Char :=
  let (negative, text) := readMinus text
  let (integer, text) := readInteger text
  let (fraction, text) := readFraction text
  let (exponent, text) := readExponent text
  ({ negative, integer, fraction, exponent }, text)

end Numeral

def Number.ofNumeral (numeral : Numeral) : Option Number :=
  if h : numeral.WellFormed then some ⟨numeral, h⟩ else none

def Number.read (text : List Char) : Option (Number × List Char) :=
  (Number.ofNumeral (Numeral.read text).1).map fun number => (number, (Numeral.read text).2)

namespace Numeral

-- What may follow a number: nothing that could be read as more of it.
def Stops (rest : List Char) : Prop :=
  ∀ c ∈ rest.head?, c.isDigit = false ∧ c ≠ '.' ∧ c ≠ 'e' ∧ c ≠ 'E'

theorem takeWhile_digits {digits rest : List Char} (hdigits : Digits digits)
    (hrest : ∀ c ∈ rest.head?, c.isDigit = false) :
    (digits ++ rest).takeWhile Char.isDigit = digits := by
  rw [List.takeWhile_append_of_pos hdigits]
  cases rest with
  | nil => simp
  | cons c rest =>
      have hc := hrest c rfl
      rw [List.takeWhile_cons_of_neg (by simp [hc]), List.append_nil]

theorem dropWhile_digits {digits rest : List Char} (hdigits : Digits digits)
    (hrest : ∀ c ∈ rest.head?, c.isDigit = false) :
    (digits ++ rest).dropWhile Char.isDigit = rest := by
  rw [List.dropWhile_append_of_pos hdigits]
  cases rest with
  | nil => rfl
  | cons c rest =>
      have hc := hrest c rfl
      rw [List.dropWhile_cons_of_neg (by simp [hc])]

theorem readMinus_text (negative : Bool) {digits rest : List Char} (hdigits : Digits digits)
    (hne : digits ≠ []) :
    readMinus ((if negative then ['-'] else []) ++ (digits ++ rest)) = (negative, digits ++ rest) := by
  cases negative with
  | true => rfl
  | false =>
      cases digits with
      | nil => exact absurd rfl hne
      | cons c digits =>
          have hc : c ≠ '-' := by
            rintro rfl
            exact absurd (hdigits '-' List.mem_cons_self) (by decide)
          simp only [Bool.false_eq_true, if_false, List.nil_append, List.cons_append]
          unfold readMinus
          split
          · rename_i heq
            exact absurd (List.cons.inj heq).1 hc
          · rfl

theorem readInteger_text {digits rest : List Char} (hdigits : Digits digits)
    (hunpadded : Unpadded digits) (hrest : ∀ c ∈ rest.head?, c.isDigit = false) :
    readInteger (digits ++ rest) = (digits, rest) := by
  unfold readInteger
  split
  · rename_i more heq
    cases digits with
    | nil => exact absurd rfl hunpadded.1
    | cons c digits =>
        rw [List.cons_append, List.cons.injEq] at heq
        have hone := hunpadded.2 (by rw [heq.1]; rfl)
        rw [List.cons.injEq] at hone
        rw [hone.2] at heq
        rw [hone.1, hone.2, ← heq.2]
        rfl
  · rw [takeWhile_digits hdigits hrest, dropWhile_digits hdigits hrest]

theorem readFraction_text {digits rest : List Char} (hdigits : Digits digits)
    (hrest : ∀ c ∈ rest.head?, c.isDigit = false ∧ c ≠ '.') :
    readFraction (fractionText digits ++ rest) = (digits, rest) := by
  unfold fractionText
  split
  · rename_i hnil
    rw [hnil, List.nil_append]
    unfold readFraction
    split
    · exact absurd rfl (hrest '.' rfl).2
    · rfl
  · rename_i hne
    have hstop : ∀ c ∈ rest.head?, c.isDigit = false := fun c hc => (hrest c hc).1
    rw [List.cons_append, readFraction, takeWhile_digits hdigits hstop,
      dropWhile_digits hdigits hstop, if_neg hne]

theorem readSign_text (negative : Bool) (digits : List Char) :
    readSign ((if negative then '-' else '+') :: digits) = (negative, digits) := by
  cases negative <;> rfl

theorem readExponent_text {exponent : Option (Bool × List Char)} {rest : List Char}
    (hexponent : ∀ e ∈ exponent, e.2 ≠ [] ∧ Digits e.2) (hrest : Stops rest) :
    readExponent (exponentText exponent ++ rest) = (exponent, rest) := by
  cases exponent with
  | none =>
      cases rest with
      | nil => rfl
      | cons c rest =>
          obtain ⟨-, -, he, hE⟩ := hrest c rfl
          simp only [exponentText, List.nil_append, readExponent, he, hE, or_self, if_false]
  | some e =>
      obtain ⟨negative, digits⟩ := e
      obtain ⟨hne, hdigits⟩ := hexponent _ rfl
      have hstop : ∀ c ∈ rest.head?, c.isDigit = false := fun c hc => (hrest c hc).1
      simp only [exponentText, List.cons_append, readExponent, true_or, if_true, readSign_text,
        takeWhile_digits hdigits hstop, dropWhile_digits hdigits hstop, if_neg hne]

theorem head_exponentText {exponent : Option (Bool × List Char)} {rest : List Char}
    (hrest : Stops rest) :
    ∀ c ∈ (exponentText exponent ++ rest).head?, c.isDigit = false ∧ c ≠ '.' := by
  cases exponent with
  | none => exact fun c hc => ⟨(hrest c hc).1, (hrest c hc).2.1⟩
  | some e =>
      intro c hc
      simp only [exponentText, List.cons_append, List.head?_cons, Option.mem_some] at hc
      subst hc
      decide

theorem head_fractionText {digits rest : List Char}
    (hrest : ∀ c ∈ rest.head?, c.isDigit = false) :
    ∀ c ∈ (fractionText digits ++ rest).head?, c.isDigit = false := by
  unfold fractionText
  split
  · exact hrest
  · intro c hc
    simp only [List.cons_append, List.head?_cons, Option.mem_some] at hc
    subst hc
    decide

theorem read_text {numeral : Numeral} (h : numeral.WellFormed) {rest : List Char}
    (hrest : Stops rest) : read (numeral.text ++ rest) = (numeral, rest) := by
  obtain ⟨negative, integer, fraction, exponent⟩ := numeral
  have hexponent := @head_exponentText exponent rest hrest
  have hfraction := @head_fractionText fraction _ (fun c hc => (hexponent c hc).1)
  unfold read
  simp only [text, List.append_assoc]
  rw [readMinus_text negative h.integer h.unpadded.1]
  simp only
  rw [readInteger_text h.integer h.unpadded hfraction]
  simp only
  rw [readFraction_text h.fraction hexponent]
  simp only
  rw [readExponent_text h.exponent hrest]

end Numeral

namespace Number

theorem read_text (number : Number) {rest : List Char} (hrest : Numeral.Stops rest) :
    read (number.text ++ rest) = some (number, rest) := by
  unfold read ofNumeral text
  rw [Numeral.read_text number.wellFormed hrest, dif_pos number.wellFormed]
  rfl

end Number

end TrustlistCore.Library
