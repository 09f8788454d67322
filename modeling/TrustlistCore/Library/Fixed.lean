import Mathlib.Data.List.Basic
import Mathlib.Tactic.IntervalCases
import Mathlib.Tactic.Ring

namespace TrustlistCore.Library.Fixed

-- A numeral of a fixed number of digits, in a base for which `Nat.digitChar` has digits.
def write (base : ℕ) : ℕ → ℕ → List Char
  | 0, _ => []
  | width + 1, n => write base width (n / base) ++ [Nat.digitChar (n % base)]

def decimalValue (c : Char) : Option ℕ :=
  if c.isDigit then some (c.toNat - '0'.toNat) else none

section Read

variable (value : Char → Option ℕ) (base : ℕ)

def readFrom : ℕ → List Char → Option ℕ
  | n, [] => some n
  | n, c :: text =>
      match value c with
      | some digit => readFrom (n * base + digit) text
      | none => none

def read (text : List Char) : Option ℕ :=
  readFrom value base 0 text

-- The numeral of a given width at the head of the text, and what follows.
def take (width : ℕ) (text : List Char) : Option (ℕ × List Char) :=
  if width ≤ text.length then
    (read value base (text.take width)).map fun n => (n, text.drop width)
  else none

end Read

theorem length_write (base width n : ℕ) : (write base width n).length = width := by
  induction width generalizing n with
  | zero => rfl
  | succ width ih => rw [write, List.length_append, ih, List.length_singleton]

theorem mem_write {base width n : ℕ} (hbase : 0 < base) {c : Char} (h : c ∈ write base width n) :
    ∃ digit < base, c = Nat.digitChar digit := by
  induction width generalizing n with
  | zero => exact absurd h List.not_mem_nil
  | succ width ih =>
      rcases List.mem_append.mp h with h | h
      · exact ih h
      · exact ⟨n % base, Nat.mod_lt n hbase, List.mem_singleton.mp h⟩

section ReadWrite

variable {value : Char → Option ℕ} {base : ℕ}

theorem readFrom_append {n m : ℕ} {text more : List Char} (h : readFrom value base n text = some m) :
    readFrom value base n (text ++ more) = readFrom value base m more := by
  induction text generalizing n with
  | nil =>
      have hm : n = m := Option.some.inj h
      rw [hm, List.nil_append]
  | cons c text ih =>
      rw [List.cons_append, readFrom]
      rw [readFrom] at h
      cases hc : value c with
      | none =>
          rw [hc] at h
          exact absurd h (by simp)
      | some digit =>
          rw [hc] at h
          exact ih h

theorem read_write (hvalue : ∀ digit < base, value (Nat.digitChar digit) = some digit)
    {width n : ℕ} (hn : n < base ^ width) : read value base (write base width n) = some n := by
  induction width generalizing n with
  | zero =>
      have hzero : n = 0 := by
        rw [pow_zero] at hn
        omega
      rw [hzero]
      rfl
  | succ width ih =>
      have hbase : 0 < base := by
        by_contra hzero
        have : base = 0 := by omega
        rw [this, zero_pow (Nat.succ_ne_zero width)] at hn
        omega
      have hquotient : n / base < base ^ width := by
        rw [Nat.div_lt_iff_lt_mul hbase]
        rwa [pow_succ] at hn
      have hdigit := hvalue (n % base) (Nat.mod_lt n hbase)
      unfold read at ih ⊢
      rw [write, readFrom_append (ih hquotient), readFrom, hdigit]
      exact congrArg some (by rw [mul_comm]; exact Nat.div_add_mod n base)

theorem take_write (hvalue : ∀ digit < base, value (Nat.digitChar digit) = some digit)
    {width n : ℕ} (hn : n < base ^ width) (rest : List Char) :
    take value base width (write base width n ++ rest) = some (n, rest) := by
  have hlength := length_write base width n
  have htake : (write base width n ++ rest).take width = write base width n :=
    List.take_left' hlength
  have hdrop : (write base width n ++ rest).drop width = rest := List.drop_left' hlength
  unfold take
  rw [if_pos (by rw [List.length_append]; omega), htake, hdrop, read_write hvalue hn]
  rfl

end ReadWrite

theorem decimalValue_digitChar {digit : ℕ} (h : digit < 10) :
    decimalValue (Nat.digitChar digit) = some digit := by
  interval_cases digit <;> rfl

theorem isDigit_write {width n : ℕ} {c : Char} (h : c ∈ write 10 width n) :
    c.isDigit = true := by
  obtain ⟨digit, hdigit, rfl⟩ := mem_write (by decide) h
  interval_cases digit <;> rfl

end TrustlistCore.Library.Fixed
