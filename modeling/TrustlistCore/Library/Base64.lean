import Mathlib.Data.List.Basic
import Mathlib.Data.List.DropRight

namespace TrustlistCore.Library.Base64

-- The URL-safe alphabet.
def digit (n : ℕ) : Char :=
  if n < 26 then Char.ofNat (n + 65)
  else if n < 52 then Char.ofNat (n - 26 + 97)
  else if n < 62 then Char.ofNat (n - 52 + 48)
  else if n = 62 then '-'
  else '_'

-- What a character stands for, in the URL-safe alphabet or in the standard one.
def value (c : Char) : Option ℕ :=
  if 'A' ≤ c ∧ c ≤ 'Z' then some (c.toNat - 65)
  else if 'a' ≤ c ∧ c ≤ 'z' then some (c.toNat - 97 + 26)
  else if '0' ≤ c ∧ c ≤ '9' then some (c.toNat - 48 + 52)
  else if c = '-' ∨ c = '+' then some 62
  else if c = '_' ∨ c = '/' then some 63
  else none

def first (a : UInt8) : Char :=
  digit (a.toNat / 4)

def second (a b : UInt8) : Char :=
  digit (a.toNat % 4 * 16 + b.toNat / 16)

def third (b c : UInt8) : Char :=
  digit (b.toNat % 16 * 4 + c.toNat / 64)

def fourth (c : UInt8) : Char :=
  digit (c.toNat % 64)

-- Four characters for three bytes, the last group filled up with padding.
def encode : List UInt8 → List Char
  | [] => []
  | [a] => [first a, second a 0, '=', '=']
  | [a, b] => [first a, second a b, third b 0, '=']
  | a :: b :: c :: rest => first a :: second a b :: third b c :: fourth c :: encode rest

-- The reader between two characters: how many of the group it has seen, the bits still to
-- be used and the run of padding just before. Characters outside the alphabet are passed
-- over, and padding that fills the group ends the text.
def decodeFrom : ℕ → ℕ → ℕ → List Char → Option (List UInt8)
  | seen, _, _, [] => if seen = 0 then some [] else none
  | seen, left, pads, c :: rest =>
      if c = '=' then
        if 2 ≤ seen ∧ 4 ≤ seen + (pads + 1) then some []
        else decodeFrom seen left (if 2 ≤ seen then pads + 1 else pads) rest
      else
        match value c with
        | none => decodeFrom seen left pads rest
        | some n =>
            match seen with
            | 0 => decodeFrom 1 n 0 rest
            | 1 => (decodeFrom 2 (n % 16) 0 rest).map (UInt8.ofNat (left * 4 + n / 16) :: ·)
            | 2 => (decodeFrom 3 (n % 4) 0 rest).map (UInt8.ofNat (left * 16 + n / 4) :: ·)
            | _ => (decodeFrom 0 0 0 rest).map (UInt8.ofNat (left * 64 + n) :: ·)

def decode (text : List Char) : Option (List UInt8) :=
  decodeFrom 0 0 0 text

-- The text without its padding.
def digits : List UInt8 → List Char
  | [] => []
  | [a] => [first a, second a 0]
  | [a, b] => [first a, second a b, third b 0]
  | a :: b :: c :: rest => first a :: second a b :: third b c :: fourth c :: digits rest

-- As many characters as it takes to fill up a last group.
def fill (length : ℕ) : ℕ :=
  (4 - length % 4) % 4

theorem digit_spec : ∀ n < 64, value (digit n) = some n ∧ (digit n).toNat < 0x80 ∧
    digit n ≠ '=' ∧ digit n ≠ '.' := by
  decide

theorem mem_digits {raw : List UInt8} {c : Char} (h : c ∈ digits raw) : ∃ n < 64, c = digit n := by
  have hbyte : ∀ a : UInt8, a.toNat < 256 := fun a => a.toNat_lt
  induction raw using digits.induct with
  | case1 => simp [digits] at h
  | case2 a =>
      have ha := hbyte a
      simp only [digits, List.mem_cons, List.not_mem_nil, or_false] at h
      rcases h with rfl | rfl
      · exact ⟨_, by omega, rfl⟩
      · exact ⟨_, by simp only [UInt8.toNat_zero]; omega, rfl⟩
  | case3 a b =>
      have ha := hbyte a
      have hb := hbyte b
      simp only [digits, List.mem_cons, List.not_mem_nil, or_false] at h
      rcases h with rfl | rfl | rfl
      · exact ⟨_, by omega, rfl⟩
      · exact ⟨_, by omega, rfl⟩
      · exact ⟨_, by simp only [UInt8.toNat_zero]; omega, rfl⟩
  | case4 a b c rest ih =>
      have ha := hbyte a
      have hb := hbyte b
      have hc := hbyte c
      simp only [digits, List.mem_cons] at h
      rcases h with rfl | rfl | rfl | rfl | hrest
      · exact ⟨_, by omega, rfl⟩
      · exact ⟨_, by omega, rfl⟩
      · exact ⟨_, by omega, rfl⟩
      · exact ⟨_, by omega, rfl⟩
      · exact ih hrest

theorem encode_eq_digits (raw : List UInt8) :
    encode raw = digits raw ++ List.replicate (fill (digits raw).length) '=' := by
  induction raw using digits.induct with
  | case1 => rfl
  | case2 a => rfl
  | case3 a b => rfl
  | case4 a b c rest ih =>
      have hfill : fill ((digits rest).length + 1 + 1 + 1 + 1) = fill (digits rest).length := by
        unfold fill
        omega
      simp only [encode, digits, List.length_cons, List.cons_append, hfill, ih]

-- `rstrip("=")`
theorem rdropWhile_encode (raw : List UInt8) :
    (encode raw).rdropWhile (· = '=') = digits raw := by
  rw [encode_eq_digits, List.rdropWhile, List.reverse_append, List.reverse_replicate]
  rw [List.dropWhile_append_of_pos (by simp)]
  cases hreverse : (digits raw).reverse with
  | nil => simp [List.reverse_eq_nil_iff.mp hreverse]
  | cons c rest =>
      obtain ⟨n, hn, rfl⟩ := mem_digits (List.mem_reverse.mp (hreverse ▸ List.mem_cons_self))
      rw [List.dropWhile_cons_of_neg (by simp [(digit_spec n hn).2.2.1]), ← hreverse,
        List.reverse_reverse]

theorem decodeFrom_digit {n : ℕ} (h : n < 64) (seen left pads : ℕ) (rest : List Char) :
    decodeFrom seen left pads (digit n :: rest) =
      match seen with
      | 0 => decodeFrom 1 n 0 rest
      | 1 => (decodeFrom 2 (n % 16) 0 rest).map (UInt8.ofNat (left * 4 + n / 16) :: ·)
      | 2 => (decodeFrom 3 (n % 4) 0 rest).map (UInt8.ofNat (left * 16 + n / 4) :: ·)
      | _ => (decodeFrom 0 0 0 rest).map (UInt8.ofNat (left * 64 + n) :: ·) := by
  obtain ⟨hvalue, -, hpad, -⟩ := digit_spec n h
  rw [decodeFrom, if_neg hpad, hvalue]

theorem ofNat_eq {n : ℕ} {a : UInt8} (h : n = a.toNat) : UInt8.ofNat n = a := by
  rw [h, UInt8.ofNat_toNat]

theorem decodeFrom_first (a b : UInt8) (rest : List Char) :
    decodeFrom 0 0 0 (first a :: second a b :: rest) =
      (decodeFrom 2 (b.toNat / 16) 0 rest).map (a :: ·) := by
  have ha := a.toNat_lt
  have hb := b.toNat_lt
  have hbyte : UInt8.ofNat (a.toNat / 4 * 4 + (a.toNat % 4 * 16 + b.toNat / 16) / 16) = a :=
    ofNat_eq (by omega)
  have hleft : (a.toNat % 4 * 16 + b.toNat / 16) % 16 = b.toNat / 16 := by omega
  rw [first, decodeFrom_digit (by omega), second]
  simp only
  rw [decodeFrom_digit (by omega)]
  simp only [hbyte, hleft]

theorem decodeFrom_third (b c : UInt8) (rest : List Char) :
    decodeFrom 2 (b.toNat / 16) 0 (third b c :: rest) =
      (decodeFrom 3 (c.toNat / 64) 0 rest).map (b :: ·) := by
  have hb := b.toNat_lt
  have hc := c.toNat_lt
  have hbyte : UInt8.ofNat (b.toNat / 16 * 16 + (b.toNat % 16 * 4 + c.toNat / 64) / 4) = b :=
    ofNat_eq (by omega)
  have hleft : (b.toNat % 16 * 4 + c.toNat / 64) % 4 = c.toNat / 64 := by omega
  rw [third, decodeFrom_digit (by omega)]
  simp only [hbyte, hleft]

theorem decodeFrom_fourth (c : UInt8) (rest : List Char) :
    decodeFrom 3 (c.toNat / 64) 0 (fourth c :: rest) = (decodeFrom 0 0 0 rest).map (c :: ·) := by
  have hc := c.toNat_lt
  have hbyte : UInt8.ofNat (c.toNat / 64 * 64 + c.toNat % 64) = c := ofNat_eq (by omega)
  rw [fourth, decodeFrom_digit (by omega)]
  simp only [hbyte]

-- One case for each length modulo three.
theorem decode_digits (raw : List UInt8) :
    decode (digits raw ++ List.replicate (fill (digits raw).length) '=') = some raw := by
  unfold decode
  induction raw using digits.induct with
  | case1 => rfl
  | case2 a =>
      have hpads : decodeFrom 2 0 0 ['=', '='] = some [] := rfl
      rw [digits, List.cons_append, List.cons_append, decodeFrom_first, UInt8.toNat_zero]
      exact congrArg (Option.map (a :: ·)) hpads
  | case3 a b =>
      have hpads : decodeFrom 3 0 0 ['='] = some [] := rfl
      rw [digits, List.cons_append, List.cons_append, List.cons_append, decodeFrom_first,
        decodeFrom_third, UInt8.toNat_zero]
      exact congrArg (Option.map (a :: ·)) (congrArg (Option.map (b :: ·)) hpads)
  | case4 a b c rest ih =>
      have hfill : fill (digits (a :: b :: c :: rest)).length = fill (digits rest).length := by
        unfold fill
        simp only [digits, List.length_cons]
        omega
      rw [hfill]
      simp only [digits, List.cons_append]
      rw [decodeFrom_first, decodeFrom_third, decodeFrom_fourth, ih]
      rfl

theorem digits_injective : Function.Injective digits := by
  intro raw other h
  have hraw := decode_digits raw
  rw [h, decode_digits other] at hraw
  exact (Option.some.inj hraw).symm

end TrustlistCore.Library.Base64
