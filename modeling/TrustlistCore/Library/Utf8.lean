import Mathlib.Data.List.Basic
import Mathlib.Tactic.NormNum

namespace TrustlistCore.Library.Utf8

-- Between characters, or inside one: how many bytes are still to come, the bits read so
-- far, and the bounds on the next byte.
inductive State
  | start
  | within (needed bits lower upper : Nat)
  deriving DecidableEq, Repr

inductive Lead
  | char (c : Char)
  | more (state : State)
  | bad
  deriving DecidableEq

-- The bounds on the second byte keep out overlong forms, surrogates and whatever lies
-- past the last plane.
def lead (byte : UInt8) : Lead :=
  let b := byte.toNat
  if b ≤ 0x7F then .char (Char.ofNat b)
  else if b < 0xC2 then .bad
  else if b ≤ 0xDF then .more (.within 1 (b - 0xC0) 0x80 0xBF)
  else if b ≤ 0xEF then
    .more (.within 2 (b - 0xE0) (if b = 0xE0 then 0xA0 else 0x80) (if b = 0xED then 0x9F else 0xBF))
  else if b ≤ 0xF4 then
    .more (.within 3 (b - 0xF0) (if b = 0xF0 then 0x90 else 0x80) (if b = 0xF4 then 0x8F else 0xBF))
  else .bad

-- What a byte contributes to the characters, `none` marking a malformed sequence, and
-- the state after it. A byte that ends a sequence too early is read again as a lead.
def fromStart (byte : UInt8) : List (Option Char) × State :=
  match lead byte with
  | .char c => ([some c], .start)
  | .more state => ([], state)
  | .bad => ([none], .start)

def advance : State → UInt8 → List (Option Char) × State
  | .start, byte => fromStart byte
  | .within needed bits lower upper, byte =>
      if lower ≤ byte.toNat ∧ byte.toNat ≤ upper then
        let bits := bits * 0x40 + byte.toNat % 0x40
        if needed ≤ 1 then ([some (Char.ofNat bits)], .start)
        else ([], .within (needed - 1) bits 0x80 0xBF)
      else (none :: (fromStart byte).1, (fromStart byte).2)

def scan : State → List UInt8 → List (Option Char)
  | .start, [] => []
  | .within .., [] => [none]
  | state, byte :: rest => (advance state byte).1 ++ scan (advance state byte).2 rest

def encode (text : List Char) : List UInt8 :=
  text.flatMap String.utf8EncodeChar

-- The strict decoder refuses a malformed sequence, the lossy one replaces it.
def decode (bytes : List UInt8) : Option (List Char) :=
  (scan .start bytes).mapM id

def decodeLossy (bytes : List UInt8) : List Char :=
  (scan .start bytes).map fun c => c.getD '\uFFFD'

theorem scan_cons (state : State) (byte : UInt8) (rest : List UInt8) :
    scan state (byte :: rest) = (advance state byte).1 ++ scan (advance state byte).2 rest := by
  cases state <;> rfl

theorem advance_within {needed bits lower upper : Nat} {byte : UInt8}
    (h : lower ≤ byte.toNat ∧ byte.toNat ≤ upper) (hneeded : 1 < needed) :
    advance (.within needed bits lower upper) byte =
      ([], .within (needed - 1) (bits * 0x40 + byte.toNat % 0x40) 0x80 0xBF) := by
  simp only [advance, if_pos h, if_neg (Nat.not_le.mpr hneeded)]

theorem advance_last {bits lower upper : Nat} {byte : UInt8}
    (h : lower ≤ byte.toNat ∧ byte.toNat ≤ upper) :
    advance (.within 1 bits lower upper) byte =
      ([some (Char.ofNat (bits * 0x40 + byte.toNat % 0x40))], .start) := by
  simp only [advance, if_pos h, if_pos (Nat.le_refl 1)]

theorem advance_one {byte : UInt8} (h : byte.toNat ≤ 0x7F) :
    advance .start byte = ([some (Char.ofNat byte.toNat)], .start) := by
  simp only [advance, fromStart, lead, if_pos h]

theorem advance_two {byte : UInt8} (hlow : 0xC2 ≤ byte.toNat) (hhigh : byte.toNat ≤ 0xDF) :
    advance .start byte = ([], .within 1 (byte.toNat - 0xC0) 0x80 0xBF) := by
  simp only [advance, fromStart, lead, if_neg (show ¬ byte.toNat ≤ 0x7F by omega),
    if_neg (show ¬ byte.toNat < 0xC2 by omega), if_pos hhigh]

theorem advance_three {byte : UInt8} (hlow : 0xE0 ≤ byte.toNat) (hhigh : byte.toNat ≤ 0xEF) :
    advance .start byte =
      ([], .within 2 (byte.toNat - 0xE0) (if byte.toNat = 0xE0 then 0xA0 else 0x80)
        (if byte.toNat = 0xED then 0x9F else 0xBF)) := by
  simp only [advance, fromStart, lead, if_neg (show ¬ byte.toNat ≤ 0x7F by omega),
    if_neg (show ¬ byte.toNat < 0xC2 by omega), if_neg (show ¬ byte.toNat ≤ 0xDF by omega),
    if_pos hhigh]

theorem advance_four {byte : UInt8} (hlow : 0xF0 ≤ byte.toNat) (hhigh : byte.toNat ≤ 0xF4) :
    advance .start byte =
      ([], .within 3 (byte.toNat - 0xF0) (if byte.toNat = 0xF0 then 0x90 else 0x80)
        (if byte.toNat = 0xF4 then 0x8F else 0xBF)) := by
  simp only [advance, fromStart, lead, if_neg (show ¬ byte.toNat ≤ 0x7F by omega),
    if_neg (show ¬ byte.toNat < 0xC2 by omega), if_neg (show ¬ byte.toNat ≤ 0xDF by omega),
    if_neg (show ¬ byte.toNat ≤ 0xEF by omega), if_pos hhigh]

theorem toNat_ofNat {n : Nat} (h : n < 0x100) : (UInt8.ofNat n).toNat = n := by
  rw [UInt8.toNat_ofNat']
  omega

-- One case for each length a character can take.
theorem scan_encodeChar (c : Char) (rest : List UInt8) :
    scan .start (String.utf8EncodeChar c ++ rest) = some c :: scan .start rest := by
  have hvalid : c.toNat < 0xD800 ∨ 0xDFFF < c.toNat ∧ c.toNat < 0x110000 := c.valid
  have hnat : c.val.toNat = c.toNat := rfl
  simp only [String.utf8EncodeChar, hnat]
  split
  · rename_i h
    have hb := toNat_ofNat (show c.toNat < 0x100 by omega)
    rw [List.singleton_append, scan_cons, advance_one (by omega), hb, Char.ofNat_toNat]
    rfl
  split
  · rename_i hone h
    have hb := toNat_ofNat (show c.toNat / 64 % 0x20 + 0xC0 < 0x100 by omega)
    have hc := toNat_ofNat (show c.toNat % 0x40 + 0x80 < 0x100 by omega)
    simp only [List.cons_append, List.nil_append]
    rw [scan_cons, advance_two (by omega) (by omega), scan_cons, advance_last (by omega), hb, hc,
      show (c.toNat / 64 % 0x20 + 0xC0 - 0xC0) * 0x40 + (c.toNat % 0x40 + 0x80) % 0x40
        = c.toNat by omega, Char.ofNat_toNat]
    rfl
  split
  · rename_i hone htwo h
    have hb := toNat_ofNat (show c.toNat / 4096 % 0x10 + 0xE0 < 0x100 by omega)
    have hc := toNat_ofNat (show c.toNat / 64 % 0x40 + 0x80 < 0x100 by omega)
    have hd := toNat_ofNat (show c.toNat % 0x40 + 0x80 < 0x100 by omega)
    simp only [List.cons_append, List.nil_append]
    rw [scan_cons, advance_three (by omega) (by omega), scan_cons,
      advance_within (by rw [hb, hc]; split <;> split <;> omega) (by omega), scan_cons,
      advance_last (by omega), hb, hc, hd,
      show ((c.toNat / 4096 % 0x10 + 0xE0 - 0xE0) * 0x40 +
        (c.toNat / 64 % 0x40 + 0x80) % 0x40) * 0x40 + (c.toNat % 0x40 + 0x80) % 0x40
        = c.toNat by omega, Char.ofNat_toNat]
    rfl
  · rename_i hone htwo hthree
    have hb := toNat_ofNat (show c.toNat / 262144 % 0x08 + 0xF0 < 0x100 by omega)
    have hc := toNat_ofNat (show c.toNat / 4096 % 0x40 + 0x80 < 0x100 by omega)
    have hd := toNat_ofNat (show c.toNat / 64 % 0x40 + 0x80 < 0x100 by omega)
    have he := toNat_ofNat (show c.toNat % 0x40 + 0x80 < 0x100 by omega)
    simp only [List.cons_append, List.nil_append]
    rw [scan_cons, advance_four (by omega) (by omega), scan_cons,
      advance_within (by rw [hb, hc]; split <;> split <;> omega) (by omega), scan_cons,
      advance_within (by omega) (by omega), scan_cons, advance_last (by omega), hb, hc, hd, he,
      show (((c.toNat / 262144 % 0x08 + 0xF0 - 0xF0) * 0x40 +
        (c.toNat / 4096 % 0x40 + 0x80) % 0x40) * 0x40 + (c.toNat / 64 % 0x40 + 0x80) % 0x40) *
          0x40 + (c.toNat % 0x40 + 0x80) % 0x40 = c.toNat by omega, Char.ofNat_toNat]
    rfl

theorem scan_encode (text : List Char) : scan .start (encode text) = text.map some := by
  induction text with
  | nil => rfl
  | cons c rest ih =>
      have happend : encode (c :: rest) = String.utf8EncodeChar c ++ encode rest := rfl
      rw [happend, scan_encodeChar, ih, List.map_cons]

theorem decode_encode (text : List Char) : decode (encode text) = some text := by
  unfold decode
  rw [scan_encode]
  induction text with
  | nil => rfl
  | cons c rest ih => simp [ih]

theorem encode_injective {text other : List Char} (h : encode text = encode other) :
    text = other := by
  have hdecode := congrArg decode h
  rw [decode_encode, decode_encode] at hdecode
  exact Option.some.inj hdecode

-- Where nothing is malformed there is nothing to replace.
theorem decodeLossy_of_decode {bytes : List UInt8} {text : List Char}
    (h : decode bytes = some text) : decodeLossy bytes = text := by
  unfold decode at h
  unfold decodeLossy
  generalize scan .start bytes = parts at h ⊢
  induction parts generalizing text with
  | nil =>
      simp only [List.mapM_nil, Option.pure_def, Option.some.injEq] at h
      exact h
  | cons c rest ih =>
      cases c with
      | none => simp at h
      | some c =>
          simp only [List.mapM_cons, id_eq, Option.bind_eq_bind, Option.bind_some,
            Option.pure_def, Option.bind_eq_some_iff, Option.some.injEq] at h
          obtain ⟨more, hmore, rfl⟩ := h
          rw [List.map_cons, ih hmore, Option.getD_some]

theorem decodeLossy_encode (text : List Char) : decodeLossy (encode text) = text :=
  decodeLossy_of_decode (decode_encode text)

example : decode [0xC0, 0x80] = none ∧ decodeLossy [0xE2, 0x82, 0x41] = ['\uFFFD', 'A'] := by
  decide

end TrustlistCore.Library.Utf8
