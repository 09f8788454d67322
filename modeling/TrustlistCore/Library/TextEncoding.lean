import TrustlistCore.Library.Json
import TrustlistCore.Library.Utf8

namespace TrustlistCore.Library.TextEncoding

open Unicode

inductive Encoding
  | utf8
  | utf8Sig
  | utf16
  | utf16be
  | utf16le
  | utf32
  | utf32be
  | utf32le
  deriving DecidableEq, Repr

-- The encoding of a JSON text, told by its mark or by where its first two characters,
-- which are ASCII, leave zeros.
def detect (raw : List UInt8) : Encoding :=
  if [0x00, 0x00, 0xFE, 0xFF].isPrefixOf raw ∨ [0xFF, 0xFE, 0x00, 0x00].isPrefixOf raw then .utf32
  else if [0xFE, 0xFF].isPrefixOf raw ∨ [0xFF, 0xFE].isPrefixOf raw then .utf16
  else if [0xEF, 0xBB, 0xBF].isPrefixOf raw then .utf8Sig
  else
    match raw with
    | [a, b] => if a = 0 then .utf16be else if b = 0 then .utf16le else .utf8
    | a :: b :: c :: d :: _ =>
        if a = 0 then (if b = 0 then .utf32be else .utf16be)
        else if b = 0 then (if c = 0 ∧ d = 0 then .utf32le else .utf16le)
        else .utf8
    | _ => .utf8

-- Half of a surrogate pair, as UTF-8 would spell it.
def surrogate (a b c : UInt8) : Option CodePoint :=
  if a = 0xED ∧ 0xA0 ≤ b.toNat ∧ b.toNat ≤ 0xBF ∧ 0x80 ≤ c.toNat ∧ c.toNat ≤ 0xBF then
    some ⟨0xD000 + b.toNat % 0x40 * 0x40 + c.toNat % 0x40, by omega⟩
  else none

-- UTF-8 with `surrogatepass`; the first argument is what was read since the last surrogate.
def decode8 : List UInt8 → List UInt8 → Option (List CodePoint)
  | pending, a :: b :: c :: rest =>
      match surrogate a b c with
      | some point => do
          let text ← Utf8.decode pending
          let more ← decode8 [] rest
          some (text.map Json.charPoint ++ point :: more)
      | none => decode8 (pending ++ [a]) (b :: c :: rest)
  | pending, rest => (Utf8.decode (pending ++ rest)).map (List.map Json.charPoint)

def unitOf (high low : UInt8) : CodeUnit :=
  ⟨high.toNat * 0x100 + low.toNat, by
    have hhigh := high.toNat_lt
    have hlow := low.toNat_lt
    omega⟩

def units (bigEndian : Bool) : List UInt8 → Option (List CodeUnit)
  | [] => some []
  | [_] => none
  | a :: b :: rest =>
      (units bigEndian rest).map ((if bigEndian then unitOf a b else unitOf b a) :: ·)

def pointOf (high low : CodeUnit) : Option CodePoint :=
  if h : high.val * 0x10000 + low.val < 0x110000 then some ⟨_, h⟩ else none

def decode32 (bigEndian : Bool) : List UInt8 → Option (List CodePoint)
  | [] => some []
  | a :: b :: c :: d :: rest => do
      let point ← if bigEndian then pointOf (unitOf a b) (unitOf c d) else pointOf (unitOf d c) (unitOf b a)
      let more ← decode32 bigEndian rest
      some (point :: more)
  | _ => none

-- The text of a JSON document, decoded with `surrogatepass`. The mark says which end of a
-- unit comes first.
def decode (raw : List UInt8) : Option (List CodePoint) :=
  match detect raw with
  | .utf8 => decode8 [] raw
  | .utf8Sig => decode8 [] (raw.drop 3)
  | .utf16 => (units ([0xFE, 0xFF].isPrefixOf raw) (raw.drop 2)).map decode16
  | .utf16be => (units true raw).map decode16
  | .utf16le => (units false raw).map decode16
  | .utf32 => decode32 ([0x00, 0x00, 0xFE, 0xFF].isPrefixOf raw) (raw.drop 4)
  | .utf32be => decode32 true raw
  | .utf32le => decode32 false raw

theorem decode8_of_ascii {pending raw : List UInt8} (h : ∀ byte ∈ raw, byte.toNat < 0x80) :
    decode8 pending raw = (Utf8.decode (pending ++ raw)).map (List.map Json.charPoint) := by
  induction pending, raw using decode8.induct with
  | case1 pending a b c rest point hsurrogate ih =>
      have ha := h a List.mem_cons_self
      rw [surrogate] at hsurrogate
      split at hsurrogate
      · rename_i hpass
        rw [hpass.1] at ha
        exact absurd ha (by decide)
      · cases hsurrogate
  | case2 pending a b c rest hsurrogate ih =>
      rw [decode8, hsurrogate]
      simp only
      rw [ih fun byte hbyte => h byte (List.mem_cons_of_mem _ hbyte), List.append_assoc,
        List.singleton_append]
  | case3 pending rest hshort => rw [decode8]; exact hshort

theorem encode_ascii {text : List Char} (h : ∀ c ∈ text, c.toNat < 0x80) :
    Utf8.encode text = text.map fun c => UInt8.ofNat c.toNat := by
  induction text with
  | nil => rfl
  | cons c rest ih =>
      have hlow := h c List.mem_cons_self
      have hval : c.val.toNat = c.toNat := rfl
      have hchar : String.utf8EncodeChar c = [UInt8.ofNat c.toNat] := by
        simp only [String.utf8EncodeChar, hval, if_pos (show c.toNat ≤ 127 by omega)]
      rw [List.map_cons, ← ih fun d hd => h d (List.mem_cons_of_mem _ hd), Utf8.encode,
        List.flatMap_cons, hchar, List.singleton_append]
      rfl

theorem byte_of_ascii {text : List Char} (h : ∀ c ∈ text, c.toNat < 0x80) {byte : UInt8}
    (hbyte : byte ∈ Utf8.encode text) : byte.toNat < 0x80 := by
  rw [encode_ascii h] at hbyte
  obtain ⟨c, hc, rfl⟩ := List.mem_map.mp hbyte
  have hlow := h c hc
  rw [Utf8.toNat_ofNat (by omega)]
  exact hlow

-- A text that begins with two characters of ASCII is told from every other encoding.
theorem detect_of_ascii {a b : UInt8} {rest : List UInt8} (ha : a ≠ 0 ∧ a.toNat < 0x80)
    (hb : b ≠ 0) : detect (a :: b :: rest) = .utf8 := by
  have hmark {c : UInt8} (hc : c = 0 ∨ 0x80 ≤ c.toNat) : (c == a) = false := by
    rw [beq_eq_false_iff_ne]
    rintro rfl
    cases hc with
    | inl hzero => exact ha.1 hzero
    | inr hhigh => omega
  have h00 : ((0x00 : UInt8) == a) = false := hmark (.inl rfl)
  have hFF : ((0xFF : UInt8) == a) = false := hmark (.inr (by decide))
  have hFE : ((0xFE : UInt8) == a) = false := hmark (.inr (by decide))
  have hEF : ((0xEF : UInt8) == a) = false := hmark (.inr (by decide))
  unfold detect
  simp only [List.isPrefixOf, h00, hFF, hFE, hEF, Bool.false_and, Bool.false_eq_true, or_self,
    ↓reduceIte]
  cases rest with
  | nil => simp only [ha.1, hb, ↓reduceIte]
  | cons c rest =>
      cases rest with
      | nil => rfl
      | cons d rest => simp only [ha.1, hb, ↓reduceIte]

-- What `json.dumps` writes under `ensure_ascii` is read as it was written.
theorem decode_encode {c d : Char} {text : List Char}
    (h : ∀ e ∈ c :: d :: text, 0 < e.toNat ∧ e.toNat < 0x80) :
    decode (Utf8.encode (c :: d :: text)) = some ((c :: d :: text).map Json.charPoint) := by
  have hascii : ∀ e ∈ c :: d :: text, e.toNat < 0x80 := fun e he => (h e he).2
  have hne (e : Char) (he : e ∈ c :: d :: text) : UInt8.ofNat e.toNat ≠ 0 := by
    intro hzero
    have hnat := congrArg UInt8.toNat hzero
    rw [Utf8.toNat_ofNat (by have := hascii e he; omega)] at hnat
    have := (h e he).1
    simp only [UInt8.toNat_zero] at hnat
    omega
  have hdetect : detect (Utf8.encode (c :: d :: text)) = .utf8 := by
    rw [encode_ascii hascii, List.map_cons, List.map_cons]
    apply detect_of_ascii ⟨hne c (by simp), _⟩ (hne d (by simp))
    rw [Utf8.toNat_ofNat (by have := hascii c (by simp); omega)]
    exact hascii c (by simp)
  unfold decode
  rw [hdetect]
  simp only
  rw [decode8_of_ascii fun byte hbyte => byte_of_ascii hascii hbyte, List.nil_append,
    Utf8.decode_encode]
  rfl

end TrustlistCore.Library.TextEncoding
