import TrustlistCore.EventBus.Idempotency
import TrustlistCore.EventBus.Value.Theorems
import TrustlistCore.Library.Result

namespace TrustlistCore.EventBus.Idempotency

open Library Unicode Value

theorem ordered_canonical {V : Type} (members : List (List CodePoint × V)) :
    ordered canonical members = Members.sorted members := rfl

theorem mem_selected {payload : List (List CodePoint × Value)} {keyFields : List (List CodePoint)}
    {name : List CodePoint} {value : Value} :
    (name, value) ∈ selected payload keyFields ↔
      name ∈ keyFields ∧ Members.find payload name = some value :=
  Members.mem_ofPairs_find

theorem mem_keys_selected {payload : List (List CodePoint × Value)}
    {keyFields : List (List CodePoint)}
    (hpresent : ∀ name ∈ keyFields, name ∈ Members.keys payload) {name : List CodePoint} :
    name ∈ Members.keys (selected payload keyFields) ↔ name ∈ keyFields := by
  rw [Members.mem_keys]
  constructor
  · rintro ⟨value, h⟩
    exact (mem_selected.mp h).1
  · intro hname
    obtain ⟨value, hvalue⟩ :=
      Option.isSome_iff_exists.mp (Members.find_isSome.mpr (hpresent name hname))
    exact ⟨value, mem_selected.mpr ⟨hname, hvalue⟩⟩

-- A property of every selected value, and of the three nodes above them, is one of the
-- document.
theorem every_document {P : Value → Prop} {eventType : List CodePoint}
    {payload : List (List CodePoint × Value)} {keyFields : List (List CodePoint)}
    (htop : P (document eventType payload keyFields)) (htype : P (.str eventType))
    (hselected : P (.dict (selected payload keyFields)))
    (hvalues : ∀ name ∈ keyFields, ∀ value, Members.find payload name = some value →
      Every P value) : Every P (document eventType payload keyFields) := by
  refine every_dict.mpr ⟨htop, fun member hm => ?_⟩
  rcases List.mem_cons.mp hm with rfl | hm
  · exact htype
  · obtain rfl := List.mem_singleton.mp hm
    refine every_dict.mpr ⟨hselected, fun member hm => ?_⟩
    obtain ⟨hname, hvalue⟩ := mem_selected.mp hm
    exact hvalues member.1 hname member.2 hvalue

-- The integers of the fields that make the key have a text.
def Fits (maxStrDigits : ℕ) (payload : List (List CodePoint × Value))
    (keyFields : List (List CodePoint)) : Prop :=
  ∀ name ∈ keyFields, ∀ value, Members.find payload name = some value →
    Every (Prints canonical maxStrDigits) value

theorem prints_document {maxStrDigits : ℕ} {eventType : List CodePoint}
    {payload : List (List CodePoint × Value)} {keyFields : List (List CodePoint)}
    (h : Fits maxStrDigits payload keyFields) :
    Every (Prints canonical maxStrDigits) (document eventType payload keyFields) :=
  every_document trivial trivial trivial h

theorem missing_eq_nil {payload : List (List CodePoint × Value)}
    {keyFields : List (List CodePoint)} :
    missing payload keyFields = [] ↔ ∀ name ∈ keyFields, name ∈ Members.keys payload := by
  simp [missing]

def documentText (eventType : List CodePoint) (payload : List (List CodePoint × Value))
    (keyFields : List (List CodePoint)) : List Char :=
  Json.render Json.quoteAscii (laidOut canonical (document eventType payload keyFields))

theorem canonicalJson_document {maxStrDigits : ℕ} {eventType : List CodePoint}
    {payload : List (List CodePoint × Value)} {keyFields : List (List CodePoint)}
    (hfits : Fits maxStrDigits payload keyFields) :
    canonicalJson maxStrDigits (document eventType payload keyFields) =
      .ok (documentText eventType payload keyFields) :=
  dumps_eq_ok_iff.mpr ⟨prints_document hfits, rfl⟩

theorem derive_eq_ok {maxStrDigits : ℕ} {sha256 : List UInt8 → List Char}
    {eventType : List CodePoint} {payload : List (List CodePoint × Value)}
    {keyFields : List (List CodePoint)} (hne : keyFields ≠ [])
    (hpresent : ∀ name ∈ keyFields, name ∈ Members.keys payload)
    (hfits : Fits maxStrDigits payload keyFields) :
    deriveIdempotencyKey maxStrDigits sha256 eventType payload keyFields =
      .ok (sha256 (Utf8.encode (documentText eventType payload keyFields))) := by
  unfold deriveIdempotencyKey
  rw [if_neg hne, if_neg (by rw [missing_eq_nil.mpr hpresent]; simp), canonicalJson_document hfits]
  rfl

theorem of_derive_eq_ok {maxStrDigits : ℕ} {sha256 : List UInt8 → List Char}
    {eventType : List CodePoint} {payload : List (List CodePoint × Value)}
    {keyFields : List (List CodePoint)} {key : List Char}
    (h : deriveIdempotencyKey maxStrDigits sha256 eventType payload keyFields = .ok key) :
    keyFields ≠ [] ∧ (∀ name ∈ keyFields, name ∈ Members.keys payload) ∧
      key = sha256 (Utf8.encode (documentText eventType payload keyFields)) := by
  unfold deriveIdempotencyKey at h
  split at h
  · exact nomatch h
  rename_i hne
  split at h
  · exact nomatch h
  rename_i hmissing
  rw [ne_eq, not_not] at hmissing
  obtain ⟨text, htext, rfl⟩ := Result.map_eq_ok.mp h
  obtain ⟨-, rfl⟩ := dumps_eq_ok_iff.mp htext
  exact ⟨hne, missing_eq_nil.mp hmissing, rfl⟩

-- The bytes that are ever hashed.
def Hashed (maxStrDigits : ℕ) (bytes : List UInt8) : Prop :=
  ∃ eventType payload keyFields text,
    canonicalJson maxStrDigits (document eventType payload keyFields) = .ok text ∧
      bytes = Utf8.encode text

-- SHA-256 as far as the digest of one document is known; any other is told apart by its
-- bytes.
def digestAt (document : List UInt8) (digest : List Char) (bytes : List UInt8) : List Char :=
  if bytes = document then digest else ':' :: bytes.map fun byte => Char.ofNat byte.toNat

theorem ofNat_toNat_injective : Function.Injective fun byte : UInt8 => Char.ofNat byte.toNat := by
  intro a b h
  have hvalid (byte : UInt8) : (Char.ofNat byte.toNat).toNat = byte.toNat :=
    Json.toNat_ofNat (Or.inl (by have hbyte := byte.toNat_lt; omega))
  exact UInt8.toNat_inj.mp (by rw [← hvalid a, ← hvalid b]; exact congrArg Char.toNat h)

theorem digestAt_injective {document : List UInt8} {digest : List Char}
    (hdigest : digest.head? ≠ some ':') : Function.Injective (digestAt document digest) := by
  intro a b h
  unfold digestAt at h
  split at h <;> split at h
  · rename_i ha hb
    rw [ha, hb]
  · exact absurd (by rw [h]; rfl) hdigest
  · exact absurd (by rw [← h]; rfl) hdigest
  · exact ofNat_toNat_injective.list_map (List.cons.inj h).2

end TrustlistCore.EventBus.Idempotency
