import TrustlistCore.Auth.Tokens
import TrustlistCore.EventBus.Envelope.Theorems

namespace TrustlistCore.Auth

open Library Unicode
open EventBus (Value)

theorem characters_ofAscii (text : List Char) : Value.characters (ofAscii text) = text :=
  Value.characters_charPoint text

theorem ofAscii_injective : Function.Injective ofAscii :=
  Function.LeftInverse.injective characters_ofAscii

theorem isAscii_ofAscii {text : List Char} (h : ∀ c ∈ text, c.toNat < 0x80) :
    isAscii (ofAscii text) = true := by
  rw [isAscii, ofAscii, List.all_map, List.all_eq_true]
  intro c hc
  exact decide_eq_true (h c hc)

theorem isAscii_append (text other : Text) :
    isAscii (text ++ other) = (isAscii text && isAscii other) :=
  List.all_append

theorem isAscii_segments (payloadB64 expiryB64 : Text) :
    isAscii (payloadB64 ++ dot :: expiryB64) = (isAscii payloadB64 && isAscii expiryB64) := by
  have hdot : isAscii [dot] = true := by decide
  rw [← List.singleton_append, isAscii_append, isAscii_append, hdot, Bool.true_and]

-- Strings in ASCII are determined by their bytes.
theorem encodeAscii_injective {text other : Text} {raw : List UInt8}
    (h : encodeAscii text = .ok raw) (hother : encodeAscii other = .ok raw) : text = other := by
  unfold encodeAscii at h hother
  split at h
  · split at hother
    · rename_i htext hascii
      rw [← Except.ok.inj hother] at h
      rw [isAscii, List.all_eq_true] at htext hascii
      have hmap := Except.ok.inj h
      clear h hother
      induction text generalizing other with
      | nil => exact (List.map_eq_nil_iff.mp hmap.symm).symm
      | cons point text ih =>
          cases other with
          | nil => cases hmap
          | cons first rest =>
              rw [List.map_cons, List.map_cons] at hmap
              obtain ⟨hbyte, hrest⟩ := List.cons.inj hmap
              have hpoint := of_decide_eq_true (htext point List.mem_cons_self)
              have hfirst := of_decide_eq_true (hascii first List.mem_cons_self)
              have hnat := congrArg UInt8.toNat hbyte
              rw [Utf8.toNat_ofNat (by omega), Utf8.toNat_ofNat (by omega)] at hnat
              rw [Fin.ext hnat, ih (fun p hp => htext p (List.mem_cons_of_mem _ hp))
                (fun p hp => hascii p (List.mem_cons_of_mem _ hp)) hrest]
    · cases hother
  · cases h

theorem eq_of_compareDigest {expected signature : Text}
    (h : compareDigest expected signature = .ok true) : expected = signature := by
  unfold compareDigest at h
  split at h
  · exact of_decide_eq_true (Except.ok.inj h)
  · cases h

theorem b64encode_eq (raw : List UInt8) : b64encode raw = ofAscii (Base64.digits raw) := by
  rw [b64encode, Base64.rdropWhile_encode]

theorem b64encode_injective : Function.Injective b64encode := by
  intro raw other h
  rw [b64encode_eq, b64encode_eq] at h
  exact Base64.digits_injective (ofAscii_injective h)

theorem isAscii_b64encode (raw : List UInt8) : isAscii (b64encode raw) = true := by
  rw [b64encode_eq]
  apply isAscii_ofAscii
  intro c hc
  obtain ⟨n, hn, rfl⟩ := Base64.mem_digits hc
  exact (Base64.digit_spec n hn).2.1

theorem dot_notMem_b64encode (raw : List UInt8) : dot ∉ b64encode raw := by
  rw [b64encode_eq]
  intro hdot
  obtain ⟨c, hc, hpoint⟩ := List.mem_map.mp hdot
  obtain ⟨n, hn, rfl⟩ := Base64.mem_digits hc
  have htext : ofAscii [Base64.digit n] = ofAscii ['.'] := congrArg (fun point => [point]) hpoint
  exact (Base64.digit_spec n hn).2.2.2 (List.singleton_inj.mp (ofAscii_injective htext))

theorem b64decode_b64encode (raw : List UInt8) : b64decode (b64encode raw) = .ok raw := by
  have hascii := isAscii_b64encode raw
  unfold b64decode
  simp only [hascii, ↓reduceIte]
  rw [b64encode_eq, characters_ofAscii, ofAscii, List.length_map, Base64.decode_digits]

theorem decodeAscii_encode {text : List Char} (h : ∀ c ∈ text, c.toNat < 0x80) :
    decodeAscii (Utf8.encode text) = .ok text := by
  have hbytes : (Utf8.encode text).all (fun byte => byte.toNat < 0x80) = true := by
    rw [List.all_eq_true]
    exact fun byte hbyte => decide_eq_true (TextEncoding.byte_of_ascii h hbyte)
  have hencode : Utf8.encode text = text.map fun c => UInt8.ofNat c.toNat :=
    TextEncoding.encode_ascii h
  rw [decodeAscii, if_pos hbytes, hencode, List.map_map]
  conv_rhs => rw [← List.map_id text]
  apply congrArg Except.ok
  apply List.map_congr_left
  intro c hc
  have hlow := h c hc
  show Char.ofNat (UInt8.ofNat c.toNat).toNat = c
  rw [Utf8.toNat_ofNat (by omega), Char.ofNat_toNat]

theorem splitOn_segments {payloadB64 expiryB64 signature : Text} (hpayload : dot ∉ payloadB64)
    (hexpiry : dot ∉ expiryB64) (hsignature : dot ∉ signature) :
    (payloadB64 ++ dot :: (expiryB64 ++ dot :: signature)).splitOn dot =
      [payloadB64, expiryB64, signature] := by
  rw [List.splitOn_append_cons_self_of_not_mem hpayload,
    List.splitOn_append_cons_self_of_not_mem hexpiry, List.splitOn_eq_singleton hsignature]

theorem eq_of_splitOn {token payloadB64 expiryB64 signature : Text}
    (h : token.splitOn dot = [payloadB64, expiryB64, signature]) :
    token = payloadB64 ++ dot :: (expiryB64 ++ dot :: signature) := by
  have hjoin : [dot].intercalate (token.splitOn dot) = token := List.intercalate_splitOn dot
  rw [h] at hjoin
  rw [← hjoin]
  simp [List.intercalate]

namespace TokenSigner

variable {interpreter : Interpreter} {hmacSha256 : List UInt8 → List UInt8 → List UInt8}
  {signer : TokenSigner}

theorem sign_of_ascii {payloadB64 expiryB64 : Text} (hpayload : isAscii payloadB64 = true)
    (hexpiry : isAscii expiryB64 = true) :
    ∃ message, encodeAscii (payloadB64 ++ dot :: expiryB64) = .ok message ∧
      sign hmacSha256 signer payloadB64 expiryB64 = .ok (b64encode (hmacSha256 signer.secret message)) := by
  have hascii : isAscii (payloadB64 ++ dot :: expiryB64) = true := by
    rw [isAscii_segments, hpayload, hexpiry, Bool.true_and]
  have hencode : ∃ message, encodeAscii (payloadB64 ++ dot :: expiryB64) = .ok message :=
    ⟨_, if_pos hascii⟩
  obtain ⟨message, hmessage⟩ := hencode
  refine ⟨message, hmessage, ?_⟩
  rw [sign, hmessage]
  rfl

theorem sign_of_not_ascii {payloadB64 expiryB64 : Text}
    (h : ¬ (isAscii payloadB64 = true ∧ isAscii expiryB64 = true)) :
    ∃ message, sign hmacSha256 signer payloadB64 expiryB64 = .error (.unicodeEncodeError message) := by
  have hascii : ¬ isAscii (payloadB64 ++ dot :: expiryB64) = true := by
    rwa [isAscii_segments, Bool.and_eq_true]
  rw [sign, encodeAscii, if_neg hascii]
  exact ⟨_, rfl⟩

-- A signature is text in ASCII without a dot.
theorem sign_eq_ok {payloadB64 expiryB64 signature : Text}
    (h : sign hmacSha256 signer payloadB64 expiryB64 = .ok signature) :
    ∃ message, encodeAscii (payloadB64 ++ dot :: expiryB64) = .ok message ∧
      signature = b64encode (hmacSha256 signer.secret message) := by
  obtain ⟨message, hmessage, hsigned⟩ := Result.bind_eq_ok.mp h
  exact ⟨message, hmessage, (Except.ok.inj hsigned).symm⟩

-- What verification does with three segments, check by check.
theorem verify_of_segments {token payloadB64 expiryB64 signature : Text}
    (h : token.splitOn dot = [payloadB64, expiryB64, signature]) (now : ℚ) :
    verifyEmailVerificationToken interpreter hmacSha256 signer token now =
      (sign hmacSha256 signer payloadB64 expiryB64).bind fun expected =>
        (compareDigest expected signature).bind fun equal =>
          if !equal then .error (.tokenInvalid "token signature does not verify")
          else (parsed interpreter payloadB64 expiryB64).bind fun (expiryTs, payload) =>
            if expiryTs < now then .error (.tokenExpired "token has expired")
            else claimOf payload := by
  unfold verifyEmailVerificationToken
  rw [h]
  rfl

-- A token with the right signature goes on to its expiry and its payload.
theorem verify_of_signed {token payloadB64 expiryB64 signature : Text}
    (h : token.splitOn dot = [payloadB64, expiryB64, signature])
    (hsign : sign hmacSha256 signer payloadB64 expiryB64 = .ok signature) (now : ℚ) :
    verifyEmailVerificationToken interpreter hmacSha256 signer token now =
      (parsed interpreter payloadB64 expiryB64).bind fun (expiryTs, payload) =>
        if expiryTs < now then .error (.tokenExpired "token has expired")
        else claimOf payload := by
  obtain ⟨message, -, rfl⟩ := sign_eq_ok hsign
  have hcompare : ∀ raw, compareDigest (b64encode raw) (b64encode raw) = .ok true := by
    intro raw
    simp [compareDigest, isAscii_b64encode]
  rw [verify_of_segments h, hsign]
  simp only [Except.bind, hcompare, Bool.not_true, Bool.false_eq_true, ↓reduceIte]

-- An accepted token is three segments of which the last signs the other two.
theorem verify_eq_ok {token : Text} {now : ℚ} {claim : VerificationClaim}
    (h : verifyEmailVerificationToken interpreter hmacSha256 signer token now = .ok claim) :
    ∃ payloadB64 expiryB64 signature, token.splitOn dot = [payloadB64, expiryB64, signature] ∧
      sign hmacSha256 signer payloadB64 expiryB64 = .ok signature := by
  have hparts := h
  unfold verifyEmailVerificationToken at hparts
  split at hparts
  · rename_i payloadB64 expiryB64 signature hsplit
    rw [verify_of_segments hsplit] at h
    refine ⟨payloadB64, expiryB64, signature, hsplit, ?_⟩
    obtain ⟨expected, hsign, hcompared⟩ := Result.bind_eq_ok.mp h
    obtain ⟨equal, hcompare, haccepted⟩ := Result.bind_eq_ok.mp hcompared
    cases equal with
    | false => cases haccepted
    | true => rw [← eq_of_compareDigest hcompare, hsign]
  · cases hparts

end TokenSigner

end TrustlistCore.Auth
