import TrustlistCore.Auth.TokenRoundTrip

namespace TrustlistCore.Auth.TokenSigner

open Library Unicode
open EventBus (Value points)

def payloadOf (token : Text) : Option Text :=
  (token.splitOn dot)[0]?

def expiryOf (token : Text) : Option Text :=
  (token.splitOn dot)[1]?

def signatureOf (token : Text) : Option Text :=
  (token.splitOn dot)[2]?

-- Each segment of the one stands at the same place in one of the two others.
structure Combines (mixed token other : Text) : Prop where
  payload : payloadOf mixed = payloadOf token ∨ payloadOf mixed = payloadOf other
  expiry : expiryOf mixed = expiryOf token ∨ expiryOf mixed = expiryOf other
  signature : signatureOf mixed = signatureOf token ∨ signatureOf mixed = signatureOf other

section Integrity

variable (interpreter : Interpreter) (hmacSha256 : List UInt8 → List UInt8 → List UInt8)
  (signer : TokenSigner)

def Accepted (token : Text) : Prop :=
  ∃ moment claim,
    verifyEmailVerificationToken interpreter hmacSha256 signer token moment = .ok claim

def Issued (claim : VerificationClaim) (expiry : ℚ) (token : Text) : Prop :=
  ∃ ttl now, now + ttl = expiry ∧
    issueEmailVerificationToken interpreter hmacSha256 signer claim ttl now = .ok token

-- Three segments of which the last signs the other two.
def Signed (token : Text) : Prop :=
  ∃ payloadB64 expiryB64 signature, token.splitOn dot = [payloadB64, expiryB64, signature] ∧
    sign hmacSha256 signer payloadB64 expiryB64 = .ok signature

end Integrity

section Signed

variable {interpreter : Interpreter} {hmacSha256 : List UInt8 → List UInt8 → List UInt8}
  {signer : TokenSigner} {token other : Text}

theorem Accepted.signed (h : Accepted interpreter hmacSha256 signer token) :
    Signed hmacSha256 signer token := by
  obtain ⟨moment, claim, hverify⟩ := h
  exact verify_eq_ok hverify

theorem Issued.segments {claim : VerificationClaim} {expiry : ℚ}
    (h : Issued interpreter hmacSha256 signer claim expiry token) :
    Representable expiry ∧ ∃ signature,
      token.splitOn dot = [payloadSegment claim, expirySegment expiry, signature] ∧
        sign hmacSha256 signer (payloadSegment claim) (expirySegment expiry) = .ok signature := by
  obtain ⟨ttl, now, rfl, hissue⟩ := h
  have hexpiry := representable_of_issue hissue
  rw [issue_of_representable claim hexpiry] at hissue
  obtain ⟨signature, hsign, rfl⟩ := Result.map_eq_ok.mp hissue
  exact ⟨hexpiry, signature, splitOn_issued claim _ hsign, hsign⟩

theorem Issued.signed {claim : VerificationClaim} {expiry : ℚ}
    (h : Issued interpreter hmacSha256 signer claim expiry token) :
    Signed hmacSha256 signer token := by
  obtain ⟨-, signature, hsplit, hsign⟩ := h.segments
  exact ⟨_, _, signature, hsplit, hsign⟩

-- The signature of a signed token determines it: the bytes signed are those of the text in
-- front of the second dot.
theorem Signed.eq_of_signatureOf (hinjective : Function.Injective (hmacSha256 signer.secret))
    (htoken : Signed hmacSha256 signer token) (hother : Signed hmacSha256 signer other)
    (h : signatureOf token = signatureOf other) : token = other := by
  obtain ⟨payloadB64, expiryB64, signature, hsplit, hsign⟩ := htoken
  obtain ⟨payloadB64', expiryB64', signature', hsplit', hsign'⟩ := hother
  have hsignature : signature = signature' := by
    rw [signatureOf, signatureOf, hsplit, hsplit'] at h
    exact Option.some.inj h
  subst hsignature
  obtain ⟨message, hencode, hdigest⟩ := sign_eq_ok hsign
  obtain ⟨message', hencode', hdigest'⟩ := sign_eq_ok hsign'
  have hmessage : message = message' :=
    hinjective (b64encode_injective (hdigest.symm.trans hdigest'))
  subst hmessage
  have hsigned := encodeAscii_injective hencode hencode'
  rw [eq_of_splitOn hsplit, eq_of_splitOn hsplit', ← List.cons_append, ← List.append_assoc,
    ← List.cons_append, ← List.append_assoc]
  rw [hsigned]

theorem Signed.signatureOf_eq (htoken : Signed hmacSha256 signer token)
    (hother : Signed hmacSha256 signer other) (hpayload : payloadOf token = payloadOf other)
    (hexpiry : expiryOf token = expiryOf other) : signatureOf token = signatureOf other := by
  obtain ⟨payloadB64, expiryB64, signature, hsplit, hsign⟩ := htoken
  obtain ⟨payloadB64', expiryB64', signature', hsplit', hsign'⟩ := hother
  simp only [payloadOf, expiryOf, signatureOf, hsplit, hsplit', List.getElem?_cons_zero,
    List.getElem?_cons_succ, Option.some.injEq] at hpayload hexpiry ⊢
  rw [hpayload, hexpiry, hsign'] at hsign
  exact (Except.ok.inj hsign).symm

end Signed

-- Different claims are in different payloads.
theorem payloadSegment_injective {claim other : VerificationClaim} (hclaim : claim.Scalar)
    (hother : other.Scalar) (h : payloadSegment claim = payloadSegment other) : claim = other := by
  have hraw := b64encode_injective h
  have hloads := loads_payloadText sampleInterpreter hclaim
  rw [hraw, loads_payloadText sampleInterpreter hother] at hloads
  have hvalue := congrArg claimOf (Except.ok.inj hloads)
  rw [claimOf_members, claimOf_members] at hvalue
  exact (Except.ok.inj hvalue).symm

theorem expirySegment_injective {expiry other : ℚ} (hexpiry : Representable expiry)
    (hother : Representable other) (h : expirySegment expiry = expirySegment other) :
    truncate expiry = truncate other := by
  have hraw := b64encode_injective h
  have htext : (Number.ofInt (truncate expiry)).text = (Number.ofInt (truncate other)).text := by
    have hdecode := congrArg Utf8.decode hraw
    rw [Utf8.decode_encode, Utf8.decode_encode] at hdecode
    exact Option.some.inj hdecode
  have hint := int_truncate sampleInterpreter hexpiry
  rw [htext, int_truncate sampleInterpreter hother] at hint
  exact (Except.ok.inj hint).symm

section Altered

variable (interpreter : Interpreter) (hmacSha256 : List UInt8 → List UInt8 → List UInt8)
  (signer : TokenSigner)

-- Under an injective HMAC no text is accepted but the signed one: not one with the signature
-- kept, not one with all but the signature kept, and not one spliced from two tokens.
theorem not_accepted_of_altered (hinjective : Function.Injective (hmacSha256 signer.secret)) :
    (∀ token other, Accepted interpreter hmacSha256 signer token →
      Accepted interpreter hmacSha256 signer other → signatureOf token = signatureOf other →
        token = other) ∧
    (∀ claim expiry token, Issued interpreter hmacSha256 signer claim expiry token →
      ∀ text, text ≠ token →
        (signatureOf text = signatureOf token → ¬ Accepted interpreter hmacSha256 signer text) ∧
        (payloadOf text = payloadOf token → expiryOf text = expiryOf token →
          ¬ Accepted interpreter hmacSha256 signer text)) ∧
    (∀ claim expiry token claim' expiry' token',
      Issued interpreter hmacSha256 signer claim expiry token →
      Issued interpreter hmacSha256 signer claim' expiry' token' → ∀ mixed,
        (Combines mixed token token' → mixed ≠ token → mixed ≠ token' →
          ¬ Accepted interpreter hmacSha256 signer mixed) ∧
        (claim.Scalar → claim'.Scalar → claim ≠ claim' → payloadOf mixed = payloadOf token →
          signatureOf mixed = signatureOf token' →
            ¬ Accepted interpreter hmacSha256 signer mixed) ∧
        (truncate expiry ≠ truncate expiry' → expiryOf mixed = expiryOf token →
          signatureOf mixed = signatureOf token' →
            ¬ Accepted interpreter hmacSha256 signer mixed)) := by
  refine ⟨?_, ?_, ?_⟩
  · intro token other htoken hother hsignature
    exact htoken.signed.eq_of_signatureOf hinjective hother.signed hsignature
  · intro claim expiry token htoken text hne
    constructor
    · intro hsignature htext
      exact hne (htext.signed.eq_of_signatureOf hinjective htoken.signed hsignature)
    · intro hpayload hexpiry htext
      have hsignature := htext.signed.signatureOf_eq htoken.signed hpayload hexpiry
      exact hne (htext.signed.eq_of_signatureOf hinjective htoken.signed hsignature)
  · intro claim expiry token claim' expiry' token' htoken htoken' mixed
    obtain ⟨hexpiry, signature, hsplit, -⟩ := htoken.segments
    obtain ⟨hexpiry', signature', hsplit', -⟩ := htoken'.segments
    refine ⟨?_, ?_, ?_⟩
    · intro hmixed hne hne' haccepted
      cases hmixed.signature with
      | inl hsignature =>
          exact hne (haccepted.signed.eq_of_signatureOf hinjective htoken.signed hsignature)
      | inr hsignature =>
          exact hne' (haccepted.signed.eq_of_signatureOf hinjective htoken'.signed hsignature)
    · intro hclaim hclaim' hne hpayload hsignature haccepted
      obtain rfl := haccepted.signed.eq_of_signatureOf hinjective htoken'.signed hsignature
      rw [payloadOf, payloadOf, hsplit, hsplit'] at hpayload
      exact hne (payloadSegment_injective hclaim' hclaim (Option.some.inj hpayload)).symm
    · intro hne hexpiryOf hsignature haccepted
      obtain rfl := haccepted.signed.eq_of_signatureOf hinjective htoken'.signed hsignature
      rw [expiryOf, expiryOf, hsplit, hsplit'] at hexpiryOf
      exact hne (expirySegment_injective hexpiry' hexpiry (Option.some.inj hexpiryOf)).symm

end Altered

-- What is signed for the sample claim.
def quotedMessage : List UInt8 :=
  "eyJlbWFpbCI6IiIsInVzZXJfaWQiOiJ1LlwiXHUwMGU5In0.ODY0MDA".toList.map fun c => UInt8.ofNat c.toNat

-- HMAC-SHA256 on the sample message, and injective.
def quotedHmac (_ message : List UInt8) : List UInt8 :=
  if message = quotedMessage then quotedDigest else message ++ List.replicate 33 0

theorem quotedHmac_injective (secret : List UInt8) : Function.Injective (quotedHmac secret) := by
  have hlength : quotedDigest.length = 32 := by decide
  intro message other h
  unfold quotedHmac at h
  split at h
  · split at h
    · simp_all
    · have hlen := congrArg List.length h
      rw [hlength, List.length_append, List.length_replicate] at hlen
      omega
  · split at h
    · have hlen := congrArg List.length h
      rw [hlength, List.length_append, List.length_replicate] at hlen
      omega
    · exact List.append_cancel_right h

theorem issued_quoted : Issued sampleInterpreter quotedHmac sampleSigner quotedClaim 86400
    (points ("eyJlbWFpbCI6IiIsInVzZXJfaWQiOiJ1LlwiXHUwMGU5In0.ODY0MDA." ++
      "O7Oa6TDYNtWIRNkqBt1WDx1Q5IVixSDn6GYK_Ulx8CE")) := by
  have hexpiry : Representable (0 + 86400) := by norm_num [Representable]
  refine ⟨86400, 0, by norm_num, ?_⟩
  rw [issue_of_representable _ hexpiry]
  decide +kernel

-- The decoder would pass over the `!` in front of the expiry.
theorem not_accepted_of_altered_quoted :
    ¬ Accepted sampleInterpreter quotedHmac sampleSigner
      (points ("eyJlbWFpbCI6IiIsInVzZXJfaWQiOiJ1LlwiXHUwMGU5In0.!ODY0MDA." ++
        "O7Oa6TDYNtWIRNkqBt1WDx1Q5IVixSDn6GYK_Ulx8CE")) := by
  have haltered := not_accepted_of_altered sampleInterpreter quotedHmac sampleSigner
    (quotedHmac_injective _)
  refine (haltered.2.1 _ _ _ issued_quoted _ ?_).1 ?_
  · decide +kernel
  · decide +kernel

end TrustlistCore.Auth.TokenSigner
