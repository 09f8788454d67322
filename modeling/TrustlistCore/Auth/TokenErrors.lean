import TrustlistCore.Auth.Tokens.Theorems
import TrustlistCore.EventBus.Scanner.Theorems

namespace TrustlistCore.Auth.TokenSigner

open Library Unicode
open EventBus (Value)

-- The two errors of the docstring, or a claim.
def Documented (result : Except Failure VerificationClaim) : Prop :=
  match result with
  | .ok _ => True
  | .error (.tokenInvalid _) => True
  | .error (.tokenExpired _) => True
  | _ => False

-- The expiry reads as a number, and then the payload nests deeper than `json` can go.
def TooDeep (interpreter : Interpreter) (payloadB64 expiryB64 : Text) : Prop :=
  (∃ raw text n, b64decode expiryB64 = .ok raw ∧ decodeAscii raw = .ok text ∧
    int interpreter text = .ok n) ∧
  ∃ raw, b64decode payloadB64 = .ok raw ∧
    EventBus.Scanner.loadsBytes interpreter.maxStrDigits interpreter.recursionLimit raw =
      .error EventBus.Scanner.tooDeep

theorem b64decode_error {text : Text} {failure : Failure} (h : b64decode text = .error failure) :
    ∃ message, failure = .valueError message := by
  unfold b64decode at h
  simp only at h
  split at h
  · split at h
    · cases h
    · cases h
      exact ⟨_, rfl⟩
  · cases h
    exact ⟨_, rfl⟩

theorem decodeAscii_error {raw : List UInt8} {failure : Failure}
    (h : decodeAscii raw = .error failure) : ∃ message, failure = .valueError message := by
  unfold decodeAscii at h
  split at h
  · cases h
  · cases h
    exact ⟨_, rfl⟩

section Parse

variable {interpreter : Interpreter} {payloadB64 expiryB64 : Text}

theorem int_error {text : List Char} {failure : Failure}
    (h : int interpreter text = .error failure) : ∃ message, failure = .valueError message := by
  unfold int at h
  split at h
  · split at h
    · cases h
      exact ⟨_, rfl⟩
    · cases h
  · cases h
    exact ⟨_, rfl⟩

theorem loads_error {raw : List UInt8} {failure : Failure}
    (h : loads interpreter raw = .error failure) :
    (∃ message, failure = .valueError message) ∨
      EventBus.Scanner.loadsBytes interpreter.maxStrDigits interpreter.recursionLimit raw =
        .error EventBus.Scanner.tooDeep := by
  unfold loads at h
  cases hscan : EventBus.Scanner.loadsBytes interpreter.maxStrDigits interpreter.recursionLimit raw with
  | ok value =>
      rw [hscan] at h
      cases h
  | error other =>
      rw [hscan] at h
      cases EventBus.Scanner.raises_loadsBytes _ _ _ other hscan with
      | inl hvalue =>
          obtain ⟨message, rfl⟩ := hvalue
          cases h
          exact .inl ⟨message, rfl⟩
      | inr hdeep => exact .inr (congrArg Except.error hdeep)

-- The `try` block raises nothing its handler lets through, but for the one case.
theorem parsed_error {failure : Failure}
    (h : parsed interpreter payloadB64 expiryB64 = .error failure) :
    (∃ message, failure = .tokenInvalid message) ∨ TooDeep interpreter payloadB64 expiryB64 := by
  have hvalue : ∀ message, parse interpreter payloadB64 expiryB64 = .error (.valueError message) →
      ∃ message, failure = .tokenInvalid message := by
    intro message hparse
    rw [parsed, hparse] at h
    cases h
    exact ⟨_, rfl⟩
  unfold parse at hvalue
  cases hexpiry : b64decode expiryB64 with
  | error other =>
      obtain ⟨message, rfl⟩ := b64decode_error hexpiry
      exact .inl (hvalue message (by rw [hexpiry]; rfl))
  | ok expiryRaw =>
      cases htext : decodeAscii expiryRaw with
      | error other =>
          obtain ⟨message, rfl⟩ := decodeAscii_error htext
          exact .inl (hvalue message (by simp only [hexpiry, htext, bind, Except.bind]))
      | ok text =>
          cases hint : int interpreter text with
          | error other =>
              obtain ⟨message, rfl⟩ := int_error hint
              exact .inl (hvalue message (by simp only [hexpiry, htext, hint, bind, Except.bind]))
          | ok n =>
              cases hpayload : b64decode payloadB64 with
              | error other =>
                  obtain ⟨message, rfl⟩ := b64decode_error hpayload
                  exact .inl (hvalue message
                    (by simp only [hexpiry, htext, hint, hpayload, bind, Except.bind]))
              | ok raw =>
                  cases hloads : loads interpreter raw with
                  | error other =>
                      cases loads_error hloads with
                      | inl hother =>
                          obtain ⟨message, rfl⟩ := hother
                          exact .inl (hvalue message
                            (by simp only [hexpiry, htext, hint, hpayload, hloads, bind, Except.bind]))
                      | inr hdeep =>
                          exact .inr ⟨⟨expiryRaw, text, n, hexpiry, htext, hint⟩, raw, hpayload, hdeep⟩
                  | ok payload =>
                      rw [parsed, parse] at h
                      simp only [hexpiry, htext, hint, hpayload, hloads, bind, Except.bind] at h
                      cases h

theorem parsed_of_tooDeep (h : TooDeep interpreter payloadB64 expiryB64) :
    ∃ message, parsed interpreter payloadB64 expiryB64 = .error (.recursionError message) := by
  obtain ⟨⟨expiryRaw, text, n, hexpiry, htext, hint⟩, raw, hpayload, hdeep⟩ := h
  have hloads : ∃ message, loads interpreter raw = .error (.recursionError message) := by
    rw [loads, hdeep]
    exact ⟨_, rfl⟩
  obtain ⟨message, hloads⟩ := hloads
  refine ⟨message, ?_⟩
  rw [parsed, parse]
  simp only [hexpiry, htext, hint, hpayload, hloads, bind, Except.bind]

theorem documented_claimOf (payload : Value) : Documented (claimOf payload) := by
  unfold claimOf
  split
  · split <;> trivial
  · trivial

-- What follows a signature that verifies.
theorem documented_parsed_iff (now : ℚ) :
    Documented ((parsed interpreter payloadB64 expiryB64).bind fun (expiryTs, payload) =>
      if expiryTs < now then .error (.tokenExpired "token has expired") else claimOf payload) ↔
      ¬ TooDeep interpreter payloadB64 expiryB64 := by
  by_cases hdeep : TooDeep interpreter payloadB64 expiryB64
  · obtain ⟨message, herror⟩ := parsed_of_tooDeep hdeep
    rw [herror]
    exact iff_of_false id (not_not_intro hdeep)
  · refine iff_of_true ?_ hdeep
    cases hparsed : parsed interpreter payloadB64 expiryB64 with
    | error failure =>
        have hinvalid := (parsed_error hparsed).resolve_right hdeep
        obtain ⟨message, rfl⟩ := hinvalid
        trivial
    | ok result =>
        simp only [Except.bind]
        by_cases hexpired : result.1 < now
        · rw [if_pos hexpired]
          trivial
        · rw [if_neg hexpired]
          exact documented_claimOf result.2

end Parse

section Verify

variable (interpreter : Interpreter) (hmacSha256 : List UInt8 → List UInt8 → List UInt8)
  (signer : TokenSigner)

-- Verification ends in a documented way for exactly the tokens whose three segments, where
-- there are three, are ASCII, and whose payload, where the signature is right and the expiry
-- a number, does not nest too deep.
theorem documented_iff (token : Text) (now : ℚ) :
    Documented (verifyEmailVerificationToken interpreter hmacSha256 signer token now) ↔
      ∀ payloadB64 expiryB64 signature, token.splitOn dot = [payloadB64, expiryB64, signature] →
        (isAscii payloadB64 = true ∧ isAscii expiryB64 = true ∧ isAscii signature = true) ∧
          (sign hmacSha256 signer payloadB64 expiryB64 = .ok signature →
            ¬ TooDeep interpreter payloadB64 expiryB64) := by
  by_cases hsegments : ∃ payloadB64 expiryB64 signature,
      token.splitOn dot = [payloadB64, expiryB64, signature]
  · obtain ⟨payloadB64, expiryB64, signature, hsplit⟩ := hsegments
    have hall : (∀ p e s, token.splitOn dot = [p, e, s] →
        (isAscii p = true ∧ isAscii e = true ∧ isAscii s = true) ∧
          (sign hmacSha256 signer p e = .ok s → ¬ TooDeep interpreter p e)) ↔
        (isAscii payloadB64 = true ∧ isAscii expiryB64 = true ∧ isAscii signature = true) ∧
          (sign hmacSha256 signer payloadB64 expiryB64 = .ok signature →
            ¬ TooDeep interpreter payloadB64 expiryB64) := by
      constructor
      · exact fun h => h _ _ _ hsplit
      · intro h p e s hother
        rw [hsplit] at hother
        cases hother
        exact h
    rw [hall, verify_of_segments hsplit]
    by_cases hascii : isAscii payloadB64 = true ∧ isAscii expiryB64 = true
    · obtain ⟨message, -, hsign⟩ := @sign_of_ascii hmacSha256 signer _ _ hascii.1 hascii.2
      rw [hsign]
      simp only [Except.bind]
      generalize hmacSha256 signer.secret message = digest
      have hdigest := isAscii_b64encode digest
      by_cases hsignature : isAscii signature = true
      · have hcompare : compareDigest (b64encode digest) signature =
            .ok (b64encode digest = signature) := if_pos ⟨hdigest, hsignature⟩
        rw [hcompare]
        by_cases hequal : b64encode digest = signature
        · have hright := @documented_parsed_iff interpreter payloadB64 expiryB64 now
          simp only [Except.bind] at hright
          simp [hequal, hascii, hsignature, hright]
        · have hwrong : (Except.ok (b64encode digest) : Except Failure Text) ≠ .ok signature :=
            fun h => hequal (Except.ok.inj h)
          simp [hequal, hascii, hsignature, hwrong, Documented]
      · have hcompare : compareDigest (b64encode digest) signature =
            .error (.typeError "comparing strings with non-ASCII characters is not supported") :=
          if_neg fun h => hsignature h.2
        rw [hcompare]
        refine iff_of_false id ?_
        rintro ⟨⟨-, -, hother⟩, -⟩
        exact hsignature hother
    · obtain ⟨message, hsign⟩ := @sign_of_not_ascii hmacSha256 signer _ _ hascii
      rw [hsign]
      refine iff_of_false id ?_
      rintro ⟨⟨hpayload, hexpiry, -⟩, -⟩
      exact hascii ⟨hpayload, hexpiry⟩
  · have hinvalid : ∃ message, verifyEmailVerificationToken interpreter hmacSha256 signer token now =
        .error (.tokenInvalid message) := by
      unfold verifyEmailVerificationToken
      split
      · rename_i p e s hsplit
        exact absurd ⟨p, e, s, hsplit⟩ hsegments
      · exact ⟨_, rfl⟩
    obtain ⟨message, hinvalid⟩ := hinvalid
    rw [hinvalid]
    exact iff_of_true trivial fun p e s hsplit => absurd ⟨p, e, s, hsplit⟩ hsegments

end Verify

-- `é.a.b` ends in the `UnicodeEncodeError` of the signing that comes before the `try` block.
theorem not_documented_accent :
    ¬ Documented (verifyEmailVerificationToken
      { maxStrDigits := 4300, recursionLimit := 1000, digits := by decide, positive := by decide }
      (fun secret message => secret ++ message) ⟨[0x6b], by decide⟩
      (ofAscii ['é', '.', 'a', '.', 'b']) 0) := by
  have hsplit : (ofAscii ['é', '.', 'a', '.', 'b']).splitOn dot =
      [ofAscii ['é'], ofAscii ['a'], ofAscii ['b']] := by
    apply @splitOn_segments (ofAscii ['é']) (ofAscii ['a']) (ofAscii ['b'])
    · decide
    · decide
    · decide
  have hascii : ¬ (isAscii (ofAscii ['é']) = true ∧ isAscii (ofAscii ['a']) = true) := by decide
  obtain ⟨message, hsign⟩ := @sign_of_not_ascii (fun secret message => secret ++ message)
    ⟨[0x6b], by decide⟩ _ _ hascii
  rw [verify_of_segments hsplit, hsign]
  exact id

end TrustlistCore.Auth.TokenSigner
