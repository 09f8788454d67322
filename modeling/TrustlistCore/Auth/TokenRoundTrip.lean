import TrustlistCore.Auth.Tokens.Theorems
import TrustlistCore.EventBus.Scanner.Theorems
import TrustlistCore.Library.Json.Quoting

namespace TrustlistCore.Auth

open Library Unicode
open EventBus (Value points exceeds)

-- Strings of Unicode scalar values.
def VerificationClaim.Scalar (claim : VerificationClaim) : Prop :=
  Value.Scalar claim.userId ∧ Value.Scalar claim.email

def payloadTree (claim : VerificationClaim) : Json.Tree :=
  .object [(utf16 (points "email"), .string (utf16 claim.email)),
    (utf16 (points "user_id"), .string (utf16 claim.userId))]

def payloadText (claim : VerificationClaim) : List Char :=
  Json.render Json.quoteAscii (payloadTree claim)

theorem dumps_claimDict (interpreter : Interpreter) (claim : VerificationClaim) :
    dumps interpreter (TokenSigner.claimDict claim) = .ok (payloadText claim) := rfl

theorem payloadText_eq (claim : VerificationClaim) :
    payloadText claim = '\x7b' :: '"' :: (Json.quoteAscii (utf16 (points "email")) ++ '"' :: ':' :: '"' ::
      (Json.quoteAscii (utf16 claim.email) ++ '"' :: ',' :: '"' ::
        (Json.quoteAscii (utf16 (points "user_id")) ++ '"' :: ':' :: '"' ::
          (Json.quoteAscii (utf16 claim.userId) ++ ['"', '\x7d'])))) := by
  simp [payloadText, payloadTree, Json.render, Json.renderMembers, Json.separated, Json.quoted]

theorem printable_payloadText {claim : VerificationClaim} {c : Char} (h : c ∈ payloadText claim) :
    0 < c.toNat ∧ c.toNat < 0x80 := by
  have hquoted : ∀ {units : List CodeUnit}, c ∈ Json.quoteAscii units → 0 < c.toNat ∧ c.toNat < 0x80 := by
    intro units hc
    have := Json.printable_quoteAscii hc
    omega
  rw [payloadText_eq] at h
  simp only [List.mem_cons, List.mem_append, List.not_mem_nil, or_false] at h
  rcases h with rfl | rfl | h | rfl | rfl | rfl | h | rfl | rfl | rfl | h | rfl | rfl | rfl | h | rfl | rfl
  all_goals first | exact hquoted h | decide

theorem loads_payloadText (interpreter : Interpreter) {claim : VerificationClaim}
    (h : claim.Scalar) : loads interpreter (Utf8.encode (payloadText claim)) =
      .ok (.dict [(points "email", .str claim.email), (points "user_id", .str claim.userId)]) := by
  have hdecode : TextEncoding.decode (Utf8.encode (payloadText claim)) =
      some ((payloadText claim).map Json.charPoint) := by
    have hprintable : ∀ c ∈ payloadText claim, 0 < c.toNat ∧ c.toNat < 0x80 :=
      fun _ hc => printable_payloadText hc
    rw [payloadText_eq] at hprintable ⊢
    exact TextEncoding.decode_encode hprintable
  have htree : Value.ofTree interpreter.maxStrDigits (payloadTree claim) =
      .ok (.dict [(points "email", .str (decode16 (utf16 claim.email))),
        (points "user_id", .str (decode16 (utf16 claim.userId)))]) := rfl
  rw [decode16_utf16 h.1, decode16_utf16 h.2] at htree
  have hdepth : EventBus.Scanner.depth (payloadTree claim) ≤ interpreter.recursionLimit :=
    interpreter.positive
  have hloads := EventBus.Scanner.loads_charPoints
    (Json.parse_render Json.faithful_quoteAscii (payloadTree claim)) htree hdepth
  rw [loads, EventBus.Scanner.loadsBytes, hdecode]
  simp only
  rw [payloadText, hloads]
  rfl

theorem length_toDigits_truncate {instant : ℚ} (h : Representable instant) :
    (Nat.toDigits 10 (truncate instant).natAbs).length ≤ 12 := by
  rw [Nat.length_toDigits_le_iff (by decide) (by decide)]
  obtain ⟨hlow, hhigh⟩ := h
  unfold truncate
  split
  · have hfloor : ⌊instant⌋ < 253402300800 := Int.floor_lt.mpr (by exact_mod_cast hhigh)
    have hzero : 0 ≤ ⌊instant⌋ := Int.floor_nonneg.mpr ‹_›
    omega
  · have hceil : -62135596800 ≤ ⌈instant⌉ := by
      exact_mod_cast hlow.trans (Int.le_ceil instant)
    have hzero : ⌈instant⌉ ≤ 0 := Int.ceil_le.mpr (by push_cast; linarith)
    omega

-- No instant of `datetime` has more digits than `int` reads.
theorem exceeds_truncate (interpreter : Interpreter) {instant : ℚ} (h : Representable instant) :
    exceeds interpreter.maxStrDigits (Nat.toDigits 10 (truncate instant).natAbs) = false := by
  have hlength := length_toDigits_truncate h
  have hdigits := interpreter.digits
  rw [exceeds, decide_eq_false_iff_not]
  omega

theorem str_truncate (interpreter : Interpreter) {instant : ℚ} (h : Representable instant) :
    str interpreter (truncate instant) = .ok (Number.ofInt (truncate instant)).text := by
  rw [str, exceeds_truncate interpreter h, if_neg Bool.false_ne_true]

theorem int_truncate (interpreter : Interpreter) {instant : ℚ} (h : Representable instant) :
    int interpreter (Number.ofInt (truncate instant)).text = .ok (truncate instant) := by
  rw [int, IntLiteral.read_ofInt]
  simp only [exceeds_truncate interpreter h, Bool.false_eq_true, ↓reduceIte, IntLiteral.toInt_read]

theorem truncate_le {instant : ℚ} (h : 0 ≤ instant) : (truncate instant : ℚ) ≤ instant := by
  rw [truncate, if_pos h]
  exact Int.floor_le instant

namespace TokenSigner

def payloadSegment (claim : VerificationClaim) : Text :=
  b64encode (Utf8.encode (payloadText claim))

def expirySegment (expiry : ℚ) : Text :=
  b64encode (Utf8.encode (Number.ofInt (truncate expiry)).text)

variable {interpreter : Interpreter} {hmacSha256 : List UInt8 → List UInt8 → List UInt8}
  {signer : TokenSigner}

theorem issue_of_representable (claim : VerificationClaim) {ttl now : ℚ}
    (h : Representable (now + ttl)) :
    issueEmailVerificationToken interpreter hmacSha256 signer claim ttl now =
      (sign hmacSha256 signer (payloadSegment claim) (expirySegment (now + ttl))).map fun signature =>
        payloadSegment claim ++ dot :: (expirySegment (now + ttl) ++ dot :: signature) := by
  have hadd : addTtl now ttl = .ok (now + ttl) := if_pos h
  unfold issueEmailVerificationToken payloadSegment expirySegment
  rw [hadd, dumps_claimDict]
  simp only [bind, Except.bind, str_truncate interpreter h]
  generalize b64encode (Utf8.encode (payloadText claim)) = payloadB64
  generalize b64encode (Utf8.encode (Number.ofInt (truncate (now + ttl))).text) = expiryB64
  cases sign hmacSha256 signer payloadB64 expiryB64 with
  | error failure => rfl
  | ok signature => rfl

theorem representable_of_issue {claim : VerificationClaim} {ttl now : ℚ} {token : Text}
    (h : issueEmailVerificationToken interpreter hmacSha256 signer claim ttl now = .ok token) :
    Representable (now + ttl) := by
  by_cases hexpiry : Representable (now + ttl)
  · exact hexpiry
  · have hadd : addTtl now ttl = .error (.overflowError "date value out of range") := if_neg hexpiry
    unfold issueEmailVerificationToken at h
    rw [hadd] at h
    cases h

-- An issued token is split into the segments it was put together from.
theorem splitOn_issued (claim : VerificationClaim) (expiry : ℚ) {signature : Text}
    (h : sign hmacSha256 signer (payloadSegment claim) (expirySegment expiry) = .ok signature) :
    (payloadSegment claim ++ dot :: (expirySegment expiry ++ dot :: signature)).splitOn dot =
      [payloadSegment claim, expirySegment expiry, signature] := by
  obtain ⟨message, -, rfl⟩ := sign_eq_ok h
  exact splitOn_segments (dot_notMem_b64encode _) (dot_notMem_b64encode _) (dot_notMem_b64encode _)

-- The `try` block reads back what was issued.
theorem parsed_issued {claim : VerificationClaim} (hscalar : claim.Scalar) {expiry : ℚ}
    (h : Representable expiry) :
    parsed interpreter (payloadSegment claim) (expirySegment expiry) = .ok (truncate expiry,
      .dict [(points "email", .str claim.email), (points "user_id", .str claim.userId)]) := by
  have hexpiry : decodeAscii (Utf8.encode (Number.ofInt (truncate expiry)).text) =
      .ok (Number.ofInt (truncate expiry)).text :=
    decodeAscii_encode fun _ hc => IntLiteral.ascii_ofInt hc
  unfold parsed parse payloadSegment expirySegment
  simp only [b64decode_b64encode, bind, Except.bind, hexpiry, int_truncate interpreter h,
    loads_payloadText interpreter hscalar]

theorem claimOf_members (claim : VerificationClaim) :
    claimOf (.dict [(points "email", .str claim.email), (points "user_id", .str claim.userId)]) =
      .ok claim := rfl

section RoundTrip

variable (interpreter : Interpreter) (hmacSha256 : List UInt8 → List UInt8 → List UInt8)
  (signer : TokenSigner)

-- A token is good up to its expiry cut down to a whole second, and expired from there on.
theorem verify_issue {claim : VerificationClaim} (hscalar : claim.Scalar) {ttl now : ℚ}
    (h : Representable (now + ttl)) :
    ∃ token, issueEmailVerificationToken interpreter hmacSha256 signer claim ttl now = .ok token ∧
      ∀ moment : ℚ,
        (moment ≤ truncate (now + ttl) →
          verifyEmailVerificationToken interpreter hmacSha256 signer token moment = .ok claim) ∧
        (truncate (now + ttl) < moment →
          ∃ message, verifyEmailVerificationToken interpreter hmacSha256 signer token moment =
            .error (.tokenExpired message)) ∧
        (0 ≤ now + ttl → now + ttl < moment →
          ∃ message, verifyEmailVerificationToken interpreter hmacSha256 signer token moment =
            .error (.tokenExpired message)) := by
  obtain ⟨message, -, hsign⟩ := @sign_of_ascii hmacSha256 signer (payloadSegment claim)
    (expirySegment (now + ttl)) (isAscii_b64encode _) (isAscii_b64encode _)
  have hverify := @verify_of_signed interpreter _ _ _ _ _ _ (splitOn_issued claim _ hsign) hsign
  refine ⟨_, by rw [issue_of_representable claim h, hsign]; rfl, fun moment => ?_⟩
  rw [hverify, parsed_issued hscalar h]
  simp only [Except.bind, claimOf_members]
  have hexpired : truncate (now + ttl) < moment →
      ∃ message, (if (truncate (now + ttl) : ℚ) < moment then
        .error (.tokenExpired "token has expired") else .ok claim : Except Failure VerificationClaim) =
          .error (.tokenExpired message) := by
    intro hlate
    rw [if_pos hlate]
    exact ⟨_, rfl⟩
  refine ⟨?_, hexpired, ?_⟩
  · intro hearly
    rw [if_neg (not_lt.mpr hearly)]
  · intro hpositive hlate
    exact hexpired ((truncate_le hpositive).trans_lt hlate)

end RoundTrip

def sampleInterpreter : Interpreter where
  maxStrDigits := 4300
  recursionLimit := 1000
  digits := by decide
  positive := by decide

def sampleSigner : TokenSigner :=
  ⟨[0x6B], by decide⟩

-- A dot, a quote and a letter outside ASCII, and an empty address.
def quotedClaim : VerificationClaim where
  userId := points "u.\"é"
  email := []

-- HMAC-SHA256 under the key `k` of what is signed for this claim and the expiry 86400.
def quotedDigest : List UInt8 :=
  [59, 179, 154, 233, 48, 216, 54, 213, 136, 68, 217, 42, 6, 221, 86, 15, 29, 80, 228, 133, 98, 197,
    32, 231, 232, 102, 10, 253, 73, 113, 240, 33]

theorem verify_issue_quoted :
    ∃ token, issueEmailVerificationToken sampleInterpreter (fun _ _ => quotedDigest) sampleSigner
        quotedClaim 86400 0 = .ok token ∧
      verifyEmailVerificationToken sampleInterpreter (fun _ _ => quotedDigest) sampleSigner token
        86400 = .ok quotedClaim := by
  have hscalar : quotedClaim.Scalar := by
    refine ⟨Value.scalar_points _, ?_⟩
    intro point hpoint
    cases hpoint
  have hexpiry : Representable (0 + 86400) := by norm_num [Representable]
  obtain ⟨token, hissue, hverify⟩ := verify_issue sampleInterpreter (fun _ _ => quotedDigest)
    sampleSigner hscalar hexpiry
  refine ⟨token, hissue, (hverify 86400).1 ?_⟩
  norm_num [truncate]

end TokenSigner

end TrustlistCore.Auth
