import TrustlistCore.EventBus.Value.Arranged
import TrustlistCore.Reproducibility.Snapshot.Theorems

namespace TrustlistCore.Reproducibility

open Library Unicode Relational OrderBy DataModel EventBus
open EventBus.Value (arranged Readable Prints)
open EventBus.Idempotency (canonical canonicalJson)
open CanonicalStore hiding Store

-- The keys of the rows in Python.
def columnName : Column → String
  | .domainId => "domain_id"
  | .normalisedUrl => "normalised_url"
  | .currentStatus => "current_status"
  | .currentScore => "current_score"
  | .scoreVersion => "score_version"
  | .lastScoredAt => "last_scored_at"
  | .createdAt => "created_at"
  | .updatedAt => "updated_at"
  | .poolId => "pool_id"
  | .canonicalHandle => "canonical_handle"
  | .derivedStatus => "derived_status"
  | .derivedScore => "derived_score"
  | .attestationFlag => "attestation_flag"
  | .validFrom => "valid_from"
  | .validUntil => "valid_until"
  | .confidence => "confidence"
  | .attestationStatus => "attestation_status"
  | .attestationId => "attestation_id"
  | .operatorUserId => "operator_user_id"
  | .signature => "signature"
  | .signedAt => "signed_at"
  | .verificationStatus => "verification_status"
  | .evidenceId => "evidence_id"
  | .signalClass => "signal_class"
  | .sourceUrl => "source_url"
  | .recordedAt => "recorded_at"
  | .observedValue => "observed_value"
  | .provenanceId => "provenance_id"
  | .source => "source"
  | .method => "method"
  | .observedAt => "observed_at"
  | .contributorId => "contributor_id"
  | .contributorIdentity => "contributor_identity"
  | .compositeScore => "composite_score"
  | .verdict => "verdict"
  | .categoryScores => "category_scores"
  | .rationaleSummary => "rationale_summary"
  | .severityFlag => "severity_flag"
  | .algorithmVersion => "algorithm_version"
  | .computedAt => "computed_at"
  | .scoreHistoryId => "score_history_id"
  | .userId => "user_id"
  | .archetype => "archetype"
  | .email => "email"
  | .emailVerifiedAt => "email_verified_at"
  | .passwordHash => "password_hash"
  | .totpSecret => "totp_secret"
  | .totpEnrolledAt => "totp_enrolled_at"
  | .disabledAt => "disabled_at"
  | .sessionId => "session_id"
  | .lastSeenAt => "last_seen_at"
  | .revokedAt => "revoked_at"
  | .deviceFingerprint => "device_fingerprint"
  | .ipAddressObserved => "ip_address_observed"
  | .accountArchetype => "account_archetype"
  | .role => "role"
  | .grantedAt => "granted_at"
  | .grantedByUserId => "granted_by_user_id"
  | .customerId => "customer_id"
  | .authAuditEventId => "auth_audit_event_id"
  | .eventType => "event_type"
  | .occurredAt => "occurred_at"
  | .userAgentObserved => "user_agent_observed"
  | .eventDetails => "event_details"
  | .verificationTier => "verification_tier"
  | .tier1Verifications => "tier_1_verifications"
  | .tier2Verification => "tier_2_verification"
  | .displayName => "display_name"
  | .governanceRole => "governance_role"

-- What the database's driver makes of a cell: whether it has a value for it, and where it is
-- no text, `isoformat` of the `datetime`, `str` of a `Decimal` and of `bytes`, and the value of
-- a document.
structure Driver (Timestamp Jsonb : Type) where
  reads : Cell Timestamp Jsonb → Bool
  isoformat : Timestamp → Text
  decimal : ℚ → Text
  bytes : List UInt8 → Text
  loads : Jsonb → Value

section Bytes

variable {Timestamp Jsonb : Type} (driver : Driver Timestamp Jsonb) (maxStrDigits : ℕ)

-- A cell as `_json_default` gets it.
def Driver.cell : Cell Timestamp Jsonb → Value
  | .uuid value => .object "UUID" (value.text.map Json.charPoint)
  | .text value => .str value
  | .label value => .str (points value)
  | .timestamp value => .object "datetime" (driver.isoformat value)
  | .numeric value => .object "Decimal" (driver.decimal value)
  | .boolean value => .bool value
  | .jsonb value => driver.loads value
  | .bytea value => .object "bytes" (driver.bytes value)
  | .inet value => .object "IPv4Address" value

def Driver.stableValue : StableValue Timestamp Jsonb → Value
  | .value none => .none
  | .value (some cell) => driver.cell cell
  | .token text => .str (points text)

def Driver.row (columns : List (Column × StableValue Timestamp Jsonb)) : Value :=
  .dict (columns.map fun entry => (points (columnName entry.1), driver.stableValue entry.2))

def Driver.document (stable : Captured → List (List (Column × StableValue Timestamp Jsonb))) :
    Value :=
  .dict ([Captured.domain, .provenance, .evidence].map fun table =>
    (points table.name, .list ((stable table).map driver.row)))

def CanonicalStoreSnapshot.stableBytes (snapshot : CanonicalStoreSnapshot Timestamp Jsonb) :
    Except Failure (List Char) :=
  canonicalJson maxStrDigits (driver.document snapshot.stable)

def normaliseForExpected
    (stable : Captured → List (List (Column × StableValue Timestamp Jsonb))) :
    Except Failure Value :=
  (canonicalJson maxStrDigits (driver.document stable)).bind (Value.loads maxStrDigits)

-- What is documented of the driver: no two values have one text, and a document is what
-- `json.loads` returned.
structure Driver.Lawful : Prop where
  isoformat : Set.InjOn driver.isoformat {value | driver.reads (.timestamp value) = true}
  isoformat_scalar : ∀ value, Value.Scalar (driver.isoformat value)
  decimal : Function.Injective driver.decimal
  decimal_scalar : ∀ value, Value.Scalar (driver.decimal value)
  bytes : Function.Injective driver.bytes
  bytes_scalar : ∀ value, Value.Scalar (driver.bytes value)
  loads : ∀ value, driver.reads (.jsonb value) = true → Readable (driver.loads value)
  loads_prints : ∀ value, driver.reads (.jsonb value) = true →
    Value.Every (Prints canonical maxStrDigits) (driver.loads value)

-- The server keeps text in UTF-8.
def Encoded (store : CanonicalStore.Store Timestamp Jsonb) : Prop :=
  ∀ table : Captured, ∀ row ∈ store table.table, ∀ column ∈ SELECTED_COLUMNS table, ∀ text,
    row column = some (.text text) ∨ row column = some (.inet text) → Value.Scalar text

-- The same content: of a document its value, whatever the order of its members.
def SameCell : Cell Timestamp Jsonb → Cell Timestamp Jsonb → Prop
  | .jsonb a, .jsonb b => arranged (driver.loads a) = arranged (driver.loads b)
  | a, b => a = b

def SameValue : StableValue Timestamp Jsonb → StableValue Timestamp Jsonb → Prop
  | .value none, .value none => True
  | .value (some a), .value (some b) => SameCell driver a b
  | .token a, .token b => a = b
  | _, _ => False

def SameEntry (a b : Column × StableValue Timestamp Jsonb) : Prop :=
  a.1 = b.1 ∧ SameValue driver a.2 b.2

end Bytes

end TrustlistCore.Reproducibility
