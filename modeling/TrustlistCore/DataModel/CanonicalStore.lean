import Mathlib.Algebra.Order.Ring.Rat
import TrustlistCore.DataModel
import TrustlistCore.Library.Relational

namespace TrustlistCore.DataModel.CanonicalStore

open Library Relational

inductive Table
  | domain
  | pool
  | domainPoolMembership
  | attestation
  | evidence
  | provenance
  | score
  | scoreHistory
  | userAccount
  | userSession
  | userRoleAssignment
  | authAuditEvent
  | operatorAccountExtension
  | brandCustomerAccountExtension
  | foundationUserAccountExtension
  deriving DecidableEq, Repr

inductive Column
  | domainId | normalisedUrl | currentStatus | currentScore | scoreVersion | lastScoredAt
  | createdAt | updatedAt
  | poolId | canonicalHandle | derivedStatus | derivedScore | attestationFlag
  | validFrom | validUntil | confidence | attestationStatus
  | attestationId | operatorUserId | signature | signedAt | verificationStatus
  | evidenceId | signalClass | sourceUrl | recordedAt | observedValue
  | provenanceId | source | method | observedAt | contributorId | contributorIdentity
  | compositeScore | verdict | categoryScores | rationaleSummary | severityFlag
  | algorithmVersion | computedAt | scoreHistoryId
  | userId | archetype | email | emailVerifiedAt | passwordHash | totpSecret | totpEnrolledAt
  | disabledAt
  | sessionId | lastSeenAt | revokedAt | deviceFingerprint | ipAddressObserved
  | accountArchetype | role | grantedAt | grantedByUserId | customerId
  | authAuditEventId | eventType | occurredAt | userAgentObserved | eventDetails
  | verificationTier | tier1Verifications | tier2Verification | displayName | governanceRole
  deriving DecidableEq, Repr

-- A value that is not NULL, as its column stores it.
inductive Cell (Timestamp Jsonb : Type)
  | uuid (value : Uuid)
  | text (value : Text)
  | label (value : String)
  | timestamp (value : Timestamp)
  | numeric (value : ℚ)
  | boolean (value : Bool)
  | jsonb (value : Jsonb)
  | bytea (value : List UInt8)
  | inet (value : Text)
  deriving DecidableEq

inductive ColumnType
  | uuid
  | varchar (length : ℕ)
  | text
  | enum (labels : List String)
  | timestamptz
  | numeric (precision scale : ℕ)
  | boolean
  | jsonb
  | bytea
  | inet

-- A number of that precision is a whole number of units of its scale.
def ColumnType.admits {Timestamp Jsonb : Type} : ColumnType → Cell Timestamp Jsonb → Bool
  | .uuid, .uuid _ => true
  | .varchar length, .text value => value.length ≤ length
  | .text, .text _ => true
  | .enum labels, .label value => labels.contains value
  | .timestamptz, .timestamp _ => true
  | .numeric precision scale, .numeric value =>
      (value * 10 ^ scale).den = 1 ∧ |value| * 10 ^ scale < 10 ^ precision
  | .boolean, .boolean _ => true
  | .jsonb, .jsonb _ => true
  | .bytea, .bytea _ => true
  | .inet, .inet _ => true
  | _, _ => false

section Enums

def domainStatus : ColumnType :=
  .enum ["green", "grey", "red", "under_review", "dormant"]

def attestationMembershipStatus : ColumnType :=
  .enum ["inferred", "operator_attested", "contested"]

def evidenceSource : ColumnType :=
  .enum ["system", "human", "contributor", "cti_partner"]

def attestationVerificationStatus : ColumnType :=
  .enum ["pending", "verified", "rejected", "revoked"]

def scoreVerdict : ColumnType :=
  .enum ["green", "grey", "red", "under_review"]

def userArchetype : ColumnType :=
  .enum ["operator", "brand_customer", "foundation_internal"]

def authAuditEventType : ColumnType :=
  .enum ["login_success", "login_failure", "mfa_challenge_issued", "mfa_challenge_success",
    "mfa_challenge_failure", "password_change", "role_grant", "role_revoke", "account_disable",
    "session_revoke"]

def operatorVerificationTier : ColumnType :=
  .enum ["tier_0", "tier_1", "tier_2"]

def foundationGovernanceRole : ColumnType :=
  .enum ["trust_council_voting", "trust_council_observer", "adjudicator", "ops_staff",
    "maintainer"]

end Enums

-- What `gen_random_uuid()` and `now()` answer in a statement.
structure Environment (Timestamp : Type) where
  genRandomUuid : Uuid
  now : Timestamp

section Columns

variable {Timestamp Jsonb : Type}

abbrev Definition (Timestamp Jsonb : Type) : Type :=
  Relational.Definition Table Column (Cell Timestamp Jsonb) (Environment Timestamp)

abbrev CanonicalColumn (Timestamp Jsonb : Type) : Type :=
  ColumnDefinition Column (Cell Timestamp Jsonb) (Environment Timestamp)

def column (column : Column) (type : ColumnType) (nullable : Bool)
    (default : Environment Timestamp → Option (Cell Timestamp Jsonb)) :
    CanonicalColumn Timestamp Jsonb where
  column
  admits := type.admits
  nullable
  default

-- `nullable=False`, and no server default.
def required (name : Column) (type : ColumnType) : CanonicalColumn Timestamp Jsonb :=
  column name type false fun _ => none

-- `nullable=True`
def optional (name : Column) (type : ColumnType) : CanonicalColumn Timestamp Jsonb :=
  column name type true fun _ => none

-- `nullable=False, server_default=...`
def defaulted (name : Column) (type : ColumnType) (value : Cell Timestamp Jsonb) :
    CanonicalColumn Timestamp Jsonb :=
  column name type false fun _ => some value

def randomKey (name : Column) : CanonicalColumn Timestamp Jsonb :=
  column name .uuid false fun environment => some (.uuid environment.genRandomUuid)

def stamped (name : Column) : CanonicalColumn Timestamp Jsonb :=
  column name .timestamptz false fun environment => some (.timestamp environment.now)

-- A document that the server casts to `jsonb`.
def documentDefault (server : Server Timestamp Jsonb) (name : Column) (tree : Json.Tree) :
    CanonicalColumn Timestamp Jsonb :=
  column name .jsonb false fun _ => (server.jsonb tree).map .jsonb

end Columns

section Tables

variable {Timestamp Jsonb : Type}

abbrev CanonicalRow (Timestamp Jsonb : Type) : Type :=
  Row Column (Cell Timestamp Jsonb)

def normalisedUrlIsNormalised (server : Server Timestamp Jsonb) :
    Check Column (Cell Timestamp Jsonb) where
  name := "ck_domain_normalised_url_is_normalised"
  holds row :=
    match row .normalisedUrl with
    | some (.text url) => isNormalised server url
    | _ => true

def confidenceInUnitInterval : Check Column (Cell Timestamp Jsonb) where
  name := "ck_domain_pool_membership_confidence_in_unit_interval"
  holds row :=
    match row .confidence with
    | some (.numeric confidence) => 0 ≤ confidence ∧ confidence ≤ 1
    | _ => true

def customerIdRequiredForBrandCustomer : Check Column (Cell Timestamp Jsonb) where
  name := "ck_user_role_assignment_customer_id_required_for_brand_customer"
  holds row :=
    match row .accountArchetype with
    | some (.label archetype) =>
        archetype = "brand_customer" ∧ (row .customerId).isSome ∨
          archetype ≠ "brand_customer" ∧ (row .customerId).isNone
    | _ => true

def customerIdNotNull : Check Column (Cell Timestamp Jsonb) where
  name := "ck_brand_customer_account_extension_customer_id_not_null"
  holds row := (row .customerId).isSome

def toDomain (name : String) : ForeignKey Table Column where
  name
  columns := [.domainId]
  references := .domain
  key := [.domainId]

def toPool (name : String) : ForeignKey Table Column where
  name
  columns := [.poolId]
  references := .pool
  key := [.poolId]

def toUserAccount (name : String) (column : Column) : ForeignKey Table Column where
  name
  columns := [column]
  references := .userAccount
  key := [.userId]

def toUserAccountArchetype (name : String) : ForeignKey Table Column where
  name
  columns := [.userId, .accountArchetype]
  references := .userAccount
  key := [.userId, .archetype]

def toProvenance (name : String) : ForeignKey Table Column where
  name
  columns := [.provenanceId]
  references := .provenance
  key := [.provenanceId]

def domain (server : Server Timestamp Jsonb) : Definition Timestamp Jsonb where
  columns :=
    [randomKey .domainId, required .normalisedUrl (.varchar 255),
      required .currentStatus domainStatus, optional .currentScore (.numeric 6 3),
      optional .scoreVersion .text, optional .lastScoredAt .timestamptz, stamped .createdAt,
      stamped .updatedAt]
  checks := [normalisedUrlIsNormalised server]
  keys := [⟨"pk_domain", [.domainId]⟩, ⟨"uq_domain_normalised_url", [.normalisedUrl]⟩]
  foreignKeys := []

def pool : Definition Timestamp Jsonb where
  columns :=
    [randomKey .poolId, required .canonicalHandle (.varchar 128),
      optional .derivedStatus domainStatus, optional .derivedScore (.numeric 6 3),
      defaulted .attestationFlag .boolean (.boolean false), stamped .createdAt,
      stamped .updatedAt]
  checks := []
  keys := [⟨"pk_pool", [.poolId]⟩, ⟨"uq_pool_canonical_handle", [.canonicalHandle]⟩]
  foreignKeys := []

def userAccount : Definition Timestamp Jsonb where
  columns :=
    [randomKey .userId, required .archetype userArchetype, required .email (.varchar 320),
      optional .emailVerifiedAt .timestamptz, required .passwordHash .bytea,
      optional .totpSecret .bytea, optional .totpEnrolledAt .timestamptz, stamped .createdAt,
      stamped .updatedAt, optional .disabledAt .timestamptz]
  checks := []
  keys :=
    [⟨"pk_user_account", [.userId]⟩, ⟨"uq_user_account_archetype_email", [.archetype, .email]⟩,
      ⟨"uq_user_account_user_id_archetype", [.userId, .archetype]⟩]
  foreignKeys := []

def domainPoolMembership : Definition Timestamp Jsonb where
  columns :=
    [required .domainId .uuid, required .poolId .uuid, required .validFrom .timestamptz,
      optional .validUntil .timestamptz, required .confidence (.numeric 4 3),
      required .attestationStatus attestationMembershipStatus, stamped .createdAt]
  checks := [confidenceInUnitInterval]
  keys := [⟨"pk_domain_pool_membership", [.domainId, .poolId, .validFrom]⟩]
  foreignKeys :=
    [toDomain "fk_domain_pool_membership_domain_id_domain",
      toPool "fk_domain_pool_membership_pool_id_pool"]

def provenance : Definition Timestamp Jsonb where
  columns :=
    [randomKey .provenanceId, required .source evidenceSource, required .method .text,
      required .observedAt .timestamptz, optional .contributorId .uuid,
      optional .contributorIdentity .text, stamped .createdAt]
  checks := []
  keys := [⟨"pk_provenance", [.provenanceId]⟩]
  foreignKeys := [toUserAccount "fk_provenance_contributor_id_user_account" .contributorId]

def evidence : Definition Timestamp Jsonb where
  columns :=
    [randomKey .evidenceId, required .domainId .uuid, required .signalClass .text,
      required .source evidenceSource, required .method .text,
      defaulted .sourceUrl .text (.text []), required .observedAt .timestamptz,
      stamped .recordedAt, optional .contributorIdentity .text, required .observedValue .jsonb,
      required .provenanceId .uuid]
  checks := []
  keys := [⟨"pk_evidence", [.evidenceId]⟩]
  foreignKeys :=
    [toDomain "fk_evidence_domain_id_domain",
      toProvenance "fk_evidence_provenance_id_provenance"]

def attestation : Definition Timestamp Jsonb where
  columns :=
    [randomKey .attestationId, required .domainId .uuid, optional .poolId .uuid,
      required .operatorUserId .uuid, required .signature .bytea,
      required .signedAt .timestamptz,
      required .verificationStatus attestationVerificationStatus, stamped .createdAt]
  checks := []
  keys := [⟨"pk_attestation", [.attestationId]⟩]
  foreignKeys :=
    [toDomain "fk_attestation_domain_id_domain", toPool "fk_attestation_pool_id_pool",
      toUserAccount "fk_attestation_operator_user_id_user_account" .operatorUserId]

def scoreColumns : List (CanonicalColumn Timestamp Jsonb) :=
  [required .domainId .uuid, required .compositeScore (.numeric 6 3),
    required .verdict scoreVerdict, required .categoryScores .jsonb,
    optional .rationaleSummary .text, defaulted .severityFlag .boolean (.boolean false),
    required .algorithmVersion .text, required .computedAt .timestamptz]

def score : Definition Timestamp Jsonb where
  columns := scoreColumns
  checks := []
  keys := [⟨"pk_score", [.domainId]⟩]
  foreignKeys := [toDomain "fk_score_domain_id_domain"]

def scoreHistory : Definition Timestamp Jsonb where
  columns := randomKey .scoreHistoryId :: scoreColumns
  checks := []
  keys := [⟨"pk_score_history", [.scoreHistoryId]⟩]
  foreignKeys := [toDomain "fk_score_history_domain_id_domain"]

def userSession : Definition Timestamp Jsonb where
  columns :=
    [randomKey .sessionId, required .userId .uuid, stamped .createdAt, stamped .lastSeenAt,
      optional .revokedAt .timestamptz, optional .deviceFingerprint .text,
      optional .ipAddressObserved .inet]
  checks := []
  keys := [⟨"pk_user_session", [.sessionId]⟩]
  foreignKeys := [toUserAccount "fk_user_session_user_id_user_account" .userId]

def userRoleAssignment : Definition Timestamp Jsonb where
  columns :=
    [required .userId .uuid, required .accountArchetype userArchetype, required .role .text,
      stamped .grantedAt, optional .grantedByUserId .uuid, optional .revokedAt .timestamptz,
      optional .customerId .uuid]
  checks := [customerIdRequiredForBrandCustomer]
  keys := [⟨"pk_user_role_assignment", [.userId, .role, .grantedAt]⟩]
  foreignKeys :=
    [toUserAccount "fk_user_role_assignment_granted_by_user_id_user_account" .grantedByUserId,
      toUserAccountArchetype "fk_user_role_assignment_user_id_user_account"]

def authAuditEvent (server : Server Timestamp Jsonb) : Definition Timestamp Jsonb where
  columns :=
    [randomKey .authAuditEventId, optional .userId .uuid,
      required .eventType authAuditEventType, stamped .occurredAt,
      optional .ipAddressObserved .inet, optional .userAgentObserved .text,
      documentDefault server .eventDetails (.object [])]
  checks := []
  keys := [⟨"pk_auth_audit_event", [.authAuditEventId]⟩]
  foreignKeys := [toUserAccount "fk_auth_audit_event_user_id_user_account" .userId]

def operatorAccountExtension (server : Server Timestamp Jsonb) :
    Definition Timestamp Jsonb where
  columns :=
    [required .userId .uuid, defaulted .verificationTier operatorVerificationTier
        (.label "tier_0"),
      documentDefault server .tier1Verifications (.array []),
      optional .tier2Verification .jsonb, optional .displayName .text]
  checks := []
  keys := [⟨"pk_operator_account_extension", [.userId]⟩]
  foreignKeys := [toUserAccount "fk_operator_account_extension_user_id_user_account" .userId]

def brandCustomerAccountExtension : Definition Timestamp Jsonb where
  columns :=
    [required .userId .uuid, required .customerId .uuid, optional .displayName .text]
  checks := [customerIdNotNull]
  keys := [⟨"pk_brand_customer_account_extension", [.userId]⟩]
  foreignKeys :=
    [toUserAccount "fk_brand_customer_account_extension_user_id_user_account" .userId]

def foundationUserAccountExtension : Definition Timestamp Jsonb where
  columns :=
    [required .userId .uuid, required .governanceRole foundationGovernanceRole,
      optional .displayName .text]
  checks := []
  keys := [⟨"pk_foundation_user_account_extension", [.userId]⟩]
  foreignKeys :=
    [toUserAccount "fk_foundation_user_account_extension_user_id_user_account" .userId]

def createTable (server : Server Timestamp Jsonb) : Table → Definition Timestamp Jsonb
  | .domain => domain server
  | .pool => pool
  | .userAccount => userAccount
  | .domainPoolMembership => domainPoolMembership
  | .provenance => provenance
  | .evidence => evidence
  | .attestation => attestation
  | .score => score
  | .scoreHistory => scoreHistory
  | .userSession => userSession
  | .userRoleAssignment => userRoleAssignment
  | .authAuditEvent => authAuditEvent server
  | .operatorAccountExtension => operatorAccountExtension server
  | .brandCustomerAccountExtension => brandCustomerAccountExtension
  | .foundationUserAccountExtension => foundationUserAccountExtension

end Tables

def APPEND_ONLY_TABLES : List Table :=
  [.evidence, .provenance, .scoreHistory, .attestation, .authAuditEvent]

def ALL_TABLES : List Table :=
  [.domain, .pool, .domainPoolMembership, .attestation, .evidence, .provenance, .score,
    .scoreHistory, .userAccount, .userSession, .userRoleAssignment, .authAuditEvent,
    .operatorAccountExtension, .brandCustomerAccountExtension, .foundationUserAccountExtension]

theorem mem_ALL_TABLES (table : Table) : table ∈ ALL_TABLES := by
  cases table <;> decide

def schema {Timestamp Jsonb : Type} (server : Server Timestamp Jsonb) :
    Schema Table Column (Cell Timestamp Jsonb) (Environment Timestamp) where
  tables := ALL_TABLES
  define := createTable server
  complete := mem_ALL_TABLES
  references_key := by
    intro table
    cases table <;> exact of_decide_eq_true rfl

-- The privileges of `trustlist_app` on the tables.
def applicationRole : List (Privilege × Table) :=
  ALL_TABLES.flatMap (fun table => [(.select, table), (.insert, table)]) ++
    (ALL_TABLES.filter fun table => ¬ APPEND_ONLY_TABLES.contains table).flatMap
      fun table => [(.update, table), (.delete, table)]

end TrustlistCore.DataModel.CanonicalStore
