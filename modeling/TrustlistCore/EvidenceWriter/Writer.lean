import TrustlistCore.DataModel

namespace TrustlistCore.EvidenceWriter

open Library Unicode EventBus DataModel

-- What a call raises: an exception of Python, one of the client, or the server's refusal of
-- a parameter or of a row, with the column or the constraint.
inductive WriteFailure
  | python (failure : Failure)
  | multipleResultsFound
  | dataError (column : String)
  | notNullViolation (column : String)
  | checkViolation (constraint : String)
  | uniqueViolation (constraint : String)
  | foreignKeyViolation (constraint : String)
  | operationalError
  deriving DecidableEq

structure WriteResult where
  provenanceId : Text
  evidenceId : Text
  domainId : Text
  created : Bool
  deriving DecidableEq

-- What `write_evidence` has before it opens its transaction.
structure Parameters where
  domainId : Text
  signalClass : Text
  sourceUrl : Text
  observedAt : Text
  observedValue : Value
  idempotencyMethod : Text
  source : Value
  method : Value
  contributorIdentity : Value
  normalisedUrl : Text

def METHOD_PREFIX : String :=
  "evidence-writer-stub"

def idempotencyMethod (idempotencyKey : Text) : Text :=
  points METHOD_PREFIX ++ points ":" ++ idempotencyKey

-- `payload.get("source_url", "")`
def sourceUrl (payload : Value) : Value :=
  match payload with
  | .dict members => (Members.find members (points "source_url")).getD (.str [])
  | _ => .str []

-- `str` stands for the function of that name, which is also what an f-string does.
def parameters (str : Value → Text) (envelope : EventEnvelope) : Except Failure Parameters := do
  let domainId ← Value.subscript envelope.payload "domain_id"
  let signalClass ← Value.subscript envelope.payload "signal_class"
  let observedAt ← Value.subscript envelope.payload "observed_at"
  let observedValue ← Value.subscript envelope.payload "observed_value"
  .ok
    { domainId := str domainId
      signalClass := str signalClass
      sourceUrl := str (sourceUrl envelope.payload)
      observedAt := str observedAt
      observedValue
      idempotencyMethod := idempotencyMethod (str envelope.idempotencyKey)
      source := envelope.provenance.source
      method := envelope.provenance.method
      contributorIdentity := envelope.provenance.contributorIdentity
      normalisedUrl := str domainId ++ points ".smoke.trustlist.test" }

def uuidText (uuid : Uuid) : Text :=
  uuid.text.map Json.charPoint

section Columns

variable {Timestamp Jsonb : Type} (server : Server Timestamp Jsonb)

def orFail {A : Type} (failure : WriteFailure) : Option A → Except WriteFailure A
  | some value => .ok value
  | none => .error failure

def uuidColumn (column : String) (text : Text) : Except WriteFailure Uuid :=
  orFail (.dataError column) (uuidInput text)

def timestampColumn (column : String) (text : Text) : Except WriteFailure Timestamp :=
  orFail (.dataError column) (server.timestamptz text)

-- `None` is NULL.
def textColumn (column : String) : Value → Except WriteFailure (Option Text)
  | .none => .ok none
  | .str text => if server.accepts text then .ok (some text) else .error (.dataError column)
  | value => orFail (.dataError column) ((server.convert value).map some)

def requiredText (column : String) (value : Value) : Except WriteFailure Text := do
  orFail (.notNullViolation column) (← textColumn server column value)

def sourceColumn (column : String) : Value → Except WriteFailure EvidenceSource
  | .none => .error (.notNullViolation column)
  | .str text => orFail (.dataError column) (EvidenceSource.ofText text)
  | _ => .error (.dataError column)

-- `CAST(:observed_value AS jsonb)` of what `json.dumps` writes with its defaults.
def jsonbColumn (maxStrDigits : ℕ) (column : String) (value : Value) :
    Except WriteFailure Jsonb :=
  match Value.document { sortKeys := false, defaultStr := false } maxStrDigits value with
  | .error failure => .error (.python failure)
  | .ok tree => orFail (.dataError column) (server.jsonb tree)

end Columns

section Rows

variable {Timestamp Jsonb : Type} (server : Server Timestamp Jsonb) (parameters : Parameters)

def domainRow : Except WriteFailure Domain := do
  let domainId ← uuidColumn "domain_id" parameters.domainId
  let normalisedUrl ← requiredText server "normalised_url" (.str parameters.normalisedUrl)
  if 255 < normalisedUrl.length then
    .error (.dataError "normalised_url")
  else if ¬ isNormalised server normalisedUrl then
    .error (.checkViolation "normalised_url_is_normalised")
  else
    .ok { domainId, normalisedUrl, currentStatus := .underReview }

def provenanceRow (provenanceId : Uuid) : Except WriteFailure (Provenance Timestamp) := do
  let source ← sourceColumn "source" parameters.source
  let method ← requiredText server "method" (.str parameters.idempotencyMethod)
  let observedAt ← timestampColumn server "observed_at" parameters.observedAt
  let contributorIdentity ←
    textColumn server "contributor_identity" parameters.contributorIdentity
  .ok { provenanceId, source, method, observedAt, contributorIdentity }

def evidenceRow (maxStrDigits : ℕ) (provenanceId evidenceId : Uuid) :
    Except WriteFailure (Evidence Timestamp Jsonb) := do
  let observedValue ←
    jsonbColumn server maxStrDigits "observed_value" parameters.observedValue
  let domainId ← uuidColumn "domain_id" parameters.domainId
  let signalClass ← requiredText server "signal_class" (.str parameters.signalClass)
  let source ← sourceColumn "source" parameters.source
  let method ← requiredText server "method" parameters.method
  let sourceUrl ← requiredText server "source_url" (.str parameters.sourceUrl)
  let observedAt ← timestampColumn server "observed_at" parameters.observedAt
  .ok
    { evidenceId, domainId, signalClass, source, method, sourceUrl, observedAt, observedValue,
      provenanceId }

end Rows

section Find

variable {Timestamp Jsonb : Type}

-- `evidence e JOIN provenance p` on the provenance id, where `p.method` is the anchor.
def joined (tables : Tables Timestamp Jsonb) (method : Text) : List (Evidence Timestamp Jsonb) :=
  tables.evidence.flatMap fun evidence =>
    (tables.provenance.filter fun provenance =>
      provenance.provenanceId = evidence.provenanceId ∧ provenance.method = method).map
        fun _ => evidence

-- The rows of the query through `one_or_none`.
def findExisting (server : Server Timestamp Jsonb) (tables : Tables Timestamp Jsonb)
    (idempotencyMethod : Text) : Except WriteFailure (Option WriteResult) := do
  let method ← requiredText server "method" (.str idempotencyMethod)
  match joined tables method with
  | [] => .ok none
  | [evidence] =>
      .ok (some
        { provenanceId := uuidText evidence.provenanceId
          evidenceId := uuidText evidence.evidenceId
          domainId := uuidText evidence.domainId
          created := false })
  | _ => .error .multipleResultsFound

end Find

-- The statement that a transaction runs next; the last is its commit.
inductive Phase
  | findExisting
  | selectDomain
  | insertDomain
  | insertProvenance
  | insertEvidence (provenanceId : Uuid)
  | commit (result : WriteResult)

-- An open transaction, with the rows that it has inserted and nobody else sees yet.
structure Transaction (Timestamp Jsonb : Type) where
  parameters : Parameters
  phase : Phase
  own : Tables Timestamp Jsonb

section Transaction

variable {Timestamp Jsonb : Type} (server : Server Timestamp Jsonb) (maxStrDigits : ℕ)

def begin (parameters : Parameters) : Transaction Timestamp Jsonb where
  parameters
  phase := .findExisting
  own := Tables.empty

-- One statement. It sees the committed rows and those of its own transaction, and where it
-- inserts a row with a generated id, that is `generated`.
def execute (committed : Tables Timestamp Jsonb) (transaction : Transaction Timestamp Jsonb)
    (generated : Uuid) : Except WriteFailure (Transaction Timestamp Jsonb) :=
  let visible := committed.append transaction.own
  let parameters := transaction.parameters
  match transaction.phase with
  | .findExisting => do
      match ← findExisting server visible parameters.idempotencyMethod with
      | some existing => .ok { transaction with phase := .commit existing }
      | none => .ok { transaction with phase := .selectDomain }
  | .selectDomain => do
      let domainId ← uuidColumn "domain_id" parameters.domainId
      if visible.domain.any fun row => row.domainId = domainId then
        .ok { transaction with phase := .insertProvenance }
      else
        .ok { transaction with phase := .insertDomain }
  | .insertDomain => do
      let row ← domainRow server parameters
      -- `ON CONFLICT (domain_id) DO NOTHING`
      if visible.domain.any fun other => other.domainId = row.domainId then
        .ok { transaction with phase := .insertProvenance }
      else if visible.domain.any fun other => other.normalisedUrl = row.normalisedUrl then
        .error (.uniqueViolation "uq_domain_normalised_url")
      else
        .ok
          { transaction with
            phase := .insertProvenance
            own := { transaction.own with domain := transaction.own.domain ++ [row] } }
  | .insertProvenance => do
      let row ← provenanceRow server parameters generated
      if visible.provenance.any fun other => other.provenanceId = generated then
        .error (.uniqueViolation "pk_provenance")
      else
        .ok
          { transaction with
            phase := .insertEvidence generated
            own := { transaction.own with provenance := transaction.own.provenance ++ [row] } }
  | .insertEvidence provenanceId => do
      let row ← evidenceRow server parameters maxStrDigits provenanceId generated
      if visible.evidence.any fun other => other.evidenceId = generated then
        .error (.uniqueViolation "pk_evidence")
      else if ¬ visible.domain.any fun other => other.domainId = row.domainId then
        .error (.foreignKeyViolation "fk_evidence_domain_id_domain")
      else if ¬ visible.provenance.any fun other => other.provenanceId = provenanceId then
        .error (.foreignKeyViolation "fk_evidence_provenance_id_provenance")
      else
        .ok
          { transaction with
            phase := .commit
              { provenanceId := uuidText provenanceId
                evidenceId := uuidText generated
                domainId := parameters.domainId
                created := true }
            own := { transaction.own with evidence := transaction.own.evidence ++ [row] } }
  | .commit _ => .ok transaction

end Transaction

end TrustlistCore.EvidenceWriter
