import TrustlistCore.EvidenceWriter.Writer.Theorems
import TrustlistCore.Library.Run

namespace TrustlistCore.EvidenceWriter

open Library Unicode EventBus DataModel

inductive Status (Timestamp Jsonb : Type)
  | idle
  | running (transaction : Transaction Timestamp Jsonb)
  | returned (result : WriteResult)
  | raised (failure : WriteFailure)

-- The canonical store and the calls of `write_evidence` on it, each on its own connection.
structure World (T Timestamp Jsonb : Type) where
  committed : Tables Timestamp Jsonb
  calls : T → Status Timestamp Jsonb

-- What a call does next, or the end of its connection.
inductive Input (T : Type)
  | begin (call : T) (envelope : EventEnvelope)
  | statement (call : T) (generated : Uuid)
  | commit (call : T)
  | abort (call : T)

section World

variable {T Timestamp Jsonb : Type} [DecidableEq T] (server : Server Timestamp Jsonb)
  (maxStrDigits : ℕ) (str : Value → Text)

def World.set (world : World T Timestamp Jsonb) (call : T) (status : Status Timestamp Jsonb) :
    World T Timestamp Jsonb :=
  { world with calls := Function.update world.calls call status }

theorem World.calls_set (world : World T Timestamp Jsonb) (call : T)
    (status : Status Timestamp Jsonb) (other : T) :
    (world.set call status).calls other = if other = call then status else world.calls other := by
  simp only [World.set, Function.update_apply]

-- READ COMMITTED: a statement sees what is committed when it runs. A call that raises has
-- its transaction rolled back.
def step (world : World T Timestamp Jsonb) : Input T → Unit × World T Timestamp Jsonb
  | .begin call envelope =>
      match parameters str envelope with
      | .ok parameters => ((), world.set call (.running (begin parameters)))
      | .error failure => ((), world.set call (.raised (.python failure)))
  | .statement call generated =>
      match world.calls call with
      | .running transaction =>
          match execute server maxStrDigits world.committed transaction generated with
          | .ok next => ((), world.set call (.running next))
          | .error failure => ((), world.set call (.raised failure))
      | _ => ((), world)
  | .commit call =>
      match world.calls call with
      | .running { phase := .commit result, own, .. } =>
          ((), { world.set call (.returned result) with
            committed := world.committed.append own })
      | _ => ((), world)
  | .abort call =>
      match world.calls call with
      | .running _ => ((), world.set call (.raised .operationalError))
      | _ => ((), world)

-- `gen_random_uuid()` gives no id twice.
def Unused (tables : Tables Timestamp Jsonb) (generated : Uuid) : Prop :=
  (∀ row ∈ tables.provenance, row.provenanceId ≠ generated) ∧
    ∀ row ∈ tables.evidence, row.evidenceId ≠ generated

theorem unused_empty (generated : Uuid) :
    Unused (Tables.empty : Tables Timestamp Jsonb) generated :=
  ⟨fun _ hrow => (nomatch hrow), fun _ hrow => (nomatch hrow)⟩

-- An insert of a domain waits for the transaction that has one with its id or its URL open.
def Blocked (world : World T Timestamp Jsonb) (call : T)
    (transaction : Transaction Timestamp Jsonb) : Prop :=
  transaction.phase = .insertDomain ∧ ∃ other holder, other ≠ call ∧
    world.calls other = .running holder ∧ ∃ row ∈ holder.own.domain,
      uuidInput transaction.parameters.domainId = some row.domainId ∨
        row.normalisedUrl = transaction.parameters.normalisedUrl

-- The steps of calls for envelopes with one idempotency key.
def Admissible (key : Text) (world : World T Timestamp Jsonb) : Input T → Prop
  | .begin call envelope => world.calls call = .idle ∧ str envelope.idempotencyKey = key
  | .statement call generated => ∃ transaction, world.calls call = .running transaction ∧
      (∀ result, transaction.phase ≠ .commit result) ∧ ¬ Blocked world call transaction ∧
      Unused world.committed generated ∧
      ∀ other holder, world.calls other = .running holder → Unused holder.own generated
  | .commit call => ∃ transaction result, world.calls call = .running transaction ∧
      transaction.phase = .commit result
  | .abort call => ∃ transaction, world.calls call = .running transaction

def Names (result : WriteResult) (provenance : Provenance Timestamp)
    (evidence : Evidence Timestamp Jsonb) : Prop :=
  result.provenanceId = uuidText provenance.provenanceId ∧
    result.evidenceId = uuidText evidence.evidenceId

-- Whatever call has returned, there is one pair for the key, which the call and any later
-- one answer; and no lookup finds two.
structure Converged (key : Text) (world : World T Timestamp Jsonb) : Prop where
  returned : ∀ call result, world.calls call = .returned result → ∃ provenance evidence,
    Single world.committed (idempotencyMethod key) provenance evidence ∧
    Names result provenance evidence ∧
    ∀ later generated, later.idempotencyMethod = idempotencyMethod key → ∃ existing,
      execute server maxStrDigits world.committed (begin later) generated =
        .ok { begin later with phase := .commit existing } ∧ Names existing provenance evidence
  lookup : findExisting server world.committed (idempotencyMethod key) ≠
    .error .multipleResultsFound

-- A call that found nothing commits its pair only while there is still none.
def Guarded (key : Text) (world : World T Timestamp Jsonb) (entry : Input T × Unit) : Prop :=
  ∀ call transaction result, entry.1 = .commit call → world.calls call = .running transaction →
    transaction.phase = .commit result → result.created = true →
      world.committed.provenance.filter (fun row => row.method = idempotencyMethod key) = []

-- A store that holds no pair for the key or one, before any call.
structure Start (key : Text) (world : World T Timestamp Jsonb) : Prop where
  idle : ∀ call, world.calls call = .idle
  references : ∀ row ∈ world.committed.evidence,
    ∃ provenance ∈ world.committed.provenance, provenance.provenanceId = row.provenanceId
  clean : world.committed.provenance.filter (fun row => row.method = idempotencyMethod key) = [] ∨
    ∃ provenance evidence, Single world.committed (idempotencyMethod key) provenance evidence

end World

end TrustlistCore.EvidenceWriter
