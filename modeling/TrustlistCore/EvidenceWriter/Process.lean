import TrustlistCore.EventBus.DedupStore
import TrustlistCore.EvidenceWriter.Writer.Theorems
import TrustlistCore.Library.FirstWrite
import TrustlistCore.Library.Run

namespace TrustlistCore.EvidenceWriter

open Library Unicode EventBus DataModel

-- Where the one consumer process is between two polls: it has a decoded and valid event, is
-- in the handler's transaction, has left the handler, or has only the offset to commit.
inductive Stage (K Timestamp Jsonb : Type)
  | polling
  | delivered (envelope : EventEnvelope)
  | writing (envelope : EventEnvelope) (key : K) (transaction : Transaction Timestamp Jsonb)
  | handled (key : K)
  | settled

-- The canonical store, and the process with its dedup store. The history is that of the
-- events whose transaction has committed, oldest first.
structure Process (K Timestamp Jsonb : Type) [DecidableEq K] where
  committed : Tables Timestamp Jsonb
  history : List EventEnvelope
  dedup : InMemoryDedupStore K
  stage : Stage K Timestamp Jsonb

-- One step of the process, or a crash of it, or a row that somebody else adds to `domain`.
inductive Occurrence
  | deliver (envelope : EventEnvelope)
  | seen
  | statement (generated : Uuid)
  | commitTransaction
  | record
  | commitOffset
  | raise
  | crash
  | insertDomain (row : Domain)

namespace Process

variable {K Timestamp Jsonb : Type} [DecidableEq K] (server : Server Timestamp Jsonb)
  (maxStrDigits : ℕ) (str : Value → Text) (keyOf : Value → Except Failure K)

-- A process that starts anew knows no key.
def restarted (dedup : InMemoryDedupStore K) : InMemoryDedupStore K :=
  { dedup with
    keys := []
    nodup := List.nodup_nil
    bounded := Nat.zero_le _ }

-- The dedup store is asked first, and what `write_evidence` reads of the payload comes
-- before its transaction. Whatever raises ends the poll.
def handle (process : Process K Timestamp Jsonb) (envelope : EventEnvelope) :
    Process K Timestamp Jsonb :=
  match keyOf envelope.idempotencyKey with
  | .error _ => { process with stage := .polling }
  | .ok key =>
      match (InMemoryDedupStore.seen key).run process.dedup with
      | .error _ dedup => { process with dedup, stage := .polling }
      | .ok true dedup => { process with dedup, stage := .settled }
      | .ok false dedup =>
          match parameters str envelope with
          | .error _ => { process with dedup, stage := .polling }
          | .ok sent => { process with dedup, stage := .writing envelope key (begin sent) }

-- A step that the stage does not allow changes nothing. A transaction that raises or is cut
-- off leaves no rows.
def step (process : Process K Timestamp Jsonb) : Occurrence → Unit × Process K Timestamp Jsonb
  | .deliver envelope =>
      match process.stage with
      | .polling => ((), { process with stage := .delivered envelope })
      | _ => ((), process)
  | .seen =>
      match process.stage with
      | .delivered envelope => ((), process.handle str keyOf envelope)
      | _ => ((), process)
  | .statement generated =>
      match process.stage with
      | .writing envelope key transaction =>
          match execute server maxStrDigits process.committed transaction generated with
          | .ok next => ((), { process with stage := .writing envelope key next })
          | .error _ => ((), { process with stage := .polling })
      | _ => ((), process)
  | .commitTransaction =>
      match process.stage with
      | .writing envelope key { phase := .commit _, own, .. } =>
          ((), { process with
            committed := process.committed.append own
            history := process.history ++ [envelope]
            stage := .handled key })
      | _ => ((), process)
  | .record =>
      match process.stage with
      | .handled key => ((), { process with dedup := process.dedup.extended key, stage := .settled })
      | _ => ((), process)
  | .commitOffset =>
      match process.stage with
      | .settled => ((), { process with stage := .polling })
      | _ => ((), process)
  | .raise => ((), { process with stage := .polling })
  | .crash => ((), { process with dedup := restarted process.dedup, stage := .polling })
  | .insertDomain row =>
      ((), { process with
        committed := process.committed.append { domain := [row], provenance := [], evidence := [] } })

abbrev Steps (start : Process K Timestamp Jsonb) :=
  Run (step server maxStrDigits str keyOf) (fun _ _ => True) start

-- No process has run yet, and the tables that only `write_evidence` writes are empty.
structure Start (process : Process K Timestamp Jsonb) : Prop where
  provenance : process.committed.provenance = []
  evidence : process.committed.evidence = []
  history : process.history = []
  stage : process.stage = .polling

-- The anchor text that stands for the key of an event in the store.
def anchor (envelope : EventEnvelope) : Text :=
  idempotencyMethod (str envelope.idempotencyKey)

def Carries (envelope : EventEnvelope) (provenance : DataModel.Provenance Timestamp)
    (evidence : Evidence Timestamp Jsonb) : Prop :=
  ∃ sent, parameters str envelope = .ok sent ∧ Wrote server maxStrDigits sent provenance evidence

end Process

end TrustlistCore.EvidenceWriter
