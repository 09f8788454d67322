import TrustlistCore.DataModel.ApplicationRole
import TrustlistCore.DataModel.EvidenceCurrent

namespace TrustlistCore.DataModel.CanonicalStore

open Library Relational

variable {Timestamp Jsonb : Type}

section Read

def uuidCell : Option (Cell Timestamp Jsonb) → Option Uuid
  | some (.uuid value) => some value
  | _ => none

def textCell : Option (Cell Timestamp Jsonb) → Option Text
  | some (.text value) => some value
  | _ => none

def timestampCell : Option (Cell Timestamp Jsonb) → Option Timestamp
  | some (.timestamp value) => some value
  | _ => none

def jsonbCell : Option (Cell Timestamp Jsonb) → Option Jsonb
  | some (.jsonb value) => some value
  | _ => none

def sourceCell : Option (Cell Timestamp Jsonb) → Option EvidenceSource
  | some (.label value) =>
      [.system, .human, .contributor, .ctiPartner].find? fun source => source.label = value
  | _ => none

-- The columns of a stored row of `evidence`.
def readEvidence (row : CanonicalRow Timestamp Jsonb) : Option (EvidenceRow Timestamp Jsonb) := do
  let evidenceId ← uuidCell (row .evidenceId)
  let domainId ← uuidCell (row .domainId)
  let signalClass ← textCell (row .signalClass)
  let source ← sourceCell (row .source)
  let method ← textCell (row .method)
  let sourceUrl ← textCell (row .sourceUrl)
  let observedAt ← timestampCell (row .observedAt)
  let observedValue ← jsonbCell (row .observedValue)
  let provenanceId ← uuidCell (row .provenanceId)
  let recordedAt ← timestampCell (row .recordedAt)
  some
    { evidenceId, domainId, signalClass, source, method, sourceUrl, observedAt, observedValue,
      provenanceId, recordedAt, contributorIdentity := textCell (row .contributorIdentity) }

theorem evidenceId_readEvidence {row : CanonicalRow Timestamp Jsonb}
    {evidence : EvidenceRow Timestamp Jsonb} (h : readEvidence row = some evidence) :
    row .evidenceId = some (.uuid evidence.evidenceId) := by
  unfold readEvidence at h
  simp only [Option.bind_eq_bind, Option.bind_eq_some_iff, Option.some.injEq] at h
  obtain ⟨evidenceId, hid, _, _, _, _, _, _, _, _, _, _, _, _, _, _, _, _, _, _, rfl⟩ := h
  unfold uuidCell at hid
  split at hid
  · rename_i value hvalue
    rw [hvalue]
    cases hid
    rfl
  · cases hid

end Read

-- The tables with their constraints.
structure CanonicalDatabase (server : Server Timestamp Jsonb) where
  store : Store Timestamp Jsonb
  sound : Sound (schema server) store

namespace CanonicalDatabase

variable {server : Server Timestamp Jsonb}

def empty : CanonicalDatabase server where
  store := Store.empty
  sound := sound_empty _

def transact [DecidableEq Timestamp] [DecidableEq Jsonb] (database : CanonicalDatabase server)
    (statements : List (CanonicalStatement Timestamp Jsonb)) :
    Except (Refusal Table Column) Unit × CanonicalDatabase server :=
  let result := Relational.transact (schema server) applicationRole database.store statements
  (result.1, ⟨result.2, sound_transact statements database.sound⟩)

def evidence (database : CanonicalDatabase server) : EvidenceTable Timestamp Jsonb where
  rows := (database.store .evidence).filterMap readEvidence
  primaryKey := by
    have hdistinct := database.sound.distinct .evidence ⟨"pk_evidence", [.evidenceId]⟩
      (by simp [schema, createTable, CanonicalStore.evidence])
    unfold List.Nodup
    rw [List.pairwise_map, List.pairwise_filterMap]
    refine hdistinct.imp ?_
    intro a b hclash x hx y hy hsame
    apply hclash
    refine ⟨[.uuid x.evidenceId], project_one.mpr (evidenceId_readEvidence hx), ?_⟩
    rw [hsame]
    exact project_one.mpr (evidenceId_readEvidence hy)

end CanonicalDatabase

end TrustlistCore.DataModel.CanonicalStore
