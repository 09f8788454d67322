import Mathlib.Order.WithBot
import TrustlistCore.DataModel.CanonicalDatabase
import TrustlistCore.Library.OrderBy

namespace TrustlistCore.Reproducibility

open Library Relational OrderBy DataModel
open CanonicalStore hiding Store

-- The tables that a snapshot reads.
inductive Captured
  | domain
  | provenance
  | evidence
  deriving DecidableEq, Repr

namespace Captured

def name : Captured → String
  | .domain => "domain"
  | .provenance => "provenance"
  | .evidence => "evidence"

def table : Captured → Table
  | .domain => .domain
  | .provenance => .provenance
  | .evidence => .evidence

def primaryKey : Captured → Column
  | .domain => .domainId
  | .provenance => .provenanceId
  | .evidence => .evidenceId

def each {A : Type} (domain provenance evidence : A) : Captured → A
  | .domain => domain
  | .provenance => provenance
  | .evidence => evidence

end Captured

def VOLATILE_COLUMNS : Captured → List Column
  | .domain => [.domainId, .createdAt, .updatedAt]
  | .provenance => [.provenanceId, .createdAt]
  | .evidence => [.evidenceId, .provenanceId, .domainId, .recordedAt]

def SELECTED_COLUMNS : Captured → List Column
  | .domain =>
      [.domainId, .normalisedUrl, .currentStatus, .currentScore, .scoreVersion, .lastScoredAt,
        .createdAt, .updatedAt]
  | .provenance =>
      [.provenanceId, .source, .method, .observedAt, .contributorId, .contributorIdentity,
        .createdAt]
  | .evidence =>
      [.evidenceId, .domainId, .signalClass, .source, .method, .sourceUrl, .observedAt,
        .recordedAt, .contributorIdentity, .observedValue, .provenanceId]

def REFERENCE_COLUMNS : Captured → Column → Option Captured
  | .evidence, .domainId => some .domain
  | .evidence, .provenanceId => some .provenance
  | _, _ => none

-- The value of a column, or the token that stands for a reference.
inductive StableValue (Timestamp Jsonb : Type)
  | value (cell : Option (Cell Timestamp Jsonb))
  | token (text : String)

-- The foreign key that refers to no captured row.
structure AssertionError where
  table : Captured
  column : Column
  deriving DecidableEq

-- What ends a capture: psycopg has no value for a cell of a row that a query answers, such as
-- `DataError` for a time past the year 9999, or a reference is not to be resolved.
inductive CaptureError
  | unread (table : Captured)
  | assertion (error : AssertionError)
  deriving DecidableEq

section Capture

variable {Timestamp Jsonb : Type} [LinearOrder Timestamp] (collation : LinearOrder Text)

-- NULLS LAST
def nullsLast {A : Type} : Option A → WithTop A
  | none => ⊤
  | some value => value

-- ORDER BY domain_id
def domainOrder (row : CanonicalRow Timestamp Jsonb) : WithTop Uuid :=
  nullsLast (uuidCell (row .domainId))

abbrev EvidenceKey (Timestamp : Type) : Type :=
  WithTop Timestamp ×ₗ WithTop (Collated collation) ×ₗ WithTop (Collated collation)

-- ORDER BY observed_at, signal_class, source_url, evidence_id
def evidenceKey (row : CanonicalRow Timestamp Jsonb) : EvidenceKey collation Timestamp :=
  toLex (nullsLast (timestampCell (row .observedAt)),
    toLex (nullsLast (textCell (row .signalClass)), nullsLast (textCell (row .sourceUrl))))

def evidenceOrder (row : CanonicalRow Timestamp Jsonb) :
    EvidenceKey collation Timestamp ×ₗ WithTop Uuid :=
  toLex (evidenceKey collation row, nullsLast (uuidCell (row .evidenceId)))

abbrev ProvenanceKey (Timestamp : Type) : Type :=
  WithTop Timestamp ×ₗ WithTop (Collated collation)

-- ORDER BY p.observed_at, p.method, p.provenance_id
def provenanceKey (row : CanonicalRow Timestamp Jsonb) : ProvenanceKey collation Timestamp :=
  toLex (nullsLast (timestampCell (row .observedAt)), nullsLast (textCell (row .method)))

def provenanceOrder (row : CanonicalRow Timestamp Jsonb) :
    ProvenanceKey collation Timestamp ×ₗ WithTop Uuid :=
  toLex (provenanceKey collation row, nullsLast (uuidCell (row .provenanceId)))

-- WHERE domain_id = :d
def concerns (domainId : Uuid) (row : CanonicalRow Timestamp Jsonb) : Bool :=
  uuidCell (row .domainId) = some domainId

-- JOIN evidence e ON e.provenance_id = p.provenance_id
def refersTo (evidence provenance : CanonicalRow Timestamp Jsonb) : Bool :=
  (uuidCell (evidence .provenanceId)).isSome ∧
    uuidCell (evidence .provenanceId) = uuidCell (provenance .provenanceId)

variable (domainId : Uuid) (store : CanonicalStore.Store Timestamp Jsonb)

-- A provenance row is there once for every evidence row of the domain that refers to it.
def joined : List (CanonicalRow Timestamp Jsonb) :=
  (store .provenance).flatMap fun provenance =>
    ((store .evidence).filter fun evidence =>
      refersTo evidence provenance ∧ concerns domainId evidence).map fun _ => provenance

-- What the three queries answer.
def raw : Captured → List (CanonicalRow Timestamp Jsonb)
  | .domain => orderBy domainOrder ((store .domain).filter (concerns domainId))
  | .evidence => orderBy (evidenceOrder collation) ((store .evidence).filter (concerns domainId))
  | .provenance => orderBy (provenanceOrder collation) (joined domainId store)

section Split

variable [DecidableEq Jsonb] (captured : Captured → List (CanonicalRow Timestamp Jsonb))

-- The position of the first captured row with that key, as text.
def resolveReference (table : Captured) (column : Column) (referenced : Captured)
    (value : Option (Cell Timestamp Jsonb)) : Except AssertionError String :=
  match (captured referenced).findIdx? fun row => row referenced.primaryKey = value with
  | some index => .ok ("<" ++ referenced.name ++ ":" ++ toString index ++ ">")
  | none => .error { table, column }

-- What a column adds to the stable part of its row.
def stableColumn (table : Captured) (row : CanonicalRow Timestamp Jsonb) (column : Column) :
    Except AssertionError (List (Column × StableValue Timestamp Jsonb)) :=
  if column ∈ VOLATILE_COLUMNS table then
    match REFERENCE_COLUMNS table column with
    | some referenced =>
        (resolveReference captured table column referenced (row column)).map fun text =>
          [(column, .token text)]
    | none => .ok []
  else
    .ok [(column, .value (row column))]

def stableRow (table : Captured) (row : CanonicalRow Timestamp Jsonb) :
    Except AssertionError (List (Column × StableValue Timestamp Jsonb)) :=
  (SELECTED_COLUMNS table).foldlM
    (fun done column => (stableColumn captured table row column).map (done ++ ·)) []

def volatileRow (table : Captured) (row : CanonicalRow Timestamp Jsonb) :
    List (Column × Option (Cell Timestamp Jsonb)) :=
  ((SELECTED_COLUMNS table).filter fun column => VOLATILE_COLUMNS table |>.contains column).map
    fun column => (column, row column)

end Split

structure CanonicalStoreSnapshot (Timestamp Jsonb : Type) where
  stable : Captured → List (List (Column × StableValue Timestamp Jsonb))
  volatile : Captured → List (List (Column × Option (Cell Timestamp Jsonb)))

def CanonicalStoreSnapshot.volatileColumnsPresent
    (snapshot : CanonicalStoreSnapshot Timestamp Jsonb) : Bool :=
  [Captured.domain, .provenance, .evidence].all fun table =>
    (snapshot.volatile table).all fun row => row.all fun entry => entry.2.isSome

def LoadableRow (reads : Cell Timestamp Jsonb → Bool) (table : Captured)
    (row : CanonicalRow Timestamp Jsonb) : Prop :=
  ∀ column ∈ SELECTED_COLUMNS table, ∀ cell, row column = some cell → reads cell = true

-- `.all()` on the answer of a query: the driver loads every column of every row.
def load (reads : Cell Timestamp Jsonb → Bool) (table : Captured)
    (rows : List (CanonicalRow Timestamp Jsonb)) : Except CaptureError Unit :=
  if rows.all fun row => (SELECTED_COLUMNS table).all fun column => (row column).all reads then
    .ok ()
  else
    .error (.unread table)

-- The two parts of the rows.
def splitRows [DecidableEq Jsonb] (captured : Captured → List (CanonicalRow Timestamp Jsonb)) :
    Except AssertionError (CanonicalStoreSnapshot Timestamp Jsonb) := do
  let domain ← (captured .domain).mapM (stableRow captured .domain)
  let provenance ← (captured .provenance).mapM (stableRow captured .provenance)
  let evidence ← (captured .evidence).mapM (stableRow captured .evidence)
  .ok
    { stable := Captured.each domain provenance evidence
      volatile := fun table => (captured table).map (volatileRow table) }

-- `reads` is whether the driver has a Python value for a cell.
def captureSnapshot [DecidableEq Jsonb] (reads : Cell Timestamp Jsonb → Bool) :
    Except CaptureError (CanonicalStoreSnapshot Timestamp Jsonb) := do
  let captured := raw collation domainId store
  load reads .domain (captured .domain)
  load reads .evidence (captured .evidence)
  load reads .provenance (captured .provenance)
  (splitRows captured).mapError .assertion

-- The driver has a value for all that the queries answer.
def Loadable (reads : Cell Timestamp Jsonb → Bool) : Prop :=
  ∀ table, ∀ row ∈ raw collation domainId store table, LoadableRow reads table row

end Capture

end TrustlistCore.Reproducibility
