import TrustlistCore.DataModel.CanonicalDatabase

namespace TrustlistCore.DataModel.CanonicalStore

open Library Relational

section Progress

variable {Timestamp Jsonb : Type} [LinearOrder Timestamp]
variable {server : Server Timestamp Jsonb} {collation : LinearOrder Text}

-- The store with the view as it was last refreshed.
structure Deployment (server : Server Timestamp Jsonb) (collation : LinearOrder Text) where
  database : CanonicalDatabase server
  evidenceCurrent : EvidenceCurrent Timestamp Jsonb collation

-- The application works on the tables, the maintenance role refreshes the view. The index of the
-- view takes a key of any size here.
inductive Operation (Timestamp Jsonb : Type)
  | transaction (statements : List (CanonicalStatement Timestamp Jsonb))
  | refresh

inductive Answer
  | transaction (answer : Except (Refusal Table Column) Unit)
  | refresh (answer : Except String Unit)

namespace Deployment

-- As the migration leaves it.
def upgrade : Deployment server collation where
  database := CanonicalDatabase.empty
  evidenceCurrent := current collation (CanonicalDatabase.empty : CanonicalDatabase server).evidence

def rows (deployment : Deployment server collation) : List (EvidenceRow Timestamp Jsonb) :=
  deployment.database.evidence.rows

-- The view shows, under the key of a row, one that is no older.
def Covers (deployment : Deployment server collation) (row : EvidenceRow Timestamp Jsonb) : Prop :=
  ∃ shown ∈ deployment.evidenceCurrent.rows,
    naturalKey collation shown = naturalKey collation row ∧ recency row ≤ recency shown

theorem covers_of_shown {deployment : Deployment server collation}
    {row : EvidenceRow Timestamp Jsonb} (h : row ∈ deployment.evidenceCurrent.rows) :
    deployment.Covers row :=
  ⟨row, h, rfl, le_rfl⟩

-- Of the rows of a key that occurs, the view has the latest.
theorem exists_latest (table : EvidenceTable Timestamp Jsonb) {row : EvidenceRow Timestamp Jsonb}
    (hrow : row ∈ table.rows) :
    ∃ shown ∈ selectCurrent collation table,
      naturalKey collation shown = naturalKey collation row ∧ recency row ≤ recency shown := by
  have hoccurs : naturalKey collation row ∈ table.rows.map (naturalKey collation) :=
    List.mem_map_of_mem hrow
  rw [← (showsLatest table).occurs, List.mem_map] at hoccurs
  obtain ⟨shown, hshown, hkey⟩ := hoccurs
  exact ⟨shown, hshown, hkey, ((showsLatest table).latest shown |>.mp hshown).2 row hrow hkey.symm⟩

-- The rows of the view are rows of the table.
def Stored (deployment : Deployment server collation) : Prop :=
  ∀ shown ∈ deployment.evidenceCurrent.rows, shown ∈ deployment.rows

theorem stored_upgrade : (upgrade : Deployment server collation).Stored := by
  intro shown hshown
  have hempty : shown ∈ selectCurrent collation
      (CanonicalDatabase.empty : CanonicalDatabase server).evidence := hshown
  exact ((showsLatest _).latest shown |>.mp hempty).1

variable [DecidableEq Jsonb]

def operate (deployment : Deployment server collation) :
    Operation Timestamp Jsonb → Answer × Deployment server collation
  | .transaction statements =>
      let result := deployment.database.transact statements
      (.transaction result.1, { deployment with database := result.2 })
  | .refresh =>
      match refresh collation deployment.database.evidence with
      | .ok view => (.refresh (.ok ()), { deployment with evidenceCurrent := view })
      | .error constraint => (.refresh (.error constraint), deployment)

abbrev OperationRun (start : Deployment server collation)
    (trace : List (Operation Timestamp Jsonb × Answer)) (last : Deployment server collation) :
    Prop :=
  Run operate (fun _ _ => True) start trace last

theorem operate_refresh (deployment : Deployment server collation) :
    deployment.operate .refresh =
      (.refresh (.ok ()),
        { deployment with evidenceCurrent := current collation deployment.database.evidence }) := by
  unfold operate
  rw [refresh_eq]

theorem rows_operate (deployment : Deployment server collation)
    (operation : Operation Timestamp Jsonb) :
    deployment.rows <+: (deployment.operate operation).2.rows := by
  cases operation with
  | transaction statements =>
      have hfront : deployment.database.store .evidence <+:
          (deployment.database.transact statements).2.store .evidence :=
        prefix_transact statements (appendOnly_iff.mpr (by decide))
      exact hfront.filterMap readEvidence
  | refresh =>
      have hsame : (deployment.operate .refresh).2.rows = deployment.rows := by
        simp only [operate_refresh, rows]
      simp only [hsame, List.prefix_rfl]

theorem stored_operate {deployment : Deployment server collation} (hstored : deployment.Stored)
    (operation : Operation Timestamp Jsonb) : (deployment.operate operation).2.Stored := by
  cases operation with
  | transaction statements =>
      intro shown hshown
      exact (rows_operate deployment (.transaction statements)).subset (hstored shown hshown)
  | refresh =>
      rw [operate_refresh]
      intro shown hshown
      exact ((showsLatest deployment.database.evidence).latest shown |>.mp hshown).1

theorem covers_refresh {deployment : Deployment server collation}
    {row : EvidenceRow Timestamp Jsonb} (hrow : row ∈ deployment.rows) :
    (deployment.operate .refresh).2.Covers row := by
  rw [operate_refresh]
  exact exists_latest deployment.database.evidence hrow

-- A row that is covered stays covered: a transaction leaves the view as it is, and a refresh
-- finds the row that covered it among those of the table.
theorem covers_operate {deployment : Deployment server collation} (hstored : deployment.Stored)
    {row : EvidenceRow Timestamp Jsonb} (hcovers : deployment.Covers row)
    (operation : Operation Timestamp Jsonb) : (deployment.operate operation).2.Covers row := by
  cases operation with
  | transaction statements => exact hcovers
  | refresh =>
      obtain ⟨shown, hshown, hkey, hle⟩ := hcovers
      obtain ⟨later, hlater, hsame, hrecency⟩ := covers_refresh (hstored shown hshown)
      exact ⟨later, hlater, hsame.trans hkey, hle.trans hrecency⟩

theorem stored_run {start last : Deployment server collation}
    {trace : List (Operation Timestamp Jsonb × Answer)} (hrun : OperationRun start trace last)
    (hstart : start.Stored) : last.Stored :=
  hrun.invariant (P := Stored) (fun _ operation hstored _ => stored_operate hstored operation)
    hstart

theorem covers_run {start last : Deployment server collation}
    {trace : List (Operation Timestamp Jsonb × Answer)} (hrun : OperationRun start trace last)
    (hstart : start.Stored) {row : EvidenceRow Timestamp Jsonb} (hcovers : start.Covers row) :
    last.Covers row :=
  (hrun.invariant (P := fun state => state.Stored ∧ state.Covers row)
    (fun _ operation h _ => ⟨stored_operate h.1 operation, covers_operate h.1 h.2 operation⟩)
    ⟨hstart, hcovers⟩).2

theorem rows_run {start last : Deployment server collation}
    {trace : List (Operation Timestamp Jsonb × Answer)} (hrun : OperationRun start trace last) :
    start.rows <+: last.rows :=
  hrun.invariant (P := fun deployment => start.rows <+: deployment.rows)
    (fun deployment operation hfront _ => hfront.trans (rows_operate deployment operation))
    (List.prefix_refl _)

-- The view only moves forward: no refresh fails, what it shows is evidence that is still
-- stored, and what it showed once or what was stored at a refresh is from then on covered.
theorem view_progress {before after : List (Operation Timestamp Jsonb × Answer)}
    {deployment last : Deployment server collation}
    (hbefore : OperationRun upgrade before deployment)
    (hafter : OperationRun deployment after last) :
    (∀ answer, (Operation.refresh, answer) ∈ after → answer = .refresh (.ok ())) ∧
      (∀ shown ∈ deployment.evidenceCurrent.rows, shown ∈ last.rows ∧ last.Covers shown) ∧
        ∀ first answer rest, after = first ++ (.refresh, answer) :: rest →
          ∀ row ∈ deployment.rows, last.Covers row := by
  have hstored := stored_run hbefore stored_upgrade
  refine ⟨?_, ?_, ?_⟩
  · intro answer hmem
    obtain ⟨first, rest, hsplit⟩ := List.append_of_mem hmem
    obtain ⟨state, _, _, hanswer, _⟩ := hafter.exists_step first _ rest hsplit
    have hrefresh : answer = (state.operate .refresh).1 := hanswer
    rw [hrefresh, operate_refresh]
  · intro shown hshown
    exact ⟨(rows_run hafter).subset (hstored shown hshown),
      covers_run hafter hstored (covers_of_shown hshown)⟩
  · intro first answer rest hsplit row hrow
    obtain ⟨state, hfirst, _, _, hrest⟩ := hafter.exists_step first _ rest hsplit
    have hstate : state.Stored := stored_run hfirst hstored
    apply covers_run hrest (stored_operate hstate .refresh)
    exact covers_refresh ((rows_run hfirst).subset hrow)

end Deployment

end Progress

section Sample

open Deployment

abbrev byPoints : LinearOrder Text :=
  List.instLinearOrder

def afterEach (deployment : Deployment plainServer byPoints)
    (operations : List (Operation ℕ Bool)) : Deployment plainServer byPoints :=
  operations.foldl (fun deployment operation => (deployment.operate operation).2) deployment

def shownOnce : Deployment plainServer byPoints :=
  afterEach upgrade [.transaction observed, .refresh]

-- A later observation of the same signal.
def observedAgain : List (CanonicalStatement ℕ Bool) :=
  [.insert .evidence
    (values [(.domainId, .uuid ⟨1⟩), (.signalClass, .text [0x73]), (.source, .label "system"),
      (.method, .text [0x6D]), (.observedAt, .timestamp 6), (.observedValue, .jsonb false),
      (.provenanceId, .uuid ⟨2⟩)]) ⟨⟨4⟩, 7⟩]

theorem view_progress_observed :
    shownOnce.evidenceCurrent.rows.length = 1 ∧
      ∀ shown ∈ shownOnce.evidenceCurrent.rows,
        (afterEach shownOnce [.transaction observedAgain, .refresh]).Covers shown := by
  obtain ⟨before, hbefore⟩ := Run.of_inputs operate (upgrade : Deployment plainServer byPoints)
    [.transaction observed, .refresh]
  obtain ⟨after, hafter⟩ := Run.of_inputs operate shownOnce [.transaction observedAgain, .refresh]
  refine ⟨by decide, ?_⟩
  intro shown hshown
  exact ((view_progress hbefore hafter).2.1 shown hshown).2

end Sample

end TrustlistCore.DataModel.CanonicalStore
