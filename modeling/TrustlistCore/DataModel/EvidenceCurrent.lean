import Mathlib.Data.Prod.Lex
import TrustlistCore.DataModel
import TrustlistCore.Library.DistinctOn

namespace TrustlistCore.DataModel

open Library EventBus
open OrderDual (toDual)

-- Every column of the table.
structure EvidenceRow (Timestamp Jsonb : Type) extends Evidence Timestamp Jsonb where
  recordedAt : Timestamp
  contributorIdentity : Option Text

-- The rows in the order they are stored in, with the primary key of the table.
structure EvidenceTable (Timestamp Jsonb : Type) where
  rows : List (EvidenceRow Timestamp Jsonb)
  primaryKey : (rows.map fun row => row.evidenceId).Nodup

-- INSERT INTO evidence, which fails with the name of the constraint.
def EvidenceTable.insert {Timestamp Jsonb : Type} (table : EvidenceTable Timestamp Jsonb)
    (row : EvidenceRow Timestamp Jsonb) : Except String (EvidenceTable Timestamp Jsonb) :=
  if h : row.evidenceId ∈ table.rows.map fun row => row.evidenceId then
    .error "pk_evidence"
  else
    .ok
      { rows := table.rows ++ [row]
        primaryKey := by
          rw [List.map_append]
          exact table.primaryKey.append (List.nodup_singleton _) (by simpa using h) }

-- A `uuid` is compared by its bytes.
instance linearOrderUuid : LinearOrder Uuid :=
  LinearOrder.lift' Uuid.int fun a b h => by
    cases a
    cases b
    exact congrArg Uuid.mk h

-- A text as its column compares it. A deterministic collation is a linear order.
def Collated (_ : LinearOrder Text) : Type := Text

instance linearOrderCollated (collation : LinearOrder Text) : LinearOrder (Collated collation) :=
  collation

section View

variable {Timestamp Jsonb : Type} [LinearOrder Timestamp] (collation : LinearOrder Text)

abbrev NaturalKey : Type :=
  Uuid ×ₗ Collated collation ×ₗ Collated collation

-- (domain_id, signal_class, source_url)
def naturalKey (row : EvidenceRow Timestamp Jsonb) : NaturalKey collation :=
  toLex (row.domainId, toLex (row.signalClass, row.sourceUrl))

-- By observed_at, then by recorded_at, then by evidence_id.
def recency (row : EvidenceRow Timestamp Jsonb) : Timestamp ×ₗ Timestamp ×ₗ Uuid :=
  toLex (row.observedAt, toLex (row.recordedAt, row.evidenceId))

-- ORDER BY domain_id, signal_class, source_url,
--          observed_at DESC, recorded_at DESC, evidence_id DESC
def orderBy (row : EvidenceRow Timestamp Jsonb) :
    Uuid ×ₗ Collated collation ×ₗ Collated collation ×ₗ
      Timestampᵒᵈ ×ₗ Timestampᵒᵈ ×ₗ Uuidᵒᵈ :=
  toLex (row.domainId, toLex (row.signalClass, toLex (row.sourceUrl,
    toLex (toDual row.observedAt, toLex (toDual row.recordedAt, toDual row.evidenceId)))))

def Before (a b : EvidenceRow Timestamp Jsonb) : Prop :=
  orderBy collation a ≤ orderBy collation b

instance decidableRelBefore :
    DecidableRel (@Before Timestamp Jsonb _ collation) :=
  fun a b => LinearOrder.toDecidableLE (orderBy collation a) (orderBy collation b)

-- The query of the view.
def selectCurrent (table : EvidenceTable Timestamp Jsonb) : List (EvidenceRow Timestamp Jsonb) :=
  DistinctOn.distinctOn (naturalKey collation) (table.rows.insertionSort (Before collation))

-- The materialised rows, with the unique index on them.
structure EvidenceCurrent (Timestamp Jsonb : Type) (collation : LinearOrder Text) where
  rows : List (EvidenceRow Timestamp Jsonb)
  uxNaturalKey : (rows.map (naturalKey collation)).Nodup

-- REFRESH MATERIALIZED VIEW evidence_current, which the index may make fail. The greatest size
-- of an index entry, which the key of a long `source_url` passes, is not modelled.
def refresh (table : EvidenceTable Timestamp Jsonb) :
    Except String (EvidenceCurrent Timestamp Jsonb collation) :=
  if h : ((selectCurrent collation table).map (naturalKey collation)).Nodup then
    .ok ⟨selectCurrent collation table, h⟩
  else
    .error "ux_evidence_current_natural_key"

variable {collation}

-- The natural key comes first in the order, so the rows of one key stand together, the
-- latest at their head.
theorem orderBy_lt_iff {a b : EvidenceRow Timestamp Jsonb} :
    orderBy collation a < orderBy collation b ↔
      naturalKey collation a < naturalKey collation b ∨
        naturalKey collation a = naturalKey collation b ∧ recency b < recency a := by
  unfold orderBy naturalKey recency
  simp only [Prod.Lex.toLex_lt_toLex, OrderDual.toDual_lt_toDual, EmbeddingLike.apply_eq_iff_eq,
    Prod.ext_iff, eq_comm (a := b.observedAt), eq_comm (a := b.recordedAt)]
  tauto

omit [LinearOrder Timestamp] in
theorem evidenceId_eq_of_orderBy_eq {a b : EvidenceRow Timestamp Jsonb}
    (h : orderBy collation a = orderBy collation b) : a.evidenceId = b.evidenceId := by
  unfold orderBy at h
  simp only [EmbeddingLike.apply_eq_iff_eq, Prod.ext_iff] at h
  exact h.2.2.2.2.2

omit [LinearOrder Timestamp] in
theorem orderBy_injOn (table : EvidenceTable Timestamp Jsonb) {a b : EvidenceRow Timestamp Jsonb}
    (ha : a ∈ table.rows) (hb : b ∈ table.rows) (h : orderBy collation a = orderBy collation b) :
    a = b :=
  List.inj_on_of_nodup_map table.primaryKey ha hb (evidenceId_eq_of_orderBy_eq h)

-- Any arrangement of the rows that the sort may return is ranked.
theorem ranked_of_sorted {table : EvidenceTable Timestamp Jsonb}
    {sorted : List (EvidenceRow Timestamp Jsonb)} (hperm : sorted.Perm table.rows)
    (hsorted : sorted.Pairwise (Before collation)) :
    DistinctOn.Ranked (naturalKey collation) recency sorted := by
  have hnodup : sorted.Nodup := hperm.nodup_iff.mpr (List.Nodup.of_map _ table.primaryKey)
  refine (hsorted.and hnodup).imp_of_mem ?_
  rintro a b ha hb ⟨hle, hne⟩
  rw [← orderBy_lt_iff]
  refine lt_of_le_of_ne hle ?_
  intro heq
  exact hne (orderBy_injOn table (hperm.mem_iff.mp ha) (hperm.mem_iff.mp hb) heq)

theorem sorted_insertionSort (rows : List (EvidenceRow Timestamp Jsonb)) :
    (rows.insertionSort (Before collation)).Pairwise (Before collation) := by
  have htotal : Std.Total (@Before Timestamp Jsonb _ collation) :=
    ⟨fun a b => le_total (orderBy collation a) (orderBy collation b)⟩
  have htrans : IsTrans (EvidenceRow Timestamp Jsonb) (Before collation) :=
    ⟨fun a b c hab hbc => le_trans (α := _ ×ₗ _) hab hbc⟩
  exact List.pairwise_insertionSort _ rows

-- What the view shows of a table: of every natural key that occurs, the latest row.
structure ShowsLatest (collation : LinearOrder Text) (table : EvidenceTable Timestamp Jsonb)
    (view : List (EvidenceRow Timestamp Jsonb)) : Prop where
  latest : ∀ row, row ∈ view ↔ row ∈ table.rows ∧ ∀ other ∈ table.rows,
    naturalKey collation other = naturalKey collation row → recency other ≤ recency row
  one : (view.map (naturalKey collation)).Nodup
  occurs : ∀ key, key ∈ view.map (naturalKey collation) ↔
    key ∈ table.rows.map (naturalKey collation)

section Sorted

variable {table : EvidenceTable Timestamp Jsonb} {sorted : List (EvidenceRow Timestamp Jsonb)}

theorem showsLatest_of_sorted (hperm : sorted.Perm table.rows)
    (hsorted : sorted.Pairwise (Before collation)) :
    ShowsLatest collation table (DistinctOn.distinctOn (naturalKey collation) sorted) := by
  have hranked := ranked_of_sorted hperm hsorted
  constructor
  · intro row
    rw [DistinctOn.mem_distinctOn_iff hranked]
    simp only [hperm.mem_iff]
  · exact DistinctOn.nodup_keys_distinctOn hranked
  · intro key
    rw [DistinctOn.mem_keys_distinctOn_iff]
    exact (hperm.map _).mem_iff

theorem selectCurrent_eq_of_sorted (hperm : sorted.Perm table.rows)
    (hsorted : sorted.Pairwise (Before collation)) :
    selectCurrent collation table = DistinctOn.distinctOn (naturalKey collation) sorted := by
  have hinsertion := List.perm_insertionSort (Before collation) table.rows
  have hown : (table.rows.insertionSort (Before collation)).Pairwise (Before collation) :=
    sorted_insertionSort table.rows
  apply DistinctOn.eq_of_mem_iff
    (DistinctOn.pairwise_distinctOn (ranked_of_sorted hinsertion hown))
    (DistinctOn.pairwise_distinctOn (ranked_of_sorted hperm hsorted))
  intro row
  rw [(showsLatest_of_sorted hinsertion hown).latest, (showsLatest_of_sorted hperm hsorted).latest]

end Sorted

theorem showsLatest (table : EvidenceTable Timestamp Jsonb) :
    ShowsLatest collation table (selectCurrent collation table) :=
  showsLatest_of_sorted (List.perm_insertionSort _ _) (sorted_insertionSort _)

theorem pairwise_selectCurrent (table : EvidenceTable Timestamp Jsonb) :
    (selectCurrent collation table).Pairwise fun a b =>
      naturalKey collation a < naturalKey collation b :=
  DistinctOn.pairwise_distinctOn
    (ranked_of_sorted (List.perm_insertionSort _ _) (sorted_insertionSort _))

theorem selectCurrent_perm {table other : EvidenceTable Timestamp Jsonb}
    (hperm : other.rows.Perm table.rows) :
    selectCurrent collation other = selectCurrent collation table :=
  (selectCurrent_eq_of_sorted ((List.perm_insertionSort _ _).trans hperm)
    (sorted_insertionSort _)).symm

section Insert

variable {table next : EvidenceTable Timestamp Jsonb} {row : EvidenceRow Timestamp Jsonb}

omit [LinearOrder Timestamp] in
theorem EvidenceTable.insert_eq_ok (h : table.insert row = .ok next) :
    next.rows = table.rows ++ [row] ∧
      row.evidenceId ∉ table.rows.map fun row => row.evidenceId := by
  unfold EvidenceTable.insert at h
  split_ifs at h with hkey
  cases h
  exact ⟨rfl, hkey⟩

omit [LinearOrder Timestamp] in
theorem mem_insert_iff (h : table.insert row = .ok next) {kept : EvidenceRow Timestamp Jsonb} :
    kept ∈ next.rows ↔ kept ∈ table.rows ∨ kept = row := by
  rw [(EvidenceTable.insert_eq_ok h).1, List.mem_append, List.mem_singleton]

-- What a row that is added takes away and what it brings.
theorem mem_selectCurrent_insert (h : table.insert row = .ok next)
    (kept : EvidenceRow Timestamp Jsonb) :
    kept ∈ selectCurrent collation next ↔
      kept ∈ selectCurrent collation table ∧
          (naturalKey collation row = naturalKey collation kept → recency row ≤ recency kept) ∨
        kept = row ∧ ∀ other ∈ table.rows,
          naturalKey collation other = naturalKey collation row → recency other ≤ recency row := by
  rw [(showsLatest next).latest, (showsLatest table).latest]
  simp only [mem_insert_iff h, or_imp, forall_and, forall_eq, or_and_right, and_assoc]
  apply or_congr_right
  apply and_congr_right
  rintro rfl
  exact and_iff_left fun _ => le_rfl

theorem recency_le_current {current : EvidenceRow Timestamp Jsonb}
    (hcurrent : current ∈ selectCurrent collation table)
    (hkey : naturalKey collation current = naturalKey collation row)
    {other : EvidenceRow Timestamp Jsonb} (hother : other ∈ table.rows)
    (hsame : naturalKey collation other = naturalKey collation row) :
    recency other ≤ recency current :=
  ((showsLatest table).latest current |>.mp hcurrent).2 other hother (hsame.trans hkey.symm)

-- A row that is not later than the current one of its key is not seen.
theorem selectCurrent_late (h : table.insert row = .ok next)
    {current : EvidenceRow Timestamp Jsonb} (hcurrent : current ∈ selectCurrent collation table)
    (hkey : naturalKey collation current = naturalKey collation row)
    (hlate : recency row ≤ recency current) :
    selectCurrent collation next = selectCurrent collation table := by
  have hstored : current ∈ table.rows := ((showsLatest table).latest current |>.mp hcurrent).1
  have hbelow : ¬ recency current ≤ recency row := by
    intro hle
    have heq : recency current = recency row := le_antisymm hle hlate
    have hid : current.evidenceId = row.evidenceId := by
      unfold recency at heq
      simp only [EmbeddingLike.apply_eq_iff_eq, Prod.ext_iff] at heq
      exact heq.2.2
    exact (EvidenceTable.insert_eq_ok h).2 (hid ▸ List.mem_map_of_mem hstored)
  apply DistinctOn.eq_of_mem_iff (pairwise_selectCurrent next) (pairwise_selectCurrent table)
  intro kept
  rw [mem_selectCurrent_insert h]
  constructor
  · rintro (⟨hkept, -⟩ | ⟨-, htop⟩)
    · exact hkept
    · exact absurd (htop current hstored hkey) hbelow
  · intro hkept
    left
    refine ⟨hkept, ?_⟩
    intro hsame
    exact hlate.trans (((showsLatest table).latest kept |>.mp hkept).2 current hstored
      (hkey.trans hsame))

-- A later row takes the place of the current one and leaves the others where they are.
theorem selectCurrent_newer (h : table.insert row = .ok next)
    {current : EvidenceRow Timestamp Jsonb} (hcurrent : current ∈ selectCurrent collation table)
    (hkey : naturalKey collation current = naturalKey collation row)
    (hnewer : recency current < recency row) :
    selectCurrent collation next = (selectCurrent collation table).map fun kept =>
      if naturalKey collation kept = naturalKey collation row then row else kept := by
  have hkeys : ∀ kept : EvidenceRow Timestamp Jsonb,
      naturalKey collation
        (if naturalKey collation kept = naturalKey collation row then row else kept) =
          naturalKey collation kept := by
    intro kept
    split
    · rename_i hsame
      exact hsame.symm
    · rfl
  have hordered : ((selectCurrent collation table).map fun kept =>
      if naturalKey collation kept = naturalKey collation row then row else kept).Pairwise
        fun a b => naturalKey collation a < naturalKey collation b := by
    rw [List.pairwise_map]
    simp only [hkeys]
    exact pairwise_selectCurrent table
  apply DistinctOn.eq_of_mem_iff (pairwise_selectCurrent next) hordered
  intro kept
  rw [mem_selectCurrent_insert h, List.mem_map]
  constructor
  · rintro (⟨hkept, hsame⟩ | ⟨rfl, -⟩)
    · refine ⟨kept, hkept, if_neg ?_⟩
      intro heq
      have hle : recency kept ≤ recency current := by
        have hstored : kept ∈ table.rows := ((showsLatest table).latest kept |>.mp hkept).1
        exact recency_le_current hcurrent hkey hstored heq
      exact absurd (hsame heq.symm) (hle.trans_lt hnewer).not_ge
    · exact ⟨current, hcurrent, if_pos hkey⟩
  · rintro ⟨old, hold, rfl⟩
    by_cases hsame : naturalKey collation old = naturalKey collation row
    · right
      rw [if_pos hsame]
      refine ⟨rfl, ?_⟩
      intro other hother heq
      exact (recency_le_current hcurrent hkey hother heq).trans hnewer.le
    · left
      rw [if_neg hsame]
      exact ⟨hold, fun heq => absurd heq.symm hsame⟩

-- A row with a key of its own is added.
theorem mem_selectCurrent_fresh (h : table.insert row = .ok next)
    (hfresh : naturalKey collation row ∉ table.rows.map (naturalKey collation))
    (kept : EvidenceRow Timestamp Jsonb) :
    kept ∈ selectCurrent collation next ↔
      kept ∈ selectCurrent collation table ∨ kept = row := by
  have hother : ∀ other ∈ table.rows, naturalKey collation other ≠ naturalKey collation row := by
    intro other ho heq
    exact hfresh (heq ▸ List.mem_map_of_mem ho)
  rw [mem_selectCurrent_insert h]
  apply or_congr
  · apply and_iff_left_of_imp
    intro hkept heq
    have hstored : kept ∈ table.rows := ((showsLatest table).latest kept |>.mp hkept).1
    exact absurd heq.symm (hother kept hstored)
  · apply and_iff_left_of_imp
    intro _ other ho heq
    exact absurd heq (hother other ho)

end Insert

variable (collation)

-- The view that a refresh leaves.
def current (table : EvidenceTable Timestamp Jsonb) :
    EvidenceCurrent Timestamp Jsonb collation where
  rows := selectCurrent collation table
  uxNaturalKey := (showsLatest table).one

theorem refresh_eq (table : EvidenceTable Timestamp Jsonb) :
    refresh collation table = .ok (current collation table) :=
  dif_pos (showsLatest table).one

-- The view over every table: a refresh succeeds and shows the latest row of every key that
-- occurs, however the rows are stored and sorted, and an insertion only ever touches the
-- row of its own key.
theorem evidence_current_latest (table : EvidenceTable Timestamp Jsonb) :
    ∃ view, refresh collation table = .ok view ∧ ShowsLatest collation table view.rows ∧
      (∀ sorted : List (EvidenceRow Timestamp Jsonb), sorted.Perm table.rows →
        sorted.Pairwise (Before collation) →
          DistinctOn.distinctOn (naturalKey collation) sorted = view.rows) ∧
      (∀ other : EvidenceTable Timestamp Jsonb, other.rows.Perm table.rows →
        refresh collation other = .ok view) ∧
      ∀ row next, table.insert row = .ok next → ∃ after, refresh collation next = .ok after ∧
        (∀ shown ∈ view.rows, naturalKey collation shown = naturalKey collation row →
          (recency row ≤ recency shown → after = view) ∧
          (recency shown < recency row → after.rows = view.rows.map fun kept =>
            if naturalKey collation kept = naturalKey collation row then row else kept)) ∧
        (naturalKey collation row ∉ table.rows.map (naturalKey collation) →
          ∀ kept, kept ∈ after.rows ↔ kept ∈ view.rows ∨ kept = row) := by
  have hsame : ∀ {a b : EvidenceTable Timestamp Jsonb},
      selectCurrent collation a = selectCurrent collation b →
        current collation a = current collation b := by
    intro a b h
    unfold current
    simp only [h]
  refine ⟨current collation table, refresh_eq collation table, showsLatest table, ?_, ?_, ?_⟩
  · intro sorted hperm hsorted
    exact (selectCurrent_eq_of_sorted hperm hsorted).symm
  · intro other hperm
    rw [refresh_eq, hsame (selectCurrent_perm hperm)]
  · intro row next hinsert
    refine ⟨current collation next, refresh_eq collation next, ?_, ?_⟩
    · intro shown hshown hkey
      constructor
      · intro hlate
        exact hsame (selectCurrent_late hinsert hshown hkey hlate)
      · intro hnewer
        exact selectCurrent_newer hinsert hshown hkey hnewer
    · intro hfresh kept
      exact mem_selectCurrent_fresh hinsert hfresh kept

end View

end TrustlistCore.DataModel
