import Mathlib.Data.Rat.Encodable
import TrustlistCore.EventBus.Envelope.Theorems
import TrustlistCore.EventBus.Idempotency.Theorems
import TrustlistCore.Library.Pointwise
import TrustlistCore.Reproducibility.StableBytes

namespace TrustlistCore.Reproducibility

open Library Unicode Relational OrderBy DataModel EventBus
open EventBus.Value (arranged Readable Writable Scalar Prints)
open EventBus.Idempotency (canonical canonicalJson)
open CanonicalStore hiding Store

variable {Timestamp Jsonb : Type} {driver : Driver Timestamp Jsonb} {maxStrDigits : ℕ}

theorem charPoint_injective : Function.Injective Json.charPoint := by
  intro c d h
  exact Char.toNat_inj.mp (congrArg (fun point : CodePoint => point.val) h)

theorem points_injective : Function.Injective points := by
  intro a b h
  exact String.toList_inj.mp (List.map_injective_iff.mpr charPoint_injective h)

theorem text_injective : Function.Injective Uuid.text := by
  intro a b h
  have hread := Uuid.read_text a
  rw [h, Uuid.read_text b] at hread
  exact (Option.some.inj hread).symm

theorem uuidPoints_injective :
    Function.Injective fun value : Uuid => value.text.map Json.charPoint := by
  intro a b h
  exact text_injective (List.map_injective_iff.mpr charPoint_injective h)

section Cells

-- Of two cells of one type, the rendered texts are equal just where the contents are.
theorem arranged_cell_iff (hdriver : driver.Lawful maxStrDigits) {type : ColumnType}
    {a b : Cell Timestamp Jsonb} (ha : type.admits a = true) (hb : type.admits b = true)
    (hreadsA : driver.reads a = true) (hreadsB : driver.reads b = true) :
    arranged (driver.cell a) = arranged (driver.cell b) ↔ SameCell driver a b := by
  cases type <;> cases a <;> simp [ColumnType.admits] at ha <;> cases b <;>
    simp [ColumnType.admits] at hb
  case uuid a b =>
    simp only [Driver.cell, arranged, SameCell, Value.str.injEq, Cell.uuid.injEq]
    exact uuidPoints_injective.eq_iff
  case varchar => simp [Driver.cell, arranged, SameCell]
  case text => simp [Driver.cell, arranged, SameCell]
  case enum => simp [Driver.cell, arranged, SameCell, points_injective.eq_iff]
  case timestamptz =>
    simp [Driver.cell, arranged, SameCell, hdriver.isoformat.eq_iff hreadsA hreadsB]
  case numeric => simp [Driver.cell, arranged, SameCell, hdriver.decimal.eq_iff]
  case boolean => simp [Driver.cell, arranged, SameCell]
  case jsonb => exact Iff.rfl
  case bytea => simp [Driver.cell, arranged, SameCell, hdriver.bytes.eq_iff]
  case inet => simp [Driver.cell, arranged, SameCell]

-- Only a document can be rendered as NULL is.
theorem arranged_cell_ne_none {type : ColumnType} {cell : Cell Timestamp Jsonb}
    (h : type.admits cell = true) (htype : type ≠ .jsonb) :
    arranged (driver.cell cell) ≠ .none := by
  cases cell with
  | jsonb value => cases type <;> simp_all [ColumnType.admits]
  | _ => simp [Driver.cell, arranged]

theorem writable_cell (hdriver : driver.Lawful maxStrDigits) {cell : Cell Timestamp Jsonb}
    (hreads : driver.reads cell = true)
    (hscalar : ∀ text, cell = .text text ∨ cell = .inet text → Scalar text) :
    Writable (driver.cell cell) := by
  cases cell with
  | uuid value => exact decode16_utf16 (Value.scalar_charPoints value.text)
  | text value => exact decode16_utf16 (hscalar value (.inl rfl))
  | label value => exact Value.joined_points value
  | timestamp value => exact decode16_utf16 (hdriver.isoformat_scalar value)
  | numeric value => exact decode16_utf16 (hdriver.decimal_scalar value)
  | boolean value => trivial
  | jsonb value => exact Value.Readable.writable (hdriver.loads value hreads)
  | bytea value => exact decode16_utf16 (hdriver.bytes_scalar value)
  | inet value => exact decode16_utf16 (hscalar value (.inr rfl))

theorem prints_cell (hdriver : driver.Lawful maxStrDigits) {cell : Cell Timestamp Jsonb}
    (hreads : driver.reads cell = true) :
    Value.Every (Prints canonical maxStrDigits) (driver.cell cell) := by
  cases cell with
  | jsonb value => exact hdriver.loads_prints value hreads
  | text value => trivial
  | label value => trivial
  | boolean value => trivial
  | _ => exact rfl

end Cells

section Rows

-- The columns that a snapshot's stable rows have.
def stableColumns (table : Captured) : List Column :=
  (SELECTED_COLUMNS table).filter fun column =>
    column ∉ VOLATILE_COLUMNS table ∨ (REFERENCE_COLUMNS table column).isSome

-- The entry that a row of the database has for a column in the stable part.
def Stands (table : Captured) (row : CanonicalRow Timestamp Jsonb) (column : Column)
    (entry : Column × StableValue Timestamp Jsonb) : Prop :=
  entry.1 = column ∧
    (column ∈ VOLATILE_COLUMNS table ∧ (∃ text, entry.2 = .token text) ∨
      column ∈ SELECTED_COLUMNS table ∧ column ∉ VOLATILE_COLUMNS table ∧
        entry.2 = .value (row column))

variable {captured : Captured → List (CanonicalRow Timestamp Jsonb)} {table : Captured}
variable {row : CanonicalRow Timestamp Jsonb}

theorem stands_of_stableColumn [DecidableEq Jsonb] [LinearOrder Timestamp] {column : Column}
    (hselected : column ∈ SELECTED_COLUMNS table)
    {added : List (Column × StableValue Timestamp Jsonb)}
    (h : stableColumn captured table row column = .ok added) :
    List.Forall₂ (Stands table row)
      ([column].filter fun column =>
        column ∉ VOLATILE_COLUMNS table ∨ (REFERENCE_COLUMNS table column).isSome) added := by
  unfold stableColumn at h
  by_cases hvolatile : column ∈ VOLATILE_COLUMNS table
  · rw [if_pos hvolatile] at h
    cases hreference : REFERENCE_COLUMNS table column with
    | none =>
        simp only [hreference] at h
        obtain rfl := Except.ok.inj h
        simp [hvolatile, hreference]
    | some referenced =>
        simp only [hreference] at h
        obtain ⟨text, -, rfl⟩ := Result.map_eq_ok.mp h
        simp [hreference, Stands, hvolatile]
  · rw [if_neg hvolatile] at h
    obtain rfl := Except.ok.inj h
    simp [hvolatile, hselected, Stands]

-- A stable row has the stable columns in their order.
theorem stands_of_stableRow [DecidableEq Jsonb] [LinearOrder Timestamp]
    {columns : List (Column × StableValue Timestamp Jsonb)}
    (h : stableRow captured table row = .ok columns) :
    List.Forall₂ (Stands table row) (stableColumns table) columns := by
  have hrest : ∀ (rest : List Column) (done last : List (Column × StableValue Timestamp Jsonb)),
      (∀ column ∈ rest, column ∈ SELECTED_COLUMNS table) →
      rest.foldlM (fun done column =>
        (stableColumn captured table row column).map (done ++ ·)) done = .ok last →
      ∃ added, last = done ++ added ∧ List.Forall₂ (Stands table row)
        (rest.filter fun column =>
          column ∉ VOLATILE_COLUMNS table ∨ (REFERENCE_COLUMNS table column).isSome) added := by
    intro rest
    induction rest with
    | nil =>
        intro done last _ hlast
        obtain rfl := Except.ok.inj hlast
        exact ⟨[], (List.append_nil _).symm, .nil⟩
    | cons column rest ih =>
        intro done last hselected hlast
        rw [List.foldlM_cons] at hlast
        obtain ⟨next, hnext, hlater⟩ := Result.bind_eq_ok.mp hlast
        obtain ⟨first, hfirst, rfl⟩ := Result.map_eq_ok.mp hnext
        obtain ⟨added, rfl, hadded⟩ := ih _ _
          (fun other hother => hselected other (List.mem_cons_of_mem _ hother)) hlater
        refine ⟨first ++ added, List.append_assoc _ _ _, ?_⟩
        have hhead := stands_of_stableColumn (hselected column List.mem_cons_self) hfirst
        rw [← List.singleton_append, List.filter_append]
        exact List.rel_append hhead hadded
  obtain ⟨added, rfl, hadded⟩ := hrest _ [] columns (fun _ h => h) h
  exact hadded

theorem nodup_stableColumns (table : Captured) :
    ((stableColumns table).map fun column => points (columnName column)).Nodup := by
  cases table <;> decide +kernel

variable {server : Server Timestamp Jsonb}

-- Every stable column is of some type, and one that holds documents is required.
theorem exists_type (server : Server Timestamp Jsonb) {column : Column}
    (hselected : column ∈ SELECTED_COLUMNS table) (hstable : column ∉ VOLATILE_COLUMNS table) :
    ∃ known ∈ ((schema server).define table.table).columns, ∃ type : ColumnType,
      known.column = column ∧ known.admits = type.admits ∧
        (type = .jsonb → known.nullable = false) := by
  revert hselected hstable
  cases table <;> intro hselected hstable <;>
    simp only [SELECTED_COLUMNS, List.mem_cons, List.not_mem_nil, or_false] at hselected
  · rcases hselected with rfl | rfl | rfl | rfl | rfl | rfl | rfl | rfl <;>
      simp [VOLATILE_COLUMNS] at hstable
    · exact ⟨required .normalisedUrl (.varchar 255),
        by simp [schema, createTable, domain, Captured.table], _, rfl, rfl, fun _ => rfl⟩
    · exact ⟨required .currentStatus domainStatus,
        by simp [schema, createTable, domain, Captured.table], _, rfl, rfl, fun _ => rfl⟩
    · exact ⟨optional .currentScore (.numeric 6 3),
        by simp [schema, createTable, domain, Captured.table], _, rfl, rfl, by simp⟩
    · exact ⟨optional .scoreVersion .text,
        by simp [schema, createTable, domain, Captured.table], _, rfl, rfl, by simp⟩
    · exact ⟨optional .lastScoredAt .timestamptz,
        by simp [schema, createTable, domain, Captured.table], _, rfl, rfl, by simp⟩
  · rcases hselected with rfl | rfl | rfl | rfl | rfl | rfl | rfl <;>
      simp [VOLATILE_COLUMNS] at hstable
    · exact ⟨required .source evidenceSource,
        by simp [schema, createTable, provenance, Captured.table], _, rfl, rfl, fun _ => rfl⟩
    · exact ⟨required .method .text,
        by simp [schema, createTable, provenance, Captured.table], _, rfl, rfl, fun _ => rfl⟩
    · exact ⟨required .observedAt .timestamptz,
        by simp [schema, createTable, provenance, Captured.table], _, rfl, rfl, fun _ => rfl⟩
    · exact ⟨optional .contributorId .uuid,
        by simp [schema, createTable, provenance, Captured.table], _, rfl, rfl, by simp⟩
    · exact ⟨optional .contributorIdentity .text,
        by simp [schema, createTable, provenance, Captured.table], _, rfl, rfl, by simp⟩
  · rcases hselected with rfl | rfl | rfl | rfl | rfl | rfl | rfl | rfl | rfl | rfl | rfl <;>
      simp [VOLATILE_COLUMNS] at hstable
    · exact ⟨required .signalClass .text,
        by simp [schema, createTable, evidence, Captured.table], _, rfl, rfl, fun _ => rfl⟩
    · exact ⟨required .source evidenceSource,
        by simp [schema, createTable, evidence, Captured.table], _, rfl, rfl, fun _ => rfl⟩
    · exact ⟨required .method .text,
        by simp [schema, createTable, evidence, Captured.table], _, rfl, rfl, fun _ => rfl⟩
    · exact ⟨defaulted .sourceUrl .text (.text []),
        by simp [schema, createTable, evidence, Captured.table], _, rfl, rfl, fun _ => rfl⟩
    · exact ⟨required .observedAt .timestamptz,
        by simp [schema, createTable, evidence, Captured.table], _, rfl, rfl, fun _ => rfl⟩
    · exact ⟨optional .contributorIdentity .text,
        by simp [schema, createTable, evidence, Captured.table], _, rfl, rfl, by simp⟩
    · exact ⟨required .observedValue .jsonb,
        by simp [schema, createTable, evidence, Captured.table], _, rfl, rfl, fun _ => rfl⟩

variable {a b : CanonicalRow Timestamp Jsonb} {column : Column}

theorem arranged_value_iff (hdriver : driver.Lawful maxStrDigits)
    (ha : ((schema server).define table.table).Admits a)
    (hb : ((schema server).define table.table).Admits b)
    (hloadA : LoadableRow driver.reads table a) (hloadB : LoadableRow driver.reads table b)
    (hselected : column ∈ SELECTED_COLUMNS table) (hstable : column ∉ VOLATILE_COLUMNS table) :
    arranged (driver.stableValue (.value (a column))) =
        arranged (driver.stableValue (.value (b column))) ↔
      SameValue driver (.value (a column)) (.value (b column)) := by
  obtain ⟨known, hknown, type, rfl, htype, hjsonb⟩ := exists_type server hselected hstable
  have hacceptsA := ha.columns known hknown
  have hacceptsB := hb.columns known hknown
  unfold ColumnDefinition.Accepts at hacceptsA hacceptsB
  have hnullable : known.nullable = true → type ≠ .jsonb := by
    intro hnull heq
    rw [hjsonb heq] at hnull
    cases hnull
  cases hcellA : a known.column with
  | none =>
      rw [hcellA] at hacceptsA
      cases hcellB : b known.column with
      | none => exact iff_of_true rfl trivial
      | some other =>
          rw [hcellB] at hacceptsB
          have hother : type.admits other = true := htype ▸ hacceptsB
          exact iff_of_false (arranged_cell_ne_none hother (hnullable hacceptsA)).symm id
  | some cell =>
      rw [hcellA] at hacceptsA
      have hcell : type.admits cell = true := htype ▸ hacceptsA
      cases hcellB : b known.column with
      | none =>
          rw [hcellB] at hacceptsB
          exact iff_of_false (arranged_cell_ne_none hcell (hnullable hacceptsB)) id
      | some other =>
          rw [hcellB] at hacceptsB
          exact arranged_cell_iff hdriver hcell (htype ▸ hacceptsB)
            (hloadA _ hselected cell hcellA) (hloadB _ hselected other hcellB)

theorem arranged_entry_iff (hdriver : driver.Lawful maxStrDigits)
    (ha : ((schema server).define table.table).Admits a)
    (hb : ((schema server).define table.table).Admits b)
    (hloadA : LoadableRow driver.reads table a) (hloadB : LoadableRow driver.reads table b)
    {x y : Column × StableValue Timestamp Jsonb} (hx : Stands table a column x)
    (hy : Stands table b column y) :
    arranged (driver.stableValue x.2) = arranged (driver.stableValue y.2) ↔
      SameValue driver x.2 y.2 := by
  obtain ⟨-, ⟨hvolatile, text, htext⟩ | ⟨hselected, hstable, hvalue⟩⟩ := hx
  · obtain ⟨-, ⟨-, other, hother⟩ | ⟨-, hstable, -⟩⟩ := hy
    · rw [htext, hother]
      simp only [Driver.stableValue, arranged, SameValue, Value.str.injEq]
      exact points_injective.eq_iff
    · exact absurd hvolatile hstable
  · obtain ⟨-, ⟨hvolatile, -⟩ | ⟨-, -, hother⟩⟩ := hy
    · exact absurd hvolatile hstable
    · rw [hvalue, hother]
      exact arranged_value_iff hdriver ha hb hloadA hloadB hselected hstable

-- What the rows of a snapshot are like: a row that the table admits and the driver can read,
-- with text in UTF-8, stands behind each.
def Shaped (driver : Driver Timestamp Jsonb) (server : Server Timestamp Jsonb) (table : Captured)
    (columns : List (Column × StableValue Timestamp Jsonb)) : Prop :=
  ∃ row, ((schema server).define table.table).Admits row ∧ LoadableRow driver.reads table row ∧
    (∀ column ∈ SELECTED_COLUMNS table, ∀ text,
      row column = some (.text text) ∨ row column = some (.inet text) → Scalar text) ∧
    List.Forall₂ (Stands table row) (stableColumns table) columns

variable {xs ys : List (Column × StableValue Timestamp Jsonb)}

variable (driver) in
theorem keys_of_shaped (h : Shaped driver server table xs) :
    Members.keys (xs.map fun entry =>
        (points (columnName entry.1), driver.stableValue entry.2)) =
      (stableColumns table).map fun column => points (columnName column) := by
  obtain ⟨row, -, -, -, hstands⟩ := h
  unfold Members.keys
  rw [List.map_map, ← List.forall₂_eq_eq_eq, List.forall₂_map_left_iff,
    List.forall₂_map_right_iff]
  refine hstands.flip.imp ?_
  intro entry column hentry
  exact congrArg (fun column => points (columnName column)) hentry.1

theorem arranged_row_iff (hdriver : driver.Lawful maxStrDigits) (hx : Shaped driver server table xs)
    (hy : Shaped driver server table ys) :
    arranged (driver.row xs) = arranged (driver.row ys) ↔
      List.Forall₂ (SameEntry driver) xs ys := by
  have hkeys := (keys_of_shaped driver hx).trans (keys_of_shaped driver hy).symm
  have hnodup : (Members.keys (xs.map fun entry =>
      (points (columnName entry.1), driver.stableValue entry.2))).Nodup := by
    rw [keys_of_shaped driver hx]
    exact nodup_stableColumns table
  unfold Driver.row
  rw [Value.arranged_dict_eq_iff hnodup hkeys, List.forall₂_map_left_iff,
    List.forall₂_map_right_iff]
  obtain ⟨a, ha, hloadA, -, hstandsA⟩ := hx
  obtain ⟨b, hb, hloadB, -, hstandsB⟩ := hy
  clear hkeys hnodup
  generalize stableColumns table = columns at hstandsA hstandsB
  induction hstandsA generalizing ys with
  | nil =>
      cases hstandsB
      exact iff_of_true .nil .nil
  | cons hfirst _ ih =>
      cases hstandsB with
      | cons hsecond hrest =>
          have hcolumn := hfirst.1.trans hsecond.1.symm
          rw [List.forall₂_cons, List.forall₂_cons]
          refine and_congr (and_congr ?_ ?_) (ih hrest)
          · exact iff_of_true (congrArg (fun column => points (columnName column)) hcolumn) hcolumn
          · exact arranged_entry_iff hdriver ha hb hloadA hloadB hfirst hsecond

theorem writable_row (hdriver : driver.Lawful maxStrDigits) (h : Shaped driver server table xs) :
    Writable (driver.row xs) := by
  have hkeys := keys_of_shaped driver h
  refine Value.every_dict.mpr ⟨⟨?_, ?_⟩, ?_⟩
  · rw [hkeys]
    exact nodup_stableColumns table
  · intro key hkey
    rw [hkeys] at hkey
    obtain ⟨column, -, rfl⟩ := List.mem_map.mp hkey
    exact Value.joined_points _
  · intro member hmember
    obtain ⟨entry, hentry, rfl⟩ := List.mem_map.mp hmember
    obtain ⟨row, -, hload, hscalar, hstands⟩ := h
    obtain ⟨column, -, -, ⟨-, text, htext⟩ | ⟨hselected, -, hvalue⟩⟩ := exists_right hstands hentry
    · rw [htext]
      exact Value.joined_points text
    · rw [hvalue]
      cases hcell : row column with
      | none => trivial
      | some cell =>
          refine writable_cell hdriver (hload column hselected cell hcell) ?_
          intro text htext
          rw [← Option.some.injEq cell, ← Option.some.injEq cell, ← hcell] at htext
          exact hscalar column hselected text htext

theorem prints_row (hdriver : driver.Lawful maxStrDigits) (h : Shaped driver server table xs) :
    Value.Every (Prints canonical maxStrDigits) (driver.row xs) := by
  refine Value.every_dict.mpr ⟨trivial, ?_⟩
  intro member hmember
  obtain ⟨entry, hentry, rfl⟩ := List.mem_map.mp hmember
  obtain ⟨row, -, hload, -, hstands⟩ := h
  obtain ⟨column, -, -, ⟨-, text, htext⟩ | ⟨hselected, -, hvalue⟩⟩ := exists_right hstands hentry
  · rw [htext]
    trivial
  · rw [hvalue]
    cases hcell : row column with
    | none => trivial
    | some cell => exact prints_cell hdriver (hload column hselected cell hcell)

end Rows

section Document

variable {server : Server Timestamp Jsonb}
variable {stable others : Captured → List (List (Column × StableValue Timestamp Jsonb))}

theorem nodup_tables : [points "domain", points "provenance", points "evidence"].Nodup := by
  decide +kernel

theorem nodup_document : (Members.keys ([Captured.domain, .provenance, .evidence].map
    fun table => (points table.name, Value.list ((stable table).map driver.row)))).Nodup :=
  nodup_tables

theorem arranged_document_iff (hdriver : driver.Lawful maxStrDigits)
    (hstable : ∀ table, ∀ columns ∈ stable table, Shaped driver server table columns)
    (hothers : ∀ table, ∀ columns ∈ others table, Shaped driver server table columns) :
    arranged (driver.document stable) = arranged (driver.document others) ↔
      ∀ table, List.Forall₂ (List.Forall₂ (SameEntry driver)) (stable table) (others table) := by
  have htable : ∀ table, arranged (.list ((stable table).map driver.row)) =
      arranged (.list ((others table).map driver.row)) ↔
        List.Forall₂ (List.Forall₂ (SameEntry driver)) (stable table) (others table) := by
    intro table
    rw [Value.arranged_list_eq_iff, List.forall₂_map_left_iff, List.forall₂_map_right_iff]
    apply forall₂_iff_of_mem
    intro xs hxs ys hys
    exact arranged_row_iff hdriver (hstable table xs hxs) (hothers table ys hys)
  have hkeys : ∀ content : Captured → Value, Members.keys
      ([Captured.domain, .provenance, .evidence].map fun table =>
        (points table.name, content table)) =
          [points "domain", points "provenance", points "evidence"] := fun _ => rfl
  unfold Driver.document
  rw [Value.arranged_dict_eq_iff nodup_document ((hkeys _).trans (hkeys _).symm),
    List.forall₂_map_left_iff, List.forall₂_map_right_iff]
  simp only [List.forall₂_cons, List.Forall₂.nil, true_and, and_true, htable]
  constructor
  · rintro ⟨hdomain, hprovenance, hevidence⟩ table
    cases table with
    | domain => exact hdomain
    | provenance => exact hprovenance
    | evidence => exact hevidence
  · intro h
    exact ⟨h .domain, h .provenance, h .evidence⟩

theorem writable_document (hdriver : driver.Lawful maxStrDigits)
    (hstable : ∀ table, ∀ columns ∈ stable table, Shaped driver server table columns) :
    Writable (driver.document stable) := by
  refine Value.every_dict.mpr ⟨⟨nodup_document, ?_⟩, ?_⟩
  · intro key hkey
    obtain ⟨member, hmember, rfl⟩ := List.mem_map.mp hkey
    obtain ⟨table, -, rfl⟩ := List.mem_map.mp hmember
    exact Value.joined_points _
  · intro member hmember
    obtain ⟨table, -, rfl⟩ := List.mem_map.mp hmember
    refine Value.every_list.mpr ⟨trivial, ?_⟩
    intro item hitem
    obtain ⟨columns, hcolumns, rfl⟩ := List.mem_map.mp hitem
    exact writable_row hdriver (hstable table columns hcolumns)

theorem prints_document (hdriver : driver.Lawful maxStrDigits)
    (hstable : ∀ table, ∀ columns ∈ stable table, Shaped driver server table columns) :
    Value.Every (Prints canonical maxStrDigits) (driver.document stable) := by
  refine Value.every_dict.mpr ⟨trivial, ?_⟩
  intro member hmember
  obtain ⟨table, -, rfl⟩ := List.mem_map.mp hmember
  refine Value.every_list.mpr ⟨trivial, ?_⟩
  intro item hitem
  obtain ⟨columns, hcolumns, rfl⟩ := List.mem_map.mp hitem
  exact prints_row hdriver (hstable table columns hcolumns)

end Document

section Reached

variable [LinearOrder Timestamp] [DecidableEq Jsonb] {server : Server Timestamp Jsonb}
variable {collation : LinearOrder Text} {domainId : Uuid}
variable {store : CanonicalStore.Store Timestamp Jsonb}
variable {snapshot : CanonicalStoreSnapshot Timestamp Jsonb}

variable (collation domainId) in
theorem exists_shaped (hsound : Sound (schema server) store) (hencoded : Encoded store)
    (hload : Loadable collation domainId store driver.reads) :
    ∃ snapshot, captureSnapshot collation domainId store driver.reads = .ok snapshot ∧
      ∀ table, ∀ columns ∈ snapshot.stable table, Shaped driver server table columns := by
  choose rows hrows _ using exists_rows collation domainId hsound
  refine ⟨_, captureSnapshot_of_rows hload hrows, ?_⟩
  intro table columns hcolumns
  obtain ⟨row, hrow, hstable⟩ := exists_right (Result.forall₂_of_mapM (hrows table)) hcolumns
  have hmem := mem_store_of_raw hrow
  exact ⟨row, hsound.admitted table.table row hmem, hload table row hrow,
    hencoded table row hmem, stands_of_stableRow hstable⟩

variable {stable others : Captured → List (List (Column × StableValue Timestamp Jsonb))}

omit [LinearOrder Timestamp] [DecidableEq Jsonb] in
theorem exists_bytes (hdriver : driver.Lawful maxStrDigits)
    (hstable : ∀ table, ∀ columns ∈ stable table, Shaped driver server table columns) :
    ∃ text value, canonicalJson maxStrDigits (driver.document stable) = .ok text ∧
      normaliseForExpected driver maxStrDigits stable = .ok value ∧
      canonicalJson maxStrDigits value = .ok text := by
  have hprints := prints_document hdriver hstable
  obtain ⟨text, htext⟩ := Value.exists_canonicalJson hprints
  refine ⟨text, arranged (driver.document stable), htext, ?_, ?_⟩
  · rw [normaliseForExpected, htext]
    exact Value.loads_canonicalJson (writable_document hdriver hstable) htext
  · rw [Value.canonicalJson_arranged hprints]
    exact htext

omit [LinearOrder Timestamp] [DecidableEq Jsonb] in
theorem bytes_eq_iff (hdriver : driver.Lawful maxStrDigits)
    (hstable : ∀ table, ∀ columns ∈ stable table, Shaped driver server table columns)
    (hothers : ∀ table, ∀ columns ∈ others table, Shaped driver server table columns) :
    canonicalJson maxStrDigits (driver.document stable) =
        canonicalJson maxStrDigits (driver.document others) ↔
      ∀ table, List.Forall₂ (List.Forall₂ (SameEntry driver)) (stable table) (others table) := by
  rw [Value.canonicalJson_eq_iff (writable_document hdriver hstable)
    (writable_document hdriver hothers) (prints_document hdriver hstable)
    (prints_document hdriver hothers),
    arranged_document_iff hdriver hstable hothers]

-- The bytes of a snapshot stand for its stable part: any two stores that the application
-- role can reach, and whose rows the driver can read, give the same bytes just where their
-- snapshots agree in every stable column and every reference; and what is read back for the
-- expected rows has the same bytes again.
theorem stableBytes_identical (hdriver : driver.Lawful maxStrDigits)
    {other : CanonicalStore.Store Timestamp Jsonb} {trace others : Trace Timestamp Jsonb}
    (hrun : ApplicationRun server Store.empty trace store)
    (hother : ApplicationRun server Store.empty others other)
    (hencoded : Encoded store) (hencodedOther : Encoded other) (collation : LinearOrder Text)
    (domainId otherId : Uuid) (hload : Loadable collation domainId store driver.reads)
    (hloadOther : Loadable collation otherId other driver.reads) :
    ∃ first second text otherText value,
      captureSnapshot collation domainId store driver.reads = .ok first ∧
      captureSnapshot collation otherId other driver.reads = .ok second ∧
      first.stableBytes driver maxStrDigits = .ok text ∧
      second.stableBytes driver maxStrDigits = .ok otherText ∧
      (text = otherText ↔ ∀ table, List.Forall₂ (List.Forall₂ (SameEntry driver))
        (first.stable table) (second.stable table)) ∧
      normaliseForExpected driver maxStrDigits first.stable = .ok value ∧
      canonicalJson maxStrDigits value = .ok text := by
  obtain ⟨first, hfirst, hshaped⟩ :=
    exists_shaped collation domainId (sound_reached hrun) hencoded hload
  obtain ⟨second, hsecond, hshapedOther⟩ :=
    exists_shaped collation otherId (sound_reached hother) hencodedOther hloadOther
  obtain ⟨text, value, htext, hvalue, hagain⟩ := exists_bytes hdriver hshaped
  obtain ⟨otherText, -, hotherText, -⟩ := exists_bytes hdriver hshapedOther
  have hsame := bytes_eq_iff hdriver hshaped hshapedOther
  rw [htext, hotherText, Except.ok.injEq] at hsame
  exact ⟨first, second, text, otherText, value, hfirst, hsecond, htext, hotherText, hsame, hvalue,
    hagain⟩

end Reached

section Sample

theorem sameValue_refl (value : StableValue Timestamp Jsonb) : SameValue driver value value := by
  cases value with
  | token text => rfl
  | value cell =>
      cases cell with
      | none => trivial
      | some cell => cases cell <;> exact rfl

-- The same rows under other ids, written at another time.
def observedAgain : List (CanonicalStatement ℕ Bool) :=
  [.insert .domain
      (values [(.normalisedUrl, .text [0x61]), (.currentStatus, .label "under_review")]) ⟨⟨1⟩, 9⟩,
    .insert .provenance
      (values [(.source, .label "system"), (.method, .text [0x6D]), (.observedAt, .timestamp 4)])
      ⟨⟨7⟩, 9⟩,
    .insert .evidence
      (values [(.domainId, .uuid ⟨1⟩), (.signalClass, .text [0x73]), (.source, .label "system"),
        (.method, .text [0x6D]), (.observedAt, .timestamp 4), (.observedValue, .jsonb true),
        (.provenanceId, .uuid ⟨7⟩)]) ⟨⟨8⟩, 9⟩]

def sampleDriver : Driver ℕ Bool where
  reads := readsBefore 10
  isoformat value :=
    ("1970-01-01T00:00:0".toList ++ Nat.toDigits 10 value ++ "+00:00".toList).map Json.charPoint
  decimal value := (List.replicate (Encodable.encode value) '0').map Json.charPoint
  bytes value := (value.map fun byte => Char.ofNat byte.toNat).map Json.charPoint
  loads := .bool

theorem lawful_sampleDriver : sampleDriver.Lawful 4300 where
  isoformat a _ b _ h := by
    have hchars := List.map_injective_iff.mpr charPoint_injective h
    have hdigits := List.append_cancel_left (List.append_cancel_right hchars)
    have hread := congrArg (fun digits => Nat.ofDigitChars 10 digits 0) hdigits
    simpa using hread
  isoformat_scalar value := Value.scalar_charPoints _
  decimal a b h := by
    have hchars := List.map_injective_iff.mpr charPoint_injective h
    have hlength := congrArg List.length hchars
    rw [List.length_replicate, List.length_replicate] at hlength
    exact Encodable.encode_injective hlength
  decimal_scalar value := Value.scalar_charPoints _
  bytes a b h := by
    have hchars := List.map_injective_iff.mpr charPoint_injective h
    exact List.map_injective_iff.mpr Idempotency.ofNat_toNat_injective hchars
  bytes_scalar value := Value.scalar_charPoints _
  loads _ _ := trivial
  loads_prints _ _ := trivial

def encodedCell : Option (Cell ℕ Bool) → Bool
  | some (.text text) => text.all isScalar
  | some (.inet text) => text.all isScalar
  | _ => true

theorem encoded_of_cells {store : CanonicalStore.Store ℕ Bool}
    (h : ∀ table : Captured, ∀ row ∈ store table.table, ∀ column ∈ SELECTED_COLUMNS table,
      encodedCell (row column) = true) : Encoded store := by
  intro table row hrow column hcolumn text htext
  have hcell := h table row hrow column hcolumn
  rcases htext with htext | htext <;> rw [htext] at hcell <;>
    exact fun point hpoint => List.all_eq_true.mp hcell point hpoint

theorem encoded_observed : Encoded (after Store.empty [observed]) := by
  apply encoded_of_cells
  intro table
  cases table <;> decide +kernel

theorem encoded_observedAgain : Encoded (after Store.empty [observedAgain]) := by
  apply encoded_of_cells
  intro table
  cases table <;> decide +kernel

deriving instance DecidableEq for StableValue

theorem stable_observedAgain (table : Captured) :
    (captureSnapshot List.instLinearOrder ⟨1⟩ (after Store.empty [observedAgain])
        (readsBefore 10)).map (fun snapshot => snapshot.stable table) =
      (captureSnapshot List.instLinearOrder ⟨1⟩ (after Store.empty [observed])
        (readsBefore 10)).map fun snapshot => snapshot.stable table := by
  cases table <;> decide +kernel

theorem loadable_observedAgain :
    Loadable List.instLinearOrder ⟨1⟩ (after Store.empty [observedAgain]) (readsBefore 10) := by
  apply loadable_of_all
  intro table
  cases table <;> decide +kernel

theorem loadable_absent :
    Loadable List.instLinearOrder ⟨2⟩ (after Store.empty [observed]) (readsBefore 10) := by
  apply loadable_of_all
  intro table
  cases table <;> decide +kernel

theorem stable_absent :
    (captureSnapshot List.instLinearOrder ⟨2⟩ (after Store.empty [observed]) (readsBefore 10)).map
      (fun snapshot => (snapshot.stable .domain).length) = .ok 0 := by
  decide +kernel

theorem stable_present :
    (captureSnapshot List.instLinearOrder ⟨1⟩ (after Store.empty [observed]) (readsBefore 10)).map
      (fun snapshot => (snapshot.stable .domain).length) = .ok 1 := by
  decide +kernel

theorem run_after (transactions : List (List (CanonicalStatement ℕ Bool))) :
    ∃ trace, ApplicationRun plainServer Store.empty trace (after Store.empty transactions) :=
  Run.of_inputs (transact (schema plainServer) applicationRole) Store.empty transactions

-- A run under other ids gives the same bytes, a domain that is not there gives others.
theorem stableBytes_identical_observed : ∃ first again absent text other,
    captureSnapshot List.instLinearOrder ⟨1⟩ (after Store.empty [observed]) (readsBefore 10) =
      .ok first ∧
    captureSnapshot List.instLinearOrder ⟨1⟩ (after Store.empty [observedAgain])
      (readsBefore 10) = .ok again ∧
    captureSnapshot List.instLinearOrder ⟨2⟩ (after Store.empty [observed]) (readsBefore 10) =
      .ok absent ∧
    first.stableBytes sampleDriver 4300 = .ok text ∧
    again.stableBytes sampleDriver 4300 = .ok text ∧
    absent.stableBytes sampleDriver 4300 = .ok other ∧ text ≠ other := by
  obtain ⟨trace, hrun⟩ := run_after [observed]
  obtain ⟨others, hother⟩ := run_after [observedAgain]
  obtain ⟨first, again, text, same, _, hfirst, hagain, htext, hsame, hiff, _⟩ :=
    stableBytes_identical lawful_sampleDriver hrun hother encoded_observed encoded_observedAgain
      List.instLinearOrder ⟨1⟩ ⟨1⟩ loadable_observed loadable_observedAgain
  obtain ⟨copy, absent, copyText, other, _, hcopy, habsent, hcopyText, hotherText, hdiffer, _⟩ :=
    stableBytes_identical lawful_sampleDriver hrun hrun encoded_observed encoded_observed
      List.instLinearOrder ⟨1⟩ ⟨2⟩ loadable_observed loadable_absent
  have hreads : sampleDriver.reads = readsBefore 10 := rfl
  rw [hreads] at hfirst hagain hcopy habsent
  obtain rfl := Except.ok.inj (hfirst.symm.trans hcopy)
  obtain rfl := Except.ok.inj (htext.symm.trans hcopyText)
  have hstable : ∀ table, again.stable table = first.stable table := by
    intro table
    have heq := stable_observedAgain table
    rw [hagain, hfirst] at heq
    exact Except.ok.inj heq
  have htexts : text = same := by
    refine hiff.mpr fun table => ?_
    rw [hstable table]
    refine List.forall₂_same.mpr fun columns _ => List.forall₂_same.mpr fun entry _ => ?_
    exact ⟨rfl, sameValue_refl entry.2⟩
  refine ⟨first, again, absent, text, other, hfirst, hagain, habsent, htext, ?_, hotherText, ?_⟩
  · rw [htexts]
    exact hsame
  · intro heq
    have hlength := (hdiffer.mp heq .domain).length_eq
    have hone := stable_present
    have hzero := stable_absent
    rw [hfirst] at hone
    rw [habsent] at hzero
    have hfirstLength : (first.stable .domain).length = 1 := Except.ok.inj hone
    have habsentLength : (absent.stable .domain).length = 0 := Except.ok.inj hzero
    omega

end Sample

end TrustlistCore.Reproducibility
