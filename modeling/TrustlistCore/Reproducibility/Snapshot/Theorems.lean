import TrustlistCore.Reproducibility.Snapshot

namespace TrustlistCore.Reproducibility

open Library Relational OrderBy DataModel
open CanonicalStore hiding Store

variable {Timestamp Jsonb : Type}

theorem uuidCell_eq_some_iff {cell : Option (Cell Timestamp Jsonb)} {value : Uuid} :
    uuidCell cell = some value ↔ cell = some (.uuid value) := by
  unfold uuidCell
  split
  · simp
  · rename_i hother
    simp only [reduceCtorEq, false_iff]
    intro heq
    exact hother value heq

theorem concerns_iff {domainId : Uuid} {row : CanonicalRow Timestamp Jsonb} :
    concerns domainId row = true ↔ row .domainId = some (.uuid domainId) := by
  rw [concerns, decide_eq_true_eq, uuidCell_eq_some_iff]

theorem refersTo_iff {evidence provenance : CanonicalRow Timestamp Jsonb} :
    refersTo evidence provenance = true ↔
      ∃ id, evidence .provenanceId = some (.uuid id) ∧ provenance .provenanceId = some (.uuid id) := by
  simp only [refersTo, decide_eq_true_eq, Option.isSome_iff_exists, uuidCell_eq_some_iff]
  constructor
  · rintro ⟨⟨id, hid⟩, heq⟩
    refine ⟨id, hid, ?_⟩
    rw [uuidCell_eq_some_iff.mpr hid, eq_comm, uuidCell_eq_some_iff] at heq
    exact heq
  · rintro ⟨id, hid, hother⟩
    refine ⟨⟨id, hid⟩, ?_⟩
    rw [uuidCell_eq_some_iff.mpr hid, uuidCell_eq_some_iff.mpr hother]

theorem mem_joined_iff {domainId : Uuid} {store : CanonicalStore.Store Timestamp Jsonb}
    {row : CanonicalRow Timestamp Jsonb} :
    row ∈ joined domainId store ↔ row ∈ store .provenance ∧
      ∃ evidence ∈ store .evidence, refersTo evidence row = true ∧
        concerns domainId evidence = true := by
  unfold joined
  simp only [List.mem_flatMap, List.mem_map, List.mem_filter, decide_eq_true_eq]
  constructor
  · rintro ⟨_, hprovenance, evidence, ⟨hevidence, hrefers, hconcerns⟩, rfl⟩
    exact ⟨hprovenance, evidence, hevidence, hrefers, hconcerns⟩
  · rintro ⟨hprovenance, evidence, hevidence, hrefers, hconcerns⟩
    exact ⟨row, hprovenance, evidence, ⟨hevidence, hrefers, hconcerns⟩, rfl⟩

section Rows

variable [LinearOrder Timestamp] [DecidableEq Jsonb]
variable {captured : Captured → List (CanonicalRow Timestamp Jsonb)} {table : Captured}
variable {row : CanonicalRow Timestamp Jsonb}

-- Every reference of the row leads to a captured row.
def Resolves (captured : Captured → List (CanonicalRow Timestamp Jsonb)) (table : Captured)
    (row : CanonicalRow Timestamp Jsonb) : Prop :=
  ∀ column referenced, REFERENCE_COLUMNS table column = some referenced →
    ∃ target ∈ captured referenced, target referenced.primaryKey = row column

theorem exists_resolveReference (table : Captured) (column : Column) {referenced : Captured}
    {value : Option (Cell Timestamp Jsonb)}
    (h : ∃ target ∈ captured referenced, target referenced.primaryKey = value) :
    ∃ text, resolveReference captured table column referenced value = .ok text := by
  unfold resolveReference
  have hsome : ((captured referenced).findIdx? fun target =>
      target referenced.primaryKey = value).isSome = true := by
    obtain ⟨target, htarget, heq⟩ := h
    rw [List.findIdx?_isSome, List.any_eq_true]
    exact ⟨target, htarget, decide_eq_true heq⟩
  obtain ⟨index, hindex⟩ := Option.isSome_iff_exists.mp hsome
  rw [hindex]
  exact ⟨_, rfl⟩

theorem exists_stableRow (h : Resolves captured table row) :
    ∃ columns, stableRow captured table row = .ok columns := by
  have hcolumn : ∀ column, ∃ added, stableColumn captured table row column = .ok added := by
    intro column
    unfold stableColumn
    split_ifs
    · cases hreference : REFERENCE_COLUMNS table column with
      | none => exact ⟨[], rfl⟩
      | some referenced =>
          obtain ⟨text, htext⟩ := exists_resolveReference table column
            (h column referenced hreference)
          simp only [htext]
          exact ⟨_, rfl⟩
    · exact ⟨_, rfl⟩
  have hfold : ∃ last, stableRow captured table row = .ok last ∧ True := by
    refine Result.foldlM_eq_ok (P := fun _ _ => True) ?_ trivial
    intro state done column rest _ _
    obtain ⟨added, hadded⟩ := hcolumn column
    exact ⟨state ++ added, by rw [hadded]; rfl, trivial⟩
  obtain ⟨last, hlast, -⟩ := hfold
  exact ⟨last, hlast⟩

end Rows

theorem flatMap_ite {A : Type} (p : A → Bool) (items : List A) :
    (items.flatMap fun item => if p item then [item] else []) = items.filter p := by
  induction items with
  | nil => rfl
  | cons item items ih => by_cases hitem : p item <;> simp [hitem, ih]

-- A join in which every row of the one side meets just one of the other.
theorem join_perm {A B : Type} (items : List A) (others : List B) (meets : A → B → Bool)
    (h : ∀ item ∈ items, ∃ origin, others.filter (meets item) = [origin]) :
    ∃ origins, List.Forall₂ (fun item origin => meets item origin = true) items origins ∧
      (∀ origin ∈ origins, origin ∈ others) ∧
      (others.flatMap fun other =>
        (items.filter fun item => meets item other).map fun _ => other).Perm origins := by
  induction items with
  | nil => exact ⟨[], .nil, fun _ h => absurd h List.not_mem_nil, by simp⟩
  | cons item items ih =>
      obtain ⟨origins, hmeets, hstored, hperm⟩ :=
        ih fun later hlater => h later (List.mem_cons_of_mem _ hlater)
      obtain ⟨origin, horigin⟩ := h item List.mem_cons_self
      have hmem : origin ∈ others.filter (meets item) := by
        rw [horigin]
        exact List.mem_singleton_self _
      obtain ⟨hother, hmet⟩ := List.mem_filter.mp hmem
      refine ⟨origin :: origins, .cons hmet hmeets, ?_, ?_⟩
      · exact List.forall_mem_cons.mpr ⟨hother, hstored⟩
      · have hsplit : ∀ other, ((item :: items).filter fun item => meets item other).map
            (fun _ => other) = (if meets item other then [other] else []) ++
              (items.filter fun item => meets item other).map fun _ => other := by
          intro other
          by_cases hmeets : meets item other
          · simp [hmeets]
          · simp [hmeets]
        have hfirst : (others.flatMap fun other => if meets item other then [other] else []) =
            [origin] := by
          rw [← horigin, flatMap_ite]
        simp only [hsplit]
        refine (List.flatMap_append_perm others _ _).symm.trans ?_
        rw [hfirst]
        exact hperm.cons origin

section Sound

variable [LinearOrder Timestamp] {server : Server Timestamp Jsonb} {collation : LinearOrder Text}
variable {store : CanonicalStore.Store Timestamp Jsonb} {domainId : Uuid}

theorem mem_raw_evidence {row : CanonicalRow Timestamp Jsonb} :
    row ∈ raw collation domainId store .evidence ↔
      row ∈ store .evidence ∧ row .domainId = some (.uuid domainId) := by
  simp only [raw, mem_orderBy, List.mem_filter, concerns_iff]

theorem mem_raw_domain {row : CanonicalRow Timestamp Jsonb} :
    row ∈ raw collation domainId store .domain ↔
      row ∈ store .domain ∧ row .domainId = some (.uuid domainId) := by
  simp only [raw, mem_orderBy, List.mem_filter, concerns_iff]

theorem mem_raw_provenance {row : CanonicalRow Timestamp Jsonb} :
    row ∈ raw collation domainId store .provenance ↔ row ∈ joined domainId store := by
  simp only [raw, mem_orderBy]

omit [LinearOrder Timestamp] in
theorem exists_provenance (hsound : Sound (schema server) store)
    {row : CanonicalRow Timestamp Jsonb} (hrow : row ∈ store .evidence) :
    ∃ id target, row .provenanceId = some (.uuid id) ∧ target ∈ store .provenance ∧
      target .provenanceId = some (.uuid id) := by
  obtain ⟨_, hcell, hadmitted⟩ := exists_cell (hsound.admitted .evidence row hrow)
    (required .provenanceId .uuid) (by simp [schema, createTable, evidence]) rfl
  obtain ⟨id, rfl⟩ := uuid_of_admits hadmitted
  have hforeignKey : toProvenance "fk_evidence_provenance_id_provenance" ∈
      ((schema server).define .evidence).foreignKeys := by
    simp [schema, createTable, evidence]
  obtain ⟨target, htarget, hkey⟩ := hsound.resolved .evidence _ hforeignKey row hrow
    [.uuid id] (project_one.mpr hcell)
  exact ⟨id, target, hcell, htarget, project_one.mp hkey⟩

-- The foreign keys lead to rows that the same snapshot reads.
theorem resolves_evidence (hsound : Sound (schema server) store)
    {row : CanonicalRow Timestamp Jsonb} (hrow : row ∈ raw collation domainId store .evidence) :
    Resolves (raw collation domainId store) .evidence row := by
  obtain ⟨hstored, hdomain⟩ := mem_raw_evidence.mp hrow
  intro column referenced hreference
  unfold REFERENCE_COLUMNS at hreference
  split at hreference
  · obtain rfl := Option.some.inj hreference
    have hforeignKey : toDomain "fk_evidence_domain_id_domain" ∈
        ((schema server).define .evidence).foreignKeys := by
      simp [schema, createTable, evidence]
    obtain ⟨target, htarget, hkey⟩ := hsound.resolved .evidence _ hforeignKey row hstored
      [.uuid domainId] (project_one.mpr hdomain)
    have hid : target .domainId = some (.uuid domainId) := project_one.mp hkey
    exact ⟨target, mem_raw_domain.mpr ⟨htarget, hid⟩, hid.trans hdomain.symm⟩
  · obtain rfl := Option.some.inj hreference
    obtain ⟨id, target, hid, htarget, htargetId⟩ := exists_provenance hsound hstored
    refine ⟨target, ?_, htargetId.trans hid.symm⟩
    rw [mem_raw_provenance, mem_joined_iff]
    exact ⟨htarget, row, hstored, refersTo_iff.mpr ⟨id, hid, htargetId⟩, concerns_iff.mpr hdomain⟩
  · cases hreference

theorem length_le_one {A : Type} {R : A → A → Prop} {items : List A}
    (hpairwise : items.Pairwise fun a b => ¬ R a b) (h : ∀ a ∈ items, ∀ b ∈ items, R a b) :
    items.length ≤ 1 := by
  cases items with
  | nil => exact Nat.zero_le _
  | cons a rest =>
      cases rest with
      | nil => exact le_rfl
      | cons b rest =>
          exact absurd (h a List.mem_cons_self b (List.mem_cons_of_mem _ List.mem_cons_self))
            ((List.pairwise_cons.mp hpairwise).1 b List.mem_cons_self)

theorem length_raw_domain (hsound : Sound (schema server) store) :
    (raw collation domainId store .domain).length ≤ 1 := by
  have hlength : (raw collation domainId store .domain).length =
      ((store .domain).filter (concerns domainId)).length := (perm_orderBy _ _).length_eq
  rw [hlength]
  have hkey : ⟨"pk_domain", [.domainId]⟩ ∈ ((schema server).define .domain).keys := by
    simp [schema, createTable, domain]
  refine length_le_one ((hsound.distinct .domain _ hkey).sublist List.filter_sublist) ?_
  intro a ha b hb
  have hida := concerns_iff.mp (List.mem_filter.mp ha).2
  have hidb := concerns_iff.mp (List.mem_filter.mp hb).2
  exact Key.clash_one.mpr ⟨.uuid domainId, hida, hidb⟩

-- Every evidence row of the domain brings its provenance row once.
theorem raw_provenance_perm (hsound : Sound (schema server) store) :
    ∃ origins, List.Forall₂ (fun evidence origin => refersTo evidence origin = true)
        ((store .evidence).filter (concerns domainId)) origins ∧
      (∀ origin ∈ origins, origin ∈ store .provenance) ∧
      (raw collation domainId store .provenance).Perm origins := by
  have hjoined : joined domainId store = (store .provenance).flatMap fun provenance =>
      (((store .evidence).filter (concerns domainId)).filter fun evidence =>
        refersTo evidence provenance).map fun _ => provenance := by
    simp only [joined, List.filter_filter, Bool.decide_and, Bool.decide_eq_true]
  have hone : ∀ row ∈ (store .evidence).filter (concerns domainId),
      ∃ origin, (store .provenance).filter (refersTo row) = [origin] := by
    intro row hrow
    have hstored := (List.mem_filter.mp hrow).1
    obtain ⟨id, target, hid, htarget, htargetId⟩ := exists_provenance hsound hstored
    have hkey : ⟨"pk_provenance", [.provenanceId]⟩ ∈
        ((schema server).define .provenance).keys := by
      simp [schema, createTable, provenance]
    have hmost : ((store .provenance).filter (refersTo row)).length ≤ 1 := by
      refine length_le_one ((hsound.distinct .provenance _ hkey).sublist List.filter_sublist) ?_
      intro a ha b hb
      obtain ⟨ida, hrowa, hida⟩ := refersTo_iff.mp (List.mem_filter.mp ha).2
      obtain ⟨idb, hrowb, hidb⟩ := refersTo_iff.mp (List.mem_filter.mp hb).2
      rw [← hrowa, hrowb] at hida
      exact Key.clash_one.mpr ⟨.uuid idb, hida, hidb⟩
    have hleast : 0 < ((store .provenance).filter (refersTo row)).length :=
      List.length_pos_of_mem
        (List.mem_filter.mpr ⟨htarget, refersTo_iff.mpr ⟨id, hid, htargetId⟩⟩)
    exact List.length_eq_one_iff.mp (by omega)
  obtain ⟨origins, hmeets, hstored, hperm⟩ := join_perm _ _ refersTo hone
  refine ⟨origins, hmeets, hstored, (perm_orderBy _ _).trans ?_⟩
  rw [hjoined]
  exact hperm

theorem mem_store_of_raw {table : Captured} {row : CanonicalRow Timestamp Jsonb}
    (hrow : row ∈ raw collation domainId store table) : row ∈ store table.table := by
  cases table with
  | domain => exact (mem_raw_domain.mp hrow).1
  | provenance => exact (mem_joined_iff.mp (mem_raw_provenance.mp hrow)).1
  | evidence => exact (mem_raw_evidence.mp hrow).1

omit [LinearOrder Timestamp] in
-- No volatile column may be NULL.
theorem isSome_volatile (hsound : Sound (schema server) store) {table : Captured}
    {row : CanonicalRow Timestamp Jsonb} (hrow : row ∈ store table.table) {column : Column}
    (hcolumn : column ∈ VOLATILE_COLUMNS table) : (row column).isSome = true := by
  have hadmits := hsound.admitted table.table row hrow
  have hrequired : ∃ known ∈ ((schema server).define table.table).columns,
      known.column = column ∧ known.nullable = false := by
    revert hcolumn
    cases table <;> intro hcolumn <;>
      simp only [VOLATILE_COLUMNS, List.mem_cons, List.not_mem_nil, or_false] at hcolumn
    · rcases hcolumn with rfl | rfl | rfl
      · exact ⟨randomKey .domainId, by simp [schema, createTable, domain, Captured.table], rfl, rfl⟩
      · exact ⟨stamped .createdAt, by simp [schema, createTable, domain, Captured.table], rfl, rfl⟩
      · exact ⟨stamped .updatedAt, by simp [schema, createTable, domain, Captured.table], rfl, rfl⟩
    · rcases hcolumn with rfl | rfl
      · exact ⟨randomKey .provenanceId,
          by simp [schema, createTable, provenance, Captured.table], rfl, rfl⟩
      · exact ⟨stamped .createdAt,
          by simp [schema, createTable, provenance, Captured.table], rfl, rfl⟩
    · rcases hcolumn with rfl | rfl | rfl | rfl
      · exact ⟨randomKey .evidenceId,
          by simp [schema, createTable, evidence, Captured.table], rfl, rfl⟩
      · exact ⟨required .provenanceId .uuid,
          by simp [schema, createTable, evidence, Captured.table], rfl, rfl⟩
      · exact ⟨required .domainId .uuid,
          by simp [schema, createTable, evidence, Captured.table], rfl, rfl⟩
      · exact ⟨stamped .recordedAt,
          by simp [schema, createTable, evidence, Captured.table], rfl, rfl⟩
  obtain ⟨known, hknown, rfl, hnullable⟩ := hrequired
  obtain ⟨cell, hcell, _⟩ := exists_cell hadmits known hknown hnullable
  rw [hcell]
  rfl

section Arranged

variable {other : CanonicalStore.Store Timestamp Jsonb}

theorem nullsLast_injective {A : Type} : Function.Injective (nullsLast : Option A → WithTop A) := by
  intro a b h
  cases a with
  | none =>
      cases b with
      | none => rfl
      | some b => cases h
  | some a =>
      cases b with
      | none => cases h
      | some b => exact congrArg some (WithTop.coe_injective h)

omit [LinearOrder Timestamp] in
theorem exists_key (hsound : Sound (schema server) store) {table : Captured}
    {row : CanonicalRow Timestamp Jsonb} (hrow : row ∈ store table.table) :
    ∃ id, row table.primaryKey = some (.uuid id) := by
  have hadmits := hsound.admitted table.table row hrow
  have hknown : randomKey table.primaryKey ∈ ((schema server).define table.table).columns := by
    cases table <;>
      simp [schema, createTable, domain, provenance, evidence, Captured.table,
        Captured.primaryKey]
  obtain ⟨_, hcell, hadmitted⟩ := exists_cell hadmits _ hknown rfl
  obtain ⟨id, rfl⟩ := uuid_of_admits hadmitted
  exact ⟨id, hcell⟩

omit [LinearOrder Timestamp] in
variable (server) in
theorem exists_primaryKey (table : Captured) :
    ∃ name, ⟨name, [table.primaryKey]⟩ ∈ ((schema server).define table.table).keys := by
  cases table with
  | domain => exact ⟨"pk_domain", by simp [schema, createTable, domain, Captured.table,
      Captured.primaryKey]⟩
  | provenance => exact ⟨"pk_provenance", by simp [schema, createTable, provenance,
      Captured.table, Captured.primaryKey]⟩
  | evidence => exact ⟨"pk_evidence", by simp [schema, createTable, evidence, Captured.table,
      Captured.primaryKey]⟩

omit [LinearOrder Timestamp] in
-- The last column of every order is the primary key.
theorem eq_of_key (hsound : Sound (schema server) store) (table : Captured)
    {a b : CanonicalRow Timestamp Jsonb} (ha : a ∈ store table.table) (hb : b ∈ store table.table)
    (h : nullsLast (uuidCell (a table.primaryKey)) = nullsLast (uuidCell (b table.primaryKey))) :
    a = b := by
  obtain ⟨name, hname⟩ := exists_primaryKey server table
  obtain ⟨id, hid⟩ := exists_key hsound ha
  have hother : b table.primaryKey = some (.uuid id) := by
    rw [← uuidCell_eq_some_iff, ← nullsLast_injective h]
    exact uuidCell_eq_some_iff.mpr hid
  exact eq_of_clash hsound hname ha hb (Key.clash_one.mpr ⟨_, hid, hother⟩)

-- The queries see the rows, not where the database keeps them.
theorem raw_perm (hsound : Sound (schema server) store)
    (hperm : ∀ table, (other table).Perm (store table)) :
    raw collation domainId other = raw collation domainId store := by
  funext table
  cases table with
  | domain =>
      refine orderBy_perm ?_ ((hperm .domain).filter _)
      intro a ha b hb hsame
      exact eq_of_key hsound .domain (List.mem_filter.mp ha).1 (List.mem_filter.mp hb).1 hsame
  | provenance =>
      refine orderBy_perm ?_ ?_
      · intro a ha b hb hsame
        exact eq_of_key hsound .provenance (mem_joined_iff.mp ha).1 (mem_joined_iff.mp hb).1
          (congrArg (fun key => (ofLex key).2) hsame)
      · refine ((hperm .provenance).flatMap_right _).trans ?_
        refine List.Perm.flatMap_left _ ?_
        intro row _
        exact ((hperm .evidence).filter _).map _
  | evidence =>
      refine orderBy_perm ?_ ((hperm .evidence).filter _)
      intro a ha b hb hsame
      exact eq_of_key hsound .evidence (List.mem_filter.mp ha).1 (List.mem_filter.mp hb).1
        (congrArg (fun key => (ofLex key).2) hsame)

end Arranged

variable (collation domainId) in
theorem exists_rows [DecidableEq Jsonb] (hsound : Sound (schema server) store) (table : Captured) :
    ∃ rows, (raw collation domainId store table).mapM
        (stableRow (raw collation domainId store) table) = .ok rows ∧
      rows.length = (raw collation domainId store table).length := by
  apply Result.exists_mapM
  intro row hrow
  apply exists_stableRow
  cases table with
  | evidence => exact resolves_evidence hsound hrow
  | domain =>
      intro column referenced hreference
      cases hreference
  | provenance =>
      intro column referenced hreference
      cases hreference

theorem splitRows_of_rows [DecidableEq Jsonb]
    {captured : Captured → List (CanonicalRow Timestamp Jsonb)}
    {rows : Captured → List (List (Column × StableValue Timestamp Jsonb))}
    (h : ∀ table, (captured table).mapM (stableRow captured table) = .ok (rows table)) :
    splitRows captured = .ok
      { stable := rows
        volatile := fun table => (captured table).map (volatileRow table) } := by
  have heach : Captured.each (rows .domain) (rows .provenance) (rows .evidence) = rows := by
    funext table
    cases table <;> rfl
  rw [← heach]
  unfold splitRows
  simp only [h]
  rfl

variable {reads : Cell Timestamp Jsonb → Bool}

omit [LinearOrder Timestamp] in
theorem load_eq_ok_iff {table : Captured} {rows : List (CanonicalRow Timestamp Jsonb)} :
    load reads table rows = .ok () ↔ ∀ row ∈ rows, LoadableRow reads table row := by
  have hall : (rows.all fun row => (SELECTED_COLUMNS table).all fun column =>
      (row column).all reads) = true ↔ ∀ row ∈ rows, LoadableRow reads table row := by
    simp only [LoadableRow, List.all_eq_true, Option.all_eq_true]
  unfold load
  rw [← hall]
  split <;> simp [*]

omit [LinearOrder Timestamp] in
theorem load_eq_error {table : Captured} {rows : List (CanonicalRow Timestamp Jsonb)}
    (h : load reads table rows ≠ .ok ()) : load reads table rows = .error (.unread table) := by
  unfold load at h ⊢
  split
  · rename_i hall
    rw [if_pos hall] at h
    exact absurd rfl h
  · rfl

theorem captureSnapshot_of_loadable [DecidableEq Jsonb]
    (h : Loadable collation domainId store reads) :
    captureSnapshot collation domainId store reads =
      (splitRows (raw collation domainId store)).mapError .assertion := by
  have hload : ∀ table, load reads table (raw collation domainId store table) = .ok () :=
    fun table => load_eq_ok_iff.mpr (h table)
  unfold captureSnapshot
  simp only [hload]
  rfl

theorem captureSnapshot_of_rows [DecidableEq Jsonb]
    (hload : Loadable collation domainId store reads)
    {rows : Captured → List (List (Column × StableValue Timestamp Jsonb))}
    (h : ∀ table, (raw collation domainId store table).mapM
      (stableRow (raw collation domainId store) table) = .ok (rows table)) :
    captureSnapshot collation domainId store reads = .ok
      { stable := rows
        volatile := fun table => (raw collation domainId store table).map (volatileRow table) } := by
  rw [captureSnapshot_of_loadable hload, splitRows_of_rows h]
  rfl

-- A cell that the driver cannot read ends the capture.
theorem captureSnapshot_unread [DecidableEq Jsonb]
    (h : ¬ Loadable collation domainId store reads) :
    ∃ table, captureSnapshot collation domainId store reads = .error (.unread table) := by
  unfold captureSnapshot
  by_cases hdomain : load reads .domain (raw collation domainId store .domain) = .ok ()
  · by_cases hevidence : load reads .evidence (raw collation domainId store .evidence) = .ok ()
    · by_cases hprovenance :
          load reads .provenance (raw collation domainId store .provenance) = .ok ()
      · refine absurd (fun table => ?_) h
        cases table with
        | domain => exact load_eq_ok_iff.mp hdomain
        | provenance => exact load_eq_ok_iff.mp hprovenance
        | evidence => exact load_eq_ok_iff.mp hevidence
      · simp only [hdomain, hevidence, load_eq_error hprovenance]
        exact ⟨.provenance, rfl⟩
    · simp only [hdomain, load_eq_error hevidence]
      exact ⟨.evidence, rfl⟩
  · simp only [load_eq_error hdomain]
    exact ⟨.domain, rfl⟩

-- The snapshot holds these rows, split column by column: of the domain at most the one row, of
-- the evidence all rows on it, and of the provenance one row for each of them.
structure Holds [DecidableEq Jsonb] (domainId : Uuid) (store : CanonicalStore.Store Timestamp Jsonb)
    (captured : Captured → List (CanonicalRow Timestamp Jsonb))
    (snapshot : CanonicalStoreSnapshot Timestamp Jsonb) : Prop where
  stable : ∀ table, (captured table).mapM (stableRow captured table) = .ok (snapshot.stable table)
  volatile : ∀ table, snapshot.volatile table = (captured table).map (volatileRow table)
  domain : (captured .domain).Perm ((store .domain).filter (concerns domainId))
  single : (captured .domain).length ≤ 1
  evidence : (captured .evidence).Perm ((store .evidence).filter (concerns domainId))
  provenance : ∃ origins, List.Forall₂ (fun evidence origin => refersTo evidence origin = true)
      ((store .evidence).filter (concerns domainId)) origins ∧
    (∀ origin ∈ origins, origin ∈ store .provenance) ∧ (captured .provenance).Perm origins

theorem present_of_sound (hsound : Sound (schema server) store)
    {snapshot : CanonicalStoreSnapshot Timestamp Jsonb}
    (hvolatile : ∀ table,
      snapshot.volatile table = (raw collation domainId store table).map (volatileRow table)) :
    snapshot.volatileColumnsPresent = true := by
  have hpresent : ∀ table, (snapshot.volatile table).all
      (fun row => row.all fun entry => entry.2.isSome) = true := by
    intro table
    rw [hvolatile, List.all_map, List.all_eq_true]
    intro row hrow
    simp only [Function.comp, volatileRow, List.all_map, List.all_eq_true, List.mem_filter]
    rintro column ⟨_, hcolumn⟩
    exact isSome_volatile hsound (mem_store_of_raw hrow) (by simpa using hcolumn)
  simp only [CanonicalStoreSnapshot.volatileColumnsPresent, List.all_cons, List.all_nil, hpresent,
    Bool.and_self]

-- The snapshot of any domain in any store that the application role can reach: where the
-- driver can read the rows, no reference dangles, every volatile column is there, the rows are
-- those of the store, and their arrangement does not matter; elsewhere the driver raises.
theorem capture_reached [DecidableEq Jsonb] {trace : Trace Timestamp Jsonb}
    (hrun : ApplicationRun server Store.empty trace store) (collation : LinearOrder Text)
    (domainId : Uuid) (reads : Cell Timestamp Jsonb → Bool) :
    (¬ Loadable collation domainId store reads →
      ∃ table, captureSnapshot collation domainId store reads = .error (.unread table)) ∧
    (Loadable collation domainId store reads → ∃ captured snapshot,
      captureSnapshot collation domainId store reads = .ok snapshot ∧
      Holds domainId store captured snapshot ∧ snapshot.volatileColumnsPresent = true ∧
      ∀ other, (∀ table, (other table).Perm (store table)) →
        captureSnapshot collation domainId other reads = .ok snapshot) := by
  have hsound := sound_reached hrun
  refine ⟨captureSnapshot_unread, ?_⟩
  intro hload
  choose rows hrows _ using exists_rows collation domainId hsound
  have hcapture := captureSnapshot_of_rows hload hrows
  refine ⟨raw collation domainId store, _, hcapture, ?_, ?_, ?_⟩
  · exact
      { stable := hrows
        volatile := fun _ => rfl
        domain := perm_orderBy _ _
        single := length_raw_domain hsound
        evidence := perm_orderBy _ _
        provenance := raw_provenance_perm hsound }
  · exact present_of_sound hsound fun _ => rfl
  · intro other hperm
    rw [← hcapture]
    unfold captureSnapshot
    rw [raw_perm hsound hperm]

end Sound

-- A driver for times up to the year 9999.
def readsBefore (limit : ℕ) : Cell ℕ Bool → Bool
  | .timestamp value => value < limit
  | _ => true

theorem loadable_of_all {store : CanonicalStore.Store ℕ Bool} {domainId : Uuid}
    {reads : Cell ℕ Bool → Bool}
    (h : ∀ table, ((raw List.instLinearOrder domainId store table).all fun row =>
      (SELECTED_COLUMNS table).all fun column => (row column).all reads) = true) :
    Loadable List.instLinearOrder domainId store reads := by
  intro table
  simpa only [LoadableRow, List.all_eq_true, Option.all_eq_true] using h table

theorem loadable_observed :
    Loadable List.instLinearOrder ⟨1⟩ (after Store.empty [observed]) (readsBefore 10) := by
  apply loadable_of_all
  intro table
  cases table <;> decide +kernel

theorem capture_reached_observed : ∃ captured snapshot,
    captureSnapshot List.instLinearOrder ⟨1⟩ (after Store.empty [observed]) (readsBefore 10) =
      .ok snapshot ∧
      Holds ⟨1⟩ (after Store.empty [observed]) captured snapshot ∧
      (captured .evidence).length = 1 := by
  obtain ⟨trace, hrun⟩ := Run.of_inputs (transact (schema plainServer) applicationRole)
    Store.empty [observed]
  obtain ⟨captured, snapshot, hcapture, hholds, -⟩ :=
    (capture_reached hrun List.instLinearOrder ⟨1⟩ (readsBefore 10)).2 loadable_observed
  refine ⟨captured, snapshot, hcapture, hholds, ?_⟩
  rw [hholds.evidence.length_eq]
  decide

end TrustlistCore.Reproducibility
