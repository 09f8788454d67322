import TrustlistCore.EvidenceWriter.Replay
import TrustlistCore.Reproducibility.Snapshot.Theorems

namespace TrustlistCore.Reproducibility

open Library Relational OrderBy DataModel EvidenceWriter
open CanonicalStore hiding Store

variable {Timestamp Jsonb : Type}

-- Two rows that differ in the volatile columns at most.
def SameStable (table : Captured) (a b : CanonicalRow Timestamp Jsonb) : Prop :=
  ∀ column ∈ SELECTED_COLUMNS table, column ∉ VOLATILE_COLUMNS table → a column = b column

-- The rows of a table in two stores, place by place.
def pairs (first second : CanonicalStore.Store Timestamp Jsonb) (table : Captured) :
    List (CanonicalRow Timestamp Jsonb × CanonicalRow Timestamp Jsonb) :=
  (first table.table).zip (second table.table)

-- Two stores that the same signals left: as many rows, with the same content and the same
-- references among them, whatever ids and times were generated.
structure Rerun (domainId : Uuid) (first second : CanonicalStore.Store Timestamp Jsonb) :
    Prop where
  rows : ∀ table : Captured, (first table.table).length = (second table.table).length
  stable : ∀ table : Captured, ∀ pair ∈ pairs first second table, SameStable table pair.1 pair.2
  domain : ∀ pair ∈ pairs first second .domain,
    concerns domainId pair.1 = concerns domainId pair.2
  evidence : ∀ pair ∈ pairs first second .evidence,
    concerns domainId pair.1 = concerns domainId pair.2
  references : ∀ evidence ∈ pairs first second .evidence,
    ∀ provenance ∈ pairs first second .provenance,
      refersTo evidence.1 provenance.1 = refersTo evidence.2 provenance.2

section Pairs

variable {first second : CanonicalStore.Store Timestamp Jsonb} {domainId : Uuid}

theorem map_fst_pairs (h : Rerun domainId first second) (table : Captured) :
    (pairs first second table).map Prod.fst = first table.table := by
  rw [pairs, List.map_fst_zip]
  exact (h.rows table).le

theorem map_snd_pairs (h : Rerun domainId first second) (table : Captured) :
    (pairs first second table).map Prod.snd = second table.table := by
  rw [pairs, List.map_snd_zip]
  exact (h.rows table).ge

theorem filter_fst {A : Type} {items : List (A × A)} {p : A → Bool} :
    (items.map Prod.fst).filter p = (items.filter fun pair => p pair.1).map Prod.fst := by
  rw [List.filter_map]
  rfl

-- The pairs of rows of the query on the provenance.
def joinedPairs (domainId : Uuid) (first second : CanonicalStore.Store Timestamp Jsonb) :
    List (CanonicalRow Timestamp Jsonb × CanonicalRow Timestamp Jsonb) :=
  (pairs first second .provenance).flatMap fun provenance =>
    ((pairs first second .evidence).filter fun evidence =>
      refersTo evidence.1 provenance.1 ∧ concerns domainId evidence.1).map fun _ => provenance

theorem map_fst_joinedPairs (h : Rerun domainId first second) :
    (joinedPairs domainId first second).map Prod.fst = joined domainId first := by
  have hprovenance : first .provenance = (pairs first second .provenance).map Prod.fst :=
    (map_fst_pairs h .provenance).symm
  have hevidence : first .evidence = (pairs first second .evidence).map Prod.fst :=
    (map_fst_pairs h .evidence).symm
  unfold joined joinedPairs
  rw [hprovenance, hevidence, List.map_flatMap, List.flatMap_map]
  apply List.flatMap_congr
  intro provenance _
  rw [filter_fst, List.map_map, List.map_map]
  rfl

theorem map_snd_joinedPairs (h : Rerun domainId first second) :
    (joinedPairs domainId first second).map Prod.snd = joined domainId second := by
  have hprovenance : second .provenance = (pairs first second .provenance).map Prod.snd :=
    (map_snd_pairs h .provenance).symm
  have hevidence : second .evidence = (pairs first second .evidence).map Prod.snd :=
    (map_snd_pairs h .evidence).symm
  unfold joined joinedPairs
  rw [hprovenance, hevidence, List.map_flatMap, List.flatMap_map]
  apply List.flatMap_congr
  intro provenance hmem
  have hsame : ∀ evidence ∈ pairs first second .evidence,
      decide (refersTo evidence.1 provenance.1 = true ∧ concerns domainId evidence.1 = true) =
        decide (refersTo evidence.2 provenance.2 = true ∧ concerns domainId evidence.2 = true) := by
    intro evidence hevidence
    rw [h.references evidence hevidence provenance hmem, h.evidence evidence hevidence]
  rw [List.filter_congr hsame, List.map_map, List.filter_map, List.map_map]
  rfl

-- The pairs of rows that the three queries read.
def rawPairs (domainId : Uuid) (first second : CanonicalStore.Store Timestamp Jsonb) :
    Captured → List (CanonicalRow Timestamp Jsonb × CanonicalRow Timestamp Jsonb)
  | .domain => (pairs first second .domain).filter fun pair => concerns domainId pair.1
  | .provenance => joinedPairs domainId first second
  | .evidence => (pairs first second .evidence).filter fun pair => concerns domainId pair.1

theorem map_fst_filter (h : Rerun domainId first second) (table : Captured) :
    ((pairs first second table).filter fun pair => concerns domainId pair.1).map Prod.fst =
      (first table.table).filter (concerns domainId) := by
  rw [← map_fst_pairs h table, List.filter_map]
  rfl

theorem map_snd_filter (h : Rerun domainId first second) (table : Captured)
    (hsame : ∀ pair ∈ pairs first second table,
      concerns domainId pair.1 = concerns domainId pair.2) :
    ((pairs first second table).filter fun pair => concerns domainId pair.1).map Prod.snd =
      (second table.table).filter (concerns domainId) := by
  rw [← map_snd_pairs h table, List.filter_map, List.filter_congr hsame]
  rfl

theorem mem_pairs_of_rawPairs {table : Captured}
    {pair : CanonicalRow Timestamp Jsonb × CanonicalRow Timestamp Jsonb}
    (hpair : pair ∈ rawPairs domainId first second table) : pair ∈ pairs first second table := by
  cases table with
  | domain => exact (List.mem_filter.mp hpair).1
  | evidence => exact (List.mem_filter.mp hpair).1
  | provenance =>
      obtain ⟨provenance, hprovenance, hmem⟩ := List.mem_flatMap.mp hpair
      obtain ⟨_, _, rfl⟩ := List.mem_map.mp hmem
      exact hprovenance

theorem mem_fst_of_pairs {table : Captured}
    {pair : CanonicalRow Timestamp Jsonb × CanonicalRow Timestamp Jsonb}
    (hpair : pair ∈ pairs first second table) : pair.1 ∈ first table.table :=
  (List.of_mem_zip hpair).1

end Pairs

theorem findIdx?_congr {A : Type} {p q : A → Bool} {items : List A}
    (h : ∀ item ∈ items, p item = q item) : items.findIdx? p = items.findIdx? q := by
  induction items with
  | nil => rfl
  | cons item items ih =>
      rw [List.findIdx?_cons, List.findIdx?_cons, h item List.mem_cons_self,
        ih fun later hlater => h later (List.mem_cons_of_mem _ hlater)]

section Sorted

variable [LinearOrder Timestamp] {server : Server Timestamp Jsonb} {collation : LinearOrder Text}
variable {first second : CanonicalStore.Store Timestamp Jsonb} {domainId : Uuid}

-- No two rows that the snapshot reads are told apart by their generated ids only.
structure Untied (collation : LinearOrder Text) (domainId : Uuid)
    (store : CanonicalStore.Store Timestamp Jsonb) : Prop where
  evidence : ∀ a ∈ (store .evidence).filter (concerns domainId),
    ∀ b ∈ (store .evidence).filter (concerns domainId),
      evidenceKey collation a = evidenceKey collation b → a = b
  provenance : ∀ a ∈ joined domainId store, ∀ b ∈ joined domainId store,
    provenanceKey collation a = provenanceKey collation b → a = b

omit [LinearOrder Timestamp] in
theorem nodup_stored (hsound : Sound (schema server) first) (table : Captured) :
    (first table.table).Nodup := by
  obtain ⟨name, hname⟩ := exists_primaryKey server table
  refine (hsound.distinct table.table _ hname).imp_of_mem ?_
  intro a b ha _ hclash heq
  obtain ⟨id, hid⟩ := exists_key hsound ha
  exact hclash (Key.clash_one.mpr ⟨_, hid, heq ▸ hid⟩)

omit [LinearOrder Timestamp] in
-- A row of the first store stands in one pair.
theorem eq_of_fst (h : Rerun domainId first second) (hsound : Sound (schema server) first)
    {table : Captured} {p q : CanonicalRow Timestamp Jsonb × CanonicalRow Timestamp Jsonb}
    (hp : p ∈ pairs first second table) (hq : q ∈ pairs first second table) (heq : p.1 = q.1) :
    p = q := by
  have hnodup : ((pairs first second table).map Prod.fst).Nodup := by
    rw [map_fst_pairs h table]
    exact nodup_stored hsound table
  exact List.inj_on_of_nodup_map hnodup hp hq heq

omit [LinearOrder Timestamp] in
theorem evidenceKey_congr {a b : CanonicalRow Timestamp Jsonb} (h : SameStable .evidence a b) :
    evidenceKey collation a = evidenceKey collation b := by
  unfold evidenceKey
  rw [h .observedAt (by decide) (by decide), h .signalClass (by decide) (by decide),
    h .sourceUrl (by decide) (by decide)]

omit [LinearOrder Timestamp] in
theorem provenanceKey_congr {a b : CanonicalRow Timestamp Jsonb}
    (h : SameStable .provenance a b) :
    provenanceKey collation a = provenanceKey collation b := by
  unfold provenanceKey
  rw [h .observedAt (by decide) (by decide), h .method (by decide) (by decide)]

-- The two snapshots meet the rows in the same order.
theorem exists_sorted (h : Rerun domainId first second) (hsound : Sound (schema server) first)
    (huntied : Untied collation domainId first) (table : Captured) :
    ∃ sorted : List (CanonicalRow Timestamp Jsonb × CanonicalRow Timestamp Jsonb),
      sorted.Perm (rawPairs domainId first second table) ∧
      raw collation domainId first table = sorted.map Prod.fst ∧
      raw collation domainId second table = sorted.map Prod.snd := by
  cases table with
  | domain =>
      have hid : ∀ pair ∈ rawPairs domainId first second .domain,
          domainOrder pair.1 = nullsLast (some domainId) ∧
            domainOrder pair.2 = nullsLast (some domainId) := by
        intro pair hpair
        obtain ⟨hmem, hconcerns⟩ := List.mem_filter.mp hpair
        have hother := h.domain pair hmem
        rw [hconcerns] at hother
        exact ⟨congrArg nullsLast (of_decide_eq_true hconcerns),
          congrArg nullsLast (of_decide_eq_true hother.symm)⟩
      refine ⟨orderBy (fun pair => domainOrder pair.1) (rawPairs domainId first second .domain),
        perm_orderBy _ _, ?_, ?_⟩
      · have hrows : (first .domain).filter (concerns domainId) =
            (rawPairs domainId first second .domain).map Prod.fst := (map_fst_filter h .domain).symm
        simp only [raw, hrows]
        refine (map_orderBy ?_).symm
        intro p _ q _
        rfl
      · have hrows : (second .domain).filter (concerns domainId) =
            (rawPairs domainId first second .domain).map Prod.snd :=
          (map_snd_filter h .domain h.domain).symm
        simp only [raw, hrows]
        refine (map_orderBy ?_).symm
        intro p hp q hq
        rw [(hid p hp).1, (hid q hq).1, (hid p hp).2, (hid q hq).2]
  | provenance =>
      simp only [raw]
      rw [← map_fst_joinedPairs h, ← map_snd_joinedPairs h]
      refine orderBy_pairs ?_ ?_
      · intro pair hpair
        exact provenanceKey_congr (h.stable .provenance pair (mem_pairs_of_rawPairs hpair))
      · intro p hp q hq hsame
        have hmem : ∀ pair ∈ joinedPairs domainId first second, pair.1 ∈ joined domainId first := by
          intro pair hpair
          rw [← map_fst_joinedPairs h]
          exact List.mem_map_of_mem hpair
        exact eq_of_fst h hsound (mem_pairs_of_rawPairs hp) (mem_pairs_of_rawPairs hq)
          (huntied.provenance _ (hmem p hp) _ (hmem q hq) hsame)
  | evidence =>
      have hfirst : (first .evidence).filter (concerns domainId) =
          (rawPairs domainId first second .evidence).map Prod.fst :=
        (map_fst_filter h .evidence).symm
      have hsecond : (second .evidence).filter (concerns domainId) =
          (rawPairs domainId first second .evidence).map Prod.snd :=
        (map_snd_filter h .evidence h.evidence).symm
      simp only [raw, hfirst, hsecond]
      refine orderBy_pairs ?_ ?_
      · intro pair hpair
        exact evidenceKey_congr (h.stable .evidence pair (List.mem_filter.mp hpair).1)
      · intro p hp q hq hsame
        have hmem : ∀ pair ∈ rawPairs domainId first second .evidence,
            pair.1 ∈ (first .evidence).filter (concerns domainId) := by
          intro pair hpair
          obtain ⟨hpairs, hconcerns⟩ := List.mem_filter.mp hpair
          exact List.mem_filter.mpr ⟨mem_fst_of_pairs hpairs, hconcerns⟩
        exact eq_of_fst h hsound (mem_pairs_of_rawPairs hp) (mem_pairs_of_rawPairs hq)
          (huntied.evidence _ (hmem p hp) _ (hmem q hq) hsame)

omit [LinearOrder Timestamp] in
-- A reference of the two rows leads to the same place.
theorem sameKey (h : Rerun domainId first second) (hfirst : Sound (schema server) first)
    (hsecond : Sound (schema server) second) {column : Column} {referenced : Captured}
    (hreference : REFERENCE_COLUMNS .evidence column = some referenced)
    {row target : CanonicalRow Timestamp Jsonb × CanonicalRow Timestamp Jsonb}
    (hrow : row ∈ rawPairs domainId first second .evidence)
    (htarget : target ∈ rawPairs domainId first second referenced) :
    target.1 referenced.primaryKey = row.1 column ↔
      target.2 referenced.primaryKey = row.2 column := by
  obtain ⟨hpairs, hconcerns⟩ := List.mem_filter.mp hrow
  have hconcernsOther : concerns domainId row.2 = true := h.evidence row hpairs ▸ hconcerns
  have hcolumn : (column = .domainId ∧ referenced = .domain) ∨
      (column = .provenanceId ∧ referenced = .provenance) := by
    cases column <;> simp_all [REFERENCE_COLUMNS]
  rcases hcolumn with ⟨rfl, rfl⟩ | ⟨rfl, rfl⟩
  · obtain ⟨hdomain, hid⟩ := List.mem_filter.mp htarget
    have hidOther : concerns domainId target.2 = true := h.domain target hdomain ▸ hid
    have hone : target.1 .domainId = row.1 .domainId :=
      (concerns_iff.mp hid).trans (concerns_iff.mp hconcerns).symm
    have hother : target.2 .domainId = row.2 .domainId :=
      (concerns_iff.mp hidOther).trans (concerns_iff.mp hconcernsOther).symm
    exact iff_of_true hone hother
  · have hmem := List.of_mem_zip hpairs
    obtain ⟨one, _, hone, -⟩ := exists_provenance hfirst hmem.1
    obtain ⟨other, _, hother, -⟩ := exists_provenance hsecond hmem.2
    have hrefers := h.references row hpairs target (mem_pairs_of_rawPairs htarget)
    have hsame := congrArg (· = true) hrefers
    simp only [eq_iff_iff, refersTo_iff, hone, hother, Option.some.injEq,
      Cell.uuid.injEq] at hsame
    simpa [Captured.primaryKey, hone, hother] using hsame

variable [DecidableEq Jsonb]

-- The two snapshots render the two rows of a pair alike.
theorem stableRow_congr (h : Rerun domainId first second) (hfirst : Sound (schema server) first)
    (hsecond : Sound (schema server) second)
    {sorted : Captured → List (CanonicalRow Timestamp Jsonb × CanonicalRow Timestamp Jsonb)}
    (hsorted : ∀ table, (sorted table).Perm (rawPairs domainId first second table))
    {table : Captured} {row : CanonicalRow Timestamp Jsonb × CanonicalRow Timestamp Jsonb}
    (hrow : row ∈ sorted table) :
    stableRow (fun table => (sorted table).map Prod.fst) table row.1 =
      stableRow (fun table => (sorted table).map Prod.snd) table row.2 := by
  have hraw : row ∈ rawPairs domainId first second table := (hsorted table).mem_iff.mp hrow
  apply Result.foldlM_congr
  intro column hcolumn done
  have hsame : stableColumn (fun table => (sorted table).map Prod.fst) table row.1 column =
      stableColumn (fun table => (sorted table).map Prod.snd) table row.2 column := by
    unfold stableColumn
    split_ifs with hvolatile
    · cases hreference : REFERENCE_COLUMNS table column with
      | none => rfl
      | some referenced =>
          have htable : table = .evidence := by
            cases table with
            | evidence => rfl
            | domain => cases hreference
            | provenance => cases hreference
          subst htable
          have hindex : ((sorted referenced).map Prod.fst).findIdx?
                (fun target => target referenced.primaryKey = row.1 column) =
              ((sorted referenced).map Prod.snd).findIdx?
                fun target => target referenced.primaryKey = row.2 column := by
            rw [List.findIdx?_map, List.findIdx?_map]
            apply findIdx?_congr
            intro target htarget
            exact decide_eq_decide.mpr (sameKey h hfirst hsecond hreference hraw
              ((hsorted referenced).mem_iff.mp htarget))
          simp only [resolveReference, hindex]
    · rw [h.stable table row (mem_pairs_of_rawPairs hraw) column hcolumn hvolatile]
  rw [hsame]

-- The snapshots of two runs agree in their stable part.
theorem stable_eq_of_rerun (h : Rerun domainId first second)
    (hfirst : Sound (schema server) first) (hsecond : Sound (schema server) second)
    {reads : Cell Timestamp Jsonb → Bool} (hload : Loadable collation domainId first reads)
    (hreload : Loadable collation domainId second reads)
    (huntied : Untied collation domainId first) :
    ∃ one other, captureSnapshot collation domainId first reads = .ok one ∧
      captureSnapshot collation domainId second reads = .ok other ∧ one.stable = other.stable := by
  choose sorted hsorted hrawFirst hrawSecond using exists_sorted h hfirst huntied
  have hfirstRows : raw collation domainId first = fun table => (sorted table).map Prod.fst :=
    funext hrawFirst
  have hsecondRows : raw collation domainId second = fun table => (sorted table).map Prod.snd :=
    funext hrawSecond
  choose rows hrows _ using exists_rows collation domainId hfirst
  have hother : ∀ table, (raw collation domainId second table).mapM
      (stableRow (raw collation domainId second) table) = .ok (rows table) := by
    intro table
    rw [← hrows table, hfirstRows, hsecondRows, List.mapM_map, List.mapM_map]
    apply Result.mapM_congr
    intro row hrow
    exact (stableRow_congr h hfirst hsecond hsorted hrow).symm
  exact ⟨_, _, captureSnapshot_of_rows hload hrows, captureSnapshot_of_rows hreload hother, rfl⟩

end Sorted

section Replayed

variable {link : Uuid → Uuid → Prop} {first second : CanonicalStore.Store Timestamp Jsonb}
variable {rows copies : Tables Timestamp Jsonb}

theorem sameStable_domain {a b : CanonicalRow Timestamp Jsonb} {row : Domain}
    (ha : DomainStands a row) (hb : DomainStands b row) : SameStable .domain a b := by
  intro column hcolumn hstable
  simp only [SELECTED_COLUMNS, List.mem_cons, List.not_mem_nil, or_false] at hcolumn
  rcases hcolumn with rfl | rfl | rfl | rfl | rfl | rfl | rfl | rfl
  · exact absurd (by decide) hstable
  · rw [ha.normalisedUrl, hb.normalisedUrl]
  · rw [ha.currentStatus, hb.currentStatus]
  · rw [ha.currentScore, hb.currentScore]
  · rw [ha.scoreVersion, hb.scoreVersion]
  · rw [ha.lastScoredAt, hb.lastScoredAt]
  · exact absurd (by decide) hstable
  · exact absurd (by decide) hstable

theorem sameStable_provenance {a b : CanonicalRow Timestamp Jsonb} {row copy : Provenance Timestamp}
    (ha : ProvenanceStands a row) (hmatch : ProvenanceMatch link row copy)
    (hb : ProvenanceStands b copy) : SameStable .provenance a b := by
  intro column hcolumn hstable
  simp only [SELECTED_COLUMNS, List.mem_cons, List.not_mem_nil, or_false] at hcolumn
  rcases hcolumn with rfl | rfl | rfl | rfl | rfl | rfl | rfl
  · exact absurd (by decide) hstable
  · rw [ha.source, hb.source, hmatch.source]
  · rw [ha.method, hb.method, hmatch.method]
  · rw [ha.observedAt, hb.observedAt, hmatch.observedAt]
  · rw [ha.contributorId, hb.contributorId]
  · rw [ha.contributorIdentity, hb.contributorIdentity, hmatch.contributorIdentity]
  · exact absurd (by decide) hstable

theorem sameStable_evidence {a b : CanonicalRow Timestamp Jsonb}
    {row copy : Evidence Timestamp Jsonb}
    (ha : EvidenceStands a row) (hmatch : EvidenceMatch link row copy)
    (hb : EvidenceStands b copy) : SameStable .evidence a b := by
  intro column hcolumn hstable
  simp only [SELECTED_COLUMNS, List.mem_cons, List.not_mem_nil, or_false] at hcolumn
  rcases hcolumn with rfl | rfl | rfl | rfl | rfl | rfl | rfl | rfl | rfl | rfl | rfl
  · exact absurd (by decide) hstable
  · exact absurd (by decide) hstable
  · rw [ha.signalClass, hb.signalClass, hmatch.signalClass]
  · rw [ha.source, hb.source, hmatch.source]
  · rw [ha.method, hb.method, hmatch.method]
  · rw [ha.sourceUrl, hb.sourceUrl, hmatch.sourceUrl]
  · rw [ha.observedAt, hb.observedAt, hmatch.observedAt]
  · exact absurd (by decide) hstable
  · rw [ha.contributorIdentity, hb.contributorIdentity]
  · rw [ha.observedValue, hb.observedValue, hmatch.observedValue]
  · exact absurd (by decide) hstable

-- The stores that two runs of the writers leave.
theorem rerun_of_match (hlink : Relator.BiUnique link) (h : TablesMatch link rows copies)
    (hfirst : Represents first rows) (hsecond : Represents second copies) (domainId : Uuid) :
    Rerun domainId first second := by
  have hdomain := List.forall₂_iff_zip.mp
    (forall₂_through hfirst.domain (List.forall₂_eq_eq_eq ▸ h.domain) hsecond.domain)
  have hprovenance := List.forall₂_iff_zip.mp
    (forall₂_through hfirst.provenance h.provenance hsecond.provenance)
  have hevidence := List.forall₂_iff_zip.mp
    (forall₂_through hfirst.evidence h.evidence hsecond.evidence)
  constructor
  · intro table
    cases table with
    | domain => exact hdomain.1
    | provenance => exact hprovenance.1
    | evidence => exact hevidence.1
  · intro table pair hpair
    cases table with
    | domain =>
        obtain ⟨row, copy, ha, rfl, hb⟩ := hdomain.2 hpair
        exact sameStable_domain ha hb
    | provenance =>
        obtain ⟨row, copy, ha, hmatch, hb⟩ := hprovenance.2 hpair
        exact sameStable_provenance ha hmatch hb
    | evidence =>
        obtain ⟨row, copy, ha, hmatch, hb⟩ := hevidence.2 hpair
        exact sameStable_evidence ha hmatch hb
  · intro pair hpair
    obtain ⟨row, copy, ha, rfl, hb⟩ := hdomain.2 hpair
    simp only [concerns, ha.domainId, hb.domainId]
  · intro pair hpair
    obtain ⟨row, copy, ha, hmatch, hb⟩ := hevidence.2 hpair
    simp only [concerns, ha.domainId, hb.domainId, hmatch.domainId]
  · intro evidence hmem provenance hother
    obtain ⟨row, copy, ha, hmatch, hb⟩ := hevidence.2 hmem
    obtain ⟨target, targetCopy, hta, htmatch, htb⟩ := hprovenance.2 hother
    have hsame := link_iff hlink hmatch.provenanceId htmatch.provenanceId
    simp only [refersTo, uuidCell, ha.provenanceId, hb.provenanceId, hta.provenanceId,
      htb.provenanceId, Option.isSome_some, true_and, Option.some.injEq, hsame]

-- A schedule of writers that runs twice, each time against a freshly migrated database:
-- whatever ids and times the database generates, and whatever the events hold beside what
-- the writer reads, the snapshots agree in the whole of their stable part. The driver can
-- read the rows of both.
theorem rerun_reproducible [LinearOrder Timestamp] [DecidableEq Jsonb] {T : Type} [DecidableEq T]
    {server : Server Timestamp Jsonb} {maxStrDigits : ℕ} {str : EventBus.Value → Text}
    {collation : LinearOrder Text} {domainId : Uuid} (hlink : Relator.BiUnique link)
    {start last again final : World T Timestamp Jsonb} {trace replay : List (Input T × Unit)}
    (hrun : Run (step server maxStrDigits str) (Enabled str) start trace last)
    (hagain : Run (step server maxStrDigits str) (Enabled str) again replay final)
    (hstart : WorldMatch link start again)
    (hinputs : List.Forall₂ (InputMatch link str) (trace.map Prod.fst) (replay.map Prod.fst))
    {transactions others : Trace Timestamp Jsonb}
    (hfirst : ApplicationRun server Store.empty transactions first)
    (hsecond : ApplicationRun server Store.empty others second)
    (hrows : Represents first last.committed) (hcopies : Represents second final.committed)
    {reads : Cell Timestamp Jsonb → Bool} (hload : Loadable collation domainId first reads)
    (hreload : Loadable collation domainId second reads)
    (huntied : Untied collation domainId first) :
    ∃ one other, captureSnapshot collation domainId first reads = .ok one ∧
      captureSnapshot collation domainId second reads = .ok other ∧ one.stable = other.stable := by
  have hmatch : WorldMatch link last final := by
    obtain ⟨copy, reached, hcopy, hsame, hmatch⟩ := replay_of_match hlink hrun hstart hinputs
    have htrace : copy = replay := by
      refine List.map_injective_iff.mpr ?_ hsame
      intro a b hab
      exact Prod.ext hab rfl
    subst htrace
    rwa [← hcopy.unique hagain]
  exact stable_eq_of_rerun (rerun_of_match hlink hmatch.committed hrows hcopies domainId)
    (sound_reached hfirst) (sound_reached hsecond) hload hreload huntied

end Replayed

section Observed

def signalPair (provenanceId evidenceId : Uuid) : Tables Text Json.Tree where
  domain := []
  provenance := [signalProvenance provenanceId]
  evidence := [signalEvidence provenanceId evidenceId]

def observedPair (provenanceId evidenceId : Uuid) : Tables Text Json.Tree :=
  observedDomain.append (signalPair provenanceId evidenceId)

theorem run_observed : ∃ trace last,
    Run (step sampleServer 4300 strOf) (Enabled strOf) idleWorld trace last ∧
      last.committed = observedPair ⟨1⟩ ⟨2⟩ := by
  have hstart : Run (step sampleServer 4300 strOf) (Admissible strOf (EventBus.points "key"))
    idleWorld [] idleWorld := .nil
  have hquiet : ∀ (world : World Bool Text Json.Tree), (∀ holder, world.calls false ≠ .running holder) →
      ∀ other holder, other ≠ true → world.calls other = .running holder →
        holder.own = Tables.empty := by
    intro world hfalse other holder hother hholder
    rw [Bool.eq_false_of_not_eq_true hother] at hholder
    exact absurd hholder (hfalse holder)
  obtain ⟨_, hbegun, -⟩ := run_begin hstart true rfl rfl parameters_signal
  obtain ⟨_, hmissed, -⟩ := run_statement hbegun true rfl (by simp [begin]) (by simp [begin])
    (unused_observedDomain ⟨1⟩) (unused_empty _)
    (hquiet _ (by simp [World.calls_set, idleWorld])) execute_missed
  have hreferred : ∃ row ∈ observedDomain.domain, row.domainId = EventBus.sampleId :=
    ⟨_, List.mem_singleton_self _, rfl⟩
  obtain ⟨trace, last, hpaired, hcommitted, _⟩ := run_pair hmissed true rfl
    (hquiet _ (by simp [World.calls_set, idleWorld])) (wrote_signal ⟨1⟩ ⟨2⟩) hreferred (by decide)
    (unused_observedDomain ⟨1⟩) (unused_observedDomain ⟨2⟩)
  exact ⟨trace, last, hpaired.mono fun _ _ hadmissible => ⟨_, hadmissible⟩, hcommitted⟩

theorem observedPair_of_match {copies : Tables Text Json.Tree}
    (h : TablesMatch (fun id copy => renamed id = copy) (observedPair ⟨1⟩ ⟨2⟩) copies) :
    copies = observedPair (renamed ⟨1⟩) (renamed ⟨2⟩) := by
  obtain ⟨domains, provenances, evidences⟩ := copies
  obtain ⟨hdomain, hprovenance, hevidence⟩ := h
  cases hprovenance with
  | @cons _ provenance _ _ hrow hrest =>
      cases hrest
      cases hevidence with
      | @cons _ evidence _ _ hobserved hrest =>
          cases hrest
          have hfirst : provenance = signalProvenance (renamed ⟨1⟩) := by
            obtain ⟨id, source, method, observedAt, contributorIdentity⟩ := provenance
            obtain ⟨rfl, rfl, rfl, rfl, rfl⟩ := hrow
            rfl
          have hsecond : evidence = signalEvidence (renamed ⟨1⟩) (renamed ⟨2⟩) := by
            obtain ⟨id, domainId, signalClass, source, method, sourceUrl, observedAt,
              observedValue, provenanceId⟩ := evidence
            obtain ⟨rfl, rfl, rfl, rfl, rfl, rfl, rfl, rfl, rfl⟩ := hobserved
            rfl
          have hdomains : domains = observedDomain.domain := hdomain.symm
          rw [hfirst, hsecond, hdomains]
          rfl

theorem insertable_observedDomain : Insertable sampleServer Tables.empty observedDomain where
  fresh :=
    have hempty : Insertable sampleServer observedDomain Tables.empty := insertable_empty
    hempty.fresh.symm
  domainRows row hrow := by
    rw [List.mem_singleton.mp hrow]
    exact ⟨by decide, by decide⟩
  domain := List.pairwise_singleton _ _
  provenance := .nil
  evidence := .nil
  toDomain row hrow := absurd hrow List.not_mem_nil
  toProvenance row hrow := absurd hrow List.not_mem_nil

theorem insertable_pair (provenanceId evidenceId : Uuid) :
    Insertable sampleServer observedDomain (signalPair provenanceId evidenceId) where
  fresh := ⟨fun _ _ _ hb => absurd hb List.not_mem_nil, fun _ ha => absurd ha List.not_mem_nil,
    fun _ ha => absurd ha List.not_mem_nil⟩
  domainRows row hrow := absurd hrow List.not_mem_nil
  domain := .nil
  provenance := List.pairwise_singleton _ _
  evidence := List.pairwise_singleton _ _
  toDomain row hrow := by
    rw [List.mem_singleton.mp hrow]
    exact ⟨_, List.mem_singleton_self _, rfl⟩
  toProvenance row hrow := by
    rw [List.mem_singleton.mp hrow]
    exact ⟨_, List.mem_singleton_self _, rfl⟩

theorem exists_store [DecidableEq Text] [DecidableEq Json.Tree]
    (provenanceId evidenceId : Uuid) :
    ∃ transactions store, ApplicationRun sampleServer Store.empty transactions store ∧
      Represents store (observedPair provenanceId evidenceId) := by
  have hempty : Represents (Store.empty : CanonicalStore.Store Text Json.Tree) Tables.empty :=
    ⟨.nil, .nil, .nil⟩
  have hseeded := transact_inserts [] hempty.reads insertable_observedDomain
  have hdomain := hempty.extended [] sampleServer observedDomain
  have hstore := transact_inserts [] hdomain.reads (insertable_pair provenanceId evidenceId)
  have hstart : ApplicationRun sampleServer Store.empty [] Store.empty := .nil
  have hfirst := hstart.snoc (inserts [] observedDomain) trivial
  rw [hseeded] at hfirst
  have hsecond := hfirst.snoc (inserts [] (signalPair provenanceId evidenceId)) trivial
  rw [hstore] at hsecond
  exact ⟨_, _, hsecond, hdomain.extended [] sampleServer (signalPair provenanceId evidenceId)⟩

theorem untied_observed {store : CanonicalStore.Store Text Json.Tree} {provenanceId evidenceId : Uuid}
    (h : Represents store (observedPair provenanceId evidenceId)) :
    Untied List.instLinearOrder EventBus.sampleId store := by
  obtain ⟨_, hprovenance, hevidence⟩ := h
  have hone : ∀ {A B : Type} {R : A → B → Prop} {as : List A} {b : B}, List.Forall₂ R as [b] →
      ∀ a ∈ as, ∀ other ∈ as, a = other := by
    intro A B R as b hmatch a ha other hother
    cases hmatch with
    | cons _ hrest =>
        cases hrest
        rw [List.mem_singleton.mp ha, List.mem_singleton.mp hother]
  constructor
  · intro a ha b hb _
    exact hone hevidence a (List.mem_filter.mp ha).1 b (List.mem_filter.mp hb).1
  · intro a ha b hb _
    exact hone hprovenance a (mem_joined_iff.mp ha).1 b (mem_joined_iff.mp hb).1

open Classical in
theorem rerun_reproducible_observed : ∃ first second : CanonicalStore.Store Text Json.Tree,
    Represents first (observedPair ⟨1⟩ ⟨2⟩) ∧
      Represents second (observedPair (renamed ⟨1⟩) (renamed ⟨2⟩)) ∧
      ∃ one other,
        captureSnapshot List.instLinearOrder EventBus.sampleId first (fun _ => true) = .ok one ∧
        captureSnapshot List.instLinearOrder EventBus.sampleId second (fun _ => true) = .ok other ∧
        one.stable = other.stable := by
  obtain ⟨trace, last, hrun, hcommitted⟩ := run_observed
  have hidle : WorldMatch (fun id copy => renamed id = copy) idleWorld idleWorld :=
    ⟨⟨rfl, .nil, .nil⟩, fun _ => .idle⟩
  obtain ⟨replay, final, hreplay, hinputs, hmatch⟩ :=
    replay_of_match biUnique_renamed hrun hidle (inputsMatch_renamed _)
  have hcopies := hmatch.committed
  rw [hcommitted] at hcopies
  obtain ⟨_, first, hfirst, hrows⟩ :=
    @exists_store LinearOrder.toDecidableEq inferInstance ⟨1⟩ ⟨2⟩
  obtain ⟨_, second, hsecond, hothers⟩ :=
    @exists_store LinearOrder.toDecidableEq inferInstance (renamed ⟨1⟩) (renamed ⟨2⟩)
  have hreached : Represents first last.committed := by
    rw [hcommitted]
    exact hrows
  have hreplayed : Represents second final.committed := by
    rw [observedPair_of_match hcopies]
    exact hothers
  have hrepeated : List.Forall₂ (InputMatch (fun id copy => renamed id = copy) strOf)
      (trace.map Prod.fst) (replay.map Prod.fst) := by
    rw [hinputs]
    exact inputsMatch_renamed _
  refine ⟨first, second, hrows, hothers, ?_⟩
  exact rerun_reproducible biUnique_renamed hrun hreplay hidle hrepeated hfirst hsecond hreached
    hreplayed (fun _ _ _ _ _ _ _ => rfl) (fun _ _ _ _ _ _ _ => rfl) (untied_observed hrows)

end Observed

end TrustlistCore.Reproducibility
