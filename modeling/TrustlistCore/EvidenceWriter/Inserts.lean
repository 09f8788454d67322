import TrustlistCore.DataModel.ApplicationRole
import TrustlistCore.EvidenceWriter.Writer.Theorems
import TrustlistCore.Library.Pointwise

namespace TrustlistCore.EvidenceWriter

open Library Relational DataModel
open CanonicalStore hiding Store

variable {Timestamp Jsonb : Type}

def statusLabel : DomainStatus → String
  | .green => "green"
  | .grey => "grey"
  | .red => "red"
  | .underReview => "under_review"
  | .dormant => "dormant"

-- INSERT INTO domain (domain_id, normalised_url, current_status)
def domainValues (row : Domain) : Column → Option (Option (Cell Timestamp Jsonb))
  | .domainId => some (some (.uuid row.domainId))
  | .normalisedUrl => some (some (.text row.normalisedUrl))
  | .currentStatus => some (some (.label (statusLabel row.currentStatus)))
  | _ => none

-- INSERT INTO provenance (source, method, observed_at, contributor_identity)
def provenanceValues (row : Provenance Timestamp) :
    Column → Option (Option (Cell Timestamp Jsonb))
  | .source => some (some (.label row.source.label))
  | .method => some (some (.text row.method))
  | .observedAt => some (some (.timestamp row.observedAt))
  | .contributorIdentity => some (row.contributorIdentity.map .text)
  | _ => none

-- INSERT INTO evidence (domain_id, signal_class, source, method, source_url, observed_at,
--   observed_value, provenance_id)
def evidenceValues (row : Evidence Timestamp Jsonb) :
    Column → Option (Option (Cell Timestamp Jsonb))
  | .domainId => some (some (.uuid row.domainId))
  | .signalClass => some (some (.text row.signalClass))
  | .source => some (some (.label row.source.label))
  | .method => some (some (.text row.method))
  | .sourceUrl => some (some (.text row.sourceUrl))
  | .observedAt => some (some (.timestamp row.observedAt))
  | .observedValue => some (some (.jsonb row.observedValue))
  | .provenanceId => some (some (.uuid row.provenanceId))
  | _ => none

variable (now : Timestamp)

def insertDomain (row : Domain) : CanonicalStatement Timestamp Jsonb :=
  .insert .domain (domainValues row) ⟨row.domainId, now⟩

-- The id is the one that the server generates for the row.
def insertProvenance (row : Provenance Timestamp) : CanonicalStatement Timestamp Jsonb :=
  .insert .provenance (provenanceValues row) ⟨row.provenanceId, now⟩

def insertEvidence (row : Evidence Timestamp Jsonb) : CanonicalStatement Timestamp Jsonb :=
  .insert .evidence (evidenceValues row) ⟨row.evidenceId, now⟩

-- The rows of a transaction as its statements insert them.
def inserts (own : Tables Timestamp Jsonb) : List (CanonicalStatement Timestamp Jsonb) :=
  own.domain.map (insertDomain now) ++ own.provenance.map (insertProvenance now) ++
    own.evidence.map (insertEvidence now)

section Reads

-- The columns of a stored row that the writer reads and writes are those of the row.
structure ReadsDomain (stored : CanonicalRow Timestamp Jsonb) (row : Domain) : Prop where
  domainId : stored .domainId = some (.uuid row.domainId)
  normalisedUrl : stored .normalisedUrl = some (.text row.normalisedUrl)
  currentStatus : stored .currentStatus = some (.label (statusLabel row.currentStatus))

structure ReadsProvenance (stored : CanonicalRow Timestamp Jsonb)
    (row : Provenance Timestamp) : Prop where
  provenanceId : stored .provenanceId = some (.uuid row.provenanceId)
  source : stored .source = some (.label row.source.label)
  method : stored .method = some (.text row.method)
  observedAt : stored .observedAt = some (.timestamp row.observedAt)
  contributorIdentity : stored .contributorIdentity = row.contributorIdentity.map .text

structure ReadsEvidence (stored : CanonicalRow Timestamp Jsonb)
    (row : Evidence Timestamp Jsonb) : Prop where
  evidenceId : stored .evidenceId = some (.uuid row.evidenceId)
  domainId : stored .domainId = some (.uuid row.domainId)
  signalClass : stored .signalClass = some (.text row.signalClass)
  source : stored .source = some (.label row.source.label)
  method : stored .method = some (.text row.method)
  sourceUrl : stored .sourceUrl = some (.text row.sourceUrl)
  observedAt : stored .observedAt = some (.timestamp row.observedAt)
  observedValue : stored .observedValue = some (.jsonb row.observedValue)
  provenanceId : stored .provenanceId = some (.uuid row.provenanceId)

-- The writer sees these rows in the three tables, in this order.
structure Reads (store : CanonicalStore.Store Timestamp Jsonb)
    (tables : Tables Timestamp Jsonb) : Prop where
  domain : List.Forall₂ ReadsDomain (store .domain) tables.domain
  provenance : List.Forall₂ ReadsProvenance (store .provenance) tables.provenance
  evidence : List.Forall₂ ReadsEvidence (store .evidence) tables.evidence

end Reads

section Stands

-- The writer leaves the other columns NULL.
structure DomainStands (stored : CanonicalRow Timestamp Jsonb) (row : Domain) : Prop
    extends ReadsDomain stored row where
  currentScore : stored .currentScore = none
  scoreVersion : stored .scoreVersion = none
  lastScoredAt : stored .lastScoredAt = none

structure ProvenanceStands (stored : CanonicalRow Timestamp Jsonb)
    (row : Provenance Timestamp) : Prop extends ReadsProvenance stored row where
  contributorId : stored .contributorId = none

structure EvidenceStands (stored : CanonicalRow Timestamp Jsonb)
    (row : Evidence Timestamp Jsonb) : Prop extends ReadsEvidence stored row where
  contributorIdentity : stored .contributorIdentity = none

-- The store holds these rows of the three tables, in this order.
structure Represents (store : CanonicalStore.Store Timestamp Jsonb)
    (tables : Tables Timestamp Jsonb) : Prop where
  domain : List.Forall₂ DomainStands (store .domain) tables.domain
  provenance : List.Forall₂ ProvenanceStands (store .provenance) tables.provenance
  evidence : List.Forall₂ EvidenceStands (store .evidence) tables.evidence

theorem Represents.reads {store : CanonicalStore.Store Timestamp Jsonb}
    {tables : Tables Timestamp Jsonb} (h : Represents store tables) : Reads store tables where
  domain := h.domain.imp fun _ _ hstands => hstands.toReadsDomain
  provenance := h.provenance.imp fun _ _ hstands => hstands.toReadsProvenance
  evidence := h.evidence.imp fun _ _ hstands => hstands.toReadsEvidence

end Stands

section Filled

variable (server : Server Timestamp Jsonb)

def storedDomain (row : Domain) : CanonicalRow Timestamp Jsonb :=
  (createTable server .domain).fill (domainValues row) ⟨row.domainId, now⟩

def storedProvenance (row : Provenance Timestamp) : CanonicalRow Timestamp Jsonb :=
  (createTable server .provenance).fill (provenanceValues row) ⟨row.provenanceId, now⟩

def storedEvidence (row : Evidence Timestamp Jsonb) : CanonicalRow Timestamp Jsonb :=
  (createTable server .evidence).fill (evidenceValues row) ⟨row.evidenceId, now⟩

theorem stands_domain (row : Domain) : DomainStands (storedDomain now server row) row :=
  ⟨⟨rfl, rfl, rfl⟩, rfl, rfl, rfl⟩

theorem stands_provenance (row : Provenance Timestamp) :
    ProvenanceStands (storedProvenance now server row) row :=
  ⟨⟨rfl, rfl, rfl, rfl, rfl⟩, rfl⟩

theorem stands_evidence (row : Evidence Timestamp Jsonb) :
    EvidenceStands (storedEvidence now server row) row :=
  ⟨⟨rfl, rfl, rfl, rfl, rfl, rfl, rfl, rfl, rfl⟩, rfl⟩

-- The store with the rows of a transaction after its own.
def extended (store : CanonicalStore.Store Timestamp Jsonb) (own : Tables Timestamp Jsonb) :
    CanonicalStore.Store Timestamp Jsonb
  | .domain => store .domain ++ own.domain.map (storedDomain now server)
  | .provenance => store .provenance ++ own.provenance.map (storedProvenance now server)
  | .evidence => store .evidence ++ own.evidence.map (storedEvidence now server)
  | table => store table

theorem forall₂_extended {A B : Type} {R : A → B → Prop} {f : B → A} (h : ∀ b, R (f b) b)
    {stored : List A} {rows : List B} (hrows : List.Forall₂ R stored rows) (more : List B) :
    List.Forall₂ R (stored ++ more.map f) (rows ++ more) := by
  refine List.rel_append hrows ?_
  rw [List.forall₂_map_left_iff]
  exact List.forall₂_same.mpr fun b _ => h b

theorem Reads.extended {store : CanonicalStore.Store Timestamp Jsonb}
    {tables : Tables Timestamp Jsonb} (h : Reads store tables) (own : Tables Timestamp Jsonb) :
    Reads (extended now server store own) (tables.append own) where
  domain := forall₂_extended (fun row => (stands_domain now server row).toReadsDomain) h.domain _
  provenance := forall₂_extended
    (fun row => (stands_provenance now server row).toReadsProvenance) h.provenance _
  evidence := forall₂_extended
    (fun row => (stands_evidence now server row).toReadsEvidence) h.evidence _

theorem Represents.extended {store : CanonicalStore.Store Timestamp Jsonb}
    {tables : Tables Timestamp Jsonb} (h : Represents store tables)
    (own : Tables Timestamp Jsonb) :
    Represents (extended now server store own) (tables.append own) where
  domain := forall₂_extended (stands_domain now server) h.domain _
  provenance := forall₂_extended (stands_provenance now server) h.provenance _
  evidence := forall₂_extended (stands_evidence now server) h.evidence _

theorem extended_empty (store : CanonicalStore.Store Timestamp Jsonb) :
    extended now server store Tables.empty = store := by
  funext table
  cases table <;> simp [EvidenceWriter.extended, Tables.empty]

theorem extended_append (store : CanonicalStore.Store Timestamp Jsonb)
    (first second : Tables Timestamp Jsonb) :
    extended now server (extended now server store first) second =
      extended now server store (first.append second) := by
  funext table
  cases table <;> simp [EvidenceWriter.extended, Tables.append]

-- One row after the others.
theorem update_domain (store : CanonicalStore.Store Timestamp Jsonb) (row : Domain) :
    Function.update store .domain (store .domain ++ [storedDomain now server row]) =
      extended now server store ⟨[row], [], []⟩ := by
  funext table
  cases table <;> simp [extended]

theorem update_provenance (store : CanonicalStore.Store Timestamp Jsonb)
    (row : Provenance Timestamp) :
    Function.update store .provenance (store .provenance ++ [storedProvenance now server row]) =
      extended now server store ⟨[], [row], []⟩ := by
  funext table
  cases table <;> simp [extended]

theorem update_evidence (store : CanonicalStore.Store Timestamp Jsonb)
    (row : Evidence Timestamp Jsonb) :
    Function.update store .evidence (store .evidence ++ [storedEvidence now server row]) =
      extended now server store ⟨[], [], [row]⟩ := by
  funext table
  cases table <;> simp [extended]

variable (Timestamp Jsonb) in
theorem admits_statusLabel (status : DomainStatus) :
    domainStatus.admits (.label (statusLabel status) : Cell Timestamp Jsonb) = true := by
  cases status <;> rfl

variable (Timestamp Jsonb) in
theorem admits_sourceLabel (source : EvidenceSource) :
    evidenceSource.admits (.label source.label : Cell Timestamp Jsonb) = true := by
  cases source <;> rfl

theorem admits_domain {row : Domain} (hlength : row.normalisedUrl.length ≤ 255)
    (hnormalised : isNormalised server row.normalisedUrl = true) :
    (createTable server .domain).Admits (storedDomain now server row) := by
  constructor
  · intro column hcolumn
    simp only [createTable, domain, List.mem_cons, List.not_mem_nil, or_false] at hcolumn
    rcases hcolumn with rfl | rfl | rfl | rfl | rfl | rfl | rfl | rfl
    · rfl
    · exact decide_eq_true hlength
    · exact admits_statusLabel Timestamp Jsonb row.currentStatus
    · rfl
    · rfl
    · rfl
    · rfl
    · rfl
  · intro check hcheck
    rw [List.mem_singleton.mp hcheck]
    exact hnormalised

theorem admits_provenance (row : Provenance Timestamp) :
    (createTable server .provenance).Admits (storedProvenance now server row) := by
  constructor
  · intro column hcolumn
    simp only [createTable, provenance, List.mem_cons, List.not_mem_nil, or_false] at hcolumn
    rcases hcolumn with rfl | rfl | rfl | rfl | rfl | rfl | rfl
    · rfl
    · exact admits_sourceLabel Timestamp Jsonb row.source
    · rfl
    · rfl
    · rfl
    · have hidentity : storedProvenance now server row (optional .contributorIdentity .text :
          CanonicalColumn Timestamp Jsonb).column = row.contributorIdentity.map .text := rfl
      unfold ColumnDefinition.Accepts
      rw [hidentity]
      cases row.contributorIdentity <;> rfl
    · rfl
  · intro check hcheck
    exact absurd hcheck List.not_mem_nil

theorem admits_evidence (row : Evidence Timestamp Jsonb) :
    (createTable server .evidence).Admits (storedEvidence now server row) := by
  constructor
  · intro column hcolumn
    simp only [createTable, evidence, List.mem_cons, List.not_mem_nil, or_false] at hcolumn
    rcases hcolumn with rfl | rfl | rfl | rfl | rfl | rfl | rfl | rfl | rfl | rfl | rfl
    · rfl
    · rfl
    · rfl
    · exact admits_sourceLabel Timestamp Jsonb row.source
    · rfl
    · rfl
    · rfl
    · rfl
    · rfl
    · rfl
    · rfl
  · intro check hcheck
    exact absurd hcheck List.not_mem_nil

end Filled

section Accepted

variable [DecidableEq Timestamp] [DecidableEq Jsonb] (server : Server Timestamp Jsonb)
variable {store : CanonicalStore.Store Timestamp Jsonb} {tables : Tables Timestamp Jsonb}

theorem accepted_insertDomain (hreads : Reads store tables) {row : Domain}
    (hlength : row.normalisedUrl.length ≤ 255)
    (hnormalised : isNormalised server row.normalisedUrl = true)
    (hid : ∀ other ∈ tables.domain, other.domainId ≠ row.domainId)
    (hurl : ∀ other ∈ tables.domain, other.normalisedUrl ≠ row.normalisedUrl) :
    submit (schema server) applicationRole store (insertDomain now row) =
      .ok (extended now server store ⟨[row], [], []⟩) := by
  have hstands := stands_domain now server row
  rw [← update_domain]
  refine submit_insert server rfl (admits_domain now server hlength hnormalised) ?_ ?_
  · intro key hkey other hother hclash
    obtain ⟨known, hknown, hsame⟩ := exists_left hreads.domain hother
    simp only [createTable, domain, List.mem_cons, List.not_mem_nil, or_false] at hkey
    rcases hkey with rfl | rfl
    · obtain ⟨cell, ha, hb⟩ := Key.clash_one.mp hclash
      rw [hsame.domainId] at ha
      rw [hstands.domainId, ← ha] at hb
      exact hid known hknown (by injection hb with hb; injection hb with hb; exact hb.symm)
    · obtain ⟨cell, ha, hb⟩ := Key.clash_one.mp hclash
      rw [hsame.normalisedUrl] at ha
      rw [hstands.normalisedUrl, ← ha] at hb
      exact hurl known hknown (by injection hb with hb; injection hb with hb; exact hb.symm)
  · intro foreignKey hforeignKey
    exact absurd hforeignKey List.not_mem_nil

theorem accepted_insertProvenance (hreads : Reads store tables) {row : Provenance Timestamp}
    (hid : ∀ other ∈ tables.provenance, other.provenanceId ≠ row.provenanceId) :
    submit (schema server) applicationRole store (insertProvenance now row) =
      .ok (extended now server store ⟨[], [row], []⟩) := by
  have hstands := stands_provenance now server row
  rw [← update_provenance]
  refine submit_insert server rfl (admits_provenance now server row) ?_ ?_
  · intro key hkey other hother hclash
    obtain ⟨known, hknown, hsame⟩ := exists_left hreads.provenance hother
    rw [List.mem_singleton.mp hkey] at hclash
    obtain ⟨cell, ha, hb⟩ := Key.clash_one.mp hclash
    rw [hsame.provenanceId] at ha
    rw [hstands.provenanceId, ← ha] at hb
    exact hid known hknown (by injection hb with hb; injection hb with hb; exact hb.symm)
  · -- the contributor is NULL
    intro foreignKey hforeignKey
    rw [List.mem_singleton.mp hforeignKey]
    apply ForeignKey.resolved_one.mpr
    intro cell hcell
    cases hcell

theorem accepted_insertEvidence (hreads : Reads store tables) {row : Evidence Timestamp Jsonb}
    (hid : ∀ other ∈ tables.evidence, other.evidenceId ≠ row.evidenceId)
    (hdomain : ∃ target ∈ tables.domain, target.domainId = row.domainId)
    (hprovenance : ∃ target ∈ tables.provenance, target.provenanceId = row.provenanceId) :
    submit (schema server) applicationRole store (insertEvidence now row) =
      .ok (extended now server store ⟨[], [], [row]⟩) := by
  have hstands := stands_evidence now server row
  rw [← update_evidence]
  refine submit_insert server rfl (admits_evidence now server row) ?_ ?_
  · intro key hkey other hother hclash
    obtain ⟨known, hknown, hsame⟩ := exists_left hreads.evidence hother
    rw [List.mem_singleton.mp hkey] at hclash
    obtain ⟨cell, ha, hb⟩ := Key.clash_one.mp hclash
    rw [hsame.evidenceId] at ha
    rw [hstands.evidenceId, ← ha] at hb
    exact hid known hknown (by injection hb with hb; injection hb with hb; exact hb.symm)
  · intro foreignKey hforeignKey
    simp only [createTable, evidence, List.mem_cons, List.not_mem_nil, or_false] at hforeignKey
    rcases hforeignKey with rfl | rfl
    · apply ForeignKey.resolved_one.mpr
      intro cell hcell
      obtain ⟨target, htarget, hsame⟩ := hdomain
      obtain ⟨stored, hstored, hreadsTarget⟩ := exists_right hreads.domain htarget
      rw [hstands.domainId] at hcell
      exact ⟨stored, hstored, by rw [hreadsTarget.domainId, hsame, hcell]⟩
    · apply ForeignKey.resolved_one.mpr
      intro cell hcell
      obtain ⟨target, htarget, hsame⟩ := hprovenance
      obtain ⟨stored, hstored, hreadsTarget⟩ := exists_right hreads.provenance htarget
      rw [hstands.provenanceId] at hcell
      exact ⟨stored, hstored, by rw [hreadsTarget.provenanceId, hsame, hcell]⟩

end Accepted

end TrustlistCore.EvidenceWriter
