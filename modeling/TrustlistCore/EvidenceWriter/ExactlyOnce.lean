import TrustlistCore.EvidenceWriter.Process

namespace TrustlistCore.EvidenceWriter.Process

open Library Unicode EventBus DataModel

variable {K Timestamp Jsonb : Type} [DecidableEq K] {server : Server Timestamp Jsonb}
  {maxStrDigits : ℕ} {str : Value → Text} {keyOf : Value → Except Failure K}

structure Pair (Timestamp Jsonb : Type) where
  event : EventEnvelope
  origin : DataModel.Provenance Timestamp
  observation : Evidence Timestamp Jsonb

theorem Carries.method_eq {envelope : EventEnvelope} {provenance : DataModel.Provenance Timestamp}
    {evidence : Evidence Timestamp Jsonb}
    (h : Carries server maxStrDigits str envelope provenance evidence) :
    provenance.method = anchor str envelope := by
  obtain ⟨sent, hsent, hwrote⟩ := h
  exact (provenanceRow_eq_ok hwrote.origin).2.trans (parameters_eq_ok hsent)

theorem Carries.provenanceId_eq {envelope : EventEnvelope}
    {provenance : DataModel.Provenance Timestamp} {evidence : Evidence Timestamp Jsonb}
    (h : Carries server maxStrDigits str envelope provenance evidence) :
    evidence.provenanceId = provenance.provenanceId := by
  obtain ⟨sent, -, hwrote⟩ := h
  exact (evidenceRow_eq_ok hwrote.observation).1

variable (server maxStrDigits str) in
-- The store is the ledger of the first event of each anchor, each with its pair of rows.
structure Refines (committed : Tables Timestamp Jsonb) (history : List EventEnvelope)
    (pairs : List (Pair Timestamp Jsonb)) : Prop where
  provenance : committed.provenance = pairs.map Pair.origin
  evidence : committed.evidence = pairs.map Pair.observation
  events : pairs.map Pair.event = FirstWrite.ledger (anchor str) history
  carries : ∀ pair ∈ pairs, Carries server maxStrDigits str pair.event pair.origin pair.observation
  distinct : (pairs.map fun pair => pair.origin.provenanceId).Nodup

section Refines

variable {committed : Tables Timestamp Jsonb} {history : List EventEnvelope}
  {pairs : List (Pair Timestamp Jsonb)}

theorem Refines.nodup (h : Refines server maxStrDigits str committed history pairs) :
    (pairs.map fun pair => anchor str pair.event).Nodup := by
  have hnodup := FirstWrite.nodup_keys_ledger (anchor str) history
  rwa [← h.events, List.map_map] at hnodup

-- A row of either table is the only one of its pair.
theorem Refines.single (h : Refines server maxStrDigits str committed history pairs)
    {pair : Pair Timestamp Jsonb} (hpair : pair ∈ pairs) :
    Single committed (anchor str pair.event) pair.origin pair.observation where
  origin := by
    have hfilter : pairs.filter (fun other => other.origin.method = anchor str pair.event) =
        pairs.filter fun other => anchor str other.event = anchor str pair.event :=
      List.filter_congr fun other hother => by rw [(h.carries other hother).method_eq]
    rw [h.provenance, List.filter_map]
    exact congrArg (List.map Pair.origin)
      (hfilter.trans (FirstWrite.filter_of_nodup_keys h.nodup hpair))
  observation := by
    have hfilter : pairs.filter
        (fun other => other.observation.provenanceId = pair.origin.provenanceId) =
        pairs.filter fun other => other.origin.provenanceId = pair.origin.provenanceId :=
      List.filter_congr fun other hother => by rw [(h.carries other hother).provenanceId_eq]
    rw [h.evidence, List.filter_map]
    exact congrArg (List.map Pair.observation)
      (hfilter.trans (FirstWrite.filter_of_nodup_keys h.distinct hpair))

theorem Refines.exists_pair (h : Refines server maxStrDigits str committed history pairs)
    {text : Text} (hmem : text ∈ history.map (anchor str)) :
    ∃ pair ∈ pairs, anchor str pair.event = text := by
  rw [← FirstWrite.mem_keys_ledger, ← h.events, List.map_map] at hmem
  exact List.mem_map.mp hmem

theorem Refines.filter_eq_nil (h : Refines server maxStrDigits str committed history pairs)
    {text : Text} (hmem : text ∉ history.map (anchor str)) :
    committed.provenance.filter (fun row => row.method = text) = [] := by
  refine List.filter_eq_nil_iff.mpr fun row hrow hmethod => hmem ?_
  rw [h.provenance] at hrow
  obtain ⟨pair, hpair, rfl⟩ := List.mem_map.mp hrow
  rw [← of_decide_eq_true hmethod, (h.carries pair hpair).method_eq,
    ← FirstWrite.mem_keys_ledger, ← h.events, List.map_map]
  exact List.mem_map_of_mem hpair

-- The lookup of an anchor finds nothing just when no event of it has been committed.
theorem Refines.joined_eq_nil_iff (h : Refines server maxStrDigits str committed history pairs)
    (text : Text) : joined committed text = [] ↔ text ∉ history.map (anchor str) := by
  constructor
  · intro hnone hmem
    obtain ⟨pair, hpair, rfl⟩ := h.exists_pair hmem
    rw [joined_of_single (h.single hpair)] at hnone
    exact nomatch hnone
  · intro hmem
    exact joined_of_none (h.filter_eq_nil hmem)

end Refines

section Invariant

-- The phases after a lookup that found nothing.
def missed : Phase → Bool
  | .findExisting => false
  | .commit result => result.created
  | _ => true

variable (server maxStrDigits str) in
-- What holds of the open transaction beside the store.
structure Fits (committed : Tables Timestamp Jsonb) (history : List EventEnvelope)
    (envelope : EventEnvelope) (transaction : Transaction Timestamp Jsonb) : Prop where
  progress : Progress server maxStrDigits transaction
  sent : parameters str envelope = .ok transaction.parameters
  fresh : ∀ row ∈ transaction.own.provenance, ∀ other ∈ committed.provenance,
    other.provenanceId ≠ row.provenanceId
  first : missed transaction.phase = true → anchor str envelope ∉ history.map (anchor str)
  found : ∀ result, transaction.phase = .commit result → result.created = false →
    anchor str envelope ∈ history.map (anchor str)

theorem Fits.statement {committed : Tables Timestamp Jsonb} {history : List EventEnvelope}
    {pairs : List (Pair Timestamp Jsonb)} {envelope : EventEnvelope}
    {transaction next : Transaction Timestamp Jsonb} {generated : Uuid}
    (h : Fits server maxStrDigits str committed history envelope transaction)
    (hrefines : Refines server maxStrDigits str committed history pairs)
    (hnext : Statement server maxStrDigits committed transaction generated next) :
    Fits server maxStrDigits str committed history envelope next := by
  have hanchor : transaction.parameters.idempotencyMethod = anchor str envelope :=
    parameters_eq_ok h.sent
  have hsent : parameters str envelope = .ok next.parameters := by
    rw [hnext.parameters_eq, h.sent]
  have hprogress := hnext.progress h.progress
  have hvisible : transaction.phase = .findExisting →
      committed.append transaction.own = committed := by
    intro hphase
    have hown := h.progress
    rw [Progress, hphase] at hown
    rw [hown, Tables.append_empty]
  cases hnext with
  | @found existing hphase hfound =>
      rw [hvisible hphase, hanchor] at hfound
      have hcreated := created_of_findExisting hfound
      refine ⟨hprogress, hsent, h.fresh, fun hmissed => ?_, fun result hresult _ => ?_⟩
      · exact nomatch hcreated.symm.trans hmissed
      · obtain ⟨-, ⟨-, hnone⟩ | ⟨evidence, hjoined, -⟩⟩ := findExisting_eq_ok_iff.mp hfound
        · exact nomatch hnone
        · by_contra hmem
          rw [(hrefines.joined_eq_nil_iff _).mpr hmem] at hjoined
          exact nomatch hjoined
  | missed hphase hmissed =>
      rw [hvisible hphase, hanchor] at hmissed
      refine ⟨hprogress, hsent, h.fresh, fun _ => ?_, fun result hresult => nomatch hresult⟩
      obtain ⟨-, ⟨hjoined, -⟩ | ⟨evidence, -, hsome⟩⟩ := findExisting_eq_ok_iff.mp hmissed
      · exact (hrefines.joined_eq_nil_iff _).mp hjoined
      · exact nomatch hsome
  | domain hphase =>
      have hfirst : missed transaction.phase = true := by
        rcases hphase with ⟨hphase, -⟩ | ⟨hphase | hphase, -⟩ <;> rw [hphase] <;> rfl
      refine ⟨hprogress, hsent, h.fresh, fun _ => h.first hfirst, fun result hresult => ?_⟩
      rcases hphase with ⟨-, rfl, -⟩ | ⟨-, rfl⟩ <;> exact nomatch hresult
  | provenance hphase hrow hfresh =>
      refine ⟨hprogress, hsent, fun row hmem other hother => ?_, fun _ => h.first (hphase ▸ rfl),
        fun result hresult => nomatch hresult⟩
      rcases List.mem_append.mp hmem with hold | hlast
      · exact h.fresh row hold other hother
      · rw [List.mem_singleton.mp hlast, (provenanceRow_eq_ok hrow).1]
        exact hfresh other (List.mem_append_left _ hother)
  | evidence hphase hrow =>
      refine ⟨hprogress, hsent, h.fresh, fun _ => h.first (hphase ▸ rfl),
        fun result hresult hcreated => ?_⟩
      obtain rfl := Phase.commit.inj hresult
      exact nomatch hcreated
  | done hphase => exact h

theorem Refines.commit {committed : Tables Timestamp Jsonb} {history : List EventEnvelope}
    {pairs : List (Pair Timestamp Jsonb)} {envelope : EventEnvelope}
    {transaction : Transaction Timestamp Jsonb} {result : WriteResult}
    (h : Refines server maxStrDigits str committed history pairs)
    (hfits : Fits server maxStrDigits str committed history envelope transaction)
    (hphase : transaction.phase = .commit result) :
    ∃ pairs, Refines server maxStrDigits str (committed.append transaction.own)
      (history ++ [envelope]) pairs := by
  have hprogress := hfits.progress
  rw [Progress, hphase] at hprogress
  rcases hprogress with ⟨hcreated, hown⟩ | ⟨provenance, evidence, hwrote, horigin, hobservation, rfl⟩
  · have hwritten := FirstWrite.mem_keys_ledger.mpr (hfits.found result hphase hcreated)
    refine ⟨pairs, ?_⟩
    rw [hown, Tables.append_empty]
    exact { h with events := by rw [FirstWrite.ledger_concat, FirstWrite.put_of_mem hwritten, h.events] }
  · have hfirst := FirstWrite.mem_keys_ledger.not.mpr (hfits.first (hphase ▸ rfl))
    refine ⟨pairs ++ [⟨envelope, provenance, evidence⟩], ?_, ?_, ?_, ?_, ?_⟩
    · rw [List.map_append, ← h.provenance]
      exact congrArg (committed.provenance ++ ·) horigin
    · rw [List.map_append, ← h.evidence]
      exact congrArg (committed.evidence ++ ·) hobservation
    · rw [FirstWrite.ledger_concat, FirstWrite.put_of_not_mem hfirst, List.map_append, h.events]
      rfl
    · intro pair hpair
      rcases List.mem_append.mp hpair with hold | hlast
      · exact h.carries pair hold
      · rw [List.mem_singleton.mp hlast]
        exact ⟨transaction.parameters, hfits.sent, hwrote⟩
    · rw [List.map_append]
      refine h.distinct.append (List.nodup_singleton _) (List.disjoint_singleton.mpr fun hmem => ?_)
      obtain ⟨pair, hpair, hid⟩ := List.mem_map.mp hmem
      have hother : pair.origin ∈ committed.provenance := by
        rw [h.provenance]
        exact List.mem_map_of_mem hpair
      refine hfits.fresh provenance ?_ pair.origin hother hid
      rw [horigin]
      exact List.mem_singleton_self provenance

variable (server maxStrDigits str) in
structure Inv (process : Process K Timestamp Jsonb) : Prop where
  refines : ∃ pairs, Refines server maxStrDigits str process.committed process.history pairs
  fits : ∀ envelope key transaction, process.stage = .writing envelope key transaction →
    Fits server maxStrDigits str process.committed process.history envelope transaction

theorem Start.inv {process : Process K Timestamp Jsonb} (h : Start process) :
    Inv server maxStrDigits str process where
  refines := by
    refine ⟨[], h.provenance, h.evidence, ?_, fun _ hpair => (nomatch hpair), List.nodup_nil⟩
    rw [h.history]
    rfl
  fits envelope key transaction hstage := nomatch h.stage.symm.trans hstage

-- Outside the transaction only the stage and the dedup store move.
theorem Inv.of_stage {process next : Process K Timestamp Jsonb}
    (h : Inv server maxStrDigits str process) (hcommitted : next.committed = process.committed)
    (hhistory : next.history = process.history)
    (hstage : ∀ envelope key transaction, next.stage ≠ .writing envelope key transaction) :
    Inv server maxStrDigits str next where
  refines := by
    rw [hcommitted, hhistory]
    exact h.refines
  fits envelope key transaction hwriting := absurd hwriting (hstage envelope key transaction)

theorem Inv.handle {process : Process K Timestamp Jsonb}
    (h : Inv server maxStrDigits str process) (envelope : EventEnvelope) :
    Inv server maxStrDigits str (process.handle str keyOf envelope) := by
  unfold Process.handle
  split
  · exact h.of_stage rfl rfl fun _ _ _ hstage => nomatch hstage
  split
  · exact h.of_stage rfl rfl fun _ _ _ hstage => nomatch hstage
  · exact h.of_stage rfl rfl fun _ _ _ hstage => nomatch hstage
  split
  · exact h.of_stage rfl rfl fun _ _ _ hstage => nomatch hstage
  · rename_i sent hsent
    refine ⟨h.refines, fun _ _ transaction hstage => ?_⟩
    obtain ⟨rfl, -, rfl⟩ := Stage.writing.inj hstage
    exact
      { progress := progress_begin sent
        sent := hsent
        fresh := fun _ hrow => nomatch hrow
        first := fun hmissed => nomatch hmissed
        found := fun _ hresult => nomatch hresult }

theorem Inv.insertDomain {process : Process K Timestamp Jsonb}
    (h : Inv server maxStrDigits str process) (row : Domain) :
    Inv server maxStrDigits str { process with
      committed :=
        process.committed.append { domain := [row], provenance := [], evidence := [] } } where
  refines := by
    obtain ⟨pairs, hpairs⟩ := h.refines
    refine ⟨pairs, ?_, ?_, hpairs.events, hpairs.carries, hpairs.distinct⟩
    · exact (List.append_nil _).trans hpairs.provenance
    · exact (List.append_nil _).trans hpairs.evidence
  fits envelope key transaction hstage := by
    have hfits := h.fits envelope key transaction hstage
    refine { hfits with fresh := fun own hown other hother => ?_ }
    exact hfits.fresh own hown other (List.append_nil process.committed.provenance ▸ hother)

theorem Inv.step {process : Process K Timestamp Jsonb}
    (h : Inv server maxStrDigits str process) (occurrence : Occurrence) :
    Inv server maxStrDigits str (step server maxStrDigits str keyOf process occurrence).2 := by
  unfold Process.step
  cases occurrence with
  | deliver envelope =>
      simp only
      split
      · exact h.of_stage rfl rfl fun _ _ _ hstage => nomatch hstage
      · exact h
  | seen =>
      simp only
      split
      · exact h.handle _
      · exact h
  | statement generated =>
      simp only
      split
      · rename_i envelope key transaction hstage
        split
        · rename_i next hnext
          obtain ⟨pairs, hpairs⟩ := h.refines
          refine ⟨⟨pairs, hpairs⟩, fun _ _ taken htaken => ?_⟩
          obtain ⟨rfl, -, rfl⟩ := Stage.writing.inj htaken
          exact (h.fits envelope key transaction hstage).statement hpairs (statement_of_execute hnext)
        · exact h.of_stage rfl rfl fun _ _ _ hstage => nomatch hstage
      · exact h
  | commitTransaction =>
      simp only
      split
      · rename_i envelope key sent result own hstage
        obtain ⟨pairs, hpairs⟩ := h.refines
        refine ⟨hpairs.commit (h.fits envelope key _ hstage) rfl, fun _ _ _ hwriting => ?_⟩
        exact nomatch hwriting
      · exact h
  | record =>
      simp only
      split
      · exact h.of_stage rfl rfl fun _ _ _ hstage => nomatch hstage
      · exact h
  | commitOffset =>
      simp only
      split
      · exact h.of_stage rfl rfl fun _ _ _ hstage => nomatch hstage
      · exact h
  | raise => exact h.of_stage rfl rfl fun _ _ _ hstage => nomatch hstage
  | crash => exact h.of_stage rfl rfl fun _ _ _ hstage => nomatch hstage
  | insertDomain row => exact h.insertDomain row

end Invariant

def keyText : Value → Except Failure Text
  | .str text => .ok text
  | _ => .error (.typeError "unhashable type: 'dict'")

end TrustlistCore.EvidenceWriter.Process
