import TrustlistCore.EvidenceWriter.Convergence
import TrustlistCore.EvidenceWriter.Inserts

namespace TrustlistCore.EvidenceWriter

open Library Relational DataModel
open CanonicalStore hiding Store

variable {T Timestamp Jsonb : Type}

def DomainApart (a b : Domain) : Prop :=
  a.domainId ≠ b.domainId ∧ a.normalisedUrl ≠ b.normalisedUrl

-- No row of the one has a key of a row of the other.
structure Apart (first second : Tables Timestamp Jsonb) : Prop where
  domain : ∀ a ∈ first.domain, ∀ b ∈ second.domain, DomainApart a b
  provenance : ∀ a ∈ first.provenance, ∀ b ∈ second.provenance, a.provenanceId ≠ b.provenanceId
  evidence : ∀ a ∈ first.evidence, ∀ b ∈ second.evidence, a.evidenceId ≠ b.evidenceId

theorem Apart.symm {first second : Tables Timestamp Jsonb} (h : Apart first second) :
    Apart second first where
  domain b hb a ha := ⟨(h.domain a ha b hb).1.symm, (h.domain a ha b hb).2.symm⟩
  provenance b hb a ha := (h.provenance a ha b hb).symm
  evidence b hb a ha := (h.evidence a ha b hb).symm

theorem Apart.append {first second third : Tables Timestamp Jsonb} (hfirst : Apart first third)
    (hsecond : Apart second third) : Apart (first.append second) third where
  domain a ha := by
    cases List.mem_append.mp ha with
    | inl h => exact hfirst.domain a h
    | inr h => exact hsecond.domain a h
  provenance a ha := by
    cases List.mem_append.mp ha with
    | inl h => exact hfirst.provenance a h
    | inr h => exact hsecond.provenance a h
  evidence a ha := by
    cases List.mem_append.mp ha with
    | inl h => exact hfirst.evidence a h
    | inr h => exact hsecond.evidence a h

-- The rows of a transaction beside those that are committed: the store may take them.
structure Insertable (server : Server Timestamp Jsonb) (committed own : Tables Timestamp Jsonb) :
    Prop where
  fresh : Apart committed own
  domainRows : ∀ row ∈ own.domain, row.normalisedUrl.length ≤ 255 ∧
    isNormalised server row.normalisedUrl = true
  domain : own.domain.Pairwise DomainApart
  provenance : own.provenance.Pairwise fun a b => a.provenanceId ≠ b.provenanceId
  evidence : own.evidence.Pairwise fun a b => a.evidenceId ≠ b.evidenceId
  toDomain : ∀ row ∈ own.evidence,
    ∃ target ∈ (committed.append own).domain, target.domainId = row.domainId
  toProvenance : ∀ row ∈ own.evidence,
    ∃ target ∈ (committed.append own).provenance, target.provenanceId = row.provenanceId

variable {server : Server Timestamp Jsonb} {committed own : Tables Timestamp Jsonb}

theorem insertable_empty : Insertable server committed Tables.empty where
  fresh := ⟨fun _ _ _ hb => absurd hb List.not_mem_nil, fun _ _ _ hb => absurd hb List.not_mem_nil,
    fun _ _ _ hb => absurd hb List.not_mem_nil⟩
  domainRows _ hrow := absurd hrow List.not_mem_nil
  domain := List.Pairwise.nil
  provenance := List.Pairwise.nil
  evidence := List.Pairwise.nil
  toDomain _ hrow := absurd hrow List.not_mem_nil
  toProvenance _ hrow := absurd hrow List.not_mem_nil

-- Another transaction commits first.
theorem Insertable.after {first : Tables Timestamp Jsonb} (h : Insertable server committed own)
    (hapart : Apart first own) : Insertable server (committed.append first) own where
  fresh := h.fresh.append hapart
  domainRows := h.domainRows
  domain := h.domain
  provenance := h.provenance
  evidence := h.evidence
  toDomain row hrow := by
    obtain ⟨target, htarget, heq⟩ := h.toDomain row hrow
    refine ⟨target, ?_, heq⟩
    simp only [Tables.append, List.mem_append] at htarget ⊢
    tauto
  toProvenance row hrow := by
    obtain ⟨target, htarget, heq⟩ := h.toProvenance row hrow
    refine ⟨target, ?_, heq⟩
    simp only [Tables.append, List.mem_append] at htarget ⊢
    tauto

section Extend

theorem forall_mem_snoc {A : Type} {P : A → Prop} {items : List A} {item : A}
    (h : ∀ a ∈ items, P a) (hitem : P item) : ∀ a ∈ items ++ [item], P a := by
  intro a ha
  cases List.mem_append.mp ha with
  | inl hmem => exact h a hmem
  | inr hmem => rwa [List.mem_singleton.mp hmem]

theorem pairwise_snoc {A : Type} {R : A → A → Prop} {items : List A} {item : A}
    (h : items.Pairwise R) (hitem : ∀ a ∈ items, R a item) : (items ++ [item]).Pairwise R := by
  rw [List.pairwise_append]
  refine ⟨h, List.pairwise_singleton _ _, ?_⟩
  intro a ha b hb
  rw [List.mem_singleton.mp hb]
  exact hitem a ha

theorem Insertable.insertDomain (h : Insertable server committed own) {row : Domain}
    (hlength : row.normalisedUrl.length ≤ 255)
    (hnormalised : isNormalised server row.normalisedUrl = true)
    (hapart : ∀ other ∈ (committed.append own).domain, DomainApart other row) :
    Insertable server committed { own with domain := own.domain ++ [row] } where
  fresh :=
    { domain := fun a ha => forall_mem_snoc (h.fresh.domain a ha)
        (hapart a (List.mem_append_left _ ha))
      provenance := h.fresh.provenance
      evidence := h.fresh.evidence }
  domainRows := forall_mem_snoc h.domainRows ⟨hlength, hnormalised⟩
  domain := pairwise_snoc h.domain fun a ha => hapart a (List.mem_append_right _ ha)
  provenance := h.provenance
  evidence := h.evidence
  toDomain other hother := by
    obtain ⟨target, htarget, heq⟩ := h.toDomain other hother
    refine ⟨target, ?_, heq⟩
    simp only [Tables.append, List.mem_append] at htarget ⊢
    tauto
  toProvenance := h.toProvenance

theorem Insertable.insertProvenance (h : Insertable server committed own)
    {row : Provenance Timestamp}
    (hapart : ∀ other ∈ (committed.append own).provenance,
      other.provenanceId ≠ row.provenanceId) :
    Insertable server committed { own with provenance := own.provenance ++ [row] } where
  fresh :=
    { domain := h.fresh.domain
      provenance := fun a ha => forall_mem_snoc (h.fresh.provenance a ha)
        (hapart a (List.mem_append_left _ ha))
      evidence := h.fresh.evidence }
  domainRows := h.domainRows
  domain := h.domain
  provenance := pairwise_snoc h.provenance fun a ha => hapart a (List.mem_append_right _ ha)
  evidence := h.evidence
  toDomain := h.toDomain
  toProvenance other hother := by
    obtain ⟨target, htarget, heq⟩ := h.toProvenance other hother
    refine ⟨target, ?_, heq⟩
    simp only [Tables.append, List.mem_append] at htarget ⊢
    tauto

theorem Insertable.insertEvidence (h : Insertable server committed own)
    {row : Evidence Timestamp Jsonb}
    (hapart : ∀ other ∈ (committed.append own).evidence, other.evidenceId ≠ row.evidenceId)
    (hdomain : ∃ target ∈ (committed.append own).domain, target.domainId = row.domainId)
    (hprovenance : ∃ target ∈ (committed.append own).provenance,
      target.provenanceId = row.provenanceId) :
    Insertable server committed { own with evidence := own.evidence ++ [row] } where
  fresh :=
    { domain := h.fresh.domain
      provenance := h.fresh.provenance
      evidence := fun a ha => forall_mem_snoc (h.fresh.evidence a ha)
        (hapart a (List.mem_append_left _ ha)) }
  domainRows := h.domainRows
  domain := h.domain
  provenance := h.provenance
  evidence := pairwise_snoc h.evidence fun a ha => hapart a (List.mem_append_right _ ha)
  toDomain := forall_mem_snoc h.toDomain hdomain
  toProvenance := forall_mem_snoc h.toProvenance hprovenance

end Extend

section Execute

variable {maxStrDigits : ℕ} {transaction next : Transaction Timestamp Jsonb} {generated : Uuid}

-- The row that a statement adds to those of its transaction.
inductive Insertion (server : Server Timestamp Jsonb) (committed : Tables Timestamp Jsonb)
    (transaction : Transaction Timestamp Jsonb) (generated : Uuid) : Tables Timestamp Jsonb → Prop
  | none : Insertion server committed transaction generated transaction.own
  | domain {row : Domain} (hphase : transaction.phase = .insertDomain)
      (hrow : domainRow server transaction.parameters = .ok row)
      (hapart : ∀ other ∈ (committed.append transaction.own).domain, DomainApart other row) :
      Insertion server committed transaction generated
        { transaction.own with domain := transaction.own.domain ++ [row] }
  | provenance {row : Provenance Timestamp} (hid : row.provenanceId = generated)
      (hapart : ∀ other ∈ (committed.append transaction.own).provenance,
        other.provenanceId ≠ row.provenanceId) :
      Insertion server committed transaction generated
        { transaction.own with provenance := transaction.own.provenance ++ [row] }
  | evidence {row : Evidence Timestamp Jsonb} (hid : row.evidenceId = generated)
      (hapart : ∀ other ∈ (committed.append transaction.own).evidence,
        other.evidenceId ≠ row.evidenceId)
      (hdomain : ∃ target ∈ (committed.append transaction.own).domain,
        target.domainId = row.domainId)
      (hprovenance : ∃ target ∈ (committed.append transaction.own).provenance,
        target.provenanceId = row.provenanceId) :
      Insertion server committed transaction generated
        { transaction.own with evidence := transaction.own.evidence ++ [row] }

theorem insertion_of_execute
    (h : execute server maxStrDigits committed transaction generated = .ok next) :
    Insertion server committed transaction generated next.own := by
  unfold execute at h
  cases hphase : transaction.phase with
  | findExisting =>
      simp only [hphase, bind, Result.bind_eq_ok] at h
      obtain ⟨existing, _, h⟩ := h
      cases existing with
      | none =>
          cases h
          exact .none
      | some existing =>
          cases h
          exact .none
  | selectDomain =>
      simp only [hphase, bind, Result.bind_eq_ok] at h
      obtain ⟨domainId, _, h⟩ := h
      split_ifs at h
      · cases h
        exact .none
      · cases h
        exact .none
  | insertDomain =>
      simp only [hphase, bind, Result.bind_eq_ok] at h
      obtain ⟨row, hrow, h⟩ := h
      split_ifs at h with hid hurl
      · cases h
        exact .none
      · cases h
        refine .domain hphase hrow ?_
        intro other hother
        rw [List.any_eq_true] at hid hurl
        exact ⟨fun heq => hid ⟨other, hother, decide_eq_true heq⟩,
          fun heq => hurl ⟨other, hother, decide_eq_true heq⟩⟩
  | insertProvenance =>
      simp only [hphase, bind, Result.bind_eq_ok] at h
      obtain ⟨row, hrow, h⟩ := h
      split_ifs at h with hid
      cases h
      have hgenerated := (provenanceRow_eq_ok hrow).1
      refine .provenance hgenerated ?_
      intro other hother heq
      rw [List.any_eq_true] at hid
      exact hid ⟨other, hother, decide_eq_true (heq.trans hgenerated)⟩
  | insertEvidence provenanceId =>
      simp only [hphase, bind, Result.bind_eq_ok] at h
      obtain ⟨row, hrow, h⟩ := h
      split_ifs at h with hid hdomain hprovenance
      cases h
      obtain ⟨hreference, hgenerated, _⟩ := evidenceRow_eq_ok hrow
      rw [List.any_eq_true] at hid hdomain hprovenance
      obtain ⟨target, htarget, htargetId⟩ := hdomain
      obtain ⟨origin, horigin, horiginId⟩ := hprovenance
      refine .evidence hgenerated ?_ ⟨target, htarget, of_decide_eq_true htargetId⟩
        ⟨origin, horigin, (of_decide_eq_true horiginId).trans hreference.symm⟩
      intro other hother heq
      exact hid ⟨other, hother, decide_eq_true (heq.trans hgenerated)⟩
  | commit result =>
      simp only [hphase] at h
      cases h
      exact .none

theorem Insertion.insertable {rows : Tables Timestamp Jsonb}
    (h : Insertion server committed transaction generated rows)
    (hown : Insertable server committed transaction.own) : Insertable server committed rows := by
  cases h with
  | none => exact hown
  | domain hphase hrow hapart =>
      obtain ⟨_, _, hlength, hnormalised⟩ := domainRow_eq_ok hrow
      exact hown.insertDomain hlength hnormalised hapart
  | provenance hid hapart => exact hown.insertProvenance hapart
  | evidence hid hapart hdomain hprovenance =>
      exact hown.insertEvidence hapart hdomain hprovenance

end Execute

section Accepted

variable [DecidableEq Timestamp] [DecidableEq Jsonb] (now : Timestamp)
variable {store : CanonicalStore.Store Timestamp Jsonb}

variable {tables : Tables Timestamp Jsonb}

-- Where one row goes in, so do all, each after those before it.
theorem extended_rows {A : Type} (server : Server Timestamp Jsonb)
    (store : CanonicalStore.Store Timestamp Jsonb) (statement : A → CanonicalStatement Timestamp Jsonb)
    (rows : List A → Tables Timestamp Jsonb) (hempty : rows [] = Tables.empty)
    (hsnoc : ∀ done row, (rows done).append (rows [row]) = rows (done ++ [row])) {items : List A}
    (hstep : ∀ done row rest, items = done ++ row :: rest →
      submit (schema server) applicationRole (extended now server store (rows done))
        (statement row) =
          .ok (extended now server (extended now server store (rows done)) (rows [row]))) :
    items.foldlM (fun store row => submit (schema server) applicationRole store (statement row))
      store = .ok (extended now server store (rows items)) := by
  have hstart : store = extended now server store (rows []) := by
    rw [hempty, extended_empty]
  have hfold : ∃ last, items.foldlM
      (fun store row => submit (schema server) applicationRole store (statement row)) store =
        .ok last ∧ last = extended now server store (rows items) := by
    refine Result.foldlM_eq_ok
      (P := fun state done => state = extended now server store (rows done)) ?_ hstart
    rintro state done row rest hitems rfl
    refine ⟨_, hstep done row rest hitems, ?_⟩
    rw [extended_append, hsnoc]
  obtain ⟨last, hlast, rfl⟩ := hfold
  exact hlast

theorem accepted_domains (hreads : Reads store tables) {rows : List Domain}
    (hrows : ∀ row ∈ rows, row.normalisedUrl.length ≤ 255 ∧
      isNormalised server row.normalisedUrl = true)
    (hfresh : ∀ other ∈ tables.domain, ∀ row ∈ rows, DomainApart other row)
    (hown : rows.Pairwise DomainApart) :
    rows.foldlM (fun store row => submit (schema server) applicationRole store
      (insertDomain now row)) store = .ok (extended now server store ⟨rows, [], []⟩) := by
  refine extended_rows now server store _ (fun rows => ⟨rows, [], []⟩) rfl (fun _ _ => rfl) ?_
  rintro done row rest rfl
  have hmem : row ∈ done ++ row :: rest := List.mem_append_right _ List.mem_cons_self
  have hapart : ∀ other ∈ tables.domain ++ done, DomainApart other row := by
    intro other hother
    cases List.mem_append.mp hother with
    | inl h => exact hfresh other h row hmem
    | inr h => exact (List.pairwise_append.mp hown).2.2 other h row List.mem_cons_self
  obtain ⟨hlength, hnormalised⟩ := hrows row hmem
  exact accepted_insertDomain now server (hreads.extended now server ⟨done, [], []⟩) hlength
    hnormalised (fun other hother => (hapart other hother).1)
    fun other hother => (hapart other hother).2

variable (server) in
theorem accepted_provenances (hreads : Reads store tables) {rows : List (Provenance Timestamp)}
    (hfresh : ∀ other ∈ tables.provenance, ∀ row ∈ rows,
      other.provenanceId ≠ row.provenanceId)
    (hown : rows.Pairwise fun a b => a.provenanceId ≠ b.provenanceId) :
    rows.foldlM (fun store row => submit (schema server) applicationRole store
      (insertProvenance now row)) store = .ok (extended now server store ⟨[], rows, []⟩) := by
  refine extended_rows now server store _ (fun rows => ⟨[], rows, []⟩) rfl (fun _ _ => rfl) ?_
  rintro done row rest rfl
  have hapart : ∀ other ∈ tables.provenance ++ done, other.provenanceId ≠ row.provenanceId := by
    intro other hother
    cases List.mem_append.mp hother with
    | inl h => exact hfresh other h row (List.mem_append_right _ List.mem_cons_self)
    | inr h => exact (List.pairwise_append.mp hown).2.2 other h row List.mem_cons_self
  exact accepted_insertProvenance now server (hreads.extended now server ⟨[], done, []⟩) hapart

variable (server) in
theorem accepted_evidences (hreads : Reads store tables)
    {rows : List (Evidence Timestamp Jsonb)}
    (hfresh : ∀ other ∈ tables.evidence, ∀ row ∈ rows, other.evidenceId ≠ row.evidenceId)
    (hown : rows.Pairwise fun a b => a.evidenceId ≠ b.evidenceId)
    (hdomain : ∀ row ∈ rows, ∃ target ∈ tables.domain, target.domainId = row.domainId)
    (hprovenance : ∀ row ∈ rows,
      ∃ target ∈ tables.provenance, target.provenanceId = row.provenanceId) :
    rows.foldlM (fun store row => submit (schema server) applicationRole store
      (insertEvidence now row)) store = .ok (extended now server store ⟨[], [], rows⟩) := by
  refine extended_rows now server store _ (fun rows => ⟨[], [], rows⟩) rfl (fun _ _ => rfl) ?_
  rintro done row rest rfl
  have hmem : row ∈ done ++ row :: rest := List.mem_append_right _ List.mem_cons_self
  have hapart : ∀ other ∈ tables.evidence ++ done, other.evidenceId ≠ row.evidenceId := by
    intro other hother
    cases List.mem_append.mp hother with
    | inl h => exact hfresh other h row hmem
    | inr h => exact (List.pairwise_append.mp hown).2.2 other h row List.mem_cons_self
  have hdone := hreads.extended now server ⟨[], [], done⟩
  refine accepted_insertEvidence now server hdone hapart ?_ ?_
  · simpa [Tables.append] using hdomain row hmem
  · simpa [Tables.append] using hprovenance row hmem

-- The role may insert the rows of a transaction, the domain and the provenance before the
-- evidence that refers to them.
theorem accepted_inserts (hreads : Reads store committed)
    (h : Insertable server committed own) :
    (inserts now own).foldlM (submit (schema server) applicationRole) store =
      .ok (extended now server store own) := by
  have hdomains := accepted_domains now hreads h.domainRows h.fresh.domain h.domain
  have hfirst := hreads.extended now server ⟨own.domain, [], []⟩
  have hprovenances := accepted_provenances server now hfirst
    (by simpa [Tables.append] using h.fresh.provenance) h.provenance
  have hsecond := hfirst.extended now server ⟨[], own.provenance, []⟩
  have hevidences := accepted_evidences server now hsecond
    (by simpa [Tables.append] using h.fresh.evidence) h.evidence
    (by simpa [Tables.append] using h.toDomain) (by simpa [Tables.append] using h.toProvenance)
  have hwhole : ((⟨own.domain, [], []⟩ : Tables Timestamp Jsonb).append
      ⟨[], own.provenance, []⟩).append ⟨[], [], own.evidence⟩ = own := by
    simp [Tables.append]
  simp only [extended_append, hwhole] at hprovenances hevidences
  simp only [inserts, List.foldlM_append, List.foldlM_map]
  exact Result.bind_eq_ok.mpr
    ⟨_, Result.bind_eq_ok.mpr ⟨_, hdomains, hprovenances⟩, hevidences⟩

theorem transact_inserts (hreads : Reads store committed)
    (h : Insertable server committed own) :
    transact (schema server) applicationRole store (inserts now own) =
      (.ok (), extended now server store own) := by
  unfold transact
  rw [accepted_inserts now hreads h]

end Accepted

section Run

variable [DecidableEq T] {maxStrDigits : ℕ} {str : EventBus.Value → Text}

-- A step of any of the calls, each for an event of its own.
def Enabled (str : EventBus.Value → Text) (world : World T Timestamp Jsonb) (input : Input T) :
    Prop :=
  ∃ key, Admissible str key world input

-- The call that an input commits.
def Input.committing : Input T → Option T
  | .commit call => some call
  | _ => none

-- The call that an input commits, with the rows of its transaction.
def commitOf (world : World T Timestamp Jsonb) : Input T → Option (T × Tables Timestamp Jsonb)
  | .commit call =>
      match world.calls call with
      | .running { phase := .commit _, own, .. } => some (call, own)
      | _ => none
  | _ => none

-- The calls that commit, each with the rows of its transaction, in the order of the commits.
def commits (server : Server Timestamp Jsonb) (maxStrDigits : ℕ) (str : EventBus.Value → Text)
    (world : World T Timestamp Jsonb) : List (Input T) → List (T × Tables Timestamp Jsonb)
  | [] => []
  | input :: inputs =>
      (commitOf world input).toList ++
        commits server maxStrDigits str (step server maxStrDigits str world input).2 inputs

theorem commits_append (world : World T Timestamp Jsonb) (inputs later : List (Input T)) :
    commits server maxStrDigits str world (inputs ++ later) =
      commits server maxStrDigits str world inputs ++
        commits server maxStrDigits str
          (inputs.foldl (fun world input => (step server maxStrDigits str world input).2) world)
          later := by
  induction inputs generalizing world with
  | nil => rfl
  | cons input inputs ih => simp only [List.cons_append, commits, ih, List.append_assoc,
      List.foldl_cons]

theorem commits_snoc {start world : World T Timestamp Jsonb} {trace : List (Input T × Unit)}
    (hrun : Run (step server maxStrDigits str) (Enabled str) start trace world) (input : Input T)
    (answer : Unit) :
    commits server maxStrDigits str start ((trace ++ [(input, answer)]).map Prod.fst) =
      commits server maxStrDigits str start (trace.map Prod.fst) ++
        (commitOf world input).toList := by
  rw [List.map_append, commits_append, ← hrun.eq_foldl]
  simp [commits]

-- What stands of the open transactions: each may still commit, whichever commits first.
structure Open (server : Server Timestamp Jsonb) (world : World T Timestamp Jsonb) : Prop where
  insertable : ∀ call transaction, world.calls call = .running transaction →
    Insertable server world.committed transaction.own
  apart : ∀ call transaction other holder, world.calls call = .running transaction →
    world.calls other = .running holder → other ≠ call → Apart transaction.own holder.own

-- A call that goes on or ends, without any change to the committed rows.
theorem Open.set {world : World T Timestamp Jsonb} (h : Open server world) (call : T)
    (status : Status Timestamp Jsonb)
    (hstatus : ∀ transaction, status = .running transaction →
      Insertable server world.committed transaction.own ∧
        ∀ other holder, world.calls other = .running holder → other ≠ call →
          Apart transaction.own holder.own) :
    Open server (world.set call status) where
  insertable other holder hrunning := by
    rw [World.calls_set] at hrunning
    split_ifs at hrunning with hother
    · exact (hstatus holder hrunning).1
    · exact h.insertable other holder hrunning
  apart first one second two hone htwo hne := by
    rw [World.calls_set] at hone htwo
    by_cases hfirst : first = call
    · rw [if_pos hfirst] at hone
      have hsecond : second ≠ call := fun heq => hne (heq.trans hfirst.symm)
      rw [if_neg hsecond] at htwo
      exact (hstatus one hone).2 second two htwo hsecond
    · rw [if_neg hfirst] at hone
      by_cases hsecond : second = call
      · rw [if_pos hsecond] at htwo
        exact ((hstatus two htwo).2 first one hone hfirst).symm
      · rw [if_neg hsecond] at htwo
        exact h.apart first one second two hone htwo hne

theorem Open.ended {world : World T Timestamp Jsonb} (h : Open server world) (call : T)
    {status : Status Timestamp Jsonb} (hended : ∀ transaction, status ≠ .running transaction) :
    Open server (world.set call status) :=
  h.set call status fun transaction heq => absurd heq (hended transaction)

-- The rows of one call become committed under the others.
theorem Open.commit {world : World T Timestamp Jsonb} (h : Open server world) {call : T}
    {transaction : Transaction Timestamp Jsonb} (hrunning : world.calls call = .running transaction)
    (result : WriteResult) :
    Open server { world.set call (.returned result) with
      committed := world.committed.append transaction.own } where
  insertable other holder hother := by
    have hcalls : (world.set call (.returned result)).calls other = .running holder := hother
    rw [World.calls_set] at hcalls
    split_ifs at hcalls with hne
    exact (h.insertable other holder hcalls).after
      (h.apart call transaction other holder hrunning hcalls hne)
  apart := (h.ended call (by simp)).apart

theorem Insertion.apart {transaction : Transaction Timestamp Jsonb} {generated : Uuid}
    {rows other : Tables Timestamp Jsonb}
    (h : Insertion server committed transaction generated rows)
    (hapart : Apart transaction.own other)
    (hdomain : transaction.phase = .insertDomain → ∀ row ∈ other.domain,
      ¬ (uuidInput transaction.parameters.domainId = some row.domainId ∨
        row.normalisedUrl = transaction.parameters.normalisedUrl))
    (hunused : Unused other generated) : Apart rows other := by
  cases h with
  | none => exact hapart
  | @domain row hphase hrow _ =>
      obtain ⟨hid, hurl, _⟩ := domainRow_eq_ok hrow
      refine ⟨?_, hapart.provenance, hapart.evidence⟩
      intro a ha b hb
      cases List.mem_append.mp ha with
      | inl hold => exact hapart.domain a hold b hb
      | inr hnew =>
          rw [List.mem_singleton.mp hnew]
          have hfree := not_or.mp (hdomain hphase b hb)
          exact ⟨fun heq => hfree.1 (hid.trans (congrArg some heq)),
            fun heq => hfree.2 (heq.symm.trans hurl)⟩
  | @provenance row hid _ =>
      refine ⟨hapart.domain, ?_, hapart.evidence⟩
      intro a ha b hb
      cases List.mem_append.mp ha with
      | inl hold => exact hapart.provenance a hold b hb
      | inr hnew =>
          rw [List.mem_singleton.mp hnew, hid]
          exact (hunused.1 b hb).symm
  | @evidence row hid _ _ _ =>
      refine ⟨hapart.domain, hapart.provenance, ?_⟩
      intro a ha b hb
      cases List.mem_append.mp ha with
      | inl hold => exact hapart.evidence a hold b hb
      | inr hnew =>
          rw [List.mem_singleton.mp hnew, hid]
          exact (hunused.2 b hb).symm

-- What one step does to the open transactions and the committed rows.
inductive Moved (server : Server Timestamp Jsonb) (world next : World T Timestamp Jsonb)
    (input : Input T) : Prop
  | within (hsame : next.committed = world.committed) (hopen : Open server next)
      (hinput : input.committing = none) (hrows : commitOf world input = none)
  | commits {call : T} {own : Tables Timestamp Jsonb}
      (hown : Insertable server world.committed own)
      (happended : next.committed = world.committed.append own) (hopen : Open server next)
      (hinput : input.committing = some call) (hrows : commitOf world input = some (call, own))

variable (maxStrDigits) in
theorem moved_step {world : World T Timestamp Jsonb} (hopen : Open server world) {input : Input T}
    (henabled : Enabled str world input) :
    Moved server world (step server maxStrDigits str world input).2 input := by
  obtain ⟨key, hadmissible⟩ := henabled
  cases input with
  | begin call envelope =>
      cases hparameters : parameters str envelope with
      | error failure =>
          simp only [step, hparameters]
          exact .within rfl (hopen.ended call (by simp)) rfl rfl
      | ok parameters =>
          simp only [step, hparameters]
          refine .within rfl (hopen.set call _ ?_) rfl rfl
          intro transaction htransaction
          obtain rfl := Status.running.inj htransaction
          refine ⟨insertable_empty, ?_⟩
          intro other holder _ _
          have hempty : Insertable server holder.own Tables.empty := insertable_empty
          exact hempty.fresh.symm
  | statement call generated =>
      obtain ⟨transaction, hrunning, _, hblocked, _, hothers⟩ := hadmissible
      cases hexecute : execute server maxStrDigits world.committed transaction generated with
      | error failure =>
          simp only [step, hrunning, hexecute]
          exact .within rfl (hopen.ended call (by simp)) rfl rfl
      | ok next =>
          simp only [step, hrunning, hexecute]
          have hinsertion := insertion_of_execute hexecute
          refine .within rfl (hopen.set call _ ?_) rfl rfl
          intro moved hmoved
          obtain rfl := Status.running.inj hmoved
          refine ⟨hinsertion.insertable (hopen.insertable call transaction hrunning), ?_⟩
          intro other holder hholder hne
          refine hinsertion.apart (hopen.apart call transaction other holder hrunning hholder hne)
            ?_ (hothers other holder hholder)
          intro hphase row hrow hclash
          exact hblocked ⟨hphase, other, holder, hne, hholder, row, hrow, hclash⟩
  | commit call =>
      obtain ⟨⟨parameters, phase, own⟩, result, hrunning, rfl⟩ := hadmissible
      simp only [step, hrunning]
      exact .commits (hopen.insertable call _ hrunning) rfl (hopen.commit hrunning result) rfl
        (by simp only [commitOf, hrunning])
  | abort call =>
      obtain ⟨transaction, hrunning⟩ := hadmissible
      simp only [step, hrunning]
      exact .within rfl (hopen.ended call (by simp)) rfl rfl

omit [DecidableEq T] in
theorem open_idle {world : World T Timestamp Jsonb} (hidle : ∀ call, world.calls call = .idle) :
    Open server world where
  insertable call transaction hrunning := by
    rw [hidle] at hrunning
    cases hrunning
  apart call transaction other holder hrunning := by
    rw [hidle] at hrunning
    cases hrunning

-- Any interleaving of concurrent calls comes to a series of transactions of the role: one
-- for each call that commits, in that order and of the INSERTs of its own rows, and none of
-- them is refused.
theorem writers_serialize [DecidableEq Timestamp] [DecidableEq Jsonb] (now : T → Timestamp)
    {start last : World T Timestamp Jsonb} {trace : List (Input T × Unit)}
    {store : CanonicalStore.Store Timestamp Jsonb}
    (hrun : Run (step server maxStrDigits str) (Enabled str) start trace last)
    (hidle : ∀ call, start.calls call = .idle) (hstore : Reads store start.committed) :
    ∃ final, Reads final last.committed ∧
      ApplicationRun server store
        ((commits server maxStrDigits str start (trace.map Prod.fst)).map fun commit =>
          (inserts (now commit.1) commit.2, .ok ())) final ∧
      (commits server maxStrDigits str start (trace.map Prod.fst)).map Prod.fst =
        (trace.map Prod.fst).filterMap Input.committing := by
  have hall : Open server last ∧ ∃ final, Reads final last.committed ∧
      ApplicationRun server store
        ((commits server maxStrDigits str start (trace.map Prod.fst)).map fun commit =>
          (inserts (now commit.1) commit.2, .ok ())) final ∧
      (commits server maxStrDigits str start (trace.map Prod.fst)).map Prod.fst =
        (trace.map Prod.fst).filterMap Input.committing := by
    induction hrun with
    | nil => exact ⟨open_idle hidle, store, hstore, .nil, rfl⟩
    | @snoc trace world input hrun henabled ih =>
        obtain ⟨hopen, final, hreads, hserial, hcalls⟩ := ih
        rw [commits_snoc hrun, List.map_append, List.map_append (f := Prod.fst), hcalls]
        rw [@List.map_append _ _ _ trace, List.filterMap_append]
        cases moved_step maxStrDigits hopen henabled with
        | within hsame hnext hinput hrows =>
            refine ⟨hnext, final, ?_, ?_, ?_⟩
            · rwa [hsame]
            · simpa [hrows] using hserial
            · simp [hrows, hinput]
        | @commits call own hown happended hnext hinput hrows =>
            have hsnoc := hserial.snoc (inserts (now call) own) trivial
            rw [transact_inserts (now call) hreads hown] at hsnoc
            refine ⟨hnext, extended (now call) server final own, ?_, ?_, ?_⟩
            · rw [happended]
              exact hreads.extended (now call) server own
            · simpa [hrows] using hsnoc
            · simp [hrows, hinput]
  exact hall.2

end Run

-- The store with the one domain that two calls observe, which has a score.
def observedStore : CanonicalStore.Store Text Json.Tree :=
  Function.update Store.empty .domain
    (observedDomain.domain.map fun row =>
      Function.update (storedDomain [] sampleServer row) .currentScore (some (.numeric 1)))

theorem reads_observedStore : Reads observedStore observedDomain where
  domain := .cons ⟨rfl, rfl, rfl⟩ .nil
  provenance := .nil
  evidence := .nil

open Classical in
theorem writers_serialize_both : ∃ inputs final,
    ApplicationRun sampleServer observedStore
        ((commits sampleServer 4300 strOf idleWorld inputs).map fun commit =>
          (inserts [] commit.2, .ok ())) final ∧
      Reads final (observedDomain.append
        { domain := []
          provenance := [signalProvenance ⟨1⟩, signalProvenance ⟨3⟩]
          evidence := [signalEvidence ⟨1⟩ ⟨2⟩, signalEvidence ⟨3⟩ ⟨4⟩] }) := by
  obtain ⟨trace, world, hrun, hcommitted⟩ := run_both
  have henabled : Run (step sampleServer 4300 strOf) (Enabled strOf) idleWorld trace world :=
    hrun.mono fun _ _ hadmissible => ⟨_, hadmissible⟩
  obtain ⟨final, hreads, hserial, -⟩ :=
    writers_serialize (fun _ => []) henabled (fun _ => rfl) reads_observedStore
  exact ⟨_, final, hserial, hcommitted ▸ hreads⟩

end TrustlistCore.EvidenceWriter
