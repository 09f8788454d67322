import Mathlib.Data.List.Forall2
import TrustlistCore.EvidenceWriter.Serialization

namespace TrustlistCore.EvidenceWriter

open Library EventBus DataModel

variable {T Timestamp Jsonb : Type}

section Matching

-- `link` pairs the ids that the database generates in one run with those of another.
variable (link : Uuid → Uuid → Prop)

structure ProvenanceMatch (a b : Provenance Timestamp) : Prop where
  provenanceId : link a.provenanceId b.provenanceId
  source : a.source = b.source
  method : a.method = b.method
  observedAt : a.observedAt = b.observedAt
  contributorIdentity : a.contributorIdentity = b.contributorIdentity

structure EvidenceMatch (a b : Evidence Timestamp Jsonb) : Prop where
  evidenceId : link a.evidenceId b.evidenceId
  domainId : a.domainId = b.domainId
  signalClass : a.signalClass = b.signalClass
  source : a.source = b.source
  method : a.method = b.method
  sourceUrl : a.sourceUrl = b.sourceUrl
  observedAt : a.observedAt = b.observedAt
  observedValue : a.observedValue = b.observedValue
  provenanceId : link a.provenanceId b.provenanceId

-- The same rows in the same order, but for the generated ids.
structure TablesMatch (first second : Tables Timestamp Jsonb) : Prop where
  domain : first.domain = second.domain
  provenance : List.Forall₂ (ProvenanceMatch link) first.provenance second.provenance
  evidence : List.Forall₂ (EvidenceMatch link) first.evidence second.evidence

structure ResultMatch (a b : WriteResult) : Prop where
  provenanceId : ∃ one other, link one other ∧ a.provenanceId = uuidText one ∧
    b.provenanceId = uuidText other
  evidenceId : ∃ one other, link one other ∧ a.evidenceId = uuidText one ∧
    b.evidenceId = uuidText other
  domainId : a.domainId = b.domainId
  created : a.created = b.created

inductive PhaseMatch : Phase → Phase → Prop
  | findExisting : PhaseMatch .findExisting .findExisting
  | selectDomain : PhaseMatch .selectDomain .selectDomain
  | insertDomain : PhaseMatch .insertDomain .insertDomain
  | insertProvenance : PhaseMatch .insertProvenance .insertProvenance
  | insertEvidence {one other : Uuid} (hlink : link one other) :
      PhaseMatch (.insertEvidence one) (.insertEvidence other)
  | commit {one other : WriteResult} (hresult : ResultMatch link one other) :
      PhaseMatch (.commit one) (.commit other)

structure TransactionMatch (first second : Transaction Timestamp Jsonb) : Prop where
  parameters : first.parameters = second.parameters
  phase : PhaseMatch link first.phase second.phase
  own : TablesMatch link first.own second.own

inductive StatusMatch : Status Timestamp Jsonb → Status Timestamp Jsonb → Prop
  | idle : StatusMatch .idle .idle
  | running {first second : Transaction Timestamp Jsonb}
      (htransaction : TransactionMatch link first second) :
      StatusMatch (.running first) (.running second)
  | returned {one other : WriteResult} (hresult : ResultMatch link one other) :
      StatusMatch (.returned one) (.returned other)
  | raised (failure : WriteFailure) : StatusMatch (.raised failure) (.raised failure)

structure WorldMatch (first second : World T Timestamp Jsonb) : Prop where
  committed : TablesMatch link first.committed second.committed
  calls : ∀ call, StatusMatch link (first.calls call) (second.calls call)

variable (str : Value → Text) in
-- The same step of the same call, with the event of the one run or a copy that differs only
-- in what the writer does not read.
inductive InputMatch : Input T → Input T → Prop
  | begin (call : T) {first second : EventEnvelope}
      (hparameters : parameters str first = parameters str second) :
      InputMatch (.begin call first) (.begin call second)
  | statement (call : T) {one other : Uuid} (hlink : link one other) :
      InputMatch (.statement call one) (.statement call other)
  | commit (call : T) : InputMatch (.commit call) (.commit call)
  | abort (call : T) : InputMatch (.abort call) (.abort call)

-- Two outcomes of a statement.
inductive OutcomeMatch : Except WriteFailure (Transaction Timestamp Jsonb) →
    Except WriteFailure (Transaction Timestamp Jsonb) → Prop
  | ok {first second : Transaction Timestamp Jsonb}
      (htransaction : TransactionMatch link first second) : OutcomeMatch (.ok first) (.ok second)
  | error (failure : WriteFailure) : OutcomeMatch (.error failure) (.error failure)

inductive FoundMatch : Except WriteFailure (Option WriteResult) →
    Except WriteFailure (Option WriteResult) → Prop
  | none : FoundMatch (.ok none) (.ok none)
  | some {one other : WriteResult} (hresult : ResultMatch link one other) :
      FoundMatch (.ok (some one)) (.ok (some other))
  | error (failure : WriteFailure) : FoundMatch (.error failure) (.error failure)

end Matching

section Statements

variable {link : Uuid → Uuid → Prop} {first second more other : Tables Timestamp Jsonb}

theorem TablesMatch.append (h : TablesMatch link first second)
    (hmore : TablesMatch link more other) :
    TablesMatch link (first.append more) (second.append other) where
  domain := by
    simp only [Tables.append]
    rw [h.domain, hmore.domain]
  provenance := List.rel_append h.provenance hmore.provenance
  evidence := List.rel_append h.evidence hmore.evidence

theorem tablesMatch_empty : TablesMatch link (Tables.empty : Tables Timestamp Jsonb) Tables.empty where
  domain := rfl
  provenance := .nil
  evidence := .nil

theorem resultMatch_of {provenanceId provenanceId' evidenceId evidenceId' : Uuid}
    (hprovenance : link provenanceId provenanceId') (hevidence : link evidenceId evidenceId')
    {domainId : Text} {created : Bool} :
    ResultMatch link
      { provenanceId := uuidText provenanceId, evidenceId := uuidText evidenceId, domainId, created }
      { provenanceId := uuidText provenanceId'
        evidenceId := uuidText evidenceId'
        domainId
        created } where
  provenanceId := ⟨provenanceId, provenanceId', hprovenance, by simp only, by simp only⟩
  evidenceId := ⟨evidenceId, evidenceId', hevidence, by simp only, by simp only⟩
  domainId := by simp only
  created := by simp only

theorem foundResult_match {a b : Evidence Timestamp Jsonb} (h : EvidenceMatch link a b) :
    ResultMatch link (foundResult a) (foundResult b) := by
  unfold foundResult
  rw [h.domainId]
  exact resultMatch_of h.provenanceId h.evidenceId

variable (hlink : Relator.BiUnique link)
include hlink

theorem link_iff {a b a' b' : Uuid} (ha : link a a') (hb : link b b') : a = b ↔ a' = b' :=
  Relator.rel_eq hlink ha hb

-- The join finds rows of the same places.
theorem joined_match (h : TablesMatch link first second) (method : Text) :
    List.Forall₂ (EvidenceMatch link) (joined first method) (joined second method) := by
  refine List.rel_flatMap h.evidence ?_
  intro one other hevidence
  refine List.rel_map ?_ (List.rel_filter ?_ h.provenance)
  · intro _ _ _
    exact hevidence
  · intro a b hprovenance
    simp only [decide_eq_true_eq]
    rw [link_iff hlink hprovenance.provenanceId hevidence.provenanceId, hprovenance.method]

-- A generated id is taken in both or in neither.
theorem any_provenanceId (h : TablesMatch link first second) {generated fresh : Uuid}
    (hgenerated : link generated fresh) :
    (first.provenance.any fun row => row.provenanceId = generated) =
      second.provenance.any fun row => row.provenanceId = fresh := by
  refine any_congr h.provenance ?_
  intro a b hrow
  exact decide_eq_decide.mpr (link_iff hlink hrow.provenanceId hgenerated)

theorem any_evidenceId (h : TablesMatch link first second) {generated fresh : Uuid}
    (hgenerated : link generated fresh) :
    (first.evidence.any fun row => row.evidenceId = generated) =
      second.evidence.any fun row => row.evidenceId = fresh := by
  refine any_congr h.evidence ?_
  intro a b hrow
  exact decide_eq_decide.mpr (link_iff hlink hrow.evidenceId hgenerated)

variable (server : Server Timestamp Jsonb) (maxStrDigits : ℕ)

theorem findExisting_match (h : TablesMatch link first second) (idempotencyMethod : Text) :
    FoundMatch link (findExisting server first idempotencyMethod)
      (findExisting server second idempotencyMethod) := by
  unfold findExisting
  cases hmethod : requiredText server "method" (.str idempotencyMethod) with
  | error failure => exact .error failure
  | ok method =>
      have hjoined := joined_match hlink h method
      simp only [bind, Except.bind]
      generalize joined first method = one at hjoined ⊢
      generalize joined second method = other at hjoined ⊢
      cases hjoined with
      | nil => exact .none
      | @cons one other rest others hrow hrest =>
          cases hrest with
          | nil =>
              have hresult := foundResult_match hrow
              exact .some hresult
          | cons _ _ =>
              have herror : FoundMatch link (.error .multipleResultsFound)
                (.error .multipleResultsFound) := .error _
              exact herror

omit hlink in
variable (link) in
inductive RowMatch {R : Type} (Match : R → R → Prop) : Except WriteFailure R →
    Except WriteFailure R → Prop
  | ok {row copy : R} (hrow : Match row copy) : RowMatch Match (.ok row) (.ok copy)
  | error (failure : WriteFailure) : RowMatch Match (.error failure) (.error failure)

omit hlink in
theorem RowMatch.bind {A R : Type} {Match : R → R → Prop} (value : Except WriteFailure A)
    {f g : A → Except WriteFailure R} (h : ∀ a, RowMatch Match (f a) (g a)) :
    RowMatch Match (value >>= f) (value >>= g) := by
  cases value with
  | error failure => exact .error failure
  | ok a => exact h a

omit hlink in
theorem provenanceRow_match (parameters : Parameters) {generated fresh : Uuid}
    (hgenerated : link generated fresh) :
    RowMatch (ProvenanceMatch link) (provenanceRow server parameters generated)
      (provenanceRow server parameters fresh) := by
  unfold provenanceRow
  refine .bind _ fun source => .bind _ fun method => .bind _ fun observedAt => .bind _ ?_
  intro contributorIdentity
  exact .ok ⟨hgenerated, rfl, rfl, rfl, rfl⟩

omit hlink in
theorem evidenceRow_match (parameters : Parameters) {provenanceId provenanceId' generated fresh : Uuid}
    (hprovenance : link provenanceId provenanceId') (hgenerated : link generated fresh) :
    RowMatch (EvidenceMatch link)
      (evidenceRow server parameters maxStrDigits provenanceId generated)
      (evidenceRow server parameters maxStrDigits provenanceId' fresh) := by
  unfold evidenceRow
  refine .bind _ fun observedValue => .bind _ fun domainId => .bind _ fun signalClass =>
    .bind _ fun source => .bind _ fun method => .bind _ fun sourceUrl => .bind _ ?_
  intro observedAt
  exact .ok ⟨hgenerated, rfl, rfl, rfl, rfl, rfl, rfl, rfl, hprovenance⟩

section Phases

-- The same transaction in both runs: its call, what it wrote and the id that it draws next.
variable {parameters : Parameters} {own own' : Tables Timestamp Jsonb} {generated fresh : Uuid}
variable (hcommitted : TablesMatch link first second) (hown : TablesMatch link own own')
include hcommitted hown

theorem findExisting_execute_match :
    OutcomeMatch link (execute server maxStrDigits first ⟨parameters, .findExisting, own⟩ generated)
      (execute server maxStrDigits second ⟨parameters, .findExisting, own'⟩ fresh) := by
  have hvisible := hcommitted.append hown
  have hfound := findExisting_match hlink server hvisible parameters.idempotencyMethod
  simp only [execute]
  generalize findExisting server (first.append own) parameters.idempotencyMethod = one at hfound ⊢
  generalize findExisting server (second.append own') parameters.idempotencyMethod = other
    at hfound ⊢
  cases hfound with
  | none => exact .ok ⟨rfl, .selectDomain, hown⟩
  | some hresult => exact .ok ⟨rfl, .commit hresult, hown⟩
  | error failure => exact .error failure

omit hlink in
theorem selectDomain_execute_match :
    OutcomeMatch link (execute server maxStrDigits first ⟨parameters, .selectDomain, own⟩ generated)
      (execute server maxStrDigits second ⟨parameters, .selectDomain, own'⟩ fresh) := by
  have hvisible := hcommitted.append hown
  simp only [execute, hvisible.domain]
  cases uuidColumn "domain_id" parameters.domainId with
  | error failure => exact .error failure
  | ok domainId =>
      simp only [bind, Except.bind]
      split_ifs
      · exact .ok ⟨rfl, .insertProvenance, hown⟩
      · exact .ok ⟨rfl, .insertDomain, hown⟩

omit hlink in
theorem insertDomain_execute_match :
    OutcomeMatch link (execute server maxStrDigits first ⟨parameters, .insertDomain, own⟩ generated)
      (execute server maxStrDigits second ⟨parameters, .insertDomain, own'⟩ fresh) := by
  have hvisible := hcommitted.append hown
  simp only [execute, hvisible.domain]
  cases domainRow server parameters with
  | error failure => exact .error failure
  | ok row =>
      simp only [bind, Except.bind]
      split_ifs
      · exact .ok ⟨rfl, .insertProvenance, hown⟩
      · exact .error _
      · refine .ok ⟨rfl, .insertProvenance, ?_, hown.provenance, hown.evidence⟩
        simp only [hown.domain]

theorem insertProvenance_execute_match (hgenerated : link generated fresh) :
    OutcomeMatch link
      (execute server maxStrDigits first ⟨parameters, .insertProvenance, own⟩ generated)
      (execute server maxStrDigits second ⟨parameters, .insertProvenance, own'⟩ fresh) := by
  have hvisible := hcommitted.append hown
  simp only [execute, any_provenanceId hlink hvisible hgenerated]
  have hrow := provenanceRow_match server parameters hgenerated
  generalize provenanceRow server parameters generated = one at hrow ⊢
  generalize provenanceRow server parameters fresh = other at hrow ⊢
  cases hrow with
  | error failure => exact .error failure
  | @ok row copy hrow =>
      simp only [bind, Except.bind]
      split_ifs
      · exact .error _
      · exact .ok ⟨rfl, .insertEvidence hgenerated, hown.domain,
          List.rel_append hown.provenance (.cons hrow .nil), hown.evidence⟩

theorem insertEvidence_execute_match {provenanceId provenanceId' : Uuid}
    (hid : link provenanceId provenanceId') (hgenerated : link generated fresh) :
    OutcomeMatch link
      (execute server maxStrDigits first ⟨parameters, .insertEvidence provenanceId, own⟩ generated)
      (execute server maxStrDigits second ⟨parameters, .insertEvidence provenanceId', own'⟩ fresh) := by
  have hvisible := hcommitted.append hown
  simp only [execute, any_evidenceId hlink hvisible hgenerated,
    any_provenanceId hlink hvisible hid, hvisible.domain]
  have hrow := evidenceRow_match server maxStrDigits parameters hid hgenerated
  generalize evidenceRow server parameters maxStrDigits provenanceId generated = one at hrow ⊢
  generalize evidenceRow server parameters maxStrDigits provenanceId' fresh = other at hrow ⊢
  cases hrow with
  | error failure => exact .error failure
  | @ok row copy hrow =>
      simp only [bind, Except.bind, hrow.domainId]
      split_ifs
      · exact .error _
      · refine .ok ⟨rfl, .commit ?_, hown.domain, hown.provenance,
          List.rel_append hown.evidence (.cons hrow .nil)⟩
        exact resultMatch_of hid hgenerated
      · exact .error _
      · exact .error _

end Phases

-- A statement comes to the same, whatever the ids are.
theorem execute_match {transaction replayed : Transaction Timestamp Jsonb}
    (hcommitted : TablesMatch link first second)
    (htransaction : TransactionMatch link transaction replayed) {generated fresh : Uuid}
    (hgenerated : link generated fresh) :
    OutcomeMatch link (execute server maxStrDigits first transaction generated)
      (execute server maxStrDigits second replayed fresh) := by
  obtain ⟨parameters, phase, own⟩ := transaction
  obtain ⟨parameters', phase', own'⟩ := replayed
  obtain ⟨hparameters, hphase, hown⟩ := htransaction
  simp only at hparameters hphase hown
  subst hparameters
  cases hphase with
  | findExisting => exact findExisting_execute_match hlink server maxStrDigits hcommitted hown
  | selectDomain => exact selectDomain_execute_match server maxStrDigits hcommitted hown
  | insertDomain => exact insertDomain_execute_match server maxStrDigits hcommitted hown
  | insertProvenance =>
      exact insertProvenance_execute_match hlink server maxStrDigits hcommitted hown hgenerated
  | insertEvidence hid =>
      exact insertEvidence_execute_match hlink server maxStrDigits hcommitted hown hid hgenerated
  | commit hresult => exact .ok ⟨rfl, .commit hresult, hown⟩

end Statements

section Run

variable [DecidableEq T] {link : Uuid → Uuid → Prop} {server : Server Timestamp Jsonb}
variable {maxStrDigits : ℕ} {str : Value → Text} {first second : World T Timestamp Jsonb}

theorem WorldMatch.set (h : WorldMatch link first second) (call : T)
    {one other : Status Timestamp Jsonb} (hstatus : StatusMatch link one other) :
    WorldMatch link (first.set call one) (second.set call other) where
  committed := h.committed
  calls third := by
    rw [World.calls_set, World.calls_set]
    split_ifs
    · exact hstatus
    · exact h.calls third

omit [DecidableEq T] in
theorem WorldMatch.exists_right (h : WorldMatch link first second) {call : T}
    {transaction : Transaction Timestamp Jsonb} (hrunning : first.calls call = .running transaction) :
    ∃ replayed, second.calls call = .running replayed ∧
      TransactionMatch link transaction replayed := by
  have hstatus := h.calls call
  rw [hrunning] at hstatus
  generalize hsecond : second.calls call = status at hstatus
  cases hstatus with
  | running htransaction => exact ⟨_, rfl, htransaction⟩

omit [DecidableEq T] in
theorem WorldMatch.exists_left (h : WorldMatch link first second) {call : T}
    {replayed : Transaction Timestamp Jsonb} (hrunning : second.calls call = .running replayed) :
    ∃ transaction, first.calls call = .running transaction ∧
      TransactionMatch link transaction replayed := by
  have hstatus := h.calls call
  rw [hrunning] at hstatus
  generalize hfirst : first.calls call = status at hstatus
  cases hstatus with
  | running htransaction => exact ⟨_, rfl, htransaction⟩

variable (hlink : Relator.BiUnique link)
include hlink

omit [DecidableEq T] in
theorem unused_match {rows copies : Tables Timestamp Jsonb} (h : TablesMatch link rows copies)
    {generated fresh : Uuid} (hgenerated : link generated fresh) (hunused : Unused rows generated) :
    Unused copies fresh := by
  constructor
  · intro copy hcopy heq
    obtain ⟨row, hrow, hmatch⟩ := exists_right h.provenance hcopy
    exact hunused.1 row hrow ((link_iff hlink hmatch.provenanceId hgenerated).mpr heq)
  · intro copy hcopy heq
    obtain ⟨row, hrow, hmatch⟩ := exists_right h.evidence hcopy
    exact hunused.2 row hrow ((link_iff hlink hmatch.evidenceId hgenerated).mpr heq)

omit [DecidableEq T] in
-- What one run may do next, the other may.
theorem enabled_match (h : WorldMatch link first second) {input copy : Input T}
    (hinput : InputMatch link str input copy) (henabled : Enabled str first input) :
    Enabled str second copy := by
  obtain ⟨key, hadmissible⟩ := henabled
  cases hinput with
  | @begin call _ envelope _ =>
      have hidle := h.calls call
      rw [hadmissible.1] at hidle
      generalize hstatus : second.calls call = status at hidle
      cases hidle
      exact ⟨str envelope.idempotencyKey, hstatus, rfl⟩
  | statement call hgenerated =>
      obtain ⟨transaction, hrunning, hphase, hblocked, hunused, hothers⟩ := hadmissible
      obtain ⟨replayed, hreplayed, htransaction⟩ := h.exists_right hrunning
      refine ⟨key, replayed, hreplayed, ?_, ?_, unused_match hlink h.committed hgenerated hunused, ?_⟩
      · intro result hcommit
        have hsame := htransaction.phase
        rw [hcommit] at hsame
        generalize hother : transaction.phase = phase at hsame
        cases hsame with
        | commit _ => exact hphase _ hother
      · rintro ⟨hinsert, other, holder, hne, hholder, row, hrow, hclash⟩
        obtain ⟨known, hknown, hmatch⟩ := h.exists_left hholder
        have hsame := htransaction.phase
        rw [hinsert] at hsame
        generalize hphaseOther : transaction.phase = phase at hsame
        cases hsame with
        | insertDomain =>
            rw [← hmatch.own.domain] at hrow
            rw [← htransaction.parameters] at hclash
            exact hblocked ⟨hphaseOther, other, known, hne, hknown, row, hrow, hclash⟩
      · intro other holder hholder
        obtain ⟨known, hknown, hmatch⟩ := h.exists_left hholder
        exact unused_match hlink hmatch.own hgenerated (hothers other known hknown)
  | commit call =>
      obtain ⟨transaction, result, hrunning, hphase⟩ := hadmissible
      obtain ⟨replayed, hreplayed, htransaction⟩ := h.exists_right hrunning
      have hsame := htransaction.phase
      rw [hphase] at hsame
      generalize hother : replayed.phase = phase at hsame
      cases hsame with
      | commit _ => exact ⟨key, replayed, _, hreplayed, hother⟩
  | abort call =>
      obtain ⟨transaction, hrunning⟩ := hadmissible
      obtain ⟨replayed, hreplayed, _⟩ := h.exists_right hrunning
      exact ⟨key, replayed, hreplayed⟩

-- A step of the one run and the same step of the other.
theorem step_match (h : WorldMatch link first second) {input copy : Input T}
    (hinput : InputMatch link str input copy) :
    WorldMatch link (step server maxStrDigits str first input).2
      (step server maxStrDigits str second copy).2 := by
  cases hinput with
  | begin call hparameters =>
      simp only [step, hparameters]
      split
      · exact h.set call (.running ⟨rfl, .findExisting, tablesMatch_empty⟩)
      · exact h.set call (.raised _)
  | statement call hgenerated =>
      have hstatus := h.calls call
      simp only [step]
      generalize first.calls call = one at hstatus ⊢
      generalize second.calls call = other at hstatus ⊢
      cases hstatus with
      | @running transaction replayed htransaction =>
          have hexecute := execute_match hlink server maxStrDigits h.committed htransaction hgenerated
          simp only
          generalize execute server maxStrDigits first.committed transaction _ = next at hexecute ⊢
          generalize execute server maxStrDigits second.committed replayed _ = final at hexecute ⊢
          cases hexecute with
          | ok hnext => exact h.set call (.running hnext)
          | error failure => exact h.set call (.raised failure)
      | idle => exact h
      | returned _ => exact h
      | raised _ => exact h
  | commit call =>
      have hstatus := h.calls call
      simp only [step]
      generalize first.calls call = one at hstatus ⊢
      generalize second.calls call = other at hstatus ⊢
      cases hstatus with
      | @running transaction replayed htransaction =>
          obtain ⟨parameters, phase, own⟩ := transaction
          obtain ⟨parameters', phase', own'⟩ := replayed
          obtain ⟨_, hphase, hown⟩ := htransaction
          simp only at hphase hown
          cases hphase with
          | commit hresult =>
              exact ⟨h.committed.append hown, (h.set call (.returned hresult)).calls⟩
          | findExisting => exact h
          | selectDomain => exact h
          | insertDomain => exact h
          | insertProvenance => exact h
          | insertEvidence _ => exact h
      | idle => exact h
      | returned _ => exact h
      | raised _ => exact h
  | abort call =>
      have hstatus := h.calls call
      simp only [step]
      generalize first.calls call = one at hstatus ⊢
      generalize second.calls call = other at hstatus ⊢
      cases hstatus with
      | running _ => exact h.set call (.raised .operationalError)
      | idle => exact h
      | returned _ => exact h
      | raised _ => exact h

omit hlink in
omit [DecidableEq T] in
theorem exists_snoc_of_match {A B : Type} {R : A → B → Prop} {as : List A} {a : A} {bs : List B}
    (h : List.Forall₂ R (as ++ [a]) bs) : ∃ front b, bs = front ++ [b] ∧ List.Forall₂ R as front ∧ R a b := by
  induction as generalizing bs with
  | nil =>
      cases h with
      | cons hfirst hrest =>
          cases hrest
          exact ⟨[], _, rfl, .nil, hfirst⟩
  | cons first as ih =>
      cases h with
      | @cons _ other _ others hfirst hrest =>
          obtain ⟨front, b, rfl, hfront, hlast⟩ := ih hrest
          exact ⟨other :: front, b, rfl, .cons hfirst hfront, hlast⟩

theorem replay_of_match {start last : World T Timestamp Jsonb} {trace : List (Input T × Unit)}
    (hrun : Run (step server maxStrDigits str) (Enabled str) start trace last)
    {again : World T Timestamp Jsonb} (hstart : WorldMatch link start again)
    {inputs : List (Input T)}
    (hinputs : List.Forall₂ (InputMatch link str) (trace.map Prod.fst) inputs) :
    ∃ replay final, Run (step server maxStrDigits str) (Enabled str) again replay final ∧
      replay.map Prod.fst = inputs ∧ WorldMatch link last final := by
  induction hrun generalizing inputs with
  | nil =>
      cases hinputs
      exact ⟨[], again, .nil, rfl, hstart⟩
  | @snoc trace world input _ henabled ih =>
      rw [List.map_append] at hinputs
      obtain ⟨front, copy, rfl, hfront, hcopy⟩ := exists_snoc_of_match hinputs
      obtain ⟨replay, final, hreplay, hsame, hmatch⟩ := ih hfront
      refine ⟨_, _, hreplay.snoc copy (enabled_match hlink hmatch hcopy henabled), ?_,
        step_match hlink hmatch hcopy⟩
      rw [List.map_append, hsame]
      rfl

-- Calls that run once in some interleaving may run again in the same one, with events that
-- read the same to the writer and ids of their own. They end the same: every call returns
-- or raises the same, and the tables hold the same rows, but for the generated ids.
theorem writers_replay {start last : World T Timestamp Jsonb} {trace : List (Input T × Unit)}
    (hrun : Run (step server maxStrDigits str) (Enabled str) start trace last)
    {again : World T Timestamp Jsonb} (hagain : TablesMatch link start.committed again.committed)
    (hidle : ∀ call, start.calls call = .idle) (hidleAgain : ∀ call, again.calls call = .idle)
    {inputs : List (Input T)}
    (hinputs : List.Forall₂ (InputMatch link str) (trace.map Prod.fst) inputs) :
    ∃ replay final, Run (step server maxStrDigits str) (Enabled str) again replay final ∧
      replay.map Prod.fst = inputs ∧ WorldMatch link last final := by
  refine replay_of_match hlink hrun ⟨hagain, ?_⟩ hinputs
  intro call
  rw [hidle call, hidleAgain call]
  exact .idle

end Run

section Renamed

def renamed (id : Uuid) : Uuid :=
  ⟨id.int.rev⟩

theorem biUnique_renamed : Relator.BiUnique fun id copy => renamed id = copy := by
  constructor
  · intro a b copy ha hb
    have hsame := congrArg Uuid.int (ha.trans hb.symm)
    obtain ⟨a⟩ := a
    obtain ⟨b⟩ := b
    simp only [renamed] at hsame
    rw [Fin.rev_inj.mp hsame]
  · intro a b c hb hc
    exact hb.symm.trans hc

def renamedInput : Input Bool → Input Bool
  | .statement call generated => .statement call (renamed generated)
  | input => input

theorem inputMatch_renamed (input : Input Bool) :
    InputMatch (fun id copy => renamed id = copy) strOf input (renamedInput input) := by
  cases input with
  | begin call envelope => exact .begin call rfl
  | statement call generated => exact .statement call rfl
  | commit call => exact .commit call
  | abort call => exact .abort call

theorem inputsMatch_renamed (inputs : List (Input Bool)) :
    List.Forall₂ (InputMatch (fun id copy => renamed id = copy) strOf) inputs
      (inputs.map renamedInput) := by
  rw [List.forall₂_map_right_iff, List.forall₂_same]
  intro input _
  exact inputMatch_renamed input

theorem writers_replay_both : ∃ replay final,
    Run (step sampleServer 4300 strOf) (Enabled strOf) idleWorld replay final ∧
      TablesMatch (fun id copy => renamed id = copy) (observedDomain.append
        { domain := []
          provenance := [signalProvenance ⟨1⟩, signalProvenance ⟨3⟩]
          evidence := [signalEvidence ⟨1⟩ ⟨2⟩, signalEvidence ⟨3⟩ ⟨4⟩] }) final.committed := by
  obtain ⟨trace, world, hrun, hcommitted⟩ := run_both
  have henabled : Run (step sampleServer 4300 strOf) (Enabled strOf) idleWorld trace world :=
    hrun.mono fun _ _ hadmissible => ⟨_, hadmissible⟩
  have hcopy : TablesMatch (fun id copy => renamed id = copy) idleWorld.committed
      idleWorld.committed :=
    ⟨rfl, .nil, .nil⟩
  obtain ⟨replay, final, hreplay, _, hmatch⟩ :=
    writers_replay biUnique_renamed henabled hcopy (fun _ => rfl) (fun _ => rfl)
      (inputsMatch_renamed _)
  exact ⟨replay, final, hreplay, hcommitted ▸ hmatch.committed⟩

end Renamed

end TrustlistCore.EvidenceWriter
