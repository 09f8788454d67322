import TrustlistCore.EventBus.EnvelopeRoundTrip
import TrustlistCore.EvidenceWriter.Writer
import TrustlistCore.Library.Result

namespace TrustlistCore.EvidenceWriter

open Library Unicode EventBus DataModel

variable {Timestamp Jsonb : Type} {server : Server Timestamp Jsonb} {maxStrDigits : ℕ}

theorem orFail_eq_ok_iff {A : Type} {failure : WriteFailure} {value : Option A} {a : A} :
    orFail failure value = .ok a ↔ value = some a := by
  cases value with
  | none => exact iff_of_false (fun h => nomatch h) fun h => nomatch h
  | some b => rw [orFail, Except.ok.injEq, Option.some.injEq]

theorem requiredText_str_eq_ok_iff {column : String} {text stored : Text} :
    requiredText server column (.str text) = .ok stored ↔
      server.accepts text = true ∧ stored = text := by
  unfold requiredText textColumn
  by_cases haccepts : server.accepts text = true
  · simp only [haccepts, if_true, bind, Except.bind, orFail, Except.ok.injEq, true_and]
    exact eq_comm
  · rw [Bool.not_eq_true] at haccepts
    simp only [haccepts, Bool.false_eq_true, if_false, bind, Except.bind, false_and, reduceCtorEq]

theorem parameters_eq_ok {str : Value → Text} {envelope : EventEnvelope}
    {sent : Parameters}
    (h : parameters str envelope = .ok sent) :
    sent.idempotencyMethod = idempotencyMethod (str envelope.idempotencyKey) := by
  simp only [parameters, bind, Result.bind_eq_ok, Except.ok.injEq] at h
  obtain ⟨domainId, -, signalClass, -, observedAt, -, observedValue, -, rfl⟩ := h
  rfl

theorem domainRow_eq_ok {parameters : Parameters} {row : Domain}
    (h : domainRow server parameters = .ok row) :
    uuidInput parameters.domainId = some row.domainId ∧
      row.normalisedUrl = parameters.normalisedUrl ∧ row.normalisedUrl.length ≤ 255 ∧
        isNormalised server row.normalisedUrl = true := by
  simp only [domainRow, bind, Result.bind_eq_ok, requiredText_str_eq_ok_iff] at h
  obtain ⟨domainId, hid, url, ⟨-, rfl⟩, h⟩ := h
  split_ifs at h with hlength hnormalised
  cases h
  refine ⟨orFail_eq_ok_iff.mp hid, rfl, Nat.le_of_not_lt hlength, ?_⟩
  simpa using hnormalised

theorem provenanceRow_eq_ok {parameters : Parameters} {provenanceId : Uuid}
    {row : Provenance Timestamp} (h : provenanceRow server parameters provenanceId = .ok row) :
    row.provenanceId = provenanceId ∧ row.method = parameters.idempotencyMethod := by
  simp only [provenanceRow, bind, Result.bind_eq_ok, requiredText_str_eq_ok_iff, Except.ok.injEq]
    at h
  obtain ⟨source, -, method, ⟨-, rfl⟩, observedAt, -, contributor, -, rfl⟩ := h
  exact ⟨rfl, rfl⟩

theorem evidenceRow_eq_ok {parameters : Parameters} {provenanceId evidenceId : Uuid}
    {row : Evidence Timestamp Jsonb}
    (h : evidenceRow server parameters maxStrDigits provenanceId evidenceId = .ok row) :
    row.provenanceId = provenanceId ∧ row.evidenceId = evidenceId ∧
      uuidInput parameters.domainId = some row.domainId := by
  simp only [evidenceRow, bind, Result.bind_eq_ok, Except.ok.injEq] at h
  obtain ⟨value, -, domain, hdomain, signal, -, source, -, method, -, url, -, observed, -, rfl⟩ := h
  exact ⟨rfl, rfl, orFail_eq_ok_iff.mp hdomain⟩

variable (server maxStrDigits) in
-- The pair of rows that a call writes for its parameters.
structure Wrote (parameters : Parameters) (provenance : Provenance Timestamp)
    (evidence : Evidence Timestamp Jsonb) : Prop where
  origin : provenanceRow server parameters provenance.provenanceId = .ok provenance
  observation : evidenceRow server parameters maxStrDigits provenance.provenanceId
    evidence.evidenceId = .ok evidence

def createdResult (parameters : Parameters) (provenance : Provenance Timestamp)
    (evidence : Evidence Timestamp Jsonb) : WriteResult where
  provenanceId := uuidText provenance.provenanceId
  evidenceId := uuidText evidence.evidenceId
  domainId := parameters.domainId
  created := true

variable (server maxStrDigits) in
-- What a transaction has inserted by the time of a phase.
def Progress (transaction : Transaction Timestamp Jsonb) : Prop :=
  match transaction.phase with
  | .findExisting => transaction.own = Tables.empty
  | .selectDomain => transaction.own = Tables.empty
  | .insertDomain => transaction.own = Tables.empty
  | .insertProvenance => transaction.own.provenance = [] ∧ transaction.own.evidence = []
  | .insertEvidence provenanceId => ∃ provenance,
      provenanceRow server transaction.parameters provenanceId = .ok provenance ∧
      transaction.own.provenance = [provenance] ∧ transaction.own.evidence = []
  | .commit result =>
      result.created = false ∧ transaction.own = Tables.empty ∨
      ∃ provenance evidence,
        Wrote server maxStrDigits transaction.parameters provenance evidence ∧
        transaction.own.provenance = [provenance] ∧ transaction.own.evidence = [evidence] ∧
        result = createdResult transaction.parameters provenance evidence

theorem progress_begin (parameters : Parameters) :
    Progress server maxStrDigits (begin parameters) :=
  rfl

variable (server maxStrDigits) in
-- All that a statement can do to its transaction.
inductive Statement (committed : Tables Timestamp Jsonb) (transaction : Transaction Timestamp Jsonb)
    (generated : Uuid) : Transaction Timestamp Jsonb → Prop
  | found {existing : WriteResult} (hphase : transaction.phase = .findExisting)
      (hfound : findExisting server (committed.append transaction.own)
        transaction.parameters.idempotencyMethod = .ok (some existing)) :
      Statement committed transaction generated { transaction with phase := .commit existing }
  | missed (hphase : transaction.phase = .findExisting)
      (hmissed : findExisting server (committed.append transaction.own)
        transaction.parameters.idempotencyMethod = .ok none) :
      Statement committed transaction generated { transaction with phase := .selectDomain }
  | domain {phase : Phase} {domain : List Domain}
      (hphase : transaction.phase = .selectDomain ∧ phase = .insertDomain ∧
          domain = transaction.own.domain ∨
        (transaction.phase = .selectDomain ∨ transaction.phase = .insertDomain) ∧
          phase = .insertProvenance) :
      Statement committed transaction generated
        { transaction with phase, own := { transaction.own with domain } }
  | provenance {row : Provenance Timestamp} (hphase : transaction.phase = .insertProvenance)
      (hrow : provenanceRow server transaction.parameters generated = .ok row)
      (hfresh : ∀ other ∈ (committed.append transaction.own).provenance,
        other.provenanceId ≠ generated) :
      Statement committed transaction generated
        { transaction with
          phase := .insertEvidence generated
          own := { transaction.own with provenance := transaction.own.provenance ++ [row] } }
  | evidence {provenanceId : Uuid} {row : Evidence Timestamp Jsonb}
      (hphase : transaction.phase = .insertEvidence provenanceId)
      (hrow : evidenceRow server transaction.parameters maxStrDigits provenanceId generated =
        .ok row) :
      Statement committed transaction generated
        { transaction with
          phase := .commit
            { provenanceId := uuidText provenanceId
              evidenceId := uuidText generated
              domainId := transaction.parameters.domainId
              created := true }
          own := { transaction.own with evidence := transaction.own.evidence ++ [row] } }
  | done {result : WriteResult} (hphase : transaction.phase = .commit result) :
      Statement committed transaction generated transaction

theorem statement_of_execute {committed : Tables Timestamp Jsonb}
    {transaction next : Transaction Timestamp Jsonb} {generated : Uuid}
    (h : execute server maxStrDigits committed transaction generated = .ok next) :
    Statement server maxStrDigits committed transaction generated next := by
  unfold execute at h
  cases hphase : transaction.phase with
  | findExisting =>
      simp only [hphase, bind, Result.bind_eq_ok] at h
      obtain ⟨existing, hexisting, h⟩ := h
      cases existing with
      | some existing =>
          obtain rfl := Except.ok.inj h
          exact .found hphase hexisting
      | none =>
          obtain rfl := Except.ok.inj h
          exact .missed hphase hexisting
  | selectDomain =>
      simp only [hphase, bind, Result.bind_eq_ok] at h
      obtain ⟨domainId, -, h⟩ := h
      split at h
      · obtain rfl := Except.ok.inj h
        exact .domain (Or.inr ⟨Or.inl hphase, rfl⟩)
      · obtain rfl := Except.ok.inj h
        exact .domain (Or.inl ⟨hphase, rfl, rfl⟩)
  | insertDomain =>
      simp only [hphase, bind, Result.bind_eq_ok] at h
      obtain ⟨row, -, h⟩ := h
      split at h
      · obtain rfl := Except.ok.inj h
        exact .domain (Or.inr ⟨Or.inr hphase, rfl⟩)
      split at h
      · exact nomatch h
      · obtain rfl := Except.ok.inj h
        exact .domain (Or.inr ⟨Or.inr hphase, rfl⟩)
  | insertProvenance =>
      simp only [hphase, bind, Result.bind_eq_ok] at h
      obtain ⟨row, hrow, h⟩ := h
      split at h
      · exact nomatch h
      · rename_i hfresh
        obtain rfl := Except.ok.inj h
        exact .provenance hphase hrow (by simpa using hfresh)
  | insertEvidence provenanceId =>
      simp only [hphase, bind, Result.bind_eq_ok] at h
      obtain ⟨row, hrow, h⟩ := h
      split at h
      · exact nomatch h
      split at h
      · exact nomatch h
      split at h
      · exact nomatch h
      · obtain rfl := Except.ok.inj h
        exact .evidence hphase hrow
  | commit result =>
      simp only [hphase] at h
      obtain rfl := Except.ok.inj h
      exact .done hphase

theorem Statement.parameters_eq {committed : Tables Timestamp Jsonb}
    {transaction next : Transaction Timestamp Jsonb} {generated : Uuid}
    (h : Statement server maxStrDigits committed transaction generated next) :
    next.parameters = transaction.parameters := by
  cases h <;> rfl

section Find

variable {tables : Tables Timestamp Jsonb} {method : Text}

-- The one pair of rows of an anchor.
structure Single (tables : Tables Timestamp Jsonb) (method : Text)
    (provenance : Provenance Timestamp) (evidence : Evidence Timestamp Jsonb) : Prop where
  origin : tables.provenance.filter (fun row => row.method = method) = [provenance]
  observation :
    tables.evidence.filter (fun row => row.provenanceId = provenance.provenanceId) = [evidence]

def foundResult (evidence : Evidence Timestamp Jsonb) : WriteResult where
  provenanceId := uuidText evidence.provenanceId
  evidenceId := uuidText evidence.evidenceId
  domainId := uuidText evidence.domainId
  created := false

-- The join goes through the rows of the anchor alone.
theorem joined_eq (tables : Tables Timestamp Jsonb) (method : Text) :
    joined tables method = tables.evidence.flatMap fun evidence =>
      ((tables.provenance.filter fun row => row.method = method).filter fun row =>
        row.provenanceId = evidence.provenanceId).map fun _ => evidence := by
  simp only [joined, List.filter_filter, Bool.decide_and]

theorem joined_of_none
    (h : tables.provenance.filter (fun row => row.method = method) = []) :
    joined tables method = [] := by
  rw [joined_eq, h]
  simp

theorem joined_of_single {provenance : Provenance Timestamp}
    {evidence : Evidence Timestamp Jsonb} (h : Single tables method provenance evidence) :
    joined tables method = [evidence] := by
  rw [joined_eq, h.origin, ← h.observation]
  induction tables.evidence with
  | nil => rfl
  | cons row rows ih =>
      rw [List.flatMap_cons, ih]
      by_cases hid : row.provenanceId = provenance.provenanceId
      · simp [hid]
      · simp [hid, Ne.symm hid]

theorem findExisting_eq_ok_iff {existing : Option WriteResult} :
    findExisting server tables method = .ok existing ↔ server.accepts method = true ∧
      (joined tables method = [] ∧ existing = none ∨
        ∃ evidence, joined tables method = [evidence] ∧ existing = some (foundResult evidence)) := by
  simp only [findExisting, bind, Result.bind_eq_ok, requiredText_str_eq_ok_iff]
  constructor
  · rintro ⟨stored, ⟨haccepts, rfl⟩, h⟩
    refine ⟨haccepts, ?_⟩
    split at h
    · rename_i hjoined
      exact Or.inl ⟨hjoined, (Except.ok.inj h).symm⟩
    · rename_i evidence hjoined
      exact Or.inr ⟨evidence, hjoined, (Except.ok.inj h).symm⟩
    · exact nomatch h
  · rintro ⟨haccepts, ⟨hjoined, rfl⟩ | ⟨evidence, hjoined, rfl⟩⟩
    · exact ⟨method, ⟨haccepts, rfl⟩, by simp only [hjoined]⟩
    · exact ⟨method, ⟨haccepts, rfl⟩, by simp only [hjoined]; rfl⟩

theorem findExisting_of_not_accepts (h : ¬ server.accepts method = true) :
    findExisting server tables method = .error (.dataError "method") := by
  rw [Bool.not_eq_true] at h
  simp only [findExisting, requiredText, textColumn, h, Bool.false_eq_true, if_false, bind,
    Except.bind]

theorem created_of_findExisting {existing : WriteResult}
    (h : findExisting server tables method = .ok (some existing)) : existing.created = false := by
  obtain ⟨-, ⟨-, hnone⟩ | ⟨evidence, -, hsome⟩⟩ := findExisting_eq_ok_iff.mp h
  · exact nomatch hnone
  · rw [Option.some.inj hsome]
    rfl

end Find

theorem Statement.progress {committed : Tables Timestamp Jsonb}
    {transaction next : Transaction Timestamp Jsonb} {generated : Uuid}
    (h : Statement server maxStrDigits committed transaction generated next)
    (hprogress : Progress server maxStrDigits transaction) :
    Progress server maxStrDigits next := by
  unfold Progress at hprogress
  cases h with
  | found hphase hexisting =>
      rw [hphase] at hprogress
      exact Or.inl ⟨created_of_findExisting hexisting, hprogress⟩
  | missed hphase hmissed =>
      rw [hphase] at hprogress
      exact hprogress
  | domain hphase =>
      rcases hphase with ⟨hphase, rfl, rfl⟩ | ⟨hphase | hphase, rfl⟩
      · rw [hphase] at hprogress
        exact hprogress
      · rw [hphase] at hprogress
        exact ⟨congrArg Tables.provenance hprogress, congrArg Tables.evidence hprogress⟩
      · rw [hphase] at hprogress
        exact ⟨congrArg Tables.provenance hprogress, congrArg Tables.evidence hprogress⟩
  | @provenance row hphase hrow =>
      rw [hphase] at hprogress
      refine ⟨row, hrow, ?_, hprogress.2⟩
      simp only [hprogress.1, List.nil_append]
  | @evidence provenanceId row hphase hrow =>
      rw [hphase] at hprogress
      obtain ⟨provenance, horigin, hprovenance, hevidence⟩ := hprogress
      obtain ⟨hid, -⟩ := provenanceRow_eq_ok horigin
      obtain ⟨-, hgenerated, -⟩ := evidenceRow_eq_ok hrow
      refine Or.inr ⟨provenance, row, ⟨by rwa [hid], by rwa [hid, hgenerated]⟩, hprovenance, ?_, ?_⟩
      · simp only [hevidence, List.nil_append]
      · unfold createdResult
        rw [hid, hgenerated]
  | done hphase => exact hprogress

-- The statements of a call that found nothing and whose domain is there.
section Insert

variable {committed : Tables Timestamp Jsonb} {sent : Parameters}
  {provenance : Provenance Timestamp} {evidence : Evidence Timestamp Jsonb}

theorem execute_selectDomain {domainId generated : Uuid}
    (hdomainId : uuidInput sent.domainId = some domainId)
    (hdomain : ∃ row ∈ committed.domain, row.domainId = domainId) :
    execute server maxStrDigits committed
      { parameters := sent, phase := .selectDomain, own := Tables.empty } generated =
      .ok { parameters := sent, phase := .insertProvenance, own := Tables.empty } := by
  obtain ⟨row, hrow, rfl⟩ := hdomain
  have hany : committed.domain.any (fun other => other.domainId = row.domainId) = true :=
    List.any_eq_true.mpr ⟨row, hrow, decide_eq_true rfl⟩
  simp only [execute, Tables.append_empty, uuidColumn, orFail, hdomainId, bind, Except.bind, hany,
    if_true]

theorem execute_insertProvenance (hwrote : Wrote server maxStrDigits sent provenance evidence)
    (hfree : ∀ row ∈ committed.provenance, row.provenanceId ≠ provenance.provenanceId) :
    execute server maxStrDigits committed
      { parameters := sent, phase := .insertProvenance, own := Tables.empty }
      provenance.provenanceId =
      .ok
        { parameters := sent
          phase := .insertEvidence provenance.provenanceId
          own := { domain := [], provenance := [provenance], evidence := [] } } := by
  have hany : committed.provenance.any
      (fun other => other.provenanceId = provenance.provenanceId) = false :=
    List.any_eq_false.mpr fun row hrow => by simpa using hfree row hrow
  simp only [execute, Tables.append_empty, hwrote.origin, bind, Except.bind, hany,
    Bool.false_eq_true, if_false]
  rfl

theorem execute_insertEvidence (hwrote : Wrote server maxStrDigits sent provenance evidence)
    (hdomain : ∃ row ∈ committed.domain, row.domainId = evidence.domainId)
    (hfree : ∀ row ∈ committed.evidence, row.evidenceId ≠ evidence.evidenceId) :
    execute server maxStrDigits committed
      { parameters := sent
        phase := .insertEvidence provenance.provenanceId
        own := { domain := [], provenance := [provenance], evidence := [] } }
      evidence.evidenceId =
      .ok
        { parameters := sent
          phase := .commit (createdResult sent provenance evidence)
          own := { domain := [], provenance := [provenance], evidence := [evidence] } } := by
  have hany : (committed.evidence ++ []).any
      (fun other => other.evidenceId = evidence.evidenceId) = false := by
    rw [List.append_nil, List.any_eq_false]
    exact fun row hrow => by simpa using hfree row hrow
  have hreferred : (committed.domain ++ []).any
      (fun other => other.domainId = evidence.domainId) = true := by
    obtain ⟨row, hrow, hid⟩ := hdomain
    rw [List.append_nil]
    exact List.any_eq_true.mpr ⟨row, hrow, decide_eq_true hid⟩
  have horigin : (committed.provenance ++ [provenance]).any
      (fun other => other.provenanceId = provenance.provenanceId) = true :=
    List.any_eq_true.mpr
      ⟨provenance, List.mem_append_right _ (List.mem_singleton_self _), decide_eq_true rfl⟩
  simp only [execute, Tables.append, hwrote.observation, bind, Except.bind, hany, hreferred, horigin,
    Bool.false_eq_true, if_false, not_true_eq_false]
  rfl

end Insert

-- A store on which everything in the sample envelope is good input.
def sampleServer : Server Text Json.Tree where
  lower := id
  isSpace := fun point => point.val = 0x20
  timestamptz := some
  jsonb := some
  accepts := fun _ => true
  convert := fun _ => none

def strOf : Value → Text
  | .str text => text
  | _ => []

def signalOf (domainId : String) : Value :=
  .dict
    [(points "domain_id", .str (points domainId)),
      (points "signal_class", .str (points "dns")),
      (points "observed_at", .str (points "2026-06-07T12:00:00Z")),
      (points "observed_value", .dict [])]

def signalPayload : Value :=
  signalOf "01234567-89ab-cdef-0123-456789abcdef"

def signalParameters : Parameters where
  domainId := points "01234567-89ab-cdef-0123-456789abcdef"
  signalClass := points "dns"
  sourceUrl := []
  observedAt := points "2026-06-07T12:00:00Z"
  observedValue := .dict []
  idempotencyMethod := points "evidence-writer-stub:key"
  source := .str (points "human")
  method := .str (points "probe")
  contributorIdentity := .str []
  normalisedUrl := points "01234567-89ab-cdef-0123-456789abcdef.smoke.trustlist.test"

theorem parameters_signal :
    parameters strOf (observedEnvelope signalPayload) = .ok signalParameters := by
  rfl

def signalProvenance (provenanceId : Uuid) : Provenance Text where
  provenanceId
  source := .human
  method := points "evidence-writer-stub:key"
  observedAt := points "2026-06-07T12:00:00Z"
  contributorIdentity := some []

def signalEvidence (provenanceId evidenceId : Uuid) : Evidence Text Json.Tree where
  evidenceId
  domainId := sampleId
  signalClass := points "dns"
  source := .human
  method := points "probe"
  sourceUrl := []
  observedAt := points "2026-06-07T12:00:00Z"
  observedValue := .object []
  provenanceId

theorem wrote_signal (provenanceId evidenceId : Uuid) :
    Wrote sampleServer 4300 signalParameters (signalProvenance provenanceId)
      (signalEvidence provenanceId evidenceId) where
  origin := rfl
  observation := rfl

end TrustlistCore.EvidenceWriter
