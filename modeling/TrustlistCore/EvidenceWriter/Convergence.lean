import TrustlistCore.EvidenceWriter.Concurrency

namespace TrustlistCore.EvidenceWriter

open Library Unicode EventBus DataModel

section Invariant

variable {T Timestamp Jsonb : Type} [DecidableEq T] {server : Server Timestamp Jsonb}
  {maxStrDigits : ℕ} {str : Value → Text} {key : Text}

theorem Single.references {tables : Tables Timestamp Jsonb} {method : Text}
    {provenance : Provenance Timestamp} {evidence : Evidence Timestamp Jsonb}
    (h : Single tables method provenance evidence) :
    evidence.provenanceId = provenance.provenanceId := by
  have hmem : evidence ∈ tables.evidence.filter
      fun row => row.provenanceId = provenance.provenanceId := by
    rw [h.observation]
    exact List.mem_singleton_self evidence
  exact of_decide_eq_true (List.mem_filter.mp hmem).2

variable (server maxStrDigits key) in
-- What holds of an open transaction beside the store.
structure Fits (committed : Tables Timestamp Jsonb) (transaction : Transaction Timestamp Jsonb) :
    Prop where
  progress : Progress server maxStrDigits transaction
  anchor : transaction.parameters.idempotencyMethod = idempotencyMethod key
  accepted : transaction.phase ≠ .findExisting → server.accepts (idempotencyMethod key) = true
  fresh : ∀ row ∈ transaction.own.provenance, ∀ other ∈ committed.provenance,
    other.provenanceId ≠ row.provenanceId
  answer : ∀ result, transaction.phase = .commit result → result.created = false →
    ∃ provenance evidence, Single committed (idempotencyMethod key) provenance evidence ∧
      Names result provenance evidence

variable (server maxStrDigits key) in
structure Inv (world : World T Timestamp Jsonb) : Prop where
  fits : ∀ call transaction, world.calls call = .running transaction →
    Fits server maxStrDigits key world.committed transaction
  apart : ∀ call transaction other holder, world.calls call = .running transaction →
    world.calls other = .running holder → other ≠ call →
      ∀ row ∈ transaction.own.provenance, ∀ row' ∈ holder.own.provenance,
        row'.provenanceId ≠ row.provenanceId
  references : ∀ row ∈ world.committed.evidence,
    ∃ provenance ∈ world.committed.provenance, provenance.provenanceId = row.provenanceId
  settled : world.committed.provenance.filter (fun row => row.method = idempotencyMethod key) = [] ∨
    ∃ provenance evidence, Single world.committed (idempotencyMethod key) provenance evidence
  returned : ∀ call result, world.calls call = .returned result →
    server.accepts (idempotencyMethod key) = true ∧ ∃ provenance evidence,
      Single world.committed (idempotencyMethod key) provenance evidence ∧
        Names result provenance evidence

omit [DecidableEq T] in
theorem Start.inv {world : World T Timestamp Jsonb} (h : Start key world) :
    Inv server maxStrDigits key world where
  fits call transaction hrunning := by
    rw [h.idle] at hrunning
    exact nomatch hrunning
  apart call transaction _ _ hrunning := by
    rw [h.idle] at hrunning
    exact nomatch hrunning
  references := h.references
  settled := h.clean
  returned call result hreturned := by
    rw [h.idle] at hreturned
    exact nomatch hreturned

-- One call moves on, and the store stays as it is.
theorem Inv.set {world : World T Timestamp Jsonb} (h : Inv server maxStrDigits key world)
    (call : T) (status : Status Timestamp Jsonb)
    (hfits : ∀ transaction, status = .running transaction →
      Fits server maxStrDigits key world.committed transaction)
    (hapart : ∀ transaction, status = .running transaction → ∀ other holder,
      world.calls other = .running holder → other ≠ call →
        ∀ row ∈ transaction.own.provenance, ∀ row' ∈ holder.own.provenance,
          row'.provenanceId ≠ row.provenanceId)
    (hreturned : ∀ result, status = .returned result →
      server.accepts (idempotencyMethod key) = true ∧ ∃ provenance evidence,
        Single world.committed (idempotencyMethod key) provenance evidence ∧
          Names result provenance evidence) :
    Inv server maxStrDigits key (world.set call status) where
  fits other holder hrunning := by
    rw [World.calls_set] at hrunning
    split at hrunning
    · exact hfits holder hrunning
    · exact h.fits other holder hrunning
  apart first one second two hone htwo hne := by
    rw [World.calls_set] at hone htwo
    by_cases hfirst : first = call
    · have hsecond : second ≠ call := fun heq => hne (heq.trans hfirst.symm)
      rw [if_pos hfirst] at hone
      rw [if_neg hsecond] at htwo
      exact hapart one hone second two htwo hsecond
    · rw [if_neg hfirst] at hone
      by_cases hsecond : second = call
      · rw [if_pos hsecond] at htwo
        exact fun row hrow row' hrow' => (hapart two htwo first one hone hfirst row' hrow' row hrow).symm
      · rw [if_neg hsecond] at htwo
        exact h.apart first one second two hone htwo hne
  references := h.references
  settled := h.settled
  returned other result hreturn := by
    rw [World.calls_set] at hreturn
    split at hreturn
    · exact hreturned result hreturn
    · exact h.returned other result hreturn

theorem Inv.set_raised {world : World T Timestamp Jsonb} (h : Inv server maxStrDigits key world)
    (call : T) (failure : WriteFailure) :
    Inv server maxStrDigits key (world.set call (.raised failure)) :=
  h.set call _ (fun _ hrunning => nomatch hrunning) (fun _ hrunning => nomatch hrunning)
    fun _ hreturned => nomatch hreturned

theorem Single.names {tables : Tables Timestamp Jsonb} {method : Text}
    {provenance : Provenance Timestamp} {evidence : Evidence Timestamp Jsonb}
    (h : Single tables method provenance evidence) :
    Names (foundResult evidence) provenance evidence := by
  simp only [Names, foundResult, h.references, and_self]

-- What a lookup over a store with one pair at most answers is that pair.
theorem names_of_findExisting {committed : Tables Timestamp Jsonb} {method : Text}
    {existing : WriteResult}
    (hsettled : committed.provenance.filter (fun row => row.method = method) = [] ∨
      ∃ provenance evidence, Single committed method provenance evidence)
    (h : findExisting server committed method = .ok (some existing)) :
    ∃ provenance evidence, Single committed method provenance evidence ∧
      Names existing provenance evidence := by
  obtain ⟨-, ⟨-, hnone⟩ | ⟨evidence, hjoined, hexisting⟩⟩ := findExisting_eq_ok_iff.mp h
  · exact nomatch hnone
  obtain rfl := Option.some.inj hexisting
  rcases hsettled with hnone | ⟨provenance, evidence', hsingle⟩
  · rw [joined_of_none hnone] at hjoined
    exact nomatch hjoined
  · rw [joined_of_single hsingle] at hjoined
    obtain rfl := List.singleton_injective hjoined
    exact ⟨provenance, evidence', hsingle, hsingle.names⟩

theorem Statement.generated_of_mem {committed : Tables Timestamp Jsonb}
    {transaction next : Transaction Timestamp Jsonb} {generated : Uuid}
    (h : Statement server maxStrDigits committed transaction generated next)
    {row : Provenance Timestamp} (hrow : row ∈ next.own.provenance) :
    row ∈ transaction.own.provenance ∨ row.provenanceId = generated := by
  cases h with
  | provenance hphase hnew =>
      rcases List.mem_append.mp hrow with hold | hlast
      · exact Or.inl hold
      · rw [List.mem_singleton.mp hlast]
        exact Or.inr (provenanceRow_eq_ok hnew).1
  | _ => exact Or.inl hrow

theorem Fits.statement {committed : Tables Timestamp Jsonb}
    {transaction next : Transaction Timestamp Jsonb} {generated : Uuid}
    (h : Fits server maxStrDigits key committed transaction)
    (hsettled : committed.provenance.filter (fun row => row.method = idempotencyMethod key) = [] ∨
      ∃ provenance evidence, Single committed (idempotencyMethod key) provenance evidence)
    (hunused : Unused committed generated)
    (hnext : Statement server maxStrDigits committed transaction generated next) :
    Fits server maxStrDigits key committed next where
  progress := hnext.progress h.progress
  anchor := hnext.parameters_eq ▸ h.anchor
  accepted hphase := by
    by_cases hfirst : transaction.phase = .findExisting
    · cases hnext with
      | found _ hfound => exact h.anchor ▸ (findExisting_eq_ok_iff.mp hfound).1
      | missed _ hmissed => exact h.anchor ▸ (findExisting_eq_ok_iff.mp hmissed).1
      | domain hdomain =>
          rcases hdomain with ⟨hdomain, -⟩ | ⟨hdomain | hdomain, -⟩ <;>
            exact nomatch hfirst.symm.trans hdomain
      | provenance hphase' => exact nomatch hfirst.symm.trans hphase'
      | evidence hphase' => exact nomatch hfirst.symm.trans hphase'
      | done hphase' => exact nomatch hfirst.symm.trans hphase'
    · exact h.accepted hfirst
  fresh row hrow other hother := by
    rcases hnext.generated_of_mem hrow with hold | hgenerated
    · exact h.fresh row hold other hother
    · rw [hgenerated]
      exact hunused.1 other hother
  answer result hresult hcreated := by
    cases hnext with
    | found hphase hfound =>
        obtain rfl := Phase.commit.inj hresult
        have hown : transaction.own = Tables.empty := by
          have hprogress := h.progress
          rwa [Progress, hphase] at hprogress
        rw [hown, Tables.append_empty, h.anchor] at hfound
        exact names_of_findExisting hsettled hfound
    | missed hphase => exact nomatch hresult
    | domain hphase =>
        rcases hphase with ⟨-, rfl, -⟩ | ⟨-, rfl⟩ <;> exact nomatch hresult
    | provenance hphase => exact nomatch hresult
    | evidence hphase =>
        obtain rfl := Phase.commit.inj hresult
        exact nomatch hcreated
    | done hphase => exact h.answer result hresult hcreated

-- The pair that a call commits to a store with none is the one of its anchor.
theorem Wrote.single {committed own : Tables Timestamp Jsonb} {sent : Parameters}
    {provenance : Provenance Timestamp} {evidence : Evidence Timestamp Jsonb}
    (h : Wrote server maxStrDigits sent provenance evidence)
    (hprovenance : own.provenance = [provenance]) (hevidence : own.evidence = [evidence])
    (hnone : committed.provenance.filter (fun row => row.method = sent.idempotencyMethod) = [])
    (hreferences : ∀ row ∈ committed.evidence, row.provenanceId ≠ provenance.provenanceId) :
    Single (committed.append own) sent.idempotencyMethod provenance evidence where
  origin := by
    simp only [Tables.append, List.filter_append, hnone, hprovenance, List.nil_append,
      List.filter_singleton, (provenanceRow_eq_ok h.origin).2, decide_true, cond_true]
  observation := by
    have hold : committed.evidence.filter
        (fun row => row.provenanceId = provenance.provenanceId) = [] :=
      List.filter_eq_nil_iff.mpr fun row hrow => by
        simpa only [decide_eq_true_eq] using hreferences row hrow
    simp only [Tables.append, List.filter_append, hold, hevidence, List.nil_append,
      List.filter_singleton, (evidenceRow_eq_ok h.observation).1, decide_true, cond_true]

theorem step_commit {world : World T Timestamp Jsonb} {call : T}
    {transaction : Transaction Timestamp Jsonb} {result : WriteResult}
    (hrunning : world.calls call = .running transaction)
    (hphase : transaction.phase = .commit result) :
    (step server maxStrDigits str world (.commit call)).2 =
      { world.set call (.returned result) with
        committed := world.committed.append transaction.own } := by
  obtain ⟨sent, phase, own⟩ := transaction
  obtain rfl : phase = .commit result := hphase
  simp only [step, hrunning]

theorem names_createdResult (sent : Parameters) (provenance : Provenance Timestamp)
    (evidence : Evidence Timestamp Jsonb) :
    Names (createdResult sent provenance evidence) provenance evidence := by
  simp only [Names, createdResult, and_self]

theorem Fits.append {committed own : Tables Timestamp Jsonb}
    {holder : Transaction Timestamp Jsonb}
    (h : Fits server maxStrDigits key committed holder)
    (hnone : committed.provenance.filter (fun row => row.method = idempotencyMethod key) = [])
    (hapart : ∀ row ∈ holder.own.provenance, ∀ row' ∈ own.provenance,
      row'.provenanceId ≠ row.provenanceId) :
    Fits server maxStrDigits key (committed.append own) holder where
  progress := h.progress
  anchor := h.anchor
  accepted := h.accepted
  fresh row hrow other hother := by
    rcases List.mem_append.mp hother with hold | hnew
    · exact h.fresh row hrow other hold
    · exact hapart row hrow other hnew
  answer result hresult hcreated := by
    obtain ⟨provenance, evidence, hsingle, -⟩ := h.answer result hresult hcreated
    exact nomatch hnone.symm.trans hsingle.origin

-- The first pair of the key that is committed is the only one.
theorem Inv.commit_created {world : World T Timestamp Jsonb}
    (h : Inv server maxStrDigits key world) {call : T} {transaction : Transaction Timestamp Jsonb}
    {provenance : Provenance Timestamp} {evidence : Evidence Timestamp Jsonb}
    (hrunning : world.calls call = .running transaction)
    (haccepted : server.accepts (idempotencyMethod key) = true)
    (hwrote : Wrote server maxStrDigits transaction.parameters provenance evidence)
    (hprovenance : transaction.own.provenance = [provenance])
    (hevidence : transaction.own.evidence = [evidence])
    (hnone : world.committed.provenance.filter
      (fun row => row.method = idempotencyMethod key) = []) :
    Inv server maxStrDigits key
      { world.set call (.returned (createdResult transaction.parameters provenance evidence)) with
        committed := world.committed.append transaction.own } := by
  have hfits := h.fits call transaction hrunning
  have hmem : provenance ∈ transaction.own.provenance := by
    rw [hprovenance]
    exact List.mem_singleton_self provenance
  have hsingle : Single (world.committed.append transaction.own) (idempotencyMethod key)
      provenance evidence := by
    rw [← hfits.anchor] at hnone ⊢
    refine hwrote.single hprovenance hevidence hnone fun row hrow heq => ?_
    obtain ⟨origin, horigin, hid⟩ := h.references row hrow
    exact hfits.fresh provenance hmem origin horigin (hid.trans heq)
  refine
    { fits := fun other holder hholder => ?_
      apart := fun first one second two hone htwo => ?_
      references := fun row hrow => ?_
      settled := Or.inr ⟨provenance, evidence, hsingle⟩
      returned := fun other answered hanswered => ⟨haccepted, ?_⟩ }
  · replace hholder : (world.set call _).calls other = _ := hholder
    rw [World.calls_set] at hholder
    split at hholder
    · exact nomatch hholder
    · rename_i hother
      exact (h.fits other holder hholder).append hnone
        (h.apart other holder call transaction hholder hrunning (Ne.symm hother))
  · replace hone : (world.set call _).calls first = _ := hone
    replace htwo : (world.set call _).calls second = _ := htwo
    rw [World.calls_set] at hone htwo
    split at hone
    · exact nomatch hone
    split at htwo
    · exact nomatch htwo
    exact h.apart first one second two hone htwo
  · rcases List.mem_append.mp hrow with hold | hnew
    · obtain ⟨origin, horigin, hid⟩ := h.references row hold
      exact ⟨origin, List.mem_append_left _ horigin, hid⟩
    · rw [hevidence, List.mem_singleton] at hnew
      rw [hnew, (evidenceRow_eq_ok hwrote.observation).1]
      exact ⟨provenance, List.mem_append_right _ hmem, rfl⟩
  · replace hanswered : (world.set call _).calls other = _ := hanswered
    rw [World.calls_set] at hanswered
    split at hanswered
    · obtain rfl := Status.returned.inj hanswered
      exact ⟨provenance, evidence, hsingle, names_createdResult _ provenance evidence⟩
    · obtain ⟨-, origin, observation, hbefore, -⟩ := h.returned other answered hanswered
      exact nomatch hnone.symm.trans hbefore.origin

theorem Inv.commit {world : World T Timestamp Jsonb} (h : Inv server maxStrDigits key world)
    {call : T} {transaction : Transaction Timestamp Jsonb} {result : WriteResult}
    (hrunning : world.calls call = .running transaction)
    (hphase : transaction.phase = .commit result)
    (hguard : result.created = true →
      world.committed.provenance.filter (fun row => row.method = idempotencyMethod key) = []) :
    Inv server maxStrDigits key
      { world.set call (.returned result) with
        committed := world.committed.append transaction.own } := by
  have hfits := h.fits call transaction hrunning
  have haccepted : server.accepts (idempotencyMethod key) = true :=
    hfits.accepted fun hfirst => nomatch hphase.symm.trans hfirst
  have hprogress := hfits.progress
  rw [Progress, hphase] at hprogress
  rcases hprogress with ⟨hcreated, hown⟩ | ⟨provenance, evidence, hwrote, hprovenance, hevidence, rfl⟩
  · rw [hown, Tables.append_empty]
    refine h.set call (.returned result) (fun _ hrun => nomatch hrun) (fun _ hrun => nomatch hrun) ?_
    intro other hother
    obtain rfl := Status.returned.inj hother
    exact ⟨haccepted, hfits.answer result hphase hcreated⟩
  · exact h.commit_created hrunning haccepted hwrote hprovenance hevidence (hguard rfl)

theorem Inv.step {world : World T Timestamp Jsonb} (h : Inv server maxStrDigits key world)
    {input : Input T} (hinput : Admissible str key world input)
    (hguard : Guarded key world (input, ())) :
    Inv server maxStrDigits key (step server maxStrDigits str world input).2 := by
  cases input with
  | «begin» call envelope =>
      obtain ⟨-, hkey⟩ := hinput
      simp only [EvidenceWriter.step]
      split
      · rename_i sent hsent
        refine h.set call _ (fun transaction hrunning => ?_) (fun transaction hrunning => ?_)
          fun _ hreturned => nomatch hreturned
        · obtain rfl := Status.running.inj hrunning
          exact
            { progress := progress_begin sent
              anchor := hkey ▸ parameters_eq_ok hsent
              accepted := fun hphase => absurd rfl hphase
              fresh := fun row hrow => nomatch hrow
              answer := fun result hresult => nomatch hresult }
        · obtain rfl := Status.running.inj hrunning
          exact fun _ _ _ _ row hrow => nomatch hrow
      · exact h.set_raised call _
  | statement call generated =>
      obtain ⟨transaction, hrunning, -, -, hunused, hothers⟩ := hinput
      have hfits := h.fits call transaction hrunning
      simp only [EvidenceWriter.step, hrunning]
      split
      · rename_i next hnext
        have hstatement := statement_of_execute hnext
        refine h.set call _ (fun taken htaken => ?_) (fun taken htaken => ?_)
          fun _ hreturned => nomatch hreturned
        · obtain rfl := Status.running.inj htaken
          exact hfits.statement h.settled hunused hstatement
        · obtain rfl := Status.running.inj htaken
          intro other holder hholder hne row hrow row' hrow'
          rcases hstatement.generated_of_mem hrow with hold | hgenerated
          · exact h.apart call transaction other holder hrunning hholder hne row hold row' hrow'
          · rw [hgenerated]
            exact (hothers other holder hholder).1 row' hrow'
      · exact h.set_raised call _
  | commit call =>
      obtain ⟨transaction, result, hrunning, hphase⟩ := hinput
      rw [step_commit hrunning hphase]
      exact h.commit hrunning hphase (hguard call transaction result rfl hrunning hphase)
  | abort call =>
      obtain ⟨transaction, hrunning⟩ := hinput
      simp only [EvidenceWriter.step, hrunning]
      exact h.set_raised call _

theorem inv_of_run {start world : World T Timestamp Jsonb} {trace : List (Input T × Unit)}
    (hrun : Run (step server maxStrDigits str) (Admissible str key) start trace world)
    (hstart : Start key start)
    (hguarded : Run.Each (Guarded key) (step server maxStrDigits str) (Admissible str key) start
      trace) :
    Inv server maxStrDigits key world := by
  induction hrun with
  | nil => exact hstart.inv
  | snoc input hrun hinput ih =>
      obtain ⟨hbefore, hlast⟩ := (Run.each_snoc hrun _).mp hguarded
      exact (ih hbefore).step hinput hlast

omit [DecidableEq T] in
theorem Inv.converged {world : World T Timestamp Jsonb} (h : Inv server maxStrDigits key world) :
    Converged server maxStrDigits key world where
  returned call result hreturned := by
    obtain ⟨haccepted, provenance, evidence, hsingle, hnames⟩ := h.returned call result hreturned
    refine ⟨provenance, evidence, hsingle, hnames, fun later generated hlater => ?_⟩
    have hfound : findExisting server (world.committed.append Tables.empty)
        later.idempotencyMethod = .ok (some (foundResult evidence)) := by
      rw [Tables.append_empty, hlater, findExisting_eq_ok_iff]
      exact ⟨haccepted, Or.inr ⟨evidence, joined_of_single hsingle, rfl⟩⟩
    refine ⟨foundResult evidence, ?_, hsingle.names⟩
    simp only [execute, EvidenceWriter.begin, hfound, bind, Except.bind]
  lookup hraised := by
    by_cases haccepts : server.accepts (idempotencyMethod key) = true
    · rcases h.settled with hnone | ⟨provenance, evidence, hsingle⟩
      · have hmissed := findExisting_eq_ok_iff.mpr
          ⟨haccepts, Or.inl ⟨joined_of_none hnone, rfl⟩⟩
        cases hraised.symm.trans hmissed
      · have hfound := findExisting_eq_ok_iff.mpr
          ⟨haccepts, Or.inr ⟨evidence, joined_of_single hsingle, rfl⟩⟩
        cases hraised.symm.trans hfound
    · cases hraised.symm.trans (findExisting_of_not_accepts haccepts)

variable (server maxStrDigits key) in
-- What holds of the open transactions in every run.
def Sound (world : World T Timestamp Jsonb) : Prop :=
  ∀ call transaction, world.calls call = .running transaction →
    Progress server maxStrDigits transaction ∧
      transaction.parameters.idempotencyMethod = idempotencyMethod key

theorem Sound.set {world : World T Timestamp Jsonb} (h : Sound server maxStrDigits key world)
    (committed : Tables Timestamp Jsonb) (call : T) {status : Status Timestamp Jsonb}
    (hstatus : ∀ transaction, status = .running transaction →
      Progress server maxStrDigits transaction ∧
        transaction.parameters.idempotencyMethod = idempotencyMethod key) :
    Sound server maxStrDigits key { world.set call status with committed } := by
  intro other holder hholder
  replace hholder : (world.set call status).calls other = _ := hholder
  rw [World.calls_set] at hholder
  split at hholder
  · exact hstatus holder hholder
  · exact h other holder hholder

theorem Sound.step {world : World T Timestamp Jsonb} (h : Sound server maxStrDigits key world)
    {input : Input T} (hinput : Admissible str key world input) :
    Sound server maxStrDigits key (step server maxStrDigits str world input).2 := by
  cases input with
  | «begin» call envelope =>
      simp only [EvidenceWriter.step]
      split
      · rename_i sent hsent
        refine h.set world.committed call fun transaction hrunning => ?_
        obtain rfl := Status.running.inj hrunning
        exact ⟨progress_begin sent, hinput.2 ▸ parameters_eq_ok hsent⟩
      · exact h.set world.committed call fun _ hrunning => nomatch hrunning
  | statement call generated =>
      obtain ⟨transaction, hrunning, -⟩ := hinput
      obtain ⟨hprogress, hanchor⟩ := h call transaction hrunning
      simp only [EvidenceWriter.step, hrunning]
      split
      · rename_i next hnext
        have hstatement := statement_of_execute hnext
        refine h.set world.committed call fun taken htaken => ?_
        obtain rfl := Status.running.inj htaken
        exact ⟨hstatement.progress hprogress, hstatement.parameters_eq ▸ hanchor⟩
      · exact h.set world.committed call fun _ hrunning => nomatch hrunning
  | commit call =>
      obtain ⟨transaction, result, hrunning, hphase⟩ := hinput
      rw [step_commit hrunning hphase]
      exact h.set _ call fun _ hrunning => nomatch hrunning
  | abort call =>
      obtain ⟨transaction, hrunning⟩ := hinput
      simp only [EvidenceWriter.step, hrunning]
      exact h.set world.committed call fun _ hrunning => nomatch hrunning

-- A second pair leaves no answer for the call that commits it.
theorem guarded_of_converged {world : World T Timestamp Jsonb}
    (h : Sound server maxStrDigits key world) {input : Input T}
    (hconverged : Converged server maxStrDigits key (step server maxStrDigits str world input).2) :
    Guarded key world (input, ()) := by
  rintro call transaction result rfl hrunning hphase hcreated
  obtain ⟨hprogress, hanchor⟩ := h call transaction hrunning
  rw [Progress, hphase] at hprogress
  rw [step_commit hrunning hphase] at hconverged
  have hreturned : (world.set call (.returned result)).calls call = .returned result := by
    rw [World.calls_set, if_pos rfl]
  obtain ⟨origin, observation, hsingle, -⟩ := hconverged.returned call result hreturned
  have horigin := hsingle.origin
  rcases hprogress with ⟨hfound, -⟩ | ⟨provenance, evidence, hwrote, hprovenance, -⟩
  · cases hfound.symm.trans hcreated
  simp only [Tables.append, List.filter_append, hprovenance, List.filter_singleton,
    (provenanceRow_eq_ok hwrote.origin).2, hanchor, decide_true, cond_true] at horigin
  rcases List.append_eq_singleton_iff.mp horigin with ⟨hnone, -⟩ | ⟨-, hsecond⟩
  · exact hnone
  · cases hsecond

end Invariant

section Runs

variable {T Timestamp Jsonb : Type} [DecidableEq T] (server : Server Timestamp Jsonb)
  (maxStrDigits : ℕ) (str : Value → Text) (key : Text)

-- The writers of one key converge in just the runs in which no call that found nothing
-- commits its pair after another one has.
theorem converges_iff_guarded {start world : World T Timestamp Jsonb}
    {trace : List (Input T × Unit)} (hstart : Start key start)
    (hrun : Run (step server maxStrDigits str) (Admissible str key) start trace world) :
    (∀ past later state, trace = past ++ later →
      Run (step server maxStrDigits str) (Admissible str key) start past state →
        Converged server maxStrDigits key state) ↔
      Run.Each (Guarded key) (step server maxStrDigits str) (Admissible str key) start trace := by
  constructor
  · rintro hconverged past ⟨input, ⟨⟩⟩ later state htrace hpast
    obtain ⟨before, hbefore, hinput, -, -⟩ := hrun.exists_step past (input, ()) later htrace
    obtain rfl := hbefore.unique hpast
    have hsound : Sound server maxStrDigits key before := by
      refine hpast.invariant (fun _ _ hsound hinput => hsound.step hinput) ?_
      intro call transaction hrunning
      rw [hstart.idle] at hrunning
      exact nomatch hrunning
    refine guarded_of_converged hsound (hconverged _ later _ ?_ (hpast.snoc input hinput))
    rw [htrace, List.append_assoc, List.singleton_append]
  · intro hguarded past later state htrace hpast
    refine (inv_of_run hpast hstart ?_).converged
    rintro earlier entry rest middle rfl hmiddle
    exact hguarded earlier entry (rest ++ later) middle (by rw [htrace]; simp) hmiddle

variable {server maxStrDigits str key}

-- Only a commit has to be guarded.
theorem each_guarded_snoc {start world : World T Timestamp Jsonb} {trace : List (Input T × Unit)}
    (hrun : Run (step server maxStrDigits str) (Admissible str key) start trace world)
    {input : Input T} (hinput : ∀ call, input ≠ .commit call)
    (heach : Run.Each (Guarded key) (step server maxStrDigits str) (Admissible str key) start trace) :
    Run.Each (Guarded key) (step server maxStrDigits str) (Admissible str key) start
      (trace ++ [(input, ())]) :=
  (Run.each_snoc hrun (input, ())).mpr ⟨heach, fun call _ _ hcommit => absurd hcommit (hinput call)⟩

theorem run_begin {start world : World T Timestamp Jsonb} {trace : List (Input T × Unit)}
    (hrun : Run (step server maxStrDigits str) (Admissible str key) start trace world) (call : T)
    {envelope : EventEnvelope} {sent : Parameters} (hidle : world.calls call = .idle)
    (hkey : str envelope.idempotencyKey = key) (hsent : parameters str envelope = .ok sent) :
    ∃ longer, Run (step server maxStrDigits str) (Admissible str key) start longer
        (world.set call (.running (begin sent))) ∧
      (Run.Each (Guarded key) (step server maxStrDigits str) (Admissible str key) start trace →
        Run.Each (Guarded key) (step server maxStrDigits str) (Admissible str key) start longer) := by
  have hsnoc := hrun.snoc (.begin call envelope) (by exact ⟨hidle, hkey⟩)
  simp only [step, hsent] at hsnoc
  exact ⟨_, hsnoc, each_guarded_snoc hrun (by simp)⟩

theorem run_statement {start world : World T Timestamp Jsonb} {trace : List (Input T × Unit)}
    (hrun : Run (step server maxStrDigits str) (Admissible str key) start trace world) (call : T)
    {generated : Uuid} {transaction next : Transaction Timestamp Jsonb}
    (hrunning : world.calls call = .running transaction)
    (hphase : ∀ result, transaction.phase ≠ .commit result)
    (hdomain : transaction.phase ≠ .insertDomain)
    (hunused : Unused world.committed generated) (hown : Unused transaction.own generated)
    (hquiet : ∀ other holder, other ≠ call → world.calls other = .running holder →
      holder.own = Tables.empty)
    (hnext : execute server maxStrDigits world.committed transaction generated = .ok next) :
    ∃ longer, Run (step server maxStrDigits str) (Admissible str key) start longer
        (world.set call (.running next)) ∧
      (Run.Each (Guarded key) (step server maxStrDigits str) (Admissible str key) start trace →
        Run.Each (Guarded key) (step server maxStrDigits str) (Admissible str key) start longer) := by
  have hadmissible : Admissible str key world (.statement call generated) := by
    refine ⟨transaction, hrunning, hphase, fun hblocked => hdomain hblocked.1, hunused, ?_⟩
    intro other holder hholder
    by_cases hother : other = call
    · rw [hother, hrunning] at hholder
      rwa [← Status.running.inj hholder]
    · rw [hquiet other holder hother hholder]
      exact unused_empty generated
  have hsnoc := hrun.snoc (.statement call generated) hadmissible
  simp only [step, hrunning, hnext] at hsnoc
  exact ⟨_, hsnoc, each_guarded_snoc hrun (by simp)⟩

-- A call that found nothing commits its pair, given that no other one has written yet.
theorem run_pair {start world : World T Timestamp Jsonb} {trace : List (Input T × Unit)}
    (hrun : Run (step server maxStrDigits str) (Admissible str key) start trace world) (call : T)
    {sent : Parameters} (hrunning : world.calls call =
      .running { parameters := sent, phase := .selectDomain, own := Tables.empty })
    (hquiet : ∀ other holder, other ≠ call → world.calls other = .running holder →
      holder.own = Tables.empty)
    {provenance : Provenance Timestamp} {evidence : Evidence Timestamp Jsonb}
    (hwrote : Wrote server maxStrDigits sent provenance evidence)
    (hdomain : ∃ row ∈ world.committed.domain, row.domainId = evidence.domainId)
    (hdistinct : provenance.provenanceId ≠ evidence.evidenceId)
    (hprovenance : Unused world.committed provenance.provenanceId)
    (hevidence : Unused world.committed evidence.evidenceId) :
    ∃ longer last, Run (step server maxStrDigits str) (Admissible str key) start longer last ∧
      last.committed = world.committed.append
        { domain := [], provenance := [provenance], evidence := [evidence] } ∧
      last.calls = Function.update world.calls call
        (.returned (createdResult sent provenance evidence)) ∧
      (Run.Each (Guarded key) (step server maxStrDigits str) (Admissible str key) start trace →
        world.committed.provenance.filter (fun row => row.method = idempotencyMethod key) = [] →
        Run.Each (Guarded key) (step server maxStrDigits str) (Admissible str key) start longer) := by
  have hself : ∀ (before : World T Timestamp Jsonb) status,
      (before.set call status).calls call = status := by
    intro before status
    rw [World.calls_set, if_pos rfl]
  have hstill : ∀ (before : World T Timestamp Jsonb) status,
      (∀ other holder, other ≠ call → before.calls other = .running holder →
        holder.own = Tables.empty) →
      ∀ other holder, other ≠ call → (before.set call status).calls other = .running holder →
        holder.own = Tables.empty := by
    intro before status hbefore other holder hne hholder
    rw [World.calls_set, if_neg hne] at hholder
    exact hbefore other holder hne hholder
  obtain ⟨-, -, hdomainId⟩ := evidenceRow_eq_ok hwrote.observation
  obtain ⟨_, hselected, hone⟩ := run_statement hrun call hrunning (fun _ h => nomatch h)
    (fun h => nomatch h) hprovenance (unused_empty _) hquiet (execute_selectDomain hdomainId hdomain)
  obtain ⟨_, hinserted, htwo⟩ := run_statement hselected call (hself _ _) (fun _ h => nomatch h)
    (fun h => nomatch h) hprovenance (unused_empty _) (hstill _ _ hquiet)
    (execute_insertProvenance hwrote hprovenance.1)
  have hown : Unused (⟨[], [provenance], []⟩ : Tables Timestamp Jsonb) evidence.evidenceId :=
    ⟨fun row hrow => List.mem_singleton.mp hrow ▸ hdistinct, fun _ hrow => (nomatch hrow)⟩
  obtain ⟨_, hpaired, hthree⟩ := run_statement hinserted call (hself _ _) (fun _ h => nomatch h)
    (fun h => nomatch h) hevidence hown (hstill _ _ (hstill _ _ hquiet))
    (execute_insertEvidence hwrote hdomain hevidence.2)
  have hcommitted := hpaired.snoc (.commit call) (by exact ⟨_, _, hself _ _, rfl⟩)
  rw [step_commit (hself _ _) rfl] at hcommitted
  refine ⟨_, _, hcommitted, rfl, ?_, fun heach hnone => ?_⟩
  · simp only [World.set, Function.update_idem]
  · exact (Run.each_snoc hpaired _).mpr ⟨hthree (htwo (hone heach)), fun _ _ _ _ _ _ _ => hnone⟩

end Runs

def observedDomain : Tables Text Json.Tree where
  domain :=
    [{ domainId := sampleId
       normalisedUrl := points "01234567-89ab-cdef-0123-456789abcdef.smoke.trustlist.test"
       currentStatus := .underReview }]
  provenance := []
  evidence := []

def idleWorld : World Bool Text Json.Tree where
  committed := observedDomain
  calls := fun _ => .idle

theorem start_idleWorld : Start (points "key") idleWorld where
  idle := fun _ => rfl
  references := fun _ hrow => nomatch hrow
  clean := Or.inl rfl

theorem unused_observedDomain (generated : Uuid) : Unused observedDomain generated :=
  ⟨fun _ hrow => (nomatch hrow), fun _ hrow => (nomatch hrow)⟩

def missed : Transaction Text Json.Tree :=
  { begin signalParameters with phase := .selectDomain }

theorem execute_missed :
    execute sampleServer 4300 observedDomain (begin signalParameters) ⟨1⟩ = .ok missed := by
  rfl

-- Both calls look the key up before either of them commits.
theorem run_both : ∃ trace world,
    Run (step sampleServer 4300 strOf) (Admissible strOf (points "key")) idleWorld trace world ∧
      world.committed = observedDomain.append
        { domain := []
          provenance := [signalProvenance ⟨1⟩, signalProvenance ⟨3⟩]
          evidence := [signalEvidence ⟨1⟩ ⟨2⟩, signalEvidence ⟨3⟩ ⟨4⟩] } := by
  have hstart : Run (step sampleServer 4300 strOf) (Admissible strOf (points "key")) idleWorld []
    idleWorld := .nil
  obtain ⟨_, hfirst, -⟩ := run_begin hstart true rfl rfl parameters_signal
  obtain ⟨_, hsecond, -⟩ := run_begin hfirst false rfl rfl parameters_signal
  have hquiet : ∀ (world : World Bool Text Json.Tree) call,
      (∀ other, ∃ phase, world.calls other =
        .running { parameters := signalParameters, phase, own := Tables.empty }) →
      ∀ other holder, other ≠ call → world.calls other = .running holder →
        holder.own = Tables.empty := by
    intro world call hworld other holder _ hholder
    obtain ⟨phase, hother⟩ := hworld other
    rw [hother] at hholder
    rw [← Status.running.inj hholder]
  obtain ⟨_, hone, -⟩ := run_statement hsecond true rfl (fun _ h => nomatch h)
    (fun h => nomatch h) (unused_observedDomain ⟨1⟩) (unused_empty _)
    (hquiet _ _ (Bool.forall_bool.mpr ⟨⟨_, rfl⟩, ⟨_, rfl⟩⟩)) execute_missed
  obtain ⟨_, htwo, -⟩ := run_statement hone false rfl (fun _ h => nomatch h)
    (fun h => nomatch h) (unused_observedDomain ⟨1⟩) (unused_empty _)
    (hquiet _ _ (Bool.forall_bool.mpr ⟨⟨_, rfl⟩, ⟨_, rfl⟩⟩)) execute_missed
  have hreferred : ∃ row ∈ observedDomain.domain, row.domainId = sampleId :=
    ⟨_, List.mem_singleton_self _, rfl⟩
  obtain ⟨_, middle, hpaired, hmiddle, hcalls, -⟩ := run_pair htwo true rfl
    (hquiet _ _ (Bool.forall_bool.mpr ⟨⟨_, rfl⟩, ⟨_, rfl⟩⟩)) (wrote_signal ⟨1⟩ ⟨2⟩) hreferred
    (by decide) (unused_observedDomain ⟨1⟩) (unused_observedDomain ⟨2⟩)
  have hfalse : middle.calls false = .running missed := by
    rw [hcalls]
    rfl
  have hlast : ∀ other holder, other ≠ false → middle.calls other = .running holder →
      holder.own = Tables.empty := by
    intro other holder hother hholder
    rw [Bool.eq_true_of_not_eq_false hother, hcalls] at hholder
    exact nomatch hholder
  have hunused : ∀ generated : Uuid, generated ≠ ⟨1⟩ → generated ≠ ⟨2⟩ →
      Unused middle.committed generated := by
    intro generated hone htwo
    rw [hmiddle]
    exact ⟨fun row hrow => List.mem_singleton.mp hrow ▸ hone.symm,
      fun row hrow => List.mem_singleton.mp hrow ▸ htwo.symm⟩
  obtain ⟨_, last, hboth, hcommitted, -, -⟩ := run_pair hpaired false hfalse hlast (wrote_signal ⟨3⟩ ⟨4⟩)
    (by rw [hmiddle]; exact hreferred) (by decide) (hunused ⟨3⟩ (by decide) (by decide))
    (hunused ⟨4⟩ (by decide) (by decide))
  refine ⟨_, last, hboth, ?_⟩
  rw [hcommitted, hmiddle]
  rfl

theorem findExisting_both {world : World Bool Text Json.Tree}
    (h : world.committed = observedDomain.append
      { domain := []
        provenance := [signalProvenance ⟨1⟩, signalProvenance ⟨3⟩]
        evidence := [signalEvidence ⟨1⟩ ⟨2⟩, signalEvidence ⟨3⟩ ⟨4⟩] }) :
    findExisting sampleServer world.committed (idempotencyMethod (points "key")) =
      .error .multipleResultsFound := by
  rw [h]
  rfl

-- Two calls that both find nothing leave two pairs, and no later call can look the key up.
theorem writers_diverge : Start (points "key") idleWorld ∧ ∃ trace world,
    Run (step sampleServer 4300 strOf) (Admissible strOf (points "key")) idleWorld trace world ∧
    world.committed.provenance = [signalProvenance ⟨1⟩, signalProvenance ⟨3⟩] ∧
    findExisting sampleServer world.committed (idempotencyMethod (points "key")) =
      .error .multipleResultsFound ∧
    ¬ Converged sampleServer 4300 (points "key") world := by
  obtain ⟨trace, world, hrun, hcommitted⟩ := run_both
  have hraised := findExisting_both hcommitted
  refine ⟨start_idleWorld, trace, world, hrun, ?_, hraised,
    fun hconverged => hconverged.lookup hraised⟩
  rw [hcommitted]
  rfl

-- A call that begins after the other one has committed finds the pair.
theorem run_in_turn : ∃ trace world,
    Run (step sampleServer 4300 strOf) (Admissible strOf (points "key")) idleWorld trace world ∧
      world.calls false = .returned (foundResult (signalEvidence ⟨1⟩ ⟨2⟩)) ∧
      Run.Each (Guarded (points "key")) (step sampleServer 4300 strOf)
        (Admissible strOf (points "key")) idleWorld trace := by
  have hstart : Run (step sampleServer 4300 strOf) (Admissible strOf (points "key")) idleWorld []
    idleWorld := .nil
  obtain ⟨_, hfirst, hbegan⟩ := run_begin hstart true rfl rfl parameters_signal
  have hquiet : ∀ (world : World Bool Text Json.Tree), world.calls false = .idle →
      ∀ other holder, other ≠ true → world.calls other = .running holder →
        holder.own = Tables.empty := by
    intro world hidle other holder hother hholder
    rw [Bool.eq_false_of_not_eq_true hother, hidle] at hholder
    cases hholder
  obtain ⟨_, hmissed, hlooked⟩ := run_statement hfirst true rfl (fun _ h => nomatch h)
    (fun h => nomatch h) (unused_observedDomain ⟨1⟩) (unused_empty _) (hquiet _ rfl) execute_missed
  obtain ⟨_, middle, hpaired, hmiddle, hcalls, hwrote⟩ := run_pair hmissed true rfl (hquiet _ rfl)
    (wrote_signal ⟨1⟩ ⟨2⟩) ⟨_, List.mem_singleton_self _, rfl⟩ (by decide)
    (unused_observedDomain ⟨1⟩) (unused_observedDomain ⟨2⟩)
  have hidle : middle.calls false = .idle := by
    rw [hcalls]
    rfl
  obtain ⟨_, hsecond, hagain⟩ := run_begin hpaired false hidle rfl parameters_signal
  have hreturned : ∀ other holder, other ≠ false →
      (middle.set false (.running (begin signalParameters))).calls other = .running holder →
        holder.own = Tables.empty := by
    intro other holder hother hholder
    rw [World.calls_set, if_neg hother, Bool.eq_true_of_not_eq_false hother, hcalls] at hholder
    cases hholder
  have hunused : Unused middle.committed ⟨3⟩ := by
    rw [hmiddle]
    exact ⟨fun row hrow => List.mem_singleton.mp hrow ▸ (by decide),
      fun row hrow => List.mem_singleton.mp hrow ▸ (by decide)⟩
  have hexecute : execute sampleServer 4300 middle.committed (begin signalParameters) ⟨3⟩ =
      .ok { begin signalParameters with phase := .commit (foundResult (signalEvidence ⟨1⟩ ⟨2⟩)) } := by
    rw [hmiddle]
    rfl
  have hrunning : (middle.set false (.running (begin signalParameters))).calls false =
      .running (begin signalParameters) := by
    rw [World.calls_set, if_pos rfl]
  obtain ⟨_, hfound, hsaw⟩ := run_statement hsecond false hrunning (fun _ h => nomatch h)
    (fun h => nomatch h) hunused (unused_empty _) hreturned hexecute
  have hlast := hfound.snoc (.commit false) (by exact ⟨_, _, by rw [World.calls_set, if_pos rfl], rfl⟩)
  refine ⟨_, _, hlast, ?_, (Run.each_snoc hfound _).mpr ⟨?_, ?_⟩⟩
  · rw [step_commit (by rw [World.calls_set, if_pos rfl]) rfl]
    simp only [World.calls_set, if_true]
  · exact hsaw (hagain (hwrote (hlooked (hbegan (Run.each_nil _ _))) rfl))
  · rintro call transaction result hcall hcommitting hphase hcreated
    obtain rfl := Input.commit.inj hcall
    rw [World.calls_set, if_pos rfl] at hcommitting
    obtain rfl := Status.running.inj hcommitting
    obtain rfl := Phase.commit.inj hphase
    cases hcreated

-- Both calls return the one pair.
theorem converges_iff_guarded_in_turn : ∃ trace world,
    Run (step sampleServer 4300 strOf) (Admissible strOf (points "key")) idleWorld trace world ∧
    world.calls false = .returned (foundResult (signalEvidence ⟨1⟩ ⟨2⟩)) ∧
    ∀ past later state, trace = past ++ later →
      Run (step sampleServer 4300 strOf) (Admissible strOf (points "key")) idleWorld past state →
        Converged sampleServer 4300 (points "key") state := by
  obtain ⟨trace, world, hrun, hreturned, hguarded⟩ := run_in_turn
  exact ⟨trace, world, hrun, hreturned, (converges_iff_guarded sampleServer 4300 strOf (points "key")
    start_idleWorld hrun).mpr hguarded⟩

end TrustlistCore.EvidenceWriter
