import TrustlistCore.Auth.AuditMirror
import TrustlistCore.Library.Lockstep

namespace TrustlistCore.Auth

open Library

variable {Salt Hash Uuid : Type} [DecidableEq Uuid] {α β : Type}

-- `NullAuditEventSink` in place of the sink.
def Runtime.discarding (rt : Runtime Salt Hash Uuid) : Runtime Salt Hash Uuid :=
  { rt with emit := fun _ _ => none }

namespace AuthService

-- Equal but for what the sinks have been handed.
def Alike (state other : ServiceState Hash Uuid) : Prop :=
  state.provider = other.provider ∧ state.audit.database = other.audit.database

-- How a method comes out on a service and on one that discards: together, with the same
-- events handed over, or apart, because the sink raised on the event it was handed.
inductive Parted (emit : List AuditEvent → AuditEvent → Option Failure)
    (state other : ServiceState Hash Uuid) (result result' : Except Failure α × ServiceState Hash Uuid) :
    Prop
  | silent (hanswer : result.1 = result'.1) (halike : Alike result.2 result'.2)
      (hmirrored : result'.2.audit.mirrored = other.audit.mirrored)
      (hquiet : result.2.audit.mirrored = state.audit.mirrored)
  | taken (row : AuditEvent) (hemit : emit state.audit.mirrored row = none)
      (hanswer : result.1 = result'.1) (halike : Alike result.2 result'.2)
      (hmirrored : result'.2.audit.mirrored = other.audit.mirrored ++ [row])
  | refused (row : AuditEvent) (failure : Failure)
      (hemit : emit state.audit.mirrored row = some failure)
      (hanswer : result.1 = .error failure) (halike : Alike result.2 result'.2)
      (hmirrored : result'.2.audit.mirrored = other.audit.mirrored ++ [row])

-- A method that neither looks at what has been handed over nor hands over anything.
def Blind (method : ServiceMethod Hash Uuid α) : Prop :=
  ∀ state other, Alike state other →
    (outcome method state).1 = (outcome method other).1 ∧
      Alike (outcome method state).2 (outcome method other).2 ∧
      (outcome method state).2.audit.mirrored = state.audit.mirrored

def Parts (emit : List AuditEvent → AuditEvent → Option Failure)
    (method method' : ServiceMethod Hash Uuid α) : Prop :=
  ∀ state other, Alike state other →
    Parted emit state other (outcome method state) (outcome method' other)

section Compose

variable {emit : List AuditEvent → AuditEvent → Option Failure}

theorem alike_refl (state : ServiceState Hash Uuid) : Alike state state :=
  ⟨rfl, rfl⟩

theorem blind_onProvider (method : ProviderMethod Hash α) :
    Blind (onProvider method : ServiceMethod Hash Uuid α) := by
  rintro state other ⟨hprovider, hdatabase⟩
  simp only [onProvider, outcome_zoom, hprovider]
  exact ⟨trivial, ⟨rfl, hdatabase⟩, trivial⟩

theorem blind_onConnection (method : Transaction Uuid α) :
    Blind (onConnection method : ServiceMethod Hash Uuid α) := by
  rintro state other ⟨hprovider, hdatabase⟩
  simp only [onConnection, onAudit, outcome_zoom, hdatabase]
  exact ⟨trivial, ⟨hprovider, rfl⟩, trivial⟩

theorem blind_ofExcept (answer : Except Failure α) :
    Blind (MonadExcept.ofExcept answer : ServiceMethod Hash Uuid α) := by
  intro state other halike
  cases answer <;> exact ⟨rfl, halike, rfl⟩

theorem blind_catching {method : ServiceMethod Hash Uuid α} (h : Blind method) :
    Blind (catching method) := by
  intro state other halike
  obtain ⟨hanswer, hstates, hmirrored⟩ := h state other halike
  simp only [outcome_catching, hanswer]
  exact ⟨trivial, hstates, hmirrored⟩

theorem Blind.parts {method : ServiceMethod Hash Uuid α} (h : Blind method) :
    Parts emit method method := by
  intro state other halike
  obtain ⟨hanswer, hstates, hmirrored⟩ := h state other halike
  exact .silent hanswer hstates (h other other (alike_refl other)).2.2 hmirrored

-- What an answer is turned into, an error into itself.
theorem Parts.answer {method method' : ServiceMethod Hash Uuid α}
    {next next' : ServiceMethod Hash Uuid β} (h : Parts emit method method')
    (f : Except Failure α → Except Failure β)
    (herror : ∀ failure, f (.error failure) = .error failure)
    (hnext : ∀ state, outcome next state = (f (outcome method state).1, (outcome method state).2))
    (hnext' : ∀ state,
      outcome next' state = (f (outcome method' state).1, (outcome method' state).2)) :
    Parts emit next next' := by
  intro state other halike
  simp only [hnext, hnext']
  cases h state other halike with
  | silent hanswer hstates hmirrored hquiet =>
      exact .silent (congrArg f hanswer) hstates hmirrored hquiet
  | taken row hemit hanswer hstates hmirrored =>
      exact .taken row hemit (congrArg f hanswer) hstates hmirrored
  | refused row failure hemit hanswer hstates hmirrored =>
      exact .refused row failure hemit ((congrArg f hanswer).trans (herror failure)) hstates
        hmirrored

theorem Parts.map {method method' : ServiceMethod Hash Uuid α} (h : Parts emit method method')
    (f : α → β) : Parts emit (f <$> method) (f <$> method') :=
  h.answer (Except.map f) (fun _ => rfl) (fun _ => outcome_map ..) fun _ => outcome_map ..

-- What comes before the record is the same for every sink.
theorem Blind.bind {method : ServiceMethod Hash Uuid α} {next next' : α → ServiceMethod Hash Uuid β}
    (h : Blind method) (hnext : ∀ value, Parts emit (next value) (next' value)) :
    Parts emit (method >>= next) (method >>= next') := by
  intro state other halike
  obtain ⟨hanswer, hstates, hmirrored⟩ := h state other halike
  have hother := (h other other (alike_refl other)).2.2
  simp only [outcome_bind, hanswer]
  cases (outcome method other).1 with
  | error failure => exact .silent rfl hstates hother hmirrored
  | ok value =>
      have hparted := hnext value _ _ hstates
      simp only
      cases hparted with
      | silent hanswer hstates hafter hquiet =>
          exact .silent hanswer hstates (hafter.trans hother) (hquiet.trans hmirrored)
      | taken row hemit hanswer hstates hafter =>
          exact .taken row (hmirrored ▸ hemit) hanswer hstates (hother ▸ hafter)
      | refused row failure hemit hanswer hstates hafter =>
          exact .refused row failure (hmirrored ▸ hemit) hanswer hstates (hother ▸ hafter)

-- What follows the record returns or raises, and changes nothing.
theorem Parts.conclude {method method' : ServiceMethod Hash Uuid α}
    {next : α → ServiceMethod Hash Uuid β} (h : Parts emit method method')
    (answer : α → Except Failure β)
    (hnext : ∀ value state, outcome (next value) state = (answer value, state)) :
    Parts emit (method >>= next) (method' >>= next) := by
  have hbind (method : ServiceMethod Hash Uuid α) (state : ServiceState Hash Uuid) :
      outcome (method >>= next) state =
        ((outcome method state).1.bind answer, (outcome method state).2) := by
    rw [outcome_bind]
    cases (outcome method state).1 with
    | error failure => rfl
    | ok value => exact hnext value _
  exact h.answer (Except.bind · answer) (fun _ => rfl) (hbind method) (hbind method')

end Compose

section Perform

variable (rt : Runtime Salt Hash Uuid) (g : Generated Salt)

theorem outcome_record (rt : Runtime Salt Hash Uuid) (eventType : AuthEventType)
    (userId ipAddress userAgent : Option String) (details : List (String × Detail))
    (state : ServiceState Hash Uuid) :
    outcome (record rt g eventType userId ipAddress userAgent details) state =
      let event := AuditTrail.entry g eventType userId ipAddress userAgent details
      match AuditTrail.insertion rt state.audit.database event with
      | .error failure => (.error failure, state)
      | .ok next =>
          let after := { state with
            audit := { database := next, mirrored := state.audit.mirrored ++ [event] } }
          match rt.emit state.audit.mirrored event with
          | none => (.ok (), after)
          | some failure => (.error failure, after) := by
  apply Prod.ext_iff.mpr
  rw [← wp_iff_outcome (Q := fun answer next => answer = _ ∧ next = _)]
  unfold record onAudit
  rw [bind_pure_comp, wp_map, wp_zoom, AuditTrail.wp_record_iff]
  simp only
  cases AuditTrail.insertion rt state.audit.database _ with
  | error failure => exact ⟨rfl, rfl⟩
  | ok next =>
      simp only
      cases rt.emit state.audit.mirrored _ <;> exact ⟨rfl, rfl⟩

theorem parts_record (eventType : AuthEventType) (userId ipAddress userAgent : Option String)
    (details : List (String × Detail)) :
    Parts rt.emit (record rt g eventType userId ipAddress userAgent details)
      (record rt.discarding g eventType userId ipAddress userAgent details) := by
  rintro state other ⟨hprovider, hdatabase⟩
  have hinsertion : ∀ database event, AuditTrail.insertion rt.discarding database event =
      AuditTrail.insertion rt database event := fun _ _ => rfl
  have hdiscard : ∀ mirrored event, rt.discarding.emit mirrored event = none := fun _ _ => rfl
  simp only [outcome_record, hinsertion, hdiscard, hdatabase]
  cases AuditTrail.insertion rt other.audit.database _ with
  | error failure => exact .silent rfl ⟨hprovider, hdatabase⟩ rfl rfl
  | ok next =>
      simp only
      cases hemit : rt.emit state.audit.mirrored _ with
      | none => exact .taken _ hemit rfl ⟨hprovider, rfl⟩ rfl
      | some failure => exact .refused _ failure hemit rfl ⟨hprovider, rfl⟩ rfl

theorem parts_verifyTotp (userId code : String) (ipAddress : Option String) :
    Parts rt.emit (verifyTotp rt g userId code ipAddress)
      (verifyTotp rt.discarding g userId code ipAddress) := by
  apply (blind_onProvider _).bind
  intro verified
  exact (parts_record rt g _ _ _ _ _).conclude (fun _ => .ok verified) fun _ _ => rfl

theorem parts_perform (call : Call) :
    Parts rt.emit (perform rt g call) (perform rt.discarding g call) := by
  cases call with
  | register archetype email password => exact (blind_onProvider _).parts.map _
  | markEmailVerified userId => exact (blind_onProvider _).parts.map _
  | authenticate archetype email password ipAddress userAgent =>
      apply Parts.map
      apply (blind_catching (blind_onProvider _)).bind
      intro answer
      cases answer with
      | error failure =>
          exact (parts_record rt g _ _ _ _ _).conclude (fun _ => .error failure) fun _ _ => rfl
      | ok user => exact (parts_record rt g _ _ _ _ _).conclude (fun _ => .ok user) fun _ _ => rfl
  | changePassword userId newPassword ipAddress =>
      apply Parts.map
      apply (blind_onProvider _).bind
      intro _
      apply (blind_onProvider _).bind
      intro _
      exact parts_record rt g _ _ _ _ _
  | issueSession userId deviceFingerprint => exact (blind_onProvider _).parts.map _
  | getSession sessionId => exact (blind_onProvider _).parts.map _
  | revokeSession sessionId userId ipAddress =>
      apply Parts.map
      apply (blind_onProvider _).bind
      intro _
      exact parts_record rt g _ _ _ _ _
  | enrolTotp userId =>
      apply Parts.map
      apply (blind_onProvider _).bind
      intro enrolment
      exact (parts_record rt g _ _ _ _ _).conclude (fun _ => .ok enrolment) fun _ _ => rfl
  | verifyTotp userId code ipAddress => exact (parts_verifyTotp rt g userId code ipAddress).map _
  | verifyTotpStrict userId code ipAddress =>
      apply Parts.map
      apply (parts_verifyTotp rt g userId code ipAddress).conclude fun verified =>
        if verified then .ok () else .error (.totpVerificationFailed "TOTP code did not verify")
      intro verified state
      cases verified <;> rfl
  | disableAccount userId disabledByUserId =>
      apply Parts.map
      apply (blind_onProvider _).bind
      intro _
      exact parts_record rt g _ _ _ _ _
  | assignRole userId archetype role grantedBy customerId =>
      apply Parts.map
      apply (blind_onConnection _).bind
      intro assignment
      exact (parts_record rt g _ _ _ _ _).conclude (fun _ => .ok assignment) fun _ _ => rfl
  | revokeRole userId role grantedAt revokedBy =>
      apply Parts.map
      apply (blind_onConnection _).bind
      intro revoked
      cases revoked with
      | false => exact Blind.parts fun _ _ halike => ⟨rfl, halike, rfl⟩
      | true =>
          apply (blind_onProvider _).bind
          intro _
          exact (parts_record rt g _ _ _ _ _).conclude (fun _ => .ok true) fun _ _ => rfl
  | rolesFor userId customerId => exact (blind_onConnection _).parts.map _
  | hasPermission userId archetype permission customerId =>
      apply Parts.map
      apply (blind_ofExcept _).bind
      intro resolved
      apply (blind_onConnection _).bind
      intro held
      exact (blind_ofExcept _).parts

end Perform

-- The end of a unit of work: the tables after the call, or again those before it.
def settled (before : ServiceState Hash Uuid) (result : Except Failure Reply × ServiceState Hash Uuid) :
    ServiceState Hash Uuid :=
  match result.1 with
  | .ok _ => result.2
  | .error _ => { result.2 with audit := { result.2.audit with database := before.audit.database } }

theorem unitOfWork_call (rt : Runtime Salt Hash Uuid) (g : Generated Salt) (call : Call)
    (state : ServiceState Hash Uuid) :
    unitOfWork rt state (.call call g) =
      ((outcome (perform rt g call) state).1, settled state (outcome (perform rt g call) state)) := by
  unfold unitOfWork settled step outcome
  simp only
  cases (perform rt g call).run state <;> rfl

theorem mirrored_settled (before : ServiceState Hash Uuid)
    (result : Except Failure Reply × ServiceState Hash Uuid) :
    (settled before result).audit.mirrored = result.2.audit.mirrored := by
  unfold settled
  cases result.1 <;> rfl

theorem Alike.settled {before before' : ServiceState Hash Uuid}
    {result result' : Except Failure Reply × ServiceState Hash Uuid} (hbefore : Alike before before')
    (hanswer : result.1 = result'.1) (hafter : Alike result.2 result'.2) :
    Alike (settled before result) (settled before' result') := by
  unfold AuthService.settled
  rw [hanswer]
  cases result'.1 with
  | ok reply => exact hafter
  | error failure => exact ⟨hafter.1, hbefore.2⟩

section Influence

variable (rt : Runtime Salt Hash Uuid)

-- The sink raises on the event that the call hands to it, and something else than what
-- the call raises with any sink.
def Disturbs (state : ServiceState Hash Uuid) (event : Event Salt Uuid) : Prop :=
  ∃ row failure,
    (unitOfWork rt.discarding state event).2.audit.mirrored = state.audit.mirrored ++ [row] ∧
      rt.emit state.audit.mirrored row = some failure ∧
      (unitOfWork rt.discarding state event).1 ≠ .error failure

-- Discarding sinks keep two services together, whatever they were handed before.
theorem discarding_alike (g : Generated Salt) (call : Call) {state other : ServiceState Hash Uuid}
    (halike : Alike state other) :
    (outcome (perform rt.discarding g call) state).1 =
        (outcome (perform rt.discarding g call) other).1 ∧
      Alike (outcome (perform rt.discarding g call) state).2
        (outcome (perform rt.discarding g call) other).2 := by
  cases parts_perform rt.discarding g call state other halike with
  | silent hanswer hstates hmirrored hquiet => exact ⟨hanswer, hstates⟩
  | taken row hemit hanswer hstates hmirrored => exact ⟨hanswer, hstates⟩
  | refused row failure hemit hanswer hstates hmirrored => cases hemit

theorem unitOfWork_alike_iff (state other : ServiceState Hash Uuid) (event : Event Salt Uuid)
    (halike : Alike state other) :
    ((unitOfWork rt.discarding other event).1 = (unitOfWork rt state event).1 ∧
        Alike (unitOfWork rt state event).2 (unitOfWork rt.discarding other event).2) ↔
      ¬ Disturbs rt state event := by
  cases event with
  | database database =>
      refine iff_of_true ⟨rfl, halike.1, rfl⟩ ?_
      rintro ⟨row, failure, hmirrored, -⟩
      exact List.cons_ne_nil row [] (List.self_eq_append_right.mp hmirrored)
  | call call g =>
      obtain ⟨hsame, hstates⟩ := discarding_alike rt g call halike
      have htogether (hanswer : (outcome (perform rt g call) state).1 =
            (outcome (perform rt.discarding g call) state).1)
          (hafter : Alike (outcome (perform rt g call) state).2
            (outcome (perform rt.discarding g call) state).2) :
          (outcome (perform rt.discarding g call) other).1 =
              (outcome (perform rt g call) state).1 ∧
            Alike (settled state (outcome (perform rt g call) state))
              (settled other (outcome (perform rt.discarding g call) other)) :=
        ⟨(hanswer.trans hsame).symm, halike.settled (hanswer.trans hsame)
          ⟨hafter.1.trans hstates.1, hafter.2.trans hstates.2⟩⟩
      simp only [Disturbs, unitOfWork_call, mirrored_settled]
      cases parts_perform rt g call state state (alike_refl state) with
      | silent hanswer hafter hmirrored hquiet =>
          refine iff_of_true (htogether hanswer hafter) ?_
          rintro ⟨row, failure, hrow, -⟩
          rw [hmirrored] at hrow
          exact List.cons_ne_nil row [] (List.self_eq_append_right.mp hrow)
      | taken row hemit hanswer hafter hmirrored =>
          refine iff_of_true (htogether hanswer hafter) ?_
          rintro ⟨other, failure, hrow, hraises, -⟩
          rw [hmirrored] at hrow
          obtain rfl := List.singleton_inj.mp (List.append_cancel_left hrow)
          rw [hemit] at hraises
          cases hraises
      | refused row failure hemit hanswer hafter hmirrored =>
          rw [hanswer, hsame]
          constructor
          · rintro ⟨hfailure, -⟩ ⟨row', failure', hrow, hraises, hne⟩
            rw [hmirrored] at hrow
            obtain rfl := List.singleton_inj.mp (List.append_cancel_left hrow)
            rw [hemit] at hraises
            cases hraises
            exact hne hfailure
          · intro hquiet
            have hfailure : (outcome (perform rt.discarding g call) state).1 = .error failure := by
              by_contra hne
              rw [hsame] at hne
              exact hquiet ⟨row, failure, hmirrored, hemit, hne⟩
            rw [hfailure] at hsame
            rw [← hanswer]
            exact htogether (hanswer.trans hfailure.symm) hafter

-- At every point of a run the discarding service has given the same answers and has the
-- same tables and provider, in exactly the runs the sink does not disturb.
theorem follows_discarding_iff {start last other : ServiceState Hash Uuid}
    {trace : List (Event Salt Uuid × Except Failure Reply)}
    (hrun : Run (unitOfWork rt) (fun _ _ => True) start trace last) (hstart : Alike start other) :
    Run.Follows (unitOfWork rt) (fun _ _ => True) (unitOfWork rt.discarding) Alike start other trace ↔
      Run.Each (fun state entry => ¬ Disturbs rt state entry.1) (unitOfWork rt) (fun _ _ => True)
        start trace :=
  Run.follows_iff (unitOfWork_alike_iff rt) hrun hstart

end Influence

-- A sink that takes failed logins and nothing else.
def unreachableSink : Runtime Unit String String :=
  { Runtime.plain with
    emit := fun _ event =>
      if event.eventType = .LOGIN_FAILURE then none else some (.sinkError "broker unreachable") }

def guess : Event Unit String :=
  .call (.authenticate .OPERATOR ghost "guess" none none) drawn

theorem follows_discarding_guess :
    Run.Follows (unitOfWork unreachableSink) (fun _ _ => True) (unitOfWork unreachableSink.discarding)
      Alike noAccounts noAccounts [(guess, (unitOfWork unreachableSink noAccounts guess).1)] := by
  have hstart : Run (unitOfWork unreachableSink) (fun _ _ => True) noAccounts [] noAccounts := .nil
  apply (follows_discarding_iff unreachableSink (hstart.snoc guess trivial) (alike_refl _)).mpr
  refine (Run.each_snoc hstart (guess, _)).mpr ⟨Run.each_nil _ _, ?_⟩
  rintro ⟨row, failure, hrow, hemit, -⟩
  obtain rfl := List.singleton_inj.mp (List.append_cancel_left hrow)
  cases hemit

-- A logout, and the sink's exception takes its row back.
def logout : Event Unit String :=
  .call (.revokeSession "s-1" none none) drawn

theorem sink_undoes_logout :
    ¬ ∀ (start last : ServiceState String String) (trace : List (Event Unit String × _)),
      Run (unitOfWork unreachableSink) (fun _ _ => True) start trace last →
        Run.Follows (unitOfWork unreachableSink) (fun _ _ => True)
          (unitOfWork unreachableSink.discarding) Alike start start trace := by
  intro h
  have hstart : Run (unitOfWork unreachableSink) (fun _ _ => True) noAccounts [] noAccounts := .nil
  have hrun := hstart.snoc logout trivial
  obtain ⟨state', hother, -⟩ := h _ _ _ hrun _ [] _ (List.append_nil _).symm hrun
  obtain ⟨middle, hmiddle, hanswer, -⟩ := Run.last_step hother
  rw [hmiddle.unique .nil] at hanswer
  cases hanswer

end AuthService

end TrustlistCore.Auth
