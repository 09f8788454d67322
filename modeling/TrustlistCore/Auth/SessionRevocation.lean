import TrustlistCore.Auth.Service.Theorems

namespace TrustlistCore.Auth.AuthService

open Library InMemoryIdentityProvider

variable {Salt Hash Uuid : Type} [DecidableEq Uuid]

abbrev Trace (Salt Uuid : Type) [DecidableEq Uuid] := List (Event Salt Uuid × Except Failure Reply)

-- The session a call has issued, if it was such a call and it returned.
def issuedBy : Event Salt Uuid × Except Failure Reply → Option Session
  | (.call (.issueSession _ _) _, .ok (.session session)) => some session
  | _ => none

def issued (trace : Trace Salt Uuid) : List Session :=
  trace.filterMap issuedBy

-- No step forgets a session, alters what a lookup shows of it or revives it.
def SessionsKept (before after : InMemoryIdentityProvider Hash) : Prop :=
  ∀ sessionId record, before.sessions sessionId = some record →
    ∃ kept, after.sessions sessionId = some kept ∧ kept.view = record.view ∧
      (record.revoked = true → kept.revoked = true)

@[simp] theorem revokeIfOwned_view (userId : String) (record : SessionRecord) :
    (revokeIfOwned userId record).view = record.view := by
  unfold revokeIfOwned
  split <;> rfl

theorem revokeIfOwned_revoked (userId : String) (record : SessionRecord) :
    (revokeIfOwned userId record).revoked = true ↔
      record.revoked = true ∨ record.userId = userId := by
  unfold revokeIfOwned
  split <;> simp_all

namespace SessionsKept

variable {first middle last : InMemoryIdentityProvider Hash}

theorem refl (self : InMemoryIdentityProvider Hash) : SessionsKept self self :=
  fun _ record hr => ⟨record, hr, rfl, id⟩

theorem trans (hf : SessionsKept first middle) (hl : SessionsKept middle last) :
    SessionsKept first last := by
  intro sessionId record hr
  obtain ⟨between, hb, hbv, hbr⟩ := hf sessionId record hr
  obtain ⟨kept, hk, hkv, hkr⟩ := hl sessionId between hb
  exact ⟨kept, hk, hkv.trans hbv, fun h => hkr (hbr h)⟩

theorem withAllRevoked (self : InMemoryIdentityProvider Hash) (userId : String) :
    SessionsKept self (self.withAllRevoked userId) := by
  intro sessionId record hr
  refine ⟨revokeIfOwned userId record, by simp [hr], by simp, ?_⟩
  rw [revokeIfOwned_revoked]
  exact .inl

omit [DecidableEq Uuid] in
theorem effect {rt : Runtime Salt Hash Uuid} {g : Generated Salt}
    {before after : InMemoryIdentityProvider Hash} {call : Call} {reply : Except Failure Reply}
    (heffect : Effect rt g before call reply after)
    (hfresh : ∀ userId deviceFingerprint, call = .issueSession userId deviceFingerprint →
      before.sessions g.uuid4 = none) : SessionsKept before after := by
  cases heffect with
  | idle _ => exact refl before
  | account _ _ _ _ => exact refl before
  | register => exact refl before
  | rehash _ _ => exact refl before
  | changePassword hstored => exact withAllRevoked (before.withAccount _ _) _
  | disableAccount hstored => exact withAllRevoked (before.withAccount _ _) _
  | revokeRole => exact withAllRevoked before _
  | issueSession hstored record hrecord =>
      intro sessionId old hold
      refine ⟨old, ?_, rfl, id⟩
      have hne : sessionId ≠ g.uuid4 := by
        rintro rfl
        simp [hfresh _ _ rfl] at hold
      simpa [hne] using hold
  | @revokeSession revokedId _ _ _ record hrecord =>
      intro sessionId old hold
      by_cases hid : sessionId = revokedId
      · subst hid
        rw [hrecord] at hold
        cases hold
        exact ⟨{ record with revoked := true }, by simp, rfl, fun _ => rfl⟩
      · exact ⟨old, by simpa [hid] using hold, rfl, id⟩

end SessionsKept

-- Every record is stored under its own id.
def Keyed (provider : InMemoryIdentityProvider Hash) : Prop :=
  ∀ sessionId record, provider.sessions sessionId = some record → record.sessionId = sessionId

-- The provider's dict against the history: every issued session has its record.
structure SessionsTraced (trace : Trace Salt Uuid) (provider : InMemoryIdentityProvider Hash) :
    Prop where
  keyed : Keyed provider
  recorded : ∀ session ∈ issued trace,
    ∃ record, provider.sessions session.sessionId = some record ∧ record.view = session

theorem sessionsKept_step (rt : Runtime Salt Hash Uuid) (state : ServiceState Hash Uuid)
    (event : Event Salt Uuid) (hfresh : Fresh state event) :
    SessionsKept state.provider (step rt state event).2.provider := by
  cases event with
  | call call g =>
      apply SessionsKept.effect (step_effects rt g call state).1
      rintro userId deviceFingerprint rfl
      exact hfresh
  | database database => exact SessionsKept.refl _

theorem sessionsKept_run (rt : Runtime Salt Hash Uuid) {first last : ServiceState Hash Uuid}
    {trace : Trace Salt Uuid} (hrun : ServiceRun rt first trace last) :
    SessionsKept first.provider last.provider := by
  induction hrun with
  | nil => exact SessionsKept.refl _
  | snoc event _ hfresh ih => exact ih.trans (sessionsKept_step rt _ event hfresh)

omit [DecidableEq Uuid] in
theorem keyed_effect {rt : Runtime Salt Hash Uuid} {g : Generated Salt}
    {before after : InMemoryIdentityProvider Hash} {call : Call} {reply : Except Failure Reply}
    (heffect : Effect rt g before call reply after)
    (hkeyed : Keyed before) : Keyed after := by
  have hall : ∀ userId, Keyed (before.withAllRevoked userId) := by
    intro userId sessionId record hr
    obtain ⟨old, ho, rfl⟩ := Option.map_eq_some_iff.mp hr
    rw [← hkeyed sessionId old ho]
    exact congrArg Session.sessionId (revokeIfOwned_view userId old)
  cases heffect with
  | idle _ => exact hkeyed
  | account _ _ _ _ => exact hkeyed
  | register => exact hkeyed
  | rehash _ _ => exact hkeyed
  | changePassword hstored => exact hall _
  | disableAccount hstored => exact hall _
  | revokeRole => exact hall _
  | issueSession hstored record hrecord =>
      intro sessionId stored hs
      by_cases hid : sessionId = g.uuid4
      · subst hid
        simp only [withSession_sessions, Function.update_self, Option.some.injEq] at hs
        rw [← hs, hrecord]
      · exact hkeyed sessionId stored (by simpa [hid] using hs)
  | @revokeSession revokedId _ _ _ record hrecord =>
      intro sessionId stored hs
      by_cases hid : sessionId = revokedId
      · subst hid
        simp only [withSession_sessions, Function.update_self, Option.some.injEq] at hs
        rw [← hs]
        exact hkeyed sessionId record hrecord
      · exact hkeyed sessionId stored (by simpa [hid] using hs)

theorem keyed_step (rt : Runtime Salt Hash Uuid) (state : ServiceState Hash Uuid)
    (event : Event Salt Uuid) (hkeyed : Keyed state.provider) :
    Keyed (step rt state event).2.provider := by
  cases event with
  | call call g => exact keyed_effect (step_effects rt g call state).1 hkeyed
  | database database => exact hkeyed

theorem keyed_run (rt : Runtime Salt Hash Uuid) {first last : ServiceState Hash Uuid}
    {trace : Trace Salt Uuid} (hrun : ServiceRun rt first trace last)
    (hfirst : Keyed first.provider) : Keyed last.provider :=
  hrun.invariant (P := fun state => Keyed state.provider)
    (fun state event hkeyed _ => keyed_step rt state event hkeyed) hfirst

theorem issuedBy_eq_some {entry : Event Salt Uuid × Except Failure Reply} {session : Session}
    (h : issuedBy entry = some session) :
    ∃ userId deviceFingerprint generated,
      entry = (.call (.issueSession userId deviceFingerprint) generated,
        .ok (.session session)) := by
  unfold issuedBy at h
  split at h
  · cases h
    exact ⟨_, _, _, rfl⟩
  · cases h

omit [DecidableEq Uuid] in
-- A session that is issued is recorded, and not revoked, when the call returns.
theorem issueSession_effect {rt : Runtime Salt Hash Uuid} {g : Generated Salt}
    {before after : InMemoryIdentityProvider Hash} {userId : String}
    {deviceFingerprint : Option String} {session : Session}
    (heffect : Effect rt g before (.issueSession userId deviceFingerprint)
      (.ok (.session session)) after) :
    session.userId = userId ∧ ∃ record, after.sessions session.sessionId = some record ∧
      record.view = session ∧ record.revoked = false := by
  cases heffect with
  | idle hacts => simp [acts] at hacts
  | account hacts _ _ _ => simp [acts] at hacts
  | issueSession hstored record hrecord =>
      have hid : record.view.sessionId = g.uuid4 := by
        rw [hrecord]
        rfl
      refine ⟨by rw [hrecord]; rfl, record, ?_, rfl, by rw [hrecord]⟩
      simp [hid]

theorem sessionsTraced_run (rt : Runtime Salt Hash Uuid) {start last : ServiceState Hash Uuid}
    {trace : Trace Salt Uuid} (hrun : ServiceRun rt start trace last)
    (hstart : ∀ sessionId, start.provider.sessions sessionId = none) :
    SessionsTraced trace last.provider := by
  induction hrun with
  | nil => exact ⟨by simp [Keyed, hstart], by simp [issued]⟩
  | @snoc trace state event _ hfresh ih =>
      refine ⟨?_, ?_⟩
      · exact keyed_step rt state event ih.keyed
      · intro session hs
        unfold issued at hs
        rw [List.filterMap_append, List.mem_append] at hs
        rcases hs with hs | hs
        · obtain ⟨record, hr, hv⟩ := ih.recorded session hs
          obtain ⟨kept, hk, hkv, -⟩ := sessionsKept_step rt state event hfresh _ record hr
          exact ⟨kept, hk, hkv.trans hv⟩
        · obtain ⟨entry, he, hi⟩ := List.mem_filterMap.mp hs
          rw [List.mem_singleton.mp he] at hi
          obtain ⟨userId, deviceFingerprint, g, hentry⟩ := issuedBy_eq_some hi
          obtain ⟨rfl, hreply⟩ := Prod.mk.inj hentry
          have heffect := (step_effects rt g (.issueSession userId deviceFingerprint) state).1
          rw [hreply] at heffect
          obtain ⟨-, record, hr, hv, -⟩ := issueSession_effect heffect
          exact ⟨record, hr, hv⟩

theorem getSession_returns_iff (rt : Runtime Salt Hash Uuid) (g : Generated Salt)
    (state : ServiceState Hash Uuid) (sessionId : String) (session : Session) :
    (step rt state (.call (.getSession sessionId) g)).1 = .ok (.session session) ↔
      ∃ record, state.provider.sessions sessionId = some record ∧ record.revoked = false ∧
        g.now < record.expiresAt ∧ record.view = session := by
  apply (step_wp rt g _ state (fun reply _ => reply = .ok (.session session) ↔ _)).mp
  simp only [perform, getSession, wp_map, wp_onProvider, wp_getSession]
  cases hr : state.provider.sessions sessionId with
  | none => simp [Except.map]
  | some record =>
      cases hv : record.revoked <;> by_cases he : record.expiresAt ≤ g.now <;>
        simp [Except.map, hv, he, not_lt.mpr, not_le.mp]

theorem getSession_returns_live (rt : Runtime Salt Hash Uuid) (g : Generated Salt)
    (state : ServiceState Hash Uuid) (hkeyed : Keyed state.provider) (sessionId : String)
    (session : Session)
    (h : (step rt state (.call (.getSession sessionId) g)).1 = .ok (.session session)) :
    ∃ record, state.provider.sessions session.sessionId = some record ∧
      record.revoked = false := by
  obtain ⟨record, hr, hlive, -, rfl⟩ := (getSession_returns_iff _ _ _ _ _).mp h
  have hid : record.view.sessionId = sessionId := hkeyed sessionId record hr
  exact ⟨record, by rw [hid, hr], hlive⟩

-- The calls that the session discipline names, each for the user it is about.
inductive Trigger (userId : String) : Call → Except Failure Reply → Prop
  | changePassword (newPassword : String) (ipAddress : Option String) (reply : Reply) :
      Trigger userId (.changePassword userId newPassword ipAddress) (.ok reply)
  | assignRole (archetype : Archetype) (role : String) (grantedBy customerId : Option String)
      (reply : Reply) :
      Trigger userId (.assignRole userId archetype role grantedBy customerId) (.ok reply)
  | revokeRole (role : String) (grantedAt : Instant) (revokedBy : Option String) :
      Trigger userId (.revokeRole userId role grantedAt revokedBy) (.ok (.bool true))
  | disableAccount (disabledByUserId : Option String) (reply : Reply) :
      Trigger userId (.disableAccount userId disabledByUserId) (.ok reply)

-- Whether a session of the user that was issued in the past can still be looked up.
def AllRevoked (userId : String) (provider : InMemoryIdentityProvider Hash)
    (sessions : List Session) : Prop :=
  ∀ session ∈ sessions, session.userId = userId →
    ∃ record, provider.sessions session.sessionId = some record ∧ record.revoked = true

theorem allRevoked_kept {userId : String} {before after : InMemoryIdentityProvider Hash}
    {sessions : List Session} (hkept : SessionsKept before after)
    (hall : AllRevoked userId before sessions) : AllRevoked userId after sessions := by
  intro session hs huser
  obtain ⟨record, hr, hrevoked⟩ := hall session hs huser
  obtain ⟨kept, hk, -, hkr⟩ := hkept _ record hr
  exact ⟨kept, hk, hkr hrevoked⟩

theorem allRevoked_withAllRevoked (userId : String) (provider : InMemoryIdentityProvider Hash)
    {trace : Trace Salt Uuid} (htraced : SessionsTraced trace provider) :
    AllRevoked userId (provider.withAllRevoked userId) (issued trace) := by
  intro session hs huser
  obtain ⟨record, hr, rfl⟩ := htraced.recorded session hs
  refine ⟨revokeIfOwned userId record, by simp [hr], ?_⟩
  rw [revokeIfOwned_revoked]
  exact .inr huser

-- Three of the four triggers walk over the sessions; a grant does not touch them.
theorem allRevoked_trigger_iff (rt : Runtime Salt Hash Uuid) (g : Generated Salt)
    (state : ServiceState Hash Uuid) {trace : Trace Salt Uuid}
    (htraced : SessionsTraced trace state.provider) (userId : String) (call : Call)
    (htrigger : Trigger userId call (step rt state (.call call g)).1) :
    AllRevoked userId (step rt state (.call call g)).2.provider (issued trace) ↔
      ((∃ archetype role grantedBy customerId,
          call = .assignRole userId archetype role grantedBy customerId) →
        AllRevoked userId state.provider (issued trace)) := by
  have heffect := (step_effects rt g call state).1
  generalize (step rt state (.call call g)).2.provider = next at heffect ⊢
  generalize (step rt state (.call call g)).1 = reply at heffect htrigger
  cases htrigger with
  | changePassword newPassword ipAddress reply =>
      refine iff_of_true ?_ (by simp)
      cases heffect with
      | idle hacts => simp [acts] at hacts
      | account hacts _ _ _ => simp [acts] at hacts
      | @changePassword _ _ _ _ stored hstored =>
          exact allRevoked_withAllRevoked userId (state.provider.withAccount userId _)
            ⟨htraced.keyed, htraced.recorded⟩
  | assignRole archetype role grantedBy customerId reply =>
      have hsessions : next.sessions = state.provider.sessions := by
        cases heffect <;> rfl
      simp [AllRevoked, hsessions]
  | revokeRole role grantedAt revokedBy =>
      refine iff_of_true ?_ (by simp)
      cases heffect with
      | idle hacts => simp [acts] at hacts
      | account hacts _ _ _ => simp [acts] at hacts
      | revokeRole => exact allRevoked_withAllRevoked userId state.provider htraced
  | disableAccount disabledByUserId reply =>
      refine iff_of_true ?_ (by simp)
      cases heffect with
      | idle hacts => simp [acts] at hacts
      | account hacts _ _ _ => simp [acts] at hacts
      | @disableAccount _ _ _ stored hstored =>
          exact allRevoked_withAllRevoked userId (state.provider.withAccount userId _)
            ⟨htraced.keyed, htraced.recorded⟩

-- Once revoked a session is out of reach, and until then the right clock reading
-- brings it back.
theorem never_returned_iff (rt : Runtime Salt Hash Uuid) (g : Generated Salt)
    {state : ServiceState Hash Uuid} {before : Trace Salt Uuid}
    (htraced : SessionsTraced before state.provider) (userId : String) :
    (∀ after last, ServiceRun rt state after last → ∀ sessionId generated session,
      (step rt last (.call (.getSession sessionId) generated)).1 = .ok (.session session) →
        session.userId = userId → session ∉ issued before) ↔
      AllRevoked userId state.provider (issued before) := by
  constructor
  · intro hnever session hs huser
    obtain ⟨record, hr, hv⟩ := htraced.recorded session hs
    refine ⟨record, hr, ?_⟩
    by_contra hlive
    refine hnever [] state .nil session.sessionId { g with now := record.expiresAt - 1 } session
      ?_ huser hs
    rw [getSession_returns_iff]
    exact ⟨record, hr, by simpa using hlive, Int.sub_one_lt_of_le (Int.le_refl _), hv⟩
  · intro hall after last hrun sessionId generated session hreturned huser hs
    have hkeyed := keyed_run rt hrun htraced.keyed
    obtain ⟨record, hr, hlive⟩ :=
      getSession_returns_live rt generated last hkeyed sessionId session hreturned
    obtain ⟨revoked, hrevoked, htrue⟩ :=
      allRevoked_kept (sessionsKept_run rt hrun) hall session hs huser
    rw [hr] at hrevoked
    cases hrevoked
    rw [hlive] at htrue
    cases htrue

-- After a trigger the earlier sessions of the user are gone for good exactly when the
-- trigger is not a grant, or when a grant finds all of them revoked already.
theorem sessions_dead_after_trigger_iff (rt : Runtime Salt Hash Uuid) (g : Generated Salt)
    (start state : ServiceState Hash Uuid) (sessionTtl : Int)
    (hstart : start.provider = InMemoryIdentityProvider.init sessionTtl)
    (before : Trace Salt Uuid) (hrun : ServiceRun rt start before state) (userId : String)
    (call : Call) (htrigger : Trigger userId call (step rt state (.call call g)).1) :
    (∀ after last, ServiceRun rt (step rt state (.call call g)).2 after last →
      ∀ sessionId generated session,
        (step rt last (.call (.getSession sessionId) generated)).1 = .ok (.session session) →
          session.userId = userId → session ∉ issued before) ↔
      ((∃ archetype role grantedBy customerId,
          call = .assignRole userId archetype role grantedBy customerId) →
        AllRevoked userId state.provider (issued before)) := by
  have hbefore : SessionsTraced before state.provider := by
    apply sessionsTraced_run rt hrun
    intro sessionId
    rw [hstart]
    rfl
  have hfresh : Fresh state (.call call g : Event Salt Uuid) := by
    generalize (step rt state (.call call g)).1 = reply at htrigger
    cases htrigger <;> exact trivial
  have hafter : SessionsTraced before (step rt state (.call call g)).2.provider := by
    refine ⟨keyed_step rt state _ hbefore.keyed, ?_⟩
    intro session hs
    obtain ⟨record, hr, hv⟩ := hbefore.recorded session hs
    obtain ⟨kept, hk, hkv, -⟩ := sessionsKept_step rt state (.call call g) hfresh _ record hr
    exact ⟨kept, hk, hkv.trans hv⟩
  rw [never_returned_iff rt g hafter userId]
  exact allRevoked_trigger_iff rt g state hbefore userId call htrigger

-- The operator registers and is issued a session.
def registered : ServiceState String String :=
  (step .plain (step .plain noAccounts (.database operatorAccount)).2
    (.call (.register .OPERATOR address "first") { drawn with uuid4 := "u-1" })).2

def signedIn : ServiceState String String :=
  (step .plain registered (.call (.issueSession "u-1" none) drawn)).2

def issuedSession : Session where
  sessionId := "s-1"
  userId := "u-1"
  archetype := .OPERATOR
  issuedAt := 0
  expiresAt := 43200000000
  deviceFingerprint := none

theorem run_registered :
    ServiceRun .plain noAccounts
      [(.database operatorAccount, .ok .none),
        (.call (.register .OPERATOR address "first") { drawn with uuid4 := "u-1" },
          .ok (.user ⟨"u-1", .OPERATOR, address, false, false, false⟩))] registered := by
  have hstart : ServiceRun .plain noAccounts [] noAccounts := .nil
  have haccount := hstart.snoc (.database operatorAccount) (by trivial)
  exact haccount.snoc (.call (.register .OPERATOR address "first")
    { drawn with uuid4 := "u-1" }) (by exact rfl)

theorem signedIn_run : ∃ before : Trace Unit String,
    ServiceRun .plain noAccounts before signedIn ∧ issued before = [issuedSession] := by
  have hissue := run_registered.snoc (.call (.issueSession "u-1" none) drawn) (by exact rfl)
  exact ⟨_, hissue, rfl⟩

theorem sessions_dead_after_password_change :
    ∃ before : Trace Unit String, ∀ after last, ServiceRun .plain
      (step .plain signedIn (.call (.changePassword "u-1" "second" none) drawn)).2 after last →
      ∀ sessionId generated session,
        (step .plain last (.call (.getSession sessionId) generated)).1 = .ok (.session session) →
          session.userId = "u-1" → session ∉ issued before := by
  obtain ⟨before, hrun, -⟩ := signedIn_run
  have hdead := sessions_dead_after_trigger_iff .plain drawn noAccounts signedIn 43200000000 rfl
    before hrun "u-1" (.changePassword "u-1" "second" none) (.changePassword "second" none .none)
  exact ⟨before, hdead.mpr (by simp)⟩

-- The session is still there after the role change.
theorem session_survives_grant :
    ∃ before : Trace Unit String, ServiceRun .plain noAccounts before signedIn ∧
      issuedSession ∈ issued before ∧
      ∃ assignment, (step .plain signedIn
          (.call (.assignRole "u-1" .OPERATOR "owner" none none) drawn)).1 =
            .ok (.assignment assignment) ∧
        (step .plain (step .plain signedIn
            (.call (.assignRole "u-1" .OPERATOR "owner" none none) drawn)).2
          (.call (.getSession "s-1") drawn)).1 = .ok (.session issuedSession) := by
  obtain ⟨before, hrun, hissued⟩ := signedIn_run
  exact ⟨before, hrun, by simp [hissued], _, rfl, rfl⟩

end TrustlistCore.Auth.AuthService
