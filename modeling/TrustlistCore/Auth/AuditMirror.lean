import TrustlistCore.Auth.LoginFailure

namespace TrustlistCore.Auth

open Library

variable {Salt Hash Uuid : Type} [DecidableEq Uuid]

namespace InMemoryIdentityProvider

def Accepts (rt : Runtime Salt Hash Uuid) (self : InMemoryIdentityProvider Hash)
    (archetype : Archetype) (email : Text) (password : String) : Prop :=
  ∃ userId stored, self.emailIndex (archetype, rt.lowered email) = some userId ∧
    self.accounts userId = some stored ∧ rt.verify stored.passwordHash password = true ∧
    stored.disabled = false

def RejectsCode (rt : Runtime Salt Hash Uuid) (self : InMemoryIdentityProvider Hash)
    (userId code : String) (now : Instant) : Prop :=
  ∃ stored secret, self.accounts userId = some stored ∧ stored.totpSecret = some secret ∧
    totpAccepts rt secret code now = false

omit [DecidableEq Uuid] in
theorem wp_authenticate_accepts (rt : Runtime Salt Hash Uuid)
    (self : InMemoryIdentityProvider Hash)
    {Q : Except Failure ProviderUser → InMemoryIdentityProvider Hash → Prop}
    (archetype : Archetype) (email : Text) (password : String) (needsRehash : Bool) (salt : Salt)
    (hraise : ∀ failure, ¬ self.Accepts rt archetype email password → Q (.error failure) self)
    (hreturn : ∀ user next, self.Accepts rt archetype email password → Q (.ok user) next) :
    wp (authenticate rt archetype email (ofString password) needsRehash salt) Q self := by
  rw [wp_authenticate_ofString_iff]
  cases hi : self.emailIndex (archetype, rt.lowered email) with
  | none =>
      apply hraise
      rintro ⟨userId, stored, hindex, -⟩
      rw [hi] at hindex
      cases hindex
  | some userId =>
      have haccepts : self.Accepts rt archetype email password ↔
          ∃ stored, self.accounts userId = some stored ∧
            rt.verify stored.passwordHash password = true ∧ stored.disabled = false := by
        simp [Accepts, hi]
      simp only
      cases hs : self.accounts userId with
      | none =>
          apply hraise
          simp [haccepts, hs]
      | some stored =>
          simp only [hs, Option.some.injEq, exists_eq_left'] at haccepts
          simp only
          split_ifs with hverify hdisabled hneeds
          · exact hraise _ (by simp [haccepts, hverify])
          · exact hraise _ (by simp [haccepts, hdisabled])
          · exact hreturn _ _ (by simp_all)
          · exact hreturn _ _ (by simp_all)

end InMemoryIdentityProvider

namespace AuthService

-- Each call in a transaction of its own, which an exception undoes. The provider and
-- the sink are no part of the transaction.
def unitOfWork (rt : Runtime Salt Hash Uuid) (state : ServiceState Hash Uuid)
    (event : Event Salt Uuid) : Except Failure Reply × ServiceState Hash Uuid :=
  match step rt state event with
  | (.ok reply, next) => (.ok reply, next)
  | (.error failure, next) =>
      (.error failure,
        { next with audit := { next.audit with database := state.audit.database } })

-- Only the service writes to the audit table.
def OnlyWriter (state : ServiceState Hash Uuid) : Event Salt Uuid → Prop
  | .call _ _ => True
  | .database database => database.authAuditEvent = state.audit.database.authAuditEvent

abbrev UnitRun (rt : Runtime Salt Hash Uuid) :=
  Library.Run (unitOfWork rt) (OnlyWriter : ServiceState Hash Uuid → Event Salt Uuid → Prop)

-- The exceptions that stand for a failed credential, with the row each one promises.
inductive Fails : Call → Except Failure Reply → AuthEventType → Prop
  | authenticationFailed (archetype : Archetype) (email : Text) (password : String)
      (ipAddress userAgent : Option String) (message : String) :
      Fails (.authenticate archetype email password ipAddress userAgent)
        (.error (.authenticationFailed message)) .LOGIN_FAILURE
  | accountDisabled (archetype : Archetype) (email : Text) (password : String)
      (ipAddress userAgent : Option String) (message : String) :
      Fails (.authenticate archetype email password ipAddress userAgent)
        (.error (.accountDisabled message)) .LOGIN_FAILURE
  | totpVerificationFailed (userId code : String) (ipAddress : Option String) (message : String) :
      Fails (.verifyTotpStrict userId code ipAddress)
        (.error (.totpVerificationFailed message)) .MFA_CHALLENGE_FAILURE

def challengeFailure (g : Generated Salt) (userId : String) (ipAddress : Option String) :
    AuditEvent :=
  AuditTrail.entry g .MFA_CHALLENGE_FAILURE (some userId) ipAddress none
    [("factor", .text "totp")]

-- The calls that record an event and then raise.
def Spoiled (rt : Runtime Salt Hash Uuid) (state : ServiceState Hash Uuid) :
    Event Salt Uuid → Prop
  | .call (.authenticate archetype email password ipAddress userAgent) g =>
      ¬ state.provider.Accepts rt archetype email password ∧
        ∃ next, AuditTrail.insertion rt state.audit.database
          (loginFailure g archetype email ipAddress userAgent) = .ok next
  | .call (.verifyTotpStrict userId code ipAddress) g =>
      state.provider.RejectsCode rt userId code g.now ∧
        ∃ next, AuditTrail.insertion rt state.audit.database
          (challengeFailure g userId ipAddress) = .ok next
  | _ => False

-- What a call leaves in the table and at the sink.
inductive Outcome (rt : Runtime Salt Hash Uuid) (before : ServiceState Hash Uuid)
    (call : Call) (g : Generated Salt) (reply : Except Failure Reply)
    (after : ServiceState Hash Uuid) : Prop
  | silent (hrecorded : Recorded before after []) (hfails : ∀ eventType, ¬ Fails call reply eventType)
      (hclean : ¬ Spoiled rt before (.call call g))
  | audited (event : AuditEvent) (hrecorded : Recorded before after [event])
      (hreply : ∃ value, reply = .ok value) (hclean : ¬ Spoiled rt before (.call call g))
  | spoiled (event : AuditEvent) (hrecorded : Recorded before after [event])
      (hreply : ∃ failure, reply = .error failure) (hspoiled : Spoiled rt before (.call call g))

theorem insertion_error {rt : Runtime Salt Hash Uuid} {database : Database Uuid}
    {event : AuditEvent} {failure : Failure}
    (h : AuditTrail.insertion rt database event = .error failure) (call : Call)
    (eventType : AuthEventType) : ¬ Fails call (.error failure) eventType := by
  unfold AuditTrail.insertion Database.insertAuditEvent at h
  split_ifs at h <;> cases h <;> rintro ⟨⟩

theorem recorded_nil {before after : ServiceState Hash Uuid}
    (hrows : after.audit.database.authAuditEvent = before.audit.database.authAuditEvent)
    (hmirrored : after.audit.mirrored = before.audit.mirrored) : Recorded before after [] := by
  simp [Recorded, hrows, hmirrored]

theorem recorded_insertion {rt : Runtime Salt Hash Uuid} {before between : ServiceState Hash Uuid}
    (hsame : Recorded before between []) {event : AuditEvent} {next : Database Uuid}
    (h : AuditTrail.insertion rt between.audit.database event = .ok next) :
    Recorded before
      { between with audit := { database := next, mirrored := between.audit.mirrored ++ [event] } }
      [event] := by
  obtain ⟨hrows, hmirrored⟩ := hsame
  rw [List.append_nil] at hrows hmirrored
  exact ⟨by rw [← hrows, ← AuditTrail.insertion_eq_ok h], by rw [← hmirrored]⟩

section Perform

variable (rt : Runtime Salt Hash Uuid) (hsink : ∀ mirrored event, rt.emit mirrored event = none)
  (g : Generated Salt)

include hsink in
-- A method whose last action is to record: either the row and the reply, or neither.
theorem wp_record_outcome {call : Call} (state : ServiceState Hash Uuid)
    {between : ServiceState Hash Uuid}
    {Q : Except Failure Unit → ServiceState Hash Uuid → Prop} {eventType : AuthEventType}
    {userId ipAddress userAgent : Option String} {details : List (String × Detail)}
    (hsame : Recorded state between []) (hclean : ¬ Spoiled rt state (.call call g))
    (hraise : ∀ failure, Outcome rt state call g (.error failure) between →
      Q (.error failure) between)
    (hreturn : ∀ next, (∀ value, Outcome rt state call g (.ok value) next) → Q (.ok ()) next) :
    wp (record rt g eventType userId ipAddress userAgent details) Q between := by
  rw [wp_record_iff rt hsink]
  simp only
  cases hi : AuditTrail.insertion rt between.audit.database _ with
  | error failure =>
      apply hraise
      exact .silent hsame (insertion_error hi call) hclean
  | ok next =>
      apply hreturn
      intro value
      exact .audited _ (recorded_insertion hsame hi) ⟨value, rfl⟩ hclean

include hsink in
-- A failed login raises the provider's exception over the row, unless the row is refused.
theorem authenticate_spoiled {state : ServiceState Hash Uuid} {archetype : Archetype}
    {email : Text} {password : String} {ipAddress userAgent : Option String}
    (hrefused : ¬ state.provider.Accepts rt archetype email password) (failure : Failure) :
    wp (record rt g .LOGIN_FAILURE none ipAddress userAgent
        [("archetype", .text archetype.value), ("email", .str email)])
      (fun answer next => Outcome rt state
        (.authenticate archetype email password ipAddress userAgent) g
        (match answer with
          | .ok _ => .error failure
          | .error other => .error other) next) state := by
  rw [wp_record_iff rt hsink]
  simp only
  cases hi : AuditTrail.insertion rt state.audit.database _ with
  | error other =>
      apply Outcome.silent (recorded_nil rfl rfl) (insertion_error hi _)
      rintro ⟨-, next, hnext⟩
      rw [loginFailure, hi] at hnext
      cases hnext
  | ok next =>
      exact .spoiled _ (recorded_insertion (recorded_nil rfl rfl) hi) ⟨failure, rfl⟩
        ⟨hrefused, next, hi⟩

open InMemoryIdentityProvider in
include hsink in
theorem authenticate_outcome (state : ServiceState Hash Uuid) (archetype : Archetype)
    (email : Text) (password : String) (ipAddress userAgent : Option String) :
    wp (perform rt g (.authenticate archetype email password ipAddress userAgent))
      (Outcome rt state (.authenticate archetype email password ipAddress userAgent) g) state := by
  simp only [perform, authenticate, wp_map, wp_bind, wp_catching, wp_onProvider]
  apply wp_authenticate_accepts
  · intro failure hrefused
    simp only [wp_bind]
    apply wp_mono (authenticate_spoiled rt hsink g hrefused failure)
    intro answer next houtcome
    cases answer <;> exact houtcome
  · intro user next haccepts
    have hclean : ¬ Spoiled rt state
        (.call (.authenticate archetype email password ipAddress userAgent) g) :=
      fun hspoiled => hspoiled.1 haccepts
    simp only [wp_bind]
    exact wp_record_outcome rt hsink g state (recorded_nil rfl rfl) hclean (fun _ h => h)
      (fun _ h => h _)

open InMemoryIdentityProvider in
include hsink in
theorem verifyTotpStrict_outcome (state : ServiceState Hash Uuid) (userId code : String)
    (ipAddress : Option String) :
    wp (perform rt g (.verifyTotpStrict userId code ipAddress))
      (Outcome rt state (.verifyTotpStrict userId code ipAddress) g) state := by
  simp only [perform, verifyTotpStrict, verifyTotp, wp_map, wp_bind, wp_onProvider,
    wp_verifyTotp_iff]
  cases hs : state.provider.accounts userId with
  | none =>
      apply Outcome.silent (recorded_nil rfl rfl) (by rintro _ ⟨⟩)
      rintro ⟨⟨stored, -, hstored, -⟩, -⟩
      rw [hs] at hstored
      cases hstored
  | some stored =>
      cases hsecret : stored.totpSecret with
      | none =>
          simp only [hsecret]
          apply Outcome.silent (recorded_nil rfl rfl) (by rintro _ ⟨⟩)
          rintro ⟨⟨other, secret, hother, hs', -⟩, -⟩
          rw [hs] at hother
          cases hother
          rw [hsecret] at hs'
          cases hs'
      | some secret =>
          have hrejects : state.provider.RejectsCode rt userId code g.now ↔
              totpAccepts rt secret code g.now = false := by
            simp [RejectsCode, hs, hsecret]
          simp only [hsecret]
          by_cases hcode : totpAccepts rt secret code g.now = true
          · simp only [hcode, ↓reduceIte]
            have hclean : ¬ Spoiled rt state (.call (.verifyTotpStrict userId code ipAddress) g) := by
              rintro ⟨h, -⟩
              simp [hrejects, hcode] at h
            apply wp_record_outcome rt hsink g state _ hclean
            · exact fun _ h => h
            · exact fun _ h => h _
            · exact recorded_nil rfl rfl
          · have hcode' : totpAccepts rt secret code g.now = false := by simpa using hcode
            simp only [hcode', Bool.false_eq_true, ↓reduceIte, wp_record_iff rt hsink]
            cases hi : AuditTrail.insertion rt state.audit.database _ with
            | error failure =>
                apply Outcome.silent (recorded_nil rfl rfl) (insertion_error hi _)
                rintro ⟨-, next, hnext⟩
                rw [challengeFailure] at hnext
                rw [show _ = _ from hi] at hnext
                cases hnext
            | ok next =>
                exact .spoiled _ (recorded_insertion (recorded_nil rfl rfl) hi) ⟨_, rfl⟩
                  ⟨hrejects.mpr hcode', next, hi⟩

open InMemoryIdentityProvider in
include hsink in
theorem changePassword_outcome (state : ServiceState Hash Uuid) (userId newPassword : String)
    (ipAddress : Option String) :
    wp (perform rt g (.changePassword userId newPassword ipAddress))
      (Outcome rt state (.changePassword userId newPassword ipAddress) g) state := by
  simp only [perform, changePassword, wp_map, wp_bind, wp_onProvider, wp_changePassword_ofString,
    wp_revokeAllSessions]
  cases state.provider.accounts userId with
  | none => exact .silent (recorded_nil rfl rfl) (by rintro _ ⟨⟩) id
  | some stored =>
      exact wp_record_outcome rt hsink g state (recorded_nil rfl rfl) id (fun _ h => h)
        (fun _ h => h _)

open InMemoryIdentityProvider in
include hsink in
theorem revokeSession_outcome (state : ServiceState Hash Uuid) (sessionId : String)
    (userId ipAddress : Option String) :
    wp (perform rt g (.revokeSession sessionId userId ipAddress))
      (Outcome rt state (.revokeSession sessionId userId ipAddress) g) state := by
  simp only [perform, revokeSession, wp_map, wp_bind, wp_onProvider, wp_revokeSession]
  cases state.provider.sessions sessionId with
  | none =>
      exact wp_record_outcome rt hsink g state (recorded_nil rfl rfl) id (fun _ h => h)
        (fun _ h => h _)
  | some record =>
      exact wp_record_outcome rt hsink g state (recorded_nil rfl rfl) id (fun _ h => h)
        (fun _ h => h _)

open InMemoryIdentityProvider in
include hsink in
theorem enrolTotp_outcome (state : ServiceState Hash Uuid) (userId : String) :
    wp (perform rt g (.enrolTotp userId))
      (Outcome rt state (.enrolTotp userId) g) state := by
  simp only [perform, enrolTotp, wp_map, wp_bind, wp_onProvider]
  apply wp_enrolTotp
  · intro failure
    exact .silent (recorded_nil rfl rfl) (by rintro _ ⟨⟩) id
  · intro stored enrolled hs
    cases enrolled with
    | error failure => exact .silent (recorded_nil rfl rfl) (by rintro _ ⟨⟩) id
    | ok enrolment =>
        exact wp_record_outcome rt hsink g state (recorded_nil rfl rfl) id (fun _ h => h)
          (fun _ h => h _)

open InMemoryIdentityProvider in
include hsink in
theorem verifyTotp_outcome (state : ServiceState Hash Uuid) (userId code : String)
    (ipAddress : Option String) :
    wp (perform rt g (.verifyTotp userId code ipAddress))
      (Outcome rt state (.verifyTotp userId code ipAddress) g) state := by
  simp only [perform, verifyTotp, wp_map, wp_bind, wp_onProvider]
  apply wp_verifyTotp
  · intro failure
    exact .silent (recorded_nil rfl rfl) (by rintro _ ⟨⟩) id
  · exact wp_record_outcome rt hsink g state (recorded_nil rfl rfl) id (fun _ h => h)
      (fun _ h => h _)
  · intro stored hs
    exact wp_record_outcome rt hsink g state (recorded_nil rfl rfl) id (fun _ h => h)
      (fun _ h => h _)

open InMemoryIdentityProvider in
include hsink in
theorem disableAccount_outcome (state : ServiceState Hash Uuid) (userId : String)
    (disabledByUserId : Option String) :
    wp (perform rt g (.disableAccount userId disabledByUserId))
      (Outcome rt state (.disableAccount userId disabledByUserId) g) state := by
  simp only [perform, disableAccount, wp_map, wp_bind, wp_onProvider, wp_disableAccount]
  cases state.provider.accounts userId with
  | none => exact .silent (recorded_nil rfl rfl) (by rintro _ ⟨⟩) id
  | some stored =>
      exact wp_record_outcome rt hsink g state (recorded_nil rfl rfl) id (fun _ h => h)
        (fun _ h => h _)

include hsink in
theorem assignRole_outcome (state : ServiceState Hash Uuid) (userId : String)
    (archetype : Archetype) (role : String) (grantedBy customerId : Option String) :
    wp (perform rt g (.assignRole userId archetype role grantedBy customerId))
      (Outcome rt state (.assignRole userId archetype role grantedBy customerId) g) state := by
  simp only [perform, assignRole, wp_map, wp_bind, wp_onConnection]
  apply RoleStore.wp_grantRole
  · intro failure _
    exact .silent (recorded_nil rfl rfl) (by rintro _ ⟨⟩) id
  · intro assignment row next _ _ _ hinsert
    have hrows := (Database.insertAssignment_eq_ok _ _ _ hinsert).2.2
    exact wp_record_outcome rt hsink g state (recorded_nil hrows rfl) id (fun _ h => h)
      (fun _ h => h _)

open InMemoryIdentityProvider in
include hsink in
theorem revokeRole_outcome (state : ServiceState Hash Uuid) (userId role : String)
    (grantedAt : Instant) (revokedBy : Option String) :
    wp (perform rt g (.revokeRole userId role grantedAt revokedBy))
      (Outcome rt state (.revokeRole userId role grantedAt revokedBy) g) state := by
  simp only [perform, revokeRole, wp_map, wp_bind, wp_onConnection]
  apply RoleStore.wp_revokeRole
  · intro failure
    exact .silent (recorded_nil rfl rfl) (by rintro _ ⟨⟩) id
  · intro user rowcount next _ hupdate
    obtain rfl : _ = next := congrArg Prod.snd hupdate
    cases rowcount == 1 with
    | false => exact .silent (recorded_nil rfl rfl) (by rintro _ ⟨⟩) id
    | true =>
        simp only [↓reduceIte, wp_bind, wp_onProvider, wp_revokeAllSessions]
        exact wp_record_outcome rt hsink g state (recorded_nil rfl rfl) id (fun _ h => h)
          (fun _ h => h _)

include hsink in
theorem perform_outcome (call : Call) (state : ServiceState Hash Uuid) :
    wp (perform rt g call) (Outcome rt state call g) state := by
  by_cases hrecorded : unrecorded call = true
  · apply wp_mono (audit_of_unrecorded rt g hrecorded state)
    intro reply next hsame
    have hnone : Recorded state next [] := recorded_nil (by rw [hsame]) (by rw [hsame])
    have hclean : ¬ Spoiled rt state (.call call g) := by
      cases call with
      | authenticate archetype email password ipAddress userAgent => cases hrecorded
      | verifyTotpStrict userId code ipAddress => cases hrecorded
      | _ => exact id
    refine .silent hnone (fun eventType hfails => ?_) hclean
    cases hfails <;> cases hrecorded
  cases call with
  | authenticate archetype email password ipAddress userAgent =>
      exact authenticate_outcome rt hsink g state archetype email password ipAddress userAgent
  | changePassword userId newPassword ipAddress =>
      exact changePassword_outcome rt hsink g state userId newPassword ipAddress
  | revokeSession sessionId userId ipAddress =>
      exact revokeSession_outcome rt hsink g state sessionId userId ipAddress
  | enrolTotp userId => exact enrolTotp_outcome rt hsink g state userId
  | verifyTotp userId code ipAddress =>
      exact verifyTotp_outcome rt hsink g state userId code ipAddress
  | verifyTotpStrict userId code ipAddress =>
      exact verifyTotpStrict_outcome rt hsink g state userId code ipAddress
  | disableAccount userId disabledByUserId =>
      exact disableAccount_outcome rt hsink g state userId disabledByUserId
  | assignRole userId archetype role grantedBy customerId =>
      exact assignRole_outcome rt hsink g state userId archetype role grantedBy customerId
  | revokeRole userId role grantedAt revokedBy =>
      exact revokeRole_outcome rt hsink g state userId role grantedAt revokedBy
  | _ => exact absurd rfl hrecorded

end Perform

-- A failing call that kept its promise: one more committed row, of the kind it names.
def KeepsRow (rt : Runtime Salt Hash Uuid) (state : ServiceState Hash Uuid)
    (entry : Event Salt Uuid × Except Failure Reply) : Prop :=
  ∀ call g eventType, entry.1 = .call call g → Fails call entry.2 eventType →
    ∃ row, (unitOfWork rt state entry.1).2.audit.database.authAuditEvent =
      state.audit.database.authAuditEvent ++ [row] ∧ row.eventType = eventType

section Mirror

variable (rt : Runtime Salt Hash Uuid) (hsink : ∀ mirrored event, rt.emit mirrored event = none)

include hsink in
-- A unit of work treats the table and the sink alike unless it is spoiled.
theorem unitOfWork_outcome (state : ServiceState Hash Uuid) (event : Event Salt Uuid)
    (hwriter : OnlyWriter state event) :
    let next := (unitOfWork rt state event).2
    (¬ Spoiled rt state event ∧ (∃ events, Recorded state next events) ∧
        KeepsRow rt state (event, (unitOfWork rt state event).1)) ∨
      (Spoiled rt state event ∧
        next.audit.database.authAuditEvent = state.audit.database.authAuditEvent ∧
        ∃ row, next.audit.mirrored = state.audit.mirrored ++ [row]) := by
  cases event with
  | database database =>
      refine .inl ⟨id, ⟨[], ?_⟩, ?_⟩
      · exact recorded_nil hwriter rfl
      · rintro call g eventType ⟨⟩
  | call call g =>
      have houtcome := (step_wp rt g call state _).mp (perform_outcome rt hsink g call state)
      have hquiet : ∀ {reply : Except Failure Reply},
          (∀ eventType, ¬ Fails call reply eventType) →
          KeepsRow rt state (.call call g, reply) := by
        rintro reply hnone _ _ eventType ⟨⟩ hfails
        exact absurd hfails (hnone eventType)
      unfold unitOfWork
      rcases hstep : step rt state (.call call g) with ⟨reply, next⟩
      rw [hstep] at houtcome
      cases reply with
      | ok value =>
          simp only
          cases houtcome with
          | silent hrecorded hfails hclean => exact .inl ⟨hclean, ⟨[], hrecorded⟩, hquiet hfails⟩
          | audited row hrecorded hreply hclean =>
              exact .inl ⟨hclean, ⟨[row], hrecorded⟩, hquiet (by rintro _ ⟨⟩)⟩
          | spoiled row hrecorded hreply hspoiled =>
              obtain ⟨failure, hfailure⟩ := hreply
              cases hfailure
      | error failure =>
          cases houtcome with
          | silent hrecorded hfails hclean =>
              refine .inl ⟨hclean, ⟨[], ?_⟩, hquiet hfails⟩
              exact recorded_nil rfl (by simpa using hrecorded.2)
          | audited row hrecorded hreply hclean =>
              obtain ⟨value, hvalue⟩ := hreply
              cases hvalue
          | spoiled row hrecorded hreply hspoiled =>
              exact .inr ⟨hspoiled, rfl, row, hrecorded.2⟩

include hsink in
theorem mirror_run {start last : ServiceState Hash Uuid}
    {trace : List (Event Salt Uuid × Except Failure Reply)} (hrun : UnitRun rt start trace last)
    (hstart : start.audit.mirrored = start.audit.database.authAuditEvent) :
    last.audit.database.authAuditEvent.length ≤ last.audit.mirrored.length ∧
      (last.audit.mirrored = last.audit.database.authAuditEvent ↔
        Run.Each (fun state entry => ¬ Spoiled rt state entry.1) (unitOfWork rt) OnlyWriter
          start trace) := by
  induction hrun with
  | nil =>
      refine ⟨by rw [hstart], iff_of_true hstart (Run.each_nil _ _)⟩
  | @snoc trace state event hrun hwriter ih =>
      obtain ⟨hlength, hequal⟩ := ih
      rw [Run.each_snoc hrun, ← hequal]
      rcases unitOfWork_outcome rt hsink state event hwriter with
        ⟨hclean, ⟨events, hrows, hmirrored⟩, -⟩ | ⟨hspoiled, hrows, row, hmirrored⟩
      · rw [hrows, hmirrored]
        refine ⟨by simpa using hlength, ?_⟩
        simp [hclean]
      · -- The sink is one event ahead from here on.
        rw [hrows, hmirrored]
        refine ⟨by simp only [List.length_append]; omega, ?_⟩
        refine iff_of_false ?_ (fun h => h.2 hspoiled)
        intro h
        have hlonger := congrArg List.length h
        simp only [List.length_append, List.length_singleton] at hlonger
        omega

include hsink in
theorem keepsRow_run {start last : ServiceState Hash Uuid}
    {trace : List (Event Salt Uuid × Except Failure Reply)} (hrun : UnitRun rt start trace last)
    (hclean : Run.Each (fun state entry => ¬ Spoiled rt state entry.1) (unitOfWork rt) OnlyWriter
      start trace) :
    Run.Each (KeepsRow rt) (unitOfWork rt) OnlyWriter start trace := by
  induction hrun with
  | nil => exact Run.each_nil _ _
  | @snoc trace state event hrun hwriter ih =>
      rw [Run.each_snoc hrun] at hclean ⊢
      refine ⟨ih hclean.1, ?_⟩
      rcases unitOfWork_outcome rt hsink state event hwriter with ⟨-, -, hkeeps⟩ | ⟨hspoiled, -⟩
      · exact hkeeps
      · exact absurd hspoiled hclean.2

include hsink in
-- The mirror follows the committed table, and every failed credential leaves its row,
-- exactly in the runs without a call that raises over a row it has recorded.
theorem audit_mirrored_iff {start last : ServiceState Hash Uuid}
    {trace : List (Event Salt Uuid × Except Failure Reply)} (hrun : UnitRun rt start trace last)
    (hstart : start.audit.mirrored = start.audit.database.authAuditEvent) :
    (last.audit.mirrored = last.audit.database.authAuditEvent ∧
      Run.Each (KeepsRow rt) (unitOfWork rt) OnlyWriter start trace) ↔
      Run.Each (fun state entry => ¬ Spoiled rt state entry.1) (unitOfWork rt) OnlyWriter
        start trace := by
  have hmirror := (mirror_run rt hsink hrun hstart).2
  constructor
  · rintro ⟨hequal, -⟩
    exact hmirror.mp hequal
  · intro hclean
    exact ⟨hmirror.mpr hclean, keepsRow_run rt hsink hrun hclean⟩

end Mirror

-- A logout of nobody in particular is recorded and committed.
def afterLogout : ServiceState String String :=
  (unitOfWork .plain noAccounts (.call (.revokeSession "s-1" none none) drawn)).2

theorem audit_mirrored_logout :
    afterLogout.audit.mirrored = afterLogout.audit.database.authAuditEvent ∧
      afterLogout.audit.mirrored.length = 1 := by
  have hstart : UnitRun .plain noAccounts [] noAccounts := .nil
  have hrun := hstart.snoc (.call (.revokeSession "s-1" none none) drawn) (by trivial)
  have hclean := (Run.each_snoc hstart (.call (.revokeSession "s-1" none none) drawn,
      (unitOfWork .plain noAccounts (.call (.revokeSession "s-1" none none) drawn)).1)).mpr
    ⟨Run.each_nil (fun state entry => ¬ Spoiled .plain state entry.1) _, id⟩
  have hmirrored := ((audit_mirrored_iff .plain (fun _ _ => rfl) hrun rfl).mpr hclean).1
  exact ⟨hmirrored, rfl⟩

-- The failed login of an unknown address: the sink has the event, the table does not.
theorem failed_login_rolled_back :
    ∃ last, UnitRun .plain noAccounts
        [(.call (.authenticate .OPERATOR ghost "guess" none none) drawn,
          .error authenticationFailedDefault)] last ∧
      last.audit.database.authAuditEvent = [] ∧
      last.audit.mirrored = [loginFailure drawn .OPERATOR ghost none none] := by
  have hstart : UnitRun .plain noAccounts [] noAccounts := .nil
  have hrun := hstart.snoc
    (.call (.authenticate .OPERATOR ghost "guess" none none) drawn) (by trivial)
  exact ⟨_, hrun, rfl, rfl⟩

end AuthService

end TrustlistCore.Auth
