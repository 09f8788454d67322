import TrustlistCore.Auth.AuditMirror
import TrustlistCore.Auth.GrantLedger
import TrustlistCore.Auth.LoginFlow

namespace TrustlistCore.Auth.AuthService

open Library InMemoryIdentityProvider

variable {Salt Hash Uuid : Type} [DecidableEq Uuid]

-- The user and the code of a call that checks one.
def challenge : Call → Option (String × String)
  | .verifyTotp userId code _ => some (userId, code)
  | .verifyTotpStrict userId code _ => some (userId, code)
  | _ => none

-- The user has a stored secret, against which the code does or does not verify.
def Challenged (rt : Runtime Salt Hash Uuid) (g : Generated Salt)
    (before : ServiceState Hash Uuid) (call : Call) (row : AuditEvent) (verified : Bool) : Prop :=
  ∃ userId code stored secret, challenge call = some (userId, code) ∧ row.userId = some userId ∧
    before.provider.accounts userId = some stored ∧ stored.totpSecret = some secret ∧
      totpAccepts rt secret code g.now = verified

-- What a row says, of the call that wrote it.
def Reports (rt : Runtime Salt Hash Uuid) (g : Generated Salt)
    (before after : ServiceState Hash Uuid) (call : Call) (row : AuditEvent) : Prop :=
  match row.eventType with
  | .LOGIN_SUCCESS => ∃ archetype email password ipAddress userAgent userId stored,
      call = .authenticate archetype email password ipAddress userAgent ∧
        row.userId = some userId ∧
        before.provider.emailIndex (archetype, rt.lowered email) = some userId ∧
        before.provider.accounts userId = some stored ∧
        rt.verify stored.passwordHash password = true ∧ stored.disabled = false
  | .LOGIN_FAILURE => ∃ archetype email password ipAddress userAgent,
      call = .authenticate archetype email password ipAddress userAgent ∧ row.userId = none ∧
        ¬ before.provider.Accepts rt archetype email password
  | .MFA_CHALLENGE_ISSUED => ∃ userId stored, call = .enrolTotp userId ∧
      row.userId = some userId ∧ after.provider.accounts userId = some stored ∧
        stored.totpSecret = some g.totpSecret
  | .MFA_CHALLENGE_SUCCESS => Challenged rt g before call row true
  | .MFA_CHALLENGE_FAILURE => Challenged rt g before call row false
  | .PASSWORD_CHANGE => ∃ userId newPassword ipAddress stored,
      call = .changePassword userId newPassword ipAddress ∧ row.userId = some userId ∧
        before.provider.accounts userId = some stored ∧
        after.provider.accounts userId =
          some { stored with passwordHash := rt.hash g.salt newPassword } ∧
        ∀ sessionId record, before.provider.sessions sessionId = some record →
          record.userId = userId →
            after.provider.sessions sessionId = some { record with revoked := true }
  | .SESSION_REVOKE => ∃ sessionId userId ipAddress record,
      call = .revokeSession sessionId userId ipAddress ∧
        row.eventDetails = [("session_id", .text sessionId)] ∧
        before.provider.sessions sessionId = some record ∧
        after.provider.sessions sessionId = some { record with revoked := true }
  | .ACCOUNT_DISABLE => ∃ userId disabledByUserId stored,
      call = .disableAccount userId disabledByUserId ∧ row.userId = some userId ∧
        before.provider.accounts userId = some stored ∧
        after.provider.accounts userId = some { stored with disabled := true }
  | .ROLE_GRANT => ∃ userId archetype role grantedBy customerId inserted,
      call = .assignRole userId archetype role grantedBy customerId ∧ row.userId = some userId ∧
        ("role", .text role) ∈ row.eventDetails ∧
        rt.uuid userId = some inserted.userId ∧ inserted.role = role ∧ inserted.revokedAt = none ∧
        after.audit.database.userRoleAssignment =
          before.audit.database.userRoleAssignment ++ [inserted]
  | .ROLE_REVOKE => ∃ userId role grantedAt revokedBy user live,
      call = .revokeRole userId role grantedAt revokedBy ∧ row.userId = some userId ∧
        ("role", .text role) ∈ row.eventDetails ∧ rt.uuid userId = some user ∧
        live.key = (user, role, grantedAt) ∧ live.revokedAt = none ∧
        live ∈ before.audit.database.userRoleAssignment ∧
        { live with revokedAt := some g.now } ∈ after.audit.database.userRoleAssignment

-- Every row that a step writes is a true one.
def Reporting (rt : Runtime Salt Hash Uuid) (state : ServiceState Hash Uuid)
    (entry : Event Salt Uuid × Except Failure Reply) : Prop :=
  ∀ call g, entry.1 = .call call g →
    ∃ rows, (step rt state entry.1).2.audit.database.authAuditEvent =
        state.audit.database.authAuditEvent ++ rows ∧
      ∀ row ∈ rows, Reports rt g state (step rt state entry.1).2 call row

def sessionRevoke (g : Generated Salt) (sessionId : String) (userId ipAddress : Option String) :
    AuditEvent :=
  AuditTrail.entry g .SESSION_REVOKE userId ipAddress none [("session_id", .text sessionId)]

-- The logout of a session that the provider does not have, with a row that is not refused.
def Unfounded (rt : Runtime Salt Hash Uuid) (state : ServiceState Hash Uuid) :
    Event Salt Uuid → Prop
  | .call (.revokeSession sessionId userId ipAddress) g =>
      state.provider.sessions sessionId = none ∧
        ∃ next, AuditTrail.insertion rt state.audit.database
          (sessionRevoke g sessionId userId ipAddress) = .ok next
  | _ => False

-- What a call leaves in the audit table.
inductive Written (rt : Runtime Salt Hash Uuid) (g : Generated Salt)
    (before : ServiceState Hash Uuid) (call : Call) (after : ServiceState Hash Uuid) : Prop
  | silent (hclean : ¬ Unfounded rt before (.call call g))
      (hrows : after.audit.database.authAuditEvent = before.audit.database.authAuditEvent)
  | reports (hclean : ¬ Unfounded rt before (.call call g)) (row : AuditEvent)
      (hrows : after.audit.database.authAuditEvent =
        before.audit.database.authAuditEvent ++ [row])
      (hreports : Reports rt g before after call row)
  | unfounded (hunfounded : Unfounded rt before (.call call g)) (row : AuditEvent)
      (hrows : after.audit.database.authAuditEvent =
        before.audit.database.authAuditEvent ++ [row])
      (hnot : ¬ Reports rt g before after call row)

section Perform

variable (rt : Runtime Salt Hash Uuid) (g : Generated Salt)

-- Whatever the sink does, the row is in the table or was refused.
theorem wp_record_cases {Q : Except Failure Unit → ServiceState Hash Uuid → Prop}
    {eventType : AuthEventType} {userId ipAddress userAgent : Option String}
    {details : List (String × Detail)} {state : ServiceState Hash Uuid}
    (hrefused : ∀ failure, AuditTrail.insertion rt state.audit.database
      (AuditTrail.entry g eventType userId ipAddress userAgent details) = .error failure →
        Q (.error failure) state)
    (hinserted : ∀ answer audit, AuditTrail.insertion rt state.audit.database
      (AuditTrail.entry g eventType userId ipAddress userAgent details) = .ok audit.database →
        Q answer { state with audit := audit }) :
    wp (record rt g eventType userId ipAddress userAgent details) Q state := by
  unfold record onAudit
  rw [bind_pure_comp, wp_map, wp_zoom, AuditTrail.wp_record_iff]
  simp only
  cases hinsertion : AuditTrail.insertion rt state.audit.database _ with
  | error failure => exact hrefused failure hinsertion
  | ok next =>
      simp only
      cases rt.emit state.audit.mirrored _ with
      | none => exact hinserted _ ⟨next, _⟩ hinsertion
      | some failure => exact hinserted _ ⟨next, _⟩ hinsertion

theorem sameTable_of_insertion {database next : Database Uuid} {event : AuditEvent}
    (h : AuditTrail.insertion rt database event = .ok next) :
    next.userRoleAssignment = database.userRoleAssignment := by
  unfold AuditTrail.insertion at h
  split_ifs at h
  exact (Database.insertAuditEvent_eq_ok _ _ _ _ _ h).1

-- A record after the action: the row tells of what is already done.
theorem wp_record_written (state : ServiceState Hash Uuid) (call : Call)
    {between : ServiceState Hash Uuid}
    {Q : Except Failure Unit → ServiceState Hash Uuid → Prop} {eventType : AuthEventType}
    {userId ipAddress userAgent : Option String} {details : List (String × Detail)}
    (hclean : ¬ Unfounded rt state (.call call g))
    (hsame : between.audit.database.authAuditEvent = state.audit.database.authAuditEvent)
    (hreports : ∀ audit : AuditState Uuid,
      audit.database.userRoleAssignment = between.audit.database.userRoleAssignment →
        Reports rt g state { between with audit := audit } call
          (AuditTrail.entry g eventType userId ipAddress userAgent details))
    (h : ∀ answer next, Written rt g state call next → Q answer next) :
    wp (record rt g eventType userId ipAddress userAgent details) Q between := by
  apply wp_record_cases
  · intro failure _
    exact h _ _ (.silent hclean hsame)
  · intro answer audit hinsertion
    refine h _ _ (.reports hclean _ ?_ (hreports audit (sameTable_of_insertion rt hinsertion)))
    rw [← hsame]
    exact AuditTrail.insertion_eq_ok hinsertion

-- A row of `login_success` names the account that the email resolves to.
theorem authenticate_written (state : ServiceState Hash Uuid)
    (hkeyed : ∀ userId stored, state.provider.accounts userId = some stored →
      stored.userId = userId) (archetype : Archetype) (email : Text) (password : String)
    (ipAddress userAgent : Option String) :
    wp (perform rt g (.authenticate archetype email password ipAddress userAgent))
      (fun _ next => Written rt g state
        (.authenticate archetype email password ipAddress userAgent) next) state := by
  have hfailure (hrefused : ¬ state.provider.Accepts rt archetype email password)
      (failure : Failure) :
      wp (do
        record rt g .LOGIN_FAILURE none ipAddress userAgent
          [("archetype", .text archetype.value), ("email", .str email)]
        throw failure : ServiceMethod Hash Uuid ProviderUser) (fun _ next => Written rt g state
          (.authenticate archetype email password ipAddress userAgent) next) state := by
    rw [wp_bind]
    refine wp_record_written rt g state
      (.authenticate archetype email password ipAddress userAgent) id rfl ?_ ?_
    · intro audit _
      exact ⟨archetype, email, password, ipAddress, userAgent, rfl, rfl, hrefused⟩
    · intro answer next hwritten
      cases answer <;> exact hwritten
  have hsuccess {userId : String} {stored : Account Hash}
      (hindex : state.provider.emailIndex (archetype, rt.lowered email) = some userId)
      (hstored : state.provider.accounts userId = some stored)
      (hverify : rt.verify stored.passwordHash password = true)
      (henabled : stored.disabled = false) (provider : InMemoryIdentityProvider Hash) :
      wp (do
        record rt g .LOGIN_SUCCESS (some stored.view.userId) ipAddress userAgent
          [("archetype", .text archetype.value)]
        return stored.view : ServiceMethod Hash Uuid ProviderUser) (fun _ next => Written rt g state
          (.authenticate archetype email password ipAddress userAgent) next)
        { state with provider := provider } := by
    rw [wp_bind]
    refine wp_record_written rt g state
      (.authenticate archetype email password ipAddress userAgent) id rfl ?_ ?_
    · intro audit _
      have hid : stored.view.userId = userId := hkeyed userId stored hstored
      rw [hid]
      exact ⟨archetype, email, password, ipAddress, userAgent, userId, stored, rfl, rfl, hindex,
        hstored, hverify, henabled⟩
    · intro answer next hwritten
      cases answer <;> exact hwritten
  rw [perform, wp_map, authenticate, wp_bind, wp_catching, wp_onProvider,
    wp_authenticate_ofString_iff]
  cases hindex : state.provider.emailIndex (archetype, rt.lowered email) with
  | none =>
      refine hfailure ?_ _
      rintro ⟨userId, stored, hfound, -⟩
      cases hindex.symm.trans hfound
  | some userId =>
      simp only
      cases hstored : state.provider.accounts userId with
      | none =>
          refine hfailure ?_ _
          rintro ⟨other, stored, hfound, haccount, -⟩
          cases hindex.symm.trans hfound
          cases hstored.symm.trans haccount
      | some stored =>
          have hrefused (h : ¬ (rt.verify stored.passwordHash password = true ∧
              stored.disabled = false)) : ¬ state.provider.Accepts rt archetype email password := by
            rintro ⟨other, account, hfound, haccount, haccepted⟩
            cases hindex.symm.trans hfound
            cases hstored.symm.trans haccount
            exact h haccepted
          simp only
          split_ifs with hverify hdisabled hneeds
          · exact hfailure (hrefused (by simp [hverify])) _
          · exact hfailure (hrefused (by simp [hdisabled])) _
          · exact hsuccess hindex hstored (by simpa using hverify) (by simpa using hdisabled) _
          · exact hsuccess hindex hstored (by simpa using hverify) (by simpa using hdisabled) _

theorem challenge_written (state : ServiceState Hash Uuid) {call : Call} {userId code : String}
    (hcall : challenge call = some (userId, code)) (ipAddress : Option String) :
    wp (verifyTotp rt g userId code ipAddress) (fun _ next => Written rt g state call next)
      state := by
  have hclean : ¬ Unfounded rt state (.call call g) := by
    cases call with
    | revokeSession sessionId userId ipAddress => cases hcall
    | _ => exact id
  simp only [verifyTotp, wp_bind, wp_onProvider, wp_verifyTotp_iff]
  cases hstored : state.provider.accounts userId with
  | none => exact .silent hclean rfl
  | some stored =>
      cases hsecret : stored.totpSecret with
      | none =>
          simp only [hsecret]
          exact .silent hclean rfl
      | some secret =>
          have hchallenged {verified : Bool} (row : AuditEvent) (hrow : row.userId = some userId)
              (hcode : totpAccepts rt secret code g.now = verified) :
              Challenged rt g state call row verified :=
            ⟨userId, code, stored, secret, hcall, hrow, hstored, hsecret, hcode⟩
          simp only [hsecret]
          by_cases hcode : totpAccepts rt secret code g.now
          · simp only [hcode, if_true]
            refine wp_record_written rt g state _ hclean rfl ?_ ?_
            · intro audit _
              exact hchallenged _ rfl hcode
            · intro answer next hwritten
              cases answer <;> exact hwritten
          · simp only [hcode, Bool.false_eq_true, if_false]
            refine wp_record_written rt g state _ hclean rfl ?_ ?_
            · intro audit _
              exact hchallenged _ rfl (Bool.eq_false_iff.mpr hcode)
            · intro answer next hwritten
              cases answer <;> exact hwritten

-- The row is written whether or not there was a session.
theorem revokeSession_written (state : ServiceState Hash Uuid) (sessionId : String)
    (userId ipAddress : Option String) :
    wp (perform rt g (.revokeSession sessionId userId ipAddress))
      (fun _ next => Written rt g state (.revokeSession sessionId userId ipAddress) next)
      state := by
  simp only [perform, revokeSession, wp_map, wp_bind, wp_onProvider, wp_revokeSession]
  cases hsession : state.provider.sessions sessionId with
  | some session =>
      have hclean : ¬ Unfounded rt state (.call (.revokeSession sessionId userId ipAddress) g) := by
        rintro ⟨hnone, -⟩
        rw [hsession] at hnone
        cases hnone
      refine wp_record_written rt g state _ hclean rfl ?_ ?_
      · intro audit _
        exact ⟨sessionId, userId, ipAddress, session, rfl, rfl, hsession, by simp⟩
      · exact fun _ _ hwritten => hwritten
  | none =>
      apply wp_record_cases
      · intro failure hrefused
        refine .silent ?_ rfl
        rintro ⟨-, next, hnext⟩
        cases hrefused.symm.trans hnext
      · intro answer audit hinsertion
        refine .unfounded ⟨hsession, audit.database, hinsertion⟩ _
          (AuditTrail.insertion_eq_ok hinsertion) ?_
        rintro ⟨_, _, _, session, hcall, -, hrecord, -⟩
        cases hcall
        cases hsession.symm.trans hrecord

theorem changePassword_written (state : ServiceState Hash Uuid) (userId newPassword : String)
    (ipAddress : Option String) :
    wp (perform rt g (.changePassword userId newPassword ipAddress))
      (fun _ next => Written rt g state (.changePassword userId newPassword ipAddress) next)
      state := by
  simp only [perform, changePassword, wp_map, wp_bind, wp_onProvider, wp_changePassword_ofString,
    wp_revokeAllSessions]
  cases hstored : state.provider.accounts userId with
  | none => exact .silent id rfl
  | some stored =>
      refine wp_record_written rt g state (.changePassword userId newPassword ipAddress) id
        rfl ?_ ?_
      · intro audit _
        refine ⟨userId, newPassword, ipAddress, stored, rfl, rfl, hstored, by simp, ?_⟩
        intro sessionId session hsession howned
        simp [hsession, revokeIfOwned, howned]
      · exact fun _ _ hwritten => hwritten

theorem enrolTotp_written (state : ServiceState Hash Uuid) (userId : String) :
    wp (perform rt g (.enrolTotp userId))
      (fun _ next => Written rt g state (.enrolTotp userId) next) state := by
  simp only [perform, enrolTotp, wp_map, wp_bind, wp_onProvider]
  apply wp_enrolTotp
  · intro failure
    exact .silent id rfl
  · intro stored enrolled _
    cases enrolled with
    | error failure => exact .silent id rfl
    | ok enrolment =>
        refine wp_record_written rt g state (.enrolTotp userId) id rfl ?_ ?_
        · intro audit _
          exact ⟨userId, _, rfl, rfl, by simp; rfl, rfl⟩
        · intro answer next hwritten
          cases answer <;> exact hwritten

theorem verifyTotpStrict_written (state : ServiceState Hash Uuid) (userId code : String)
    (ipAddress : Option String) :
    wp (perform rt g (.verifyTotpStrict userId code ipAddress))
      (fun _ next => Written rt g state (.verifyTotpStrict userId code ipAddress) next) state := by
  have hcall : challenge (.verifyTotpStrict userId code ipAddress) = some (userId, code) := rfl
  rw [perform, wp_map, verifyTotpStrict, wp_bind]
  apply wp_mono (challenge_written rt g state hcall ipAddress)
  intro answer next hwritten
  cases answer with
  | error failure => exact hwritten
  | ok verified => cases verified <;> exact hwritten

theorem disableAccount_written (state : ServiceState Hash Uuid) (userId : String)
    (disabledByUserId : Option String) :
    wp (perform rt g (.disableAccount userId disabledByUserId))
      (fun _ next => Written rt g state (.disableAccount userId disabledByUserId) next) state := by
  simp only [perform, disableAccount, wp_map, wp_bind, wp_onProvider, wp_disableAccount]
  cases hstored : state.provider.accounts userId with
  | none => exact .silent id rfl
  | some stored =>
      refine wp_record_written rt g state (.disableAccount userId disabledByUserId) id rfl ?_ ?_
      · intro audit _
        exact ⟨userId, disabledByUserId, stored, rfl, rfl, hstored, by simp⟩
      · exact fun _ _ hwritten => hwritten

theorem assignRole_written (state : ServiceState Hash Uuid) (userId : String)
    (archetype : Archetype) (role : String) (grantedBy customerId : Option String) :
    wp (perform rt g (.assignRole userId archetype role grantedBy customerId))
      (fun _ next => Written rt g state (.assignRole userId archetype role grantedBy customerId) next)
      state := by
  simp only [perform, assignRole, wp_map, wp_bind, wp_onConnection]
  apply RoleStore.wp_grantRole
  · intro failure _
    exact .silent id rfl
  · intro assignment inserted next hassignment hbind _ hinsert
    obtain ⟨htable, -, hrows⟩ := Database.insertAssignment_eq_ok _ _ _ hinsert
    have hbound := RoleStore.bindAssignment_eq_ok hbind
    rw [hassignment] at hbound
    refine wp_record_written rt g state
      (.assignRole userId archetype role grantedBy customerId) id hrows ?_ ?_
    · intro audit hsame
      exact ⟨userId, archetype, role, grantedBy, customerId, inserted, rfl, rfl,
        List.mem_cons_self, hbound.userId, hbound.role, hbound.revokedAt, hsame.trans htable⟩
    · intro answer next hwritten
      cases answer <;> exact hwritten

theorem revokeRole_written (state : ServiceState Hash Uuid) (userId role : String)
    (grantedAt : Instant) (revokedBy : Option String) :
    wp (perform rt g (.revokeRole userId role grantedAt revokedBy))
      (fun _ next => Written rt g state (.revokeRole userId role grantedAt revokedBy) next)
      state := by
  simp only [perform, revokeRole, wp_map, wp_bind, wp_onConnection]
  apply RoleStore.wp_revokeRole
  · intro failure
    exact .silent id rfl
  · intro user rowcount next huser hupdate
    obtain rfl : _ = next := congrArg Prod.snd hupdate
    by_cases hone : rowcount = 1
    · have hcount : (state.audit.database.updateRevoked user role grantedAt g.now).1 = 1 :=
        (congrArg Prod.fst hupdate).trans hone
      obtain ⟨live, hmem, hkey, hlive⟩ :=
        (RoleStore.rowcount_eq_one_iff _ _ _ _ _).mp hcount
      simp only [hone, beq_self_eq_true, if_true, wp_bind, wp_onProvider, wp_revokeAllSessions]
      refine wp_record_written rt g state (.revokeRole userId role grantedAt revokedBy) id rfl
        ?_ ?_
      · intro audit hsame
        refine ⟨userId, role, grantedAt, revokedBy, user, live, rfl, rfl, List.mem_cons_self,
          huser, hkey, hlive, hmem, ?_⟩
        rw [hsame]
        refine List.mem_map.mpr ⟨live, hmem, if_pos ?_⟩
        simp [Database.namesLive, hkey, hlive]
      · intro answer next hwritten
        cases answer <;> exact hwritten
    · simp only [beq_eq_false_iff_ne.mpr hone, Bool.false_eq_true, if_false]
      exact .silent id rfl

theorem perform_written (state : ServiceState Hash Uuid)
    (hkeyed : ∀ userId stored, state.provider.accounts userId = some stored →
      stored.userId = userId) (call : Call) :
    wp (perform rt g call) (fun _ next => Written rt g state call next) state := by
  by_cases hrecorded : unrecorded call = true
  · have hclean : ¬ Unfounded rt state (.call call g) := by
      cases call with
      | revokeSession sessionId userId ipAddress => cases hrecorded
      | _ => exact id
    apply wp_mono (audit_of_unrecorded rt g hrecorded state)
    intro _ next hsame
    exact .silent hclean (by rw [hsame])
  cases call with
  | authenticate archetype email password ipAddress userAgent =>
      exact authenticate_written rt g state hkeyed archetype email password ipAddress userAgent
  | revokeSession sessionId userId ipAddress =>
      exact revokeSession_written rt g state sessionId userId ipAddress
  | changePassword userId newPassword ipAddress =>
      exact changePassword_written rt g state userId newPassword ipAddress
  | enrolTotp userId => exact enrolTotp_written rt g state userId
  | verifyTotp userId code ipAddress =>
      rw [perform, wp_map]
      exact challenge_written rt g state rfl ipAddress
  | verifyTotpStrict userId code ipAddress =>
      exact verifyTotpStrict_written rt g state userId code ipAddress
  | disableAccount userId disabledByUserId =>
      exact disableAccount_written rt g state userId disabledByUserId
  | assignRole userId archetype role grantedBy customerId =>
      exact assignRole_written rt g state userId archetype role grantedBy customerId
  | revokeRole userId role grantedAt revokedBy =>
      exact revokeRole_written rt g state userId role grantedAt revokedBy
  | _ => exact absurd rfl hrecorded

end Perform

section Runs

variable (rt : Runtime Salt Hash Uuid)

-- One more row that reports nothing is enough to break the step.
theorem reporting_iff {state : ServiceState Hash Uuid} (hhashed : AccountsHashed rt state.provider)
    (entry : Event Salt Uuid × Except Failure Reply) :
    Reporting rt state entry ↔ ¬ Unfounded rt state entry.1 := by
  obtain ⟨event, reply⟩ := entry
  cases event with
  | database database =>
      refine iff_of_true ?_ id
      intro call g hevent
      cases hevent
  | call call g =>
      have hwritten :=
        (step_wp rt g call state _).mp (perform_written rt g state hhashed.keyed call)
      cases hwritten with
      | silent hclean hrows =>
          refine iff_of_true ?_ hclean
          rintro _ _ ⟨⟩
          exact ⟨[], by rw [hrows, List.append_nil], by simp⟩
      | reports hclean row hrows hreports =>
          refine iff_of_true ?_ hclean
          rintro _ _ ⟨⟩
          exact ⟨[row], hrows, by simpa using hreports⟩
      | unfounded hunfounded row hrows hnot =>
          refine iff_of_false ?_ (not_not_intro hunfounded)
          intro hreporting
          obtain ⟨rows, hadded, hall⟩ := hreporting call g rfl
          have hsame : rows = [row] := List.append_cancel_left (hadded.symm.trans hrows)
          exact hnot (hall row (by rw [hsame]; exact List.mem_singleton_self row))

-- From a new provider, over any tables and whatever ids are drawn.
theorem audit_reports_iff (sessionTtl : Int) (audit : AuditState Uuid) (trace : Trace Salt Uuid) :
    let start : ServiceState Hash Uuid := ⟨InMemoryIdentityProvider.init sessionTtl, audit⟩
    Run.Each (Reporting rt) (step rt) (fun _ _ => True) start trace ↔
      Run.Each (fun state entry => ¬ Unfounded rt state entry.1) (step rt) (fun _ _ => True) start
        trace := by
  intro start
  have hstart : AccountsHashed rt start.provider := ⟨by rintro _ _ ⟨⟩, by rintro _ _ ⟨⟩⟩
  have hstep {past : Trace Salt Uuid} {state : ServiceState Hash Uuid}
      (hrun : Run (step rt) (fun _ _ => True) start past state)
      (entry : Event Salt Uuid × Except Failure Reply) :
      Reporting rt state entry ↔ ¬ Unfounded rt state entry.1 := by
    apply reporting_iff
    exact hrun.invariant (P := fun state => AccountsHashed rt state.provider)
      (fun state event h _ => accountsHashed_step rt state event h) hstart
  constructor
  · intro h past entry later state hsplit hrun
    exact (hstep hrun entry).mp (h past entry later state hsplit hrun)
  · intro h past entry later state hsplit hrun
    exact (hstep hrun entry).mpr (h past entry later state hsplit hrun)

end Runs

-- The logout of a session that there never was leaves a row all the same.
theorem logout_unfounded :
    ∃ last, Run (step .plain) (fun _ _ => True) noAccounts
        [(.call (.revokeSession "s-1" none none) drawn, .ok .none)] last ∧
      last.audit.database.authAuditEvent = [sessionRevoke drawn "s-1" none none] ∧
      ¬ Run.Each (Reporting .plain) (step .plain) (fun _ _ => True) noAccounts
        [(.call (.revokeSession "s-1" none none) drawn, .ok .none)] := by
  have hstart : Run (step .plain) (fun _ _ => True) noAccounts [] noAccounts := .nil
  have hrun := hstart.snoc (.call (.revokeSession "s-1" none none) drawn) trivial
  refine ⟨_, hrun, rfl, ?_⟩
  intro h
  have hreporting := h [] _ [] noAccounts rfl .nil
  have hhashed : AccountsHashed .plain noAccounts.provider :=
    ⟨by rintro _ _ ⟨⟩, by rintro _ _ ⟨⟩⟩
  exact (reporting_iff .plain hhashed _).mp hreporting ⟨rfl, _, rfl⟩

end TrustlistCore.Auth.AuthService
