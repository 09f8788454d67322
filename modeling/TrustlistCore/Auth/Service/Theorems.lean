import TrustlistCore.Auth.Service
import TrustlistCore.Auth.FakeProvider.Theorems
import TrustlistCore.Auth.RoleStore.Theorems

namespace TrustlistCore.Auth

open Library

variable {Salt Hash Uuid : Type} [DecidableEq Uuid] {α : Type}

namespace AuditTrail

-- The rows an audit record leaves alone, whether or not it raises.
def SameTables (before after : AuditState Uuid) : Prop :=
  after.database.userRoleAssignment = before.database.userRoleAssignment ∧
    after.database.userAccount = before.database.userAccount

theorem sameTables_insertRow (rt : Runtime Salt Hash Uuid) (event : AuditEvent) :
    Keeps SameTables (insertRow rt event) := by
  intro state
  unfold insertRow
  rw [final_get_bind]
  cases hi : state.database.insertAuditEvent rt.uuid rt.admits event with
  | error failure => exact ⟨rfl, rfl⟩
  | ok next =>
      have hn := Database.insertAuditEvent_eq_ok _ _ _ _ _ hi
      exact ⟨hn.1, hn.2.1⟩

theorem sameTables_emit (rt : Runtime Salt Hash Uuid) (event : AuditEvent) :
    Keeps SameTables (emit rt event) := by
  intro state
  unfold emit
  rw [final_get_bind, final_set_bind]
  cases rt.emit state.mirrored event <;> exact ⟨rfl, rfl⟩

theorem sameTables_record (rt : Runtime Salt Hash Uuid) (eventType : AuthEventType)
    (userId ipAddress userAgent : Option String) (details : List (String × Detail))
    (eventId : String) (now : Instant) :
    Keeps SameTables
      (record rt eventType userId ipAddress userAgent details eventId now) := by
  have hrefl : ∀ state : AuditState Uuid, SameTables state state := fun _ => ⟨rfl, rfl⟩
  have htrans : ∀ first middle last : AuditState Uuid,
      SameTables first middle → SameTables middle last → SameTables first last :=
    fun _ _ _ hf hl => ⟨hl.1.trans hf.1, hl.2.trans hf.2⟩
  unfold record
  simp only
  split
  · exact fun state => hrefl state
  · apply Keeps.bind htrans (sameTables_insertRow rt _)
    intro _
    apply Keeps.bind htrans (sameTables_emit rt _)
    intro _
    exact Keeps.pure hrefl _

end AuditTrail

namespace AuthService

@[simp] theorem wp_onProvider {Q : Except Failure α → ServiceState Hash Uuid → Prop}
    (method : ProviderMethod Hash α) (state : ServiceState Hash Uuid) :
    wp (onProvider method) Q state ↔
      wp method (fun answer provider => Q answer { state with provider := provider })
        state.provider := by
  unfold onProvider
  rw [wp_zoom]

@[simp] theorem wp_onConnection {Q : Except Failure α → ServiceState Hash Uuid → Prop}
    (method : Transaction Uuid α) (state : ServiceState Hash Uuid) :
    wp (onConnection method) Q state ↔
      wp method (fun answer database =>
        Q answer { state with audit := { state.audit with database := database } })
        state.audit.database := by
  unfold onConnection onAudit
  rw [wp_zoom, wp_zoom]

-- Recording writes audit rows and hands events to the sink, and does nothing else.
theorem wp_record (rt : Runtime Salt Hash Uuid) (g : Generated Salt)
    {Q : Except Failure Unit → ServiceState Hash Uuid → Prop} (eventType : AuthEventType)
    (userId ipAddress userAgent : Option String) (details : List (String × Detail))
    (state : ServiceState Hash Uuid)
    (h : ∀ answer audit, AuditTrail.SameTables state.audit audit →
      Q answer { state with audit := audit }) :
    wp (record rt g eventType userId ipAddress userAgent details) Q state := by
  have hk := AuditTrail.sameTables_record rt eventType userId ipAddress userAgent details
    g.eventId g.auditNow state.audit
  unfold record onAudit
  rw [bind_pure_comp, wp_map, wp_zoom]
  apply wp_mono ((wp_final _ (AuditTrail.SameTables state.audit)).mpr hk)
  intro answer audit hsame
  exact h _ audit hsame

-- The calls whose normal return promises a change of the provider.
def acts : Call → Except Failure Reply → Bool
  | .register _ _ _, .ok _ => true
  | .changePassword _ _ _, .ok _ => true
  | .issueSession _ _, .ok _ => true
  | .disableAccount _ _, .ok _ => true
  | .revokeRole _ _ _ _, .ok (.bool true) => true
  | _, _ => false

-- Everything one call can do to the provider. A call can raise after its effect,
-- when recording it fails, so only `idle` and `account` look at the reply.
inductive Effect (rt : Runtime Salt Hash Uuid) (g : Generated Salt)
    (before : InMemoryIdentityProvider Hash) :
    Call → Except Failure Reply → InMemoryIdentityProvider Hash → Prop
  | idle {call : Call} {reply : Except Failure Reply} (hacts : acts call reply = false) :
      Effect rt g before call reply before
  | account {call : Call} {reply : Except Failure Reply} {userId : String}
      {stored updated : Account Hash} (hacts : acts call reply = false)
      (hstored : before.accounts userId = some stored) (huser : updated.userId = stored.userId)
      (hhash : updated.passwordHash = stored.passwordHash) :
      Effect rt g before call reply
        (before.withAccount userId updated)
  | register {archetype : Archetype} {email : Text} {password : String}
      {reply : Except Failure Reply} :
      Effect rt g before (.register archetype email password) reply
        { before.withAccount g.uuid4
            { userId := g.uuid4, archetype := archetype, email := email,
              passwordHash := rt.hash g.salt password } with
          emailIndex :=
            Function.update before.emailIndex (archetype, rt.lowered email) (some g.uuid4) }
  | rehash {archetype : Archetype} {email : Text} {password : String}
      {ipAddress userAgent : Option String} {reply : Except Failure Reply} {userId : String}
      {stored : Account Hash}
      (hstored : before.accounts userId = some stored)
      (hverify : rt.verify stored.passwordHash password = true) :
      Effect rt g before (.authenticate archetype email password ipAddress userAgent) reply
        (before.withAccount userId { stored with passwordHash := rt.hash g.salt password })
  | changePassword {userId newPassword : String} {ipAddress : Option String}
      {reply : Except Failure Reply} {stored : Account Hash}
      (hstored : before.accounts userId = some stored) :
      Effect rt g before (.changePassword userId newPassword ipAddress) reply
        ((before.withAccount userId
          { stored with passwordHash := rt.hash g.salt newPassword }).withAllRevoked userId)
  | disableAccount {userId : String} {disabledByUserId : Option String}
      {reply : Except Failure Reply} {stored : Account Hash}
      (hstored : before.accounts userId = some stored) :
      Effect rt g before (.disableAccount userId disabledByUserId) reply
        ((before.withAccount userId { stored with disabled := true }).withAllRevoked userId)
  | revokeRole {userId role : String} {grantedAt : Instant} {revokedBy : Option String}
      {reply : Except Failure Reply} :
      Effect rt g before (.revokeRole userId role grantedAt revokedBy) reply
        (before.withAllRevoked userId)
  | issueSession {userId : String} {deviceFingerprint : Option String} {stored : Account Hash}
      (hstored : before.accounts userId = some stored) (record : SessionRecord)
      (hrecord : record = { sessionId := g.uuid4, userId := userId, archetype := stored.archetype,
                            issuedAt := g.now, expiresAt := g.now + before.sessionTtl,
                            deviceFingerprint := deviceFingerprint }) :
      Effect rt g before (.issueSession userId deviceFingerprint) (.ok (.session record.view))
        (before.withSession g.uuid4 record)
  | revokeSession {sessionId : String} {userId ipAddress : Option String}
      {reply : Except Failure Reply} {record : SessionRecord}
      (hrecord : before.sessions sessionId = some record) :
      Effect rt g before (.revokeSession sessionId userId ipAddress) reply
        (before.withSession sessionId { record with revoked := true })

theorem step_wp (rt : Runtime Salt Hash Uuid) (g : Generated Salt) (call : Call)
    (state : ServiceState Hash Uuid) (Q : Except Failure Reply → ServiceState Hash Uuid → Prop) :
    wp (perform rt g call) Q state ↔
      Q (step rt state (.call call g)).1 (step rt state (.call call g)).2 := by
  unfold wp step
  simp only
  cases (perform rt g call).run state <;> rfl

-- What one call can do to the table of role grants.
inductive TableEffect (before : List (AssignmentRow Uuid)) :
    Call → List (AssignmentRow Uuid) → Prop
  | same {call : Call} {after : List (AssignmentRow Uuid)} (hsame : after = before) :
      TableEffect before call after
  | grant {userId : String} {archetype : Archetype} {role : String}
      {grantedBy customerId : Option String} {after : List (AssignmentRow Uuid)}
      (row : AssignmentRow Uuid) (harchetype : row.accountArchetype = archetype)
      (hrole : row.role = role) (hknown : (catalogueFor archetype).has role = true)
      (hafter : after = before ++ [row]) :
      TableEffect before (.assignRole userId archetype role grantedBy customerId) after
  | revoke {userId role : String} {grantedAt : Instant} {revokedBy : Option String}
      {after : List (AssignmentRow Uuid)} (user : Uuid) (revokedAt : Instant)
      (hafter : after = before.map (Database.stampRevoked user role grantedAt revokedAt)) :
      TableEffect before (.revokeRole userId role grantedAt revokedBy) after

section Reads

variable (rt : Runtime Salt Hash Uuid) (state : ServiceState Hash Uuid)

theorem state_rolesFor (userId : String) (customerId : Option String) :
    wp (rolesFor rt userId customerId) (fun _ next => next = state) state := by
  unfold rolesFor
  rw [wp_onConnection]
  apply RoleStore.wp_liveRoleIdentifiers
  · intro failure _
    rfl
  · intro held _
    rfl

theorem state_hasPermission (userId : String) (archetype : Archetype)
    (permission : Permission ⊕ String) (customerId : Option String) :
    wp (hasPermission rt userId archetype permission customerId) (fun _ next => next = state)
      state := by
  unfold hasPermission
  rw [wp_bind, wp_ofExcept]
  cases resolvedPermission rt permission with
  | error failure => rfl
  | ok resolved =>
      simp only [wp_bind]
      apply wp_mono (state_rolesFor rt state userId customerId)
      intro answer next hsame
      cases answer with
      | error failure => exact hsame
      | ok held =>
          simp only [wp_ofExcept]
          cases (catalogueFor archetype).hasPermission rt.repr held resolved <;> exact hsame

end Reads

-- What one call may do, to the provider and to the table of the grants.
structure Performed (rt : Runtime Salt Hash Uuid) (g : Generated Salt)
    (before : ServiceState Hash Uuid) (call : Call) (reply : Except Failure Reply)
    (after : ServiceState Hash Uuid) : Prop where
  provider : Effect rt g before.provider call reply after.provider
  table : TableEffect before.audit.database.userRoleAssignment call
    after.audit.database.userRoleAssignment

section Methods

open InMemoryIdentityProvider

variable (rt : Runtime Salt Hash Uuid) (g : Generated Salt) (state : ServiceState Hash Uuid)

theorem register_performed (archetype : Archetype) (email : Text) (password : String) :
    wp (perform rt g (.register archetype email password))
      (Performed rt g state (.register archetype email password)) state := by
  simp only [perform, register, wp_map, wp_onProvider, wp_register_ofString]
  split
  · exact ⟨.idle rfl, .same rfl⟩
  · exact ⟨.register, .same rfl⟩

theorem markEmailVerified_performed (userId : String) :
    wp (perform rt g (.markEmailVerified userId))
      (Performed rt g state (.markEmailVerified userId)) state := by
  simp only [perform, markEmailVerified, wp_map, wp_onProvider, wp_markEmailVerified]
  cases hs : state.provider.accounts userId with
  | none => exact ⟨.idle rfl, .same rfl⟩
  | some stored => exact ⟨.account rfl hs rfl rfl, .same rfl⟩

theorem authenticate_performed (archetype : Archetype) (email : Text) (password : String)
    (ipAddress userAgent : Option String) :
    wp (perform rt g (.authenticate archetype email password ipAddress userAgent))
      (Performed rt g state (.authenticate archetype email password ipAddress userAgent))
      state := by
  simp only [perform, authenticate, wp_map, wp_bind, wp_catching, wp_onProvider]
  apply wp_authenticate
  · intro failure
    simp only [wp_bind]
    apply wp_record
    intro answer audit hsame
    cases answer <;> exact ⟨.idle rfl, .same hsame.1⟩
  · intro userId stored next _ hs hv hn
    simp only [wp_bind]
    apply wp_record
    intro answer audit hsame
    rcases hn with rfl | rfl
    · cases answer <;> exact ⟨.idle rfl, .same hsame.1⟩
    · cases answer <;> exact ⟨.rehash hs hv, .same hsame.1⟩

theorem changePassword_performed (userId newPassword : String) (ipAddress : Option String) :
    wp (perform rt g (.changePassword userId newPassword ipAddress))
      (Performed rt g state (.changePassword userId newPassword ipAddress)) state := by
  simp only [perform, changePassword, wp_map, wp_bind, wp_onProvider, wp_changePassword_ofString,
    wp_revokeAllSessions]
  cases hs : state.provider.accounts userId with
  | none => exact ⟨.idle rfl, .same rfl⟩
  | some stored =>
      apply wp_record
      intro answer audit hsame
      exact ⟨.changePassword hs, .same hsame.1⟩

theorem issueSession_performed (userId : String) (deviceFingerprint : Option String) :
    wp (perform rt g (.issueSession userId deviceFingerprint))
      (Performed rt g state (.issueSession userId deviceFingerprint)) state := by
  simp only [perform, issueSession, wp_map, wp_onProvider, wp_issueSession]
  cases hs : state.provider.accounts userId with
  | none => exact ⟨.idle rfl, .same rfl⟩
  | some stored =>
      cases hd : stored.disabled with
      | true =>
          simp only [hd]
          exact ⟨.idle rfl, .same rfl⟩
      | false =>
          simp only [hd]
          exact ⟨.issueSession hs _ rfl, .same rfl⟩

theorem getSession_performed (sessionId : String) :
    wp (perform rt g (.getSession sessionId))
      (Performed rt g state (.getSession sessionId)) state := by
  simp only [perform, getSession, wp_map, wp_onProvider, wp_getSession]
  cases hr : state.provider.sessions sessionId with
  | none => exact ⟨.idle rfl, .same rfl⟩
  | some record =>
      simp only
      split_ifs <;> exact ⟨.idle rfl, .same rfl⟩

theorem revokeSession_performed (sessionId : String) (userId ipAddress : Option String) :
    wp (perform rt g (.revokeSession sessionId userId ipAddress))
      (Performed rt g state (.revokeSession sessionId userId ipAddress)) state := by
  simp only [perform, revokeSession, wp_map, wp_bind, wp_onProvider, wp_revokeSession]
  cases hr : state.provider.sessions sessionId with
  | none =>
      apply wp_record
      intro answer audit hsame
      exact ⟨.idle rfl, .same hsame.1⟩
  | some record =>
      apply wp_record
      intro answer audit hsame
      exact ⟨.revokeSession hr, .same hsame.1⟩

theorem enrolTotp_performed (userId : String) :
    wp (perform rt g (.enrolTotp userId))
      (Performed rt g state (.enrolTotp userId)) state := by
  simp only [perform, enrolTotp, wp_map, wp_bind, wp_onProvider]
  apply wp_enrolTotp
  · intro failure
    exact ⟨.idle rfl, .same rfl⟩
  · intro stored enrolled hs
    cases enrolled with
    | error failure => exact ⟨.account rfl hs rfl rfl, .same rfl⟩
    | ok enrolment =>
        apply wp_record
        intro answer audit hsame
        cases answer <;> exact ⟨.account rfl hs rfl rfl, .same hsame.1⟩

-- A code that is checked may confirm the secret, whatever the answer is made into.
theorem verifyTotp_performed {call : Call} (hacts : ∀ reply, acts call reply = false)
    (userId code : String) (ipAddress : Option String) :
    wp (verifyTotp rt g userId code ipAddress)
      (fun _ next => ∀ reply, Performed rt g state call reply next) state := by
  simp only [verifyTotp, wp_bind, wp_onProvider]
  apply wp_verifyTotp
  · intro failure reply
    exact ⟨.idle (hacts reply), .same rfl⟩
  · apply wp_record
    intro answer audit hsame
    cases answer <;> exact fun reply => ⟨.idle (hacts reply), .same hsame.1⟩
  · intro stored hs
    apply wp_record
    intro answer audit hsame
    cases answer <;> exact fun reply => ⟨.account (hacts reply) hs rfl rfl, .same hsame.1⟩

theorem disableAccount_performed (userId : String) (disabledByUserId : Option String) :
    wp (perform rt g (.disableAccount userId disabledByUserId))
      (Performed rt g state (.disableAccount userId disabledByUserId)) state := by
  simp only [perform, disableAccount, wp_map, wp_bind, wp_onProvider, wp_disableAccount]
  cases hs : state.provider.accounts userId with
  | none => exact ⟨.idle rfl, .same rfl⟩
  | some stored =>
      apply wp_record
      intro answer audit hsame
      exact ⟨.disableAccount hs, .same hsame.1⟩

theorem assignRole_performed (userId : String) (archetype : Archetype) (role : String)
    (grantedBy customerId : Option String) :
    wp (perform rt g (.assignRole userId archetype role grantedBy customerId))
      (Performed rt g state (.assignRole userId archetype role grantedBy customerId)) state := by
  simp only [perform, assignRole, wp_map, wp_bind, wp_onConnection]
  apply RoleStore.wp_grantRole
  · intro failure _
    exact ⟨.idle rfl, .same rfl⟩
  · intro assignment row next hassignment hb hknown hinsert
    have hbound := RoleStore.bindAssignment_eq_ok hb
    have hnext := (Database.insertAssignment_eq_ok _ _ _ hinsert).1
    apply wp_record
    intro answer audit hsame
    have htable : TableEffect state.audit.database.userRoleAssignment
        (.assignRole userId archetype role grantedBy customerId)
        audit.database.userRoleAssignment :=
      .grant row (by rw [hbound.accountArchetype, hassignment]; rfl)
        (by rw [hbound.role, hassignment]; rfl) hknown (hsame.1.trans hnext)
    cases answer <;> exact ⟨.idle rfl, htable⟩

theorem revokeRole_performed (userId role : String) (grantedAt : Instant)
    (revokedBy : Option String) :
    wp (perform rt g (.revokeRole userId role grantedAt revokedBy))
      (Performed rt g state (.revokeRole userId role grantedAt revokedBy)) state := by
  simp only [perform, revokeRole, wp_map, wp_bind, wp_onConnection]
  apply RoleStore.wp_revokeRole
  · intro failure
    exact ⟨.idle rfl, .same rfl⟩
  · intro user rowcount next _ hupdate
    obtain rfl : _ = next := congrArg Prod.snd hupdate
    cases rowcount == 1 with
    | false => exact ⟨.idle rfl, .revoke user _ rfl⟩
    | true =>
        simp only [↓reduceIte, wp_bind, wp_onProvider, wp_revokeAllSessions]
        apply wp_record
        intro answer audit hsame
        cases answer <;> exact ⟨.revokeRole, .revoke user _ hsame.1⟩

theorem rolesFor_performed (userId : String) (customerId : Option String) :
    wp (perform rt g (.rolesFor userId customerId))
      (Performed rt g state (.rolesFor userId customerId)) state := by
  rw [perform, wp_map]
  apply wp_mono (state_rolesFor rt state userId customerId)
  rintro answer next rfl
  cases answer <;> exact ⟨.idle rfl, .same rfl⟩

theorem hasPermission_performed (userId : String) (archetype : Archetype)
    (permission : Permission ⊕ String) (customerId : Option String) :
    wp (perform rt g (.hasPermission userId archetype permission customerId))
      (Performed rt g state (.hasPermission userId archetype permission customerId)) state := by
  rw [perform, wp_map]
  apply wp_mono (state_hasPermission rt state userId archetype permission customerId)
  rintro answer next rfl
  cases answer <;> exact ⟨.idle rfl, .same rfl⟩

end Methods

-- The one inversion lemma: every invariant below is read off these two effects.
theorem perform_effects (rt : Runtime Salt Hash Uuid) (g : Generated Salt) (call : Call)
    (state : ServiceState Hash Uuid) :
    wp (perform rt g call) (Performed rt g state call) state := by
  cases call with
  | register archetype email password =>
      exact register_performed rt g state archetype email password
  | markEmailVerified userId =>
      exact markEmailVerified_performed rt g state userId
  | authenticate archetype email password ipAddress userAgent =>
      exact authenticate_performed rt g state archetype email password ipAddress userAgent
  | changePassword userId newPassword ipAddress =>
      exact changePassword_performed rt g state userId newPassword ipAddress
  | issueSession userId deviceFingerprint =>
      exact issueSession_performed rt g state userId deviceFingerprint
  | getSession sessionId =>
      exact getSession_performed rt g state sessionId
  | revokeSession sessionId userId ipAddress =>
      exact revokeSession_performed rt g state sessionId userId ipAddress
  | enrolTotp userId =>
      exact enrolTotp_performed rt g state userId
  | verifyTotp userId code ipAddress =>
      have hacts (reply : Except Failure Reply) :
          acts (.verifyTotp userId code ipAddress) reply = false := rfl
      rw [perform, wp_map]
      apply wp_mono (verifyTotp_performed rt g state hacts userId code ipAddress)
      exact fun _ _ hperformed => hperformed _
  | verifyTotpStrict userId code ipAddress =>
      have hacts (reply : Except Failure Reply) :
          acts (.verifyTotpStrict userId code ipAddress) reply = false := rfl
      rw [perform, wp_map, verifyTotpStrict, wp_bind]
      apply wp_mono (verifyTotp_performed rt g state hacts userId code ipAddress)
      intro answer next hperformed
      cases answer with
      | error failure => exact hperformed _
      | ok verified => cases verified <;> exact hperformed _
  | disableAccount userId disabledByUserId =>
      exact disableAccount_performed rt g state userId disabledByUserId
  | assignRole userId archetype role grantedBy customerId =>
      exact assignRole_performed rt g state userId archetype role grantedBy customerId
  | revokeRole userId role grantedAt revokedBy =>
      exact revokeRole_performed rt g state userId role grantedAt revokedBy
  | rolesFor userId customerId =>
      exact rolesFor_performed rt g state userId customerId
  | hasPermission userId archetype permission customerId =>
      exact hasPermission_performed rt g state userId archetype permission customerId

-- The calls that record nothing.
def unrecorded : Call → Bool
  | .register _ _ _ => true
  | .markEmailVerified _ => true
  | .issueSession _ _ => true
  | .getSession _ => true
  | .rolesFor _ _ => true
  | .hasPermission _ _ _ _ => true
  | _ => false

theorem audit_onProvider (method : ProviderMethod Hash α) (state : ServiceState Hash Uuid) :
    wp (onProvider method) (fun _ next => next.audit = state.audit) state := by
  rw [wp_onProvider]
  exact wp_mono (wp_true method) fun _ _ _ => rfl

theorem audit_of_unrecorded (rt : Runtime Salt Hash Uuid) (g : Generated Salt) {call : Call}
    (h : unrecorded call = true) (state : ServiceState Hash Uuid) :
    wp (perform rt g call) (fun _ next => next.audit = state.audit) state := by
  cases call with
  | register archetype email password =>
      rw [perform, wp_map]
      exact audit_onProvider _ state
  | markEmailVerified userId =>
      rw [perform, wp_map]
      exact audit_onProvider _ state
  | issueSession userId deviceFingerprint =>
      rw [perform, wp_map]
      exact audit_onProvider _ state
  | getSession sessionId =>
      rw [perform, wp_map]
      exact audit_onProvider _ state
  | rolesFor userId customerId =>
      rw [perform, wp_map]
      apply wp_mono (state_rolesFor rt state userId customerId)
      rintro answer next rfl
      cases answer <;> rfl
  | hasPermission userId archetype permission customerId =>
      rw [perform, wp_map]
      apply wp_mono (state_hasPermission rt state userId archetype permission customerId)
      rintro answer next rfl
      cases answer <;> rfl
  | _ => cases h

theorem step_effects (rt : Runtime Salt Hash Uuid) (g : Generated Salt) (call : Call)
    (state : ServiceState Hash Uuid) :
    Effect rt g state.provider call (step rt state (.call call g)).1
        (step rt state (.call call g)).2.provider ∧
      TableEffect state.audit.database.userRoleAssignment call
        (step rt state (.call call g)).2.audit.database.userRoleAssignment :=
  have h := (step_wp rt g call state _).mp (perform_effects rt g call state)
  ⟨h.provider, h.table⟩

-- Inputs to evaluate the service on: one operator account and a set of drawn values.
def operatorAccount : Database String where
  userAccount := [("u-1", .OPERATOR)]
  userRoleAssignment := []
  authAuditEvent := []
  accountKey := List.nodup_singleton _
  assignmentKey := List.nodup_nil
  assignmentAccount := by simp
  assignmentScope := by simp
  auditKey := List.nodup_nil

def noAccounts : ServiceState String String where
  provider := InMemoryIdentityProvider.init 43200000000
  audit := { database := Database.empty, mirrored := [] }

def drawn : Generated Unit where
  now := 0
  auditNow := 0
  uuid4 := "s-1"
  eventId := "e-1"
  salt := ()
  needsRehash := false
  totpSecret := "JBSWY3DP"

def address : Text := ofAscii "a@example.test".toList

def ghost : Text := ofAscii "ghost@example.test".toList

end AuthService

end TrustlistCore.Auth
