import TrustlistCore.Auth.Audit
import TrustlistCore.Auth.FakeProvider
import TrustlistCore.Library.Frame
import TrustlistCore.Library.Run

namespace TrustlistCore.Auth

open Library (zoom catching)

-- The service holds no state of its own: it works on the provider, on the caller's
-- connection and on the sink.
structure ServiceState (Hash Uuid : Type) [DecidableEq Uuid] where
  provider : InMemoryIdentityProvider Hash
  audit : AuditState Uuid

abbrev ServiceMethod (Hash Uuid : Type) [DecidableEq Uuid] :=
  EStateM Failure (ServiceState Hash Uuid)

-- What one call draws from its surroundings: the clock readings, the generated ids,
-- the salt of a fresh hash, the answer of `needs_rehash` and the TOTP secret.
structure Generated (Salt : Type) where
  now : Instant
  auditNow : Instant
  uuid4 : String
  eventId : String
  salt : Salt
  needsRehash : Bool
  totpSecret : String

namespace AuthService

variable {Salt Hash Uuid : Type} [DecidableEq Uuid]

def onProvider {α : Type} (method : ProviderMethod Hash α) : ServiceMethod Hash Uuid α :=
  zoom ServiceState.provider (fun state provider => { state with provider := provider }) method

def onAudit {α : Type} (method : EStateM Failure (AuditState Uuid) α) :
    ServiceMethod Hash Uuid α :=
  zoom ServiceState.audit (fun state audit => { state with audit := audit }) method

def onConnection {α : Type} (method : Transaction Uuid α) : ServiceMethod Hash Uuid α :=
  onAudit (zoom AuditState.database (fun audit database => { audit with database := database })
    method)

def record (rt : Runtime Salt Hash Uuid) (g : Generated Salt) (eventType : AuthEventType)
    (userId ipAddress userAgent : Option String) (details : List (String × Detail)) :
    ServiceMethod Hash Uuid Unit := do
  let _ ← onAudit (AuditTrail.record rt eventType userId ipAddress userAgent details
    g.eventId g.auditNow)

def optional (text : Option String) : Detail :=
  match text with
  | some text => .text text
  | none => .null

def register (rt : Runtime Salt Hash Uuid) (g : Generated Salt) (archetype : Archetype)
    (email : Text) (password : String) : ServiceMethod Hash Uuid ProviderUser :=
  onProvider (InMemoryIdentityProvider.register rt archetype email (ofString password) g.salt g.uuid4)

def markEmailVerified (rt : Runtime Salt Hash Uuid) (userId : String) :
    ServiceMethod Hash Uuid ProviderUser :=
  onProvider (InMemoryIdentityProvider.markEmailVerified rt userId)

def authenticate (rt : Runtime Salt Hash Uuid) (g : Generated Salt) (archetype : Archetype)
    (email : Text) (password : String) (ipAddress userAgent : Option String) :
    ServiceMethod Hash Uuid ProviderUser := do
  match ← catching (onProvider (InMemoryIdentityProvider.authenticate rt archetype email
      (ofString password) g.needsRehash g.salt)) with
  | .error failure =>
      record rt g .LOGIN_FAILURE none ipAddress userAgent
        [("archetype", .text archetype.value), ("email", .str email)]
      throw failure
  | .ok user =>
      record rt g .LOGIN_SUCCESS (some user.userId) ipAddress userAgent
        [("archetype", .text archetype.value)]
      return user

def changePassword (rt : Runtime Salt Hash Uuid) (g : Generated Salt)
    (userId newPassword : String) (ipAddress : Option String) :
    ServiceMethod Hash Uuid Unit := do
  onProvider (InMemoryIdentityProvider.changePassword rt userId (ofString newPassword) g.salt)
  onProvider (InMemoryIdentityProvider.revokeAllSessions userId)
  record rt g .PASSWORD_CHANGE (some userId) ipAddress none [("sessions_revoked", .bool true)]

def issueSession (rt : Runtime Salt Hash Uuid) (g : Generated Salt) (userId : String)
    (deviceFingerprint : Option String) : ServiceMethod Hash Uuid Session :=
  onProvider (InMemoryIdentityProvider.issueSession rt userId deviceFingerprint g.now g.uuid4)

def getSession (rt : Runtime Salt Hash Uuid) (g : Generated Salt) (sessionId : String) :
    ServiceMethod Hash Uuid Session :=
  onProvider (InMemoryIdentityProvider.getSession rt sessionId g.now)

def revokeSession (rt : Runtime Salt Hash Uuid) (g : Generated Salt) (sessionId : String)
    (userId ipAddress : Option String) : ServiceMethod Hash Uuid Unit := do
  onProvider (InMemoryIdentityProvider.revokeSession sessionId)
  record rt g .SESSION_REVOKE userId ipAddress none [("session_id", .text sessionId)]

def enrolTotp (rt : Runtime Salt Hash Uuid) (g : Generated Salt) (userId : String) :
    ServiceMethod Hash Uuid TotpEnrolment := do
  let enrolment ← onProvider (InMemoryIdentityProvider.enrolTotp rt userId g.totpSecret)
  record rt g .MFA_CHALLENGE_ISSUED (some userId) none none
    [("purpose", .text "totp_enrolment")]
  return enrolment

def verifyTotp (rt : Runtime Salt Hash Uuid) (g : Generated Salt) (userId code : String)
    (ipAddress : Option String) : ServiceMethod Hash Uuid Bool := do
  let verified ← onProvider (InMemoryIdentityProvider.verifyTotp rt userId code g.now)
  record rt g (if verified then .MFA_CHALLENGE_SUCCESS else .MFA_CHALLENGE_FAILURE)
    (some userId) ipAddress none [("factor", .text "totp")]
  return verified

def verifyTotpStrict (rt : Runtime Salt Hash Uuid) (g : Generated Salt) (userId code : String)
    (ipAddress : Option String) : ServiceMethod Hash Uuid Unit := do
  if !(← verifyTotp rt g userId code ipAddress) then
    throw (.totpVerificationFailed "TOTP code did not verify")

def disableAccount (rt : Runtime Salt Hash Uuid) (g : Generated Salt) (userId : String)
    (disabledByUserId : Option String) : ServiceMethod Hash Uuid Unit := do
  onProvider (InMemoryIdentityProvider.disableAccount rt userId)
  record rt g .ACCOUNT_DISABLE (some userId) none none [("disabled_by", optional disabledByUserId)]

def assignRole (rt : Runtime Salt Hash Uuid) (g : Generated Salt) (userId : String)
    (archetype : Archetype) (role : String) (grantedBy customerId : Option String) :
    ServiceMethod Hash Uuid RoleAssignment := do
  let assignment ← onConnection
    (RoleStore.grantRole rt userId archetype role grantedBy customerId none g.now)
  record rt g .ROLE_GRANT (some userId) none none
    [("role", .text role), ("granted_by", optional grantedBy),
      ("customer_id", optional customerId)]
  return assignment

def revokeRole (rt : Runtime Salt Hash Uuid) (g : Generated Salt) (userId role : String)
    (grantedAt : Instant) (revokedBy : Option String) : ServiceMethod Hash Uuid Bool := do
  let revoked ← onConnection (RoleStore.revokeRole rt userId role grantedAt none g.now)
  if revoked then
    onProvider (InMemoryIdentityProvider.revokeAllSessions userId)
    record rt g .ROLE_REVOKE (some userId) none none
      [("role", .text role), ("revoked_by", optional revokedBy)]
  return revoked

def rolesFor (rt : Runtime Salt Hash Uuid) (userId : String) (customerId : Option String) :
    ServiceMethod Hash Uuid (List String) :=
  onConnection (RoleStore.liveRoleIdentifiers rt userId customerId)

-- `permission` is a member of the enumeration or a text to be validated against it.
def resolvedPermission (rt : Runtime Salt Hash Uuid) :
    Permission ⊕ String → Except Failure Permission
  | .inl permission => .ok permission
  | .inr text => validatePermission rt.repr text

def hasPermission (rt : Runtime Salt Hash Uuid) (userId : String) (archetype : Archetype)
    (permission : Permission ⊕ String) (customerId : Option String) :
    ServiceMethod Hash Uuid Bool := do
  let resolved ← MonadExcept.ofExcept (resolvedPermission rt permission)
  let held ← onConnection (RoleStore.liveRoleIdentifiers rt userId customerId)
  MonadExcept.ofExcept ((catalogueFor archetype).hasPermission rt.repr held resolved)

end AuthService

-- The public methods with their arguments.
inductive Call
  | register (archetype : Archetype) (email : Text) (password : String)
  | markEmailVerified (userId : String)
  | authenticate (archetype : Archetype) (email : Text) (password : String)
      (ipAddress userAgent : Option String)
  | changePassword (userId newPassword : String) (ipAddress : Option String)
  | issueSession (userId : String) (deviceFingerprint : Option String)
  | getSession (sessionId : String)
  | revokeSession (sessionId : String) (userId ipAddress : Option String)
  | enrolTotp (userId : String)
  | verifyTotp (userId code : String) (ipAddress : Option String)
  | verifyTotpStrict (userId code : String) (ipAddress : Option String)
  | disableAccount (userId : String) (disabledByUserId : Option String)
  | assignRole (userId : String) (archetype : Archetype) (role : String)
      (grantedBy customerId : Option String)
  | revokeRole (userId role : String) (grantedAt : Instant) (revokedBy : Option String)
  | rolesFor (userId : String) (customerId : Option String)
  | hasPermission (userId : String) (archetype : Archetype) (permission : Permission ⊕ String)
      (customerId : Option String)

inductive Reply
  | none
  | user (value : ProviderUser)
  | session (value : Session)
  | enrolment (value : TotpEnrolment)
  | bool (value : Bool)
  | assignment (value : RoleAssignment)
  | roles (value : List String)

namespace AuthService

variable {Salt Hash Uuid : Type} [DecidableEq Uuid]

def perform (rt : Runtime Salt Hash Uuid) (g : Generated Salt) : Call → ServiceMethod Hash Uuid Reply
  | .register archetype email password =>
      Reply.user <$> register rt g archetype email password
  | .markEmailVerified userId => Reply.user <$> markEmailVerified rt userId
  | .authenticate archetype email password ipAddress userAgent =>
      Reply.user <$> authenticate rt g archetype email password ipAddress userAgent
  | .changePassword userId newPassword ipAddress =>
      (fun _ => Reply.none) <$> changePassword rt g userId newPassword ipAddress
  | .issueSession userId deviceFingerprint =>
      Reply.session <$> issueSession rt g userId deviceFingerprint
  | .getSession sessionId => Reply.session <$> getSession rt g sessionId
  | .revokeSession sessionId userId ipAddress =>
      (fun _ => Reply.none) <$> revokeSession rt g sessionId userId ipAddress
  | .enrolTotp userId => Reply.enrolment <$> enrolTotp rt g userId
  | .verifyTotp userId code ipAddress => Reply.bool <$> verifyTotp rt g userId code ipAddress
  | .verifyTotpStrict userId code ipAddress =>
      (fun _ => Reply.none) <$> verifyTotpStrict rt g userId code ipAddress
  | .disableAccount userId disabledByUserId =>
      (fun _ => Reply.none) <$> disableAccount rt g userId disabledByUserId
  | .assignRole userId archetype role grantedBy customerId =>
      Reply.assignment <$> assignRole rt g userId archetype role grantedBy customerId
  | .revokeRole userId role grantedAt revokedBy =>
      Reply.bool <$> revokeRole rt g userId role grantedAt revokedBy
  | .rolesFor userId customerId => Reply.roles <$> rolesFor rt userId customerId
  | .hasPermission userId archetype permission customerId =>
      Reply.bool <$> hasPermission rt userId archetype permission customerId

-- One event of a run: a call, or a change of the tables by the world around the
-- service (the end of a transaction, another process, a new account row).
inductive Event (Salt Uuid : Type) [DecidableEq Uuid]
  | call (call : Call) (generated : Generated Salt)
  | database (database : Database Uuid)

def step (rt : Runtime Salt Hash Uuid) (state : ServiceState Hash Uuid) :
    Event Salt Uuid → Except Failure Reply × ServiceState Hash Uuid
  | .call call generated =>
      match (perform rt generated call).run state with
      | .ok reply state => (.ok reply, state)
      | .error failure state => (.error failure, state)
  | .database database =>
      (.ok .none, { state with audit := { state.audit with database := database } })

-- Generated ids are fresh: a new session or account never reuses a key of its dict.
def Fresh (state : ServiceState Hash Uuid) : Event Salt Uuid → Prop
  | .call (.issueSession _ _) generated => state.provider.sessions generated.uuid4 = none
  | .call (.register _ _ _) generated => state.provider.accounts generated.uuid4 = none
  | _ => True

abbrev ServiceRun (rt : Runtime Salt Hash Uuid) :=
  Library.Run (step rt) (Fresh : ServiceState Hash Uuid → Event Salt Uuid → Prop)

end AuthService

end TrustlistCore.Auth
