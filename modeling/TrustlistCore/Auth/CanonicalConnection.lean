import TrustlistCore.Auth.Audit
import TrustlistCore.DataModel.CanonicalDatabase
import TrustlistCore.Library.Simulation

namespace TrustlistCore.Auth

open Library Relational DataModel.CanonicalStore
open DataModel (Server)
open EventBus (points)

def AuthEventType.value : AuthEventType → String
  | .LOGIN_SUCCESS => "login_success"
  | .LOGIN_FAILURE => "login_failure"
  | .MFA_CHALLENGE_ISSUED => "mfa_challenge_issued"
  | .MFA_CHALLENGE_SUCCESS => "mfa_challenge_success"
  | .MFA_CHALLENGE_FAILURE => "mfa_challenge_failure"
  | .PASSWORD_CHANGE => "password_change"
  | .ROLE_GRANT => "role_grant"
  | .ROLE_REVOKE => "role_revoke"
  | .ACCOUNT_DISABLE => "account_disable"
  | .SESSION_REVOKE => "session_revoke"

-- What the library asks of its connection.
inductive Request
  | grantRole (userId : String) (archetype : Archetype) (role : String)
      (grantedByUserId customerId : Option String) (grantedAt : Option Instant) (now : Instant)
  | revokeRole (userId role : String) (grantedAt : Instant) (revokedAt : Option Instant)
      (now : Instant)
  | liveAssignments (userId : String) (customerId : Option String)
  | insertAuditEvent (event : AuditEvent)

inductive Response
  | assignment (value : RoleAssignment)
  | bool (value : Bool)
  | assignments (values : List RoleAssignment)
  | none
  deriving DecidableEq

-- A unit of work on the connection, or what anybody else does to the tables meanwhile.
inductive Work (Other : Type)
  | unit (requests : List Request)
  | others (other : Other)

namespace RoleStore

variable {Salt Hash Uuid : Type} [DecidableEq Uuid]

-- The INSERT of the audit trail on the tables that the library sees.
def insertAuditEvent (rt : Runtime Salt Hash Uuid) (event : AuditEvent) : Transaction Uuid Unit :=
  execute fun database => do
    let next ← database.insertAuditEvent rt.uuid rt.admits event
    return ((), next)

def operate (rt : Runtime Salt Hash Uuid) : Request → Transaction Uuid Response
  | .grantRole userId archetype role grantedByUserId customerId grantedAt now =>
      .assignment <$> grantRole rt userId archetype role grantedByUserId customerId grantedAt now
  | .revokeRole userId role grantedAt revokedAt now =>
      .bool <$> revokeRole rt userId role grantedAt revokedAt now
  | .liveAssignments userId customerId => .assignments <$> liveAssignments rt userId customerId
  | .insertAuditEvent event => (fun _ => .none) <$> insertAuditEvent rt event

def work (rt : Runtime Salt Hash Uuid) (database : Database Uuid) :
    Work (Database Uuid) → Except Failure (List Response) × Database Uuid
  | .unit requests => atomically (requests.mapM (operate rt)) database
  | .others next => (.ok [], next)

-- Nobody else writes to the two tables of the library.
def Owned (database : Database Uuid) : Work (Database Uuid) → Prop
  | .unit _ => True
  | .others next =>
      next.userRoleAssignment = database.userRoleAssignment ∧
        next.authAuditEvent = database.authAuditEvent

end RoleStore

-- What the driver and the server make of the values of an audit event that are neither
-- identifiers nor texts.
structure Binding (Jsonb : Type) where
  inet : String → Option Text
  details : List (String × Detail) → Option Jsonb

-- What ends a unit of work: an exception of the library, or a refusal of the server.
inductive Raised
  | failure (failure : Failure)
  | refusal (refusal : Refusal Table Column)

abbrev Connection (Jsonb : Type) :=
  EStateM Raised (Store Instant Jsonb)

namespace CanonicalConnection

variable {Salt Hash Jsonb : Type}

-- INSERT INTO user_role_assignment (user_id, account_archetype, role, granted_at,
--   granted_by_user_id, customer_id)
def grantValues (row : AssignmentRow Uuid) (role : Text) :
    Column → Option (Option (Cell Instant Jsonb))
  | .userId => some (some (.uuid row.userId))
  | .accountArchetype => some (some (.label row.accountArchetype.value))
  | .role => some (some (.text role))
  | .grantedAt => some (some (.timestamp row.grantedAt))
  | .grantedByUserId => some (row.grantedByUserId.map .uuid)
  | .customerId => some (row.customerId.map .uuid)
  | _ => none

-- WHERE user_id = :user_id AND role = :role AND granted_at = :granted_at AND revoked_at IS NULL
def namesLive [DecidableEq Jsonb] (userId : Uuid) (role : Text) (grantedAt : Instant)
    (row : CanonicalRow Instant Jsonb) : Bool :=
  row .userId = some (.uuid userId) ∧ row .role = some (.text role) ∧
    row .grantedAt = some (.timestamp grantedAt) ∧ row .revokedAt = none

-- SET revoked_at = :revoked_at
def setRevoked (revokedAt : Instant) (row : CanonicalRow Instant Jsonb) :
    CanonicalRow Instant Jsonb :=
  Function.update row .revokedAt (some (.timestamp revokedAt))

-- WHERE user_id = :user_id AND revoked_at IS NULL [AND customer_id = :customer_id]
def selectsLive [DecidableEq Jsonb] (userId : Uuid) (customerId : Option Uuid)
    (row : CanonicalRow Instant Jsonb) : Bool :=
  row .userId = some (.uuid userId) ∧ row .revokedAt = none ∧
    customerId.all fun customer => row .customerId = some (.uuid customer)

def archetypeCell : Option (Cell Instant Jsonb) → Option Archetype
  | some (.label value) =>
      [.OPERATOR, .BRAND_CUSTOMER, .FOUNDATION_INTERNAL].find? fun archetype =>
        archetype.value = value
  | _ => none

-- The columns of a stored row as the fields of an assignment.
def readAssignment (rt : Runtime Salt Hash Uuid) (row : CanonicalRow Instant Jsonb) :
    Option RoleAssignment := do
  let userId ← uuidCell (row .userId)
  let accountArchetype ← archetypeCell (row .accountArchetype)
  let role ← textCell (row .role)
  let grantedAt ← timestampCell (row .grantedAt)
  some
    { userId := rt.uuidText userId
      accountArchetype := accountArchetype
      role := String.ofList (EventBus.Value.characters role)
      grantedAt := grantedAt
      grantedByUserId := (uuidCell (row .grantedByUserId)).map rt.uuidText
      revokedAt := timestampCell (row .revokedAt)
      customerId := (uuidCell (row .customerId)).map rt.uuidText }

variable (server : Server Instant Jsonb) (binding : Binding Jsonb)

-- A text bound to a text column, as the server takes it.
def bindText (column text : String) : Except Failure Text :=
  if server.accepts (points text) then .ok (points text) else .error (.dataError column)

-- INSERT INTO auth_audit_event (auth_audit_event_id, user_id, event_type, occurred_at,
--   ip_address_observed, user_agent_observed, event_details)
def auditValues (rt : Runtime Salt Hash Uuid) (event : AuditEvent) :
    Option (Column → Option (Option (Cell Instant Jsonb))) := do
  let eventId ← rt.uuid event.eventId
  let userId ← event.userId.mapM rt.uuid
  let ip ← event.ipAddressObserved.mapM binding.inet
  let userAgent ← event.userAgentObserved.mapM fun userAgent =>
    (bindText server "user_agent_observed" userAgent).toOption
  let details ← binding.details event.eventDetails
  some fun
    | .authAuditEventId => some (some (.uuid eventId))
    | .userId => some (userId.map .uuid)
    | .eventType => some (some (.label event.eventType.value))
    | .occurredAt => some (some (.timestamp event.occurredAt))
    | .ipAddressObserved => some (ip.map .inet)
    | .userAgentObserved => some (userAgent.map .text)
    | .eventDetails => some (some (.jsonb details))
    | _ => none

variable [DecidableEq Jsonb] (environment : Environment Instant)

def lift {A : Type} : Except Failure A → Connection Jsonb A
  | .ok value => return value
  | .error failure => throw (.failure failure)

-- A statement of a member of `trustlist_app`.
def submitted (statement : CanonicalStatement Instant Jsonb) : Connection Jsonb Unit := do
  match submit (schema server) applicationRole (← get) statement with
  | .ok next => set next
  | .error refusal => throw (.refusal refusal)

def grantRole (rt : Runtime Salt Hash Uuid) (userId : String) (archetype : Archetype)
    (role : String) (grantedByUserId customerId : Option String) (grantedAt : Option Instant)
    (now : Instant) : Connection Jsonb RoleAssignment :=
  if !(catalogueFor archetype).has role then
    throw (.failure (.unknownRole
      s!"{rt.repr role} is not a role in the {archetype.value} catalogue"))
  else match RoleStore.checkCustomerScope archetype customerId with
  | .error failure => throw (.failure failure)
  | .ok () => do
      let moment := grantedAt.getD now
      let assignment : RoleAssignment :=
        { userId := userId
          accountArchetype := archetype
          role := role
          grantedAt := moment
          grantedByUserId := grantedByUserId
          revokedAt := none
          customerId := customerId }
      let row ← lift (RoleStore.bindAssignment rt assignment)
      let text ← lift (bindText server "role" role)
      submitted server (.insert .userRoleAssignment (grantValues row text) environment)
      return assignment

-- The row count of an UPDATE is the number of the rows that it selects.
def revokeRole (rt : Runtime Salt Hash Uuid) (userId role : String) (grantedAt : Instant)
    (revokedAt : Option Instant) (now : Instant) : Connection Jsonb Bool := do
  let moment := revokedAt.getD now
  let user ← lift (RoleStore.bindUuid rt "user_id" userId)
  let text ← lift (bindText server "role" role)
  let rowcount := ((← get) .userRoleAssignment).countP (namesLive user text grantedAt)
  submitted server (.update .userRoleAssignment (namesLive user text grantedAt)
    (setRevoked moment))
  return rowcount == 1

def liveAssignments (rt : Runtime Salt Hash Uuid) (userId : String)
    (customerId : Option String) : Connection Jsonb (List RoleAssignment) := do
  let user ← lift (RoleStore.bindUuid rt "user_id" userId)
  let customer ← lift (RoleStore.bindUuid? rt "customer_id" customerId)
  let rows := ((← get) .userRoleAssignment).filter (selectsLive user customer)
  return rows.filterMap (readAssignment rt)

def insertAuditEvent (rt : Runtime Salt Hash Uuid) (event : AuditEvent) :
    Connection Jsonb Unit :=
  match auditValues server binding rt event with
  | none => throw (.failure (.dataError "auth_audit_event"))
  | some values => submitted server (.insert .authAuditEvent values environment)

def operate (rt : Runtime Salt Hash Uuid) : Request → Connection Jsonb Response
  | .grantRole userId archetype role grantedByUserId customerId grantedAt now =>
      .assignment <$> grantRole server environment rt userId archetype role grantedByUserId
        customerId grantedAt now
  | .revokeRole userId role grantedAt revokedAt now =>
      .bool <$> revokeRole server rt userId role grantedAt revokedAt now
  | .liveAssignments userId customerId =>
      .assignments <$> liveAssignments rt userId customerId
  | .insertAuditEvent event =>
      (fun _ => .none) <$> insertAuditEvent server binding environment rt event

-- A unit of work, and what `now()` and `gen_random_uuid()` answer in it.
def work (rt : Runtime Salt Hash Uuid) (store : Store Instant Jsonb) :
    Environment Instant × Work (List (CanonicalStatement Instant Jsonb)) →
      Except Raised (List Response) × Store Instant Jsonb
  | (environment, .unit requests) =>
      atomically (requests.mapM (operate server binding environment rt)) store
  | (_, .others statements) =>
      (.ok [], (transact (schema server) applicationRole store statements).2)

-- A generated id is the text of a UUID.
def Regular (rt : Runtime Salt Hash Uuid) : Request → Prop
  | .insertAuditEvent event => ∃ id, event.eventId = rt.uuidText id
  | _ => True

-- Nobody else writes to the two tables of the library.
def Owned (rt : Runtime Salt Hash Uuid) (_ : Store Instant Jsonb) :
    Environment Instant × Work (List (CanonicalStatement Instant Jsonb)) → Prop
  | (_, .unit requests) => ∀ request ∈ requests, Regular rt request
  | (_, .others statements) => ∀ statement ∈ statements,
      statement.table ≠ .userRoleAssignment ∧ statement.table ≠ .authAuditEvent

end CanonicalConnection

end TrustlistCore.Auth
