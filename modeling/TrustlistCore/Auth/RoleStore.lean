import TrustlistCore.Auth.Runtime
import Mathlib.Data.List.Nodup

namespace TrustlistCore.Auth

structure RoleAssignment where
  userId : String
  accountArchetype : Archetype
  role : String
  grantedAt : Instant
  grantedByUserId : Option String
  revokedAt : Option Instant
  customerId : Option String
  deriving DecidableEq, Repr

def RoleAssignment.isLive (self : RoleAssignment) : Bool :=
  self.revokedAt.isNone

-- A row of `user_role_assignment`, in the column types.
structure AssignmentRow (Uuid : Type) where
  userId : Uuid
  accountArchetype : Archetype
  role : String
  grantedAt : Instant
  grantedByUserId : Option Uuid
  revokedAt : Option Instant
  customerId : Option Uuid
  deriving DecidableEq, Repr

namespace AssignmentRow

variable {Uuid : Type}

def key (row : AssignmentRow Uuid) : Uuid × String × Instant :=
  (row.userId, row.role, row.grantedAt)

-- The CHECK constraint on the table.
def CustomerScoped (row : AssignmentRow Uuid) : Prop :=
  (row.accountArchetype = .BRAND_CUSTOMER ∧ row.customerId.isSome = true) ∨
    (row.accountArchetype ≠ .BRAND_CUSTOMER ∧ row.customerId = none)

instance (row : AssignmentRow Uuid) : Decidable row.CustomerScoped :=
  inferInstanceAs (Decidable (_ ∨ _))

end AssignmentRow

-- The tables the library touches. The constraints PostgreSQL enforces on them are
-- fields, so every statement below has to keep them.
structure Database (Uuid : Type) [DecidableEq Uuid] where
  userAccount : List (Uuid × Archetype)
  userRoleAssignment : List (AssignmentRow Uuid)
  authAuditEvent : List AuditEvent
  accountKey : (userAccount.map Prod.fst).Nodup
  assignmentKey : (userRoleAssignment.map AssignmentRow.key).Nodup
  assignmentAccount : ∀ row ∈ userRoleAssignment, (row.userId, row.accountArchetype) ∈ userAccount
  assignmentScope : ∀ row ∈ userRoleAssignment, row.CustomerScoped
  auditKey : (authAuditEvent.map AuditEvent.eventId).Nodup

namespace Database

variable {Uuid : Type} [DecidableEq Uuid]

def empty : Database Uuid where
  userAccount := []
  userRoleAssignment := []
  authAuditEvent := []
  accountKey := List.nodup_nil
  assignmentKey := List.nodup_nil
  assignmentAccount := by simp
  assignmentScope := by simp
  auditKey := List.nodup_nil

-- A new `user_account` row; the archetype surfaces insert these, not this library.
def insertAccount (self : Database Uuid) (userId : Uuid) (archetype : Archetype) :
    Except Failure (Database Uuid) :=
  if h : userId ∈ self.userAccount.map Prod.fst then
    .error (.integrityError "pk_user_account")
  else
    .ok { self with
      userAccount := self.userAccount ++ [(userId, archetype)]
      accountKey := by
        rw [List.map_append]
        exact self.accountKey.append (by simp) (by simpa using h)
      assignmentAccount := fun row hr =>
        List.mem_append_left _ (self.assignmentAccount row hr) }

-- INSERT INTO user_role_assignment. PostgreSQL checks the row constraint first,
-- then the unique index, and the foreign keys at the end of the statement.
def insertAssignment (self : Database Uuid) (row : AssignmentRow Uuid) :
    Except Failure (Database Uuid) :=
  if hs : row.CustomerScoped then
    if hk : row.key ∈ self.userRoleAssignment.map AssignmentRow.key then
      .error (.integrityError "pk_user_role_assignment")
    else if hf : (row.userId, row.accountArchetype) ∈ self.userAccount then
      if row.grantedByUserId.all (fun granter => granter ∈ self.userAccount.map Prod.fst) then
        .ok { self with
          userRoleAssignment := self.userRoleAssignment ++ [row]
          assignmentKey := by
            rw [List.map_append]
            exact self.assignmentKey.append (by simp) (by simpa using hk)
          assignmentAccount := by
            intro other ho
            rcases List.mem_append.mp ho with ho | ho
            · exact self.assignmentAccount other ho
            · rw [List.mem_singleton.mp ho]
              exact hf
          assignmentScope := by
            intro other ho
            rcases List.mem_append.mp ho with ho | ho
            · exact self.assignmentScope other ho
            · rw [List.mem_singleton.mp ho]
              exact hs }
      else
        .error (.integrityError "fk_user_role_assignment_granted_by_user_id_user_account")
    else
      .error (.integrityError "fk_user_role_assignment_user_id_user_account")
  else
    .error (.integrityError
      "ck_user_role_assignment_customer_id_required_for_brand_customer")

-- WHERE user_id = :user_id AND role = :role AND granted_at = :granted_at AND revoked_at IS NULL
def namesLive (userId : Uuid) (role : String) (grantedAt : Instant) (row : AssignmentRow Uuid) :
    Bool :=
  row.key = (userId, role, grantedAt) ∧ row.revokedAt = none

def stampRevoked (userId : Uuid) (role : String) (grantedAt revokedAt : Instant)
    (row : AssignmentRow Uuid) : AssignmentRow Uuid :=
  if namesLive userId role grantedAt row then { row with revokedAt := some revokedAt } else row

@[simp] theorem stampRevoked_frame (userId : Uuid) (role : String)
    (grantedAt revokedAt : Instant) (row : AssignmentRow Uuid) :
    let stamped := stampRevoked userId role grantedAt revokedAt row
    stamped.key = row.key ∧ stamped.userId = row.userId ∧ stamped.role = row.role ∧
      stamped.accountArchetype = row.accountArchetype ∧ stamped.customerId = row.customerId := by
  unfold stampRevoked
  split <;> exact ⟨rfl, rfl, rfl, rfl, rfl⟩

-- UPDATE user_role_assignment SET revoked_at = :revoked_at WHERE .., with the row count.
def updateRevoked (self : Database Uuid) (userId : Uuid) (role : String)
    (grantedAt revokedAt : Instant) : Nat × Database Uuid :=
  (self.userRoleAssignment.countP (namesLive userId role grantedAt),
    { self with
      userRoleAssignment :=
        self.userRoleAssignment.map (stampRevoked userId role grantedAt revokedAt)
      assignmentKey := by
        simpa [List.map_map, Function.comp_def] using self.assignmentKey
      assignmentAccount := by
        intro row hr
        obtain ⟨old, ho, rfl⟩ := List.mem_map.mp hr
        simpa using self.assignmentAccount old ho
      assignmentScope := by
        intro row hr
        obtain ⟨old, ho, rfl⟩ := List.mem_map.mp hr
        simpa [AssignmentRow.CustomerScoped] using self.assignmentScope old ho })

-- SELECT .. WHERE user_id = :user_id AND revoked_at IS NULL [AND customer_id = :customer_id]
def selectLive (self : Database Uuid) (userId : Uuid) (customerId : Option Uuid) :
    List (AssignmentRow Uuid) :=
  self.userRoleAssignment.filter (fun row =>
    row.userId = userId ∧ row.revokedAt = none ∧
      customerId.all (fun customer => row.customerId = some customer))

-- INSERT INTO auth_audit_event.
def insertAuditEvent (self : Database Uuid) (uuid : String → Option Uuid)
    (admits : AuditEvent → Bool) (event : AuditEvent) : Except Failure (Database Uuid) :=
  if admits event then
    if h : event.eventId ∈ self.authAuditEvent.map AuditEvent.eventId then
      .error (.integrityError "pk_auth_audit_event")
    else if event.userId.all (fun user =>
        (uuid user).any (fun key => key ∈ self.userAccount.map Prod.fst)) then
      .ok { self with
        authAuditEvent := self.authAuditEvent ++ [event]
        auditKey := by
          rw [List.map_append]
          exact self.auditKey.append (by simp) (by simpa using h) }
    else
      .error (.integrityError "fk_auth_audit_event_user_id_user_account")
  else
    .error (.dataError "auth_audit_event")

end Database

-- A unit of work on one connection. An exception keeps what the statements before
-- it did; undoing that is up to the transaction around the call.
abbrev Transaction (Uuid : Type) [DecidableEq Uuid] := EStateM Failure (Database Uuid)

namespace RoleStore

variable {Salt Hash Uuid : Type} [DecidableEq Uuid]

-- Bind the parameters, run the statement and take over the tables it leaves.
def execute {α : Type} (statement : Database Uuid → Except Failure (α × Database Uuid)) :
    Transaction Uuid α := do
  match statement (← get) with
  | .ok (value, next) =>
      set next
      return value
  | .error failure => throw failure

-- A text bound to a uuid column.
def bindUuid (rt : Runtime Salt Hash Uuid) (column text : String) : Except Failure Uuid :=
  match rt.uuid text with
  | some value => .ok value
  | none => .error (.dataError column)

def bindUuid? (rt : Runtime Salt Hash Uuid) (column : String) :
    Option String → Except Failure (Option Uuid)
  | none => .ok none
  | some text => some <$> bindUuid rt column text

-- A text bound to a text column.
def bindText (rt : Runtime Salt Hash Uuid) (column text : String) : Except Failure String :=
  if rt.text text then .ok text else .error (.dataError column)

def checkCustomerScope (archetype : Archetype) (customerId : Option String) :
    Except Failure Unit :=
  if archetype = .BRAND_CUSTOMER ∧ customerId = none then
    .error (.roleScopeError "a brand-customer role grant requires a customer_id")
  else if archetype ≠ .BRAND_CUSTOMER ∧ customerId ≠ none then
    .error (.roleScopeError
      s!"a {archetype.value} role grant must not carry a customer_id")
  else
    .ok ()

-- The parameters of the INSERT as a row.
def bindAssignment (rt : Runtime Salt Hash Uuid) (assignment : RoleAssignment) :
    Except Failure (AssignmentRow Uuid) := do
  let user ← bindUuid rt "user_id" assignment.userId
  let role ← bindText rt "role" assignment.role
  let granter ← bindUuid? rt "granted_by_user_id" assignment.grantedByUserId
  let customer ← bindUuid? rt "customer_id" assignment.customerId
  return {
    userId := user
    accountArchetype := assignment.accountArchetype
    role := role
    grantedAt := assignment.grantedAt
    grantedByUserId := granter
    revokedAt := none
    customerId := customer }

-- The two checks of the application come before the INSERT. `now` is what
-- `datetime.now` answers when no explicit instant is given.
def grantRole (rt : Runtime Salt Hash Uuid) (userId : String) (archetype : Archetype)
    (role : String) (grantedByUserId customerId : Option String) (grantedAt : Option Instant)
    (now : Instant) : Transaction Uuid RoleAssignment :=
  if !(catalogueFor archetype).has role then
    throw (.unknownRole s!"{rt.repr role} is not a role in the {archetype.value} catalogue")
  else match checkCustomerScope archetype customerId with
  | .error failure => throw failure
  | .ok () => do
      let moment := grantedAt.getD now
      let assignment : RoleAssignment :=
        { userId := userId
          accountArchetype := archetype
          role := role
          grantedAt := moment
          grantedByUserId := grantedByUserId
          revokedAt := none
          customerId := customerId }
      execute fun database => do
        let row ← bindAssignment rt assignment
        let next ← database.insertAssignment row
        return (assignment, next)

def revokeRole (rt : Runtime Salt Hash Uuid) (userId role : String) (grantedAt : Instant)
    (revokedAt : Option Instant) (now : Instant) : Transaction Uuid Bool := do
  let moment := revokedAt.getD now
  let rowcount ← execute fun database => do
    let user ← bindUuid rt "user_id" userId
    let role ← bindText rt "role" role
    return database.updateRevoked user role grantedAt moment
  return rowcount == 1

def toAssignment (rt : Runtime Salt Hash Uuid) (row : AssignmentRow Uuid) : RoleAssignment where
  userId := rt.uuidText row.userId
  accountArchetype := row.accountArchetype
  role := row.role
  grantedAt := row.grantedAt
  grantedByUserId := row.grantedByUserId.map rt.uuidText
  revokedAt := row.revokedAt
  customerId := row.customerId.map rt.uuidText

def liveAssignments (rt : Runtime Salt Hash Uuid) (userId : String)
    (customerId : Option String) : Transaction Uuid (List RoleAssignment) := do
  let rows ← execute fun database => do
    let user ← bindUuid rt "user_id" userId
    let customer ← bindUuid? rt "customer_id" customerId
    return (database.selectLive user customer, database)
  return rows.map (toAssignment rt)

-- The frozenset of role names: the archetype a grant was made under is dropped here.
def liveRoleIdentifiers (rt : Runtime Salt Hash Uuid) (userId : String)
    (customerId : Option String) : Transaction Uuid (List String) := do
  let assignments ← liveAssignments rt userId customerId
  return (assignments.map RoleAssignment.role).dedup

end RoleStore

end TrustlistCore.Auth
