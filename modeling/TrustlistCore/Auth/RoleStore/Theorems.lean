import TrustlistCore.Auth.RoleStore
import TrustlistCore.Auth.Rbac.Theorems
import TrustlistCore.Library.Frame
import Mathlib.Data.List.Dedup

namespace TrustlistCore.Auth

open Library

variable {Salt Hash Uuid : Type} [DecidableEq Uuid]

namespace Database

-- The composite foreign key pins every row of an account to the account's archetype.
theorem assignment_archetype_unique (database : Database Uuid) (row other : AssignmentRow Uuid)
    (hr : row ∈ database.userRoleAssignment) (ho : other ∈ database.userRoleAssignment)
    (huser : row.userId = other.userId) : row.accountArchetype = other.accountArchetype := by
  have hrow := database.assignmentAccount row hr
  have hother := database.assignmentAccount other ho
  rw [← huser] at hother
  exact congrArg Prod.snd
    (List.inj_on_of_nodup_map database.accountKey hrow hother rfl)

theorem insertAssignment_eq_ok (database next : Database Uuid) (row : AssignmentRow Uuid)
    (h : database.insertAssignment row = .ok next) :
    next.userRoleAssignment = database.userRoleAssignment ++ [row] ∧
      next.userAccount = database.userAccount ∧
      next.authAuditEvent = database.authAuditEvent := by
  unfold insertAssignment at h
  split_ifs at h
  cases h
  exact ⟨rfl, rfl, rfl⟩

theorem insertAuditEvent_eq_ok (database next : Database Uuid) (uuid : String → Option Uuid)
    (admits : AuditEvent → Bool) (event : AuditEvent)
    (h : database.insertAuditEvent uuid admits event = .ok next) :
    next.userRoleAssignment = database.userRoleAssignment ∧
      next.userAccount = database.userAccount ∧
      next.authAuditEvent = database.authAuditEvent ++ [event] := by
  unfold insertAuditEvent at h
  split_ifs at h
  cases h
  exact ⟨rfl, rfl, rfl⟩

end Database

namespace RoleStore

omit [DecidableEq Uuid] in
theorem bindUuid_eq_ok {rt : Runtime Salt Hash Uuid} {column text : String} {value : Uuid} :
    bindUuid rt column text = .ok value ↔ rt.uuid text = some value := by
  unfold bindUuid
  cases h : rt.uuid text with
  | none => simp
  | some found => simp

omit [DecidableEq Uuid] in
theorem bindUuid?_eq_ok {rt : Runtime Salt Hash Uuid} {column : String} {text : Option String}
    {value : Option Uuid} :
    bindUuid? rt column text = .ok value ↔
      text.isSome = value.isSome ∧ text.bind rt.uuid = value := by
  cases text with
  | none => cases value <;> simp [bindUuid?]
  | some text =>
      unfold bindUuid? bindUuid
      cases h : rt.uuid text with
      | none => cases value <;> simp [h, Functor.map, Except.map]
      | some found => cases value <;> simp [h, Functor.map, Except.map]

omit [DecidableEq Uuid] in
theorem bindText_eq_ok {rt : Runtime Salt Hash Uuid} {column text value : String} :
    bindText rt column text = .ok value ↔ rt.text text = true ∧ text = value := by
  unfold bindText
  split <;> simp [*]

omit [DecidableEq Uuid] in
theorem bindText_eq_error {rt : Runtime Salt Hash Uuid} {column text : String}
    {failure : Failure} :
    bindText rt column text = .error failure ↔
      rt.text text = false ∧ .dataError column = failure := by
  unfold bindText
  split <;> simp [*]

-- The row that an assignment is bound to.
structure Bound (rt : Runtime Salt Hash Uuid) (assignment : RoleAssignment)
    (row : AssignmentRow Uuid) : Prop where
  userId : rt.uuid assignment.userId = some row.userId
  accountArchetype : row.accountArchetype = assignment.accountArchetype
  role : row.role = assignment.role
  text : rt.text row.role = true
  grantedAt : row.grantedAt = assignment.grantedAt
  revokedAt : row.revokedAt = none
  customerId : assignment.customerId.isSome = row.customerId.isSome ∧
    assignment.customerId.bind rt.uuid = row.customerId

omit [DecidableEq Uuid] in
theorem bindAssignment_eq_ok {rt : Runtime Salt Hash Uuid} {assignment : RoleAssignment}
    {row : AssignmentRow Uuid} (h : bindAssignment rt assignment = .ok row) :
    Bound rt assignment row := by
  unfold bindAssignment at h
  cases hu : bindUuid rt "user_id" assignment.userId with
  | error failure => simp [hu, bind, Except.bind] at h
  | ok user =>
      cases hr : bindText rt "role" assignment.role with
      | error failure => simp [hu, hr, bind, Except.bind] at h
      | ok role =>
          cases hg : bindUuid? rt "granted_by_user_id" assignment.grantedByUserId with
          | error failure => simp [hu, hr, hg, bind, Except.bind] at h
          | ok granter =>
              cases hc : bindUuid? rt "customer_id" assignment.customerId with
              | error failure => simp [hu, hr, hg, hc, bind, Except.bind] at h
              | ok customer =>
                  simp only [hu, hr, hg, hc, bind, Except.bind, pure, Except.pure,
                    Except.ok.injEq] at h
                  obtain ⟨htext, rfl⟩ := bindText_eq_ok.mp hr
                  rw [← h]
                  exact ⟨bindUuid_eq_ok.mp hu, rfl, rfl, htext, rfl, rfl, bindUuid?_eq_ok.mp hc⟩

theorem wp_execute {α : Type} {Q : Except Failure α → Database Uuid → Prop}
    (statement : Database Uuid → Except Failure (α × Database Uuid)) (database : Database Uuid) :
    wp (execute statement) Q database ↔ match statement database with
      | .ok (value, next) => Q (.ok value) next
      | .error failure => Q (.error failure) database := by
  unfold execute
  simp only [wp_bind, wp_get]
  rcases statement database with failure | ⟨value, next⟩ <;> rfl

-- The constraint on the customer, by its name in the schema.
def customerCheck : Failure :=
  .integrityError "ck_user_role_assignment_customer_id_required_for_brand_customer"

-- The check of the application is the one on the table.
omit [DecidableEq Uuid] in
theorem customerScoped_of_check {rt : Runtime Salt Hash Uuid} {assignment : RoleAssignment}
    {row : AssignmentRow Uuid}
    (hcheck : checkCustomerScope assignment.accountArchetype assignment.customerId = .ok ())
    (hbound : Bound rt assignment row) : row.CustomerScoped := by
  unfold checkCustomerScope at hcheck
  have hsome := hbound.customerId.1
  unfold AssignmentRow.CustomerScoped
  rw [hbound.accountArchetype]
  by_cases hbrand : assignment.accountArchetype = .BRAND_CUSTOMER
  · left
    refine ⟨hbrand, ?_⟩
    cases hcustomer : assignment.customerId with
    | none => simp [hbrand, hcustomer] at hcheck
    | some customer => rw [← hsome, hcustomer, Option.isSome_some]
  · right
    refine ⟨hbrand, ?_⟩
    cases hcustomer : assignment.customerId with
    | none =>
        rw [hcustomer, Option.isSome_none] at hsome
        exact Option.not_isSome_iff_eq_none.mp (by rw [← hsome]; decide)
    | some customer => simp [hbrand, hcustomer] at hcheck

theorem insertAssignment_ne_customerCheck {database : Database Uuid} {row : AssignmentRow Uuid}
    (hscope : row.CustomerScoped) : database.insertAssignment row ≠ .error customerCheck := by
  unfold Database.insertAssignment customerCheck
  rw [dif_pos hscope]
  split_ifs <;> simp

omit [DecidableEq Uuid] in
theorem bindUuid_ne_customerCheck (rt : Runtime Salt Hash Uuid) (column text : String) :
    bindUuid rt column text ≠ .error customerCheck := by
  unfold bindUuid customerCheck
  cases rt.uuid text <;> simp

omit [DecidableEq Uuid] in
theorem bindText_ne_customerCheck (rt : Runtime Salt Hash Uuid) (column text : String) :
    bindText rt column text ≠ .error customerCheck := by
  unfold bindText customerCheck
  split <;> simp

omit [DecidableEq Uuid] in
theorem bindUuid?_ne_customerCheck (rt : Runtime Salt Hash Uuid) (column : String)
    (text : Option String) : bindUuid? rt column text ≠ .error customerCheck := by
  cases text with
  | none => simp [bindUuid?]
  | some text =>
      have hvalue := bindUuid_ne_customerCheck rt column text
      unfold bindUuid?
      cases h : bindUuid rt column text with
      | error failure => simpa [h, Functor.map, Except.map] using hvalue
      | ok value => simp [h, Functor.map, Except.map]

omit [DecidableEq Uuid] in
theorem bindAssignment_ne_customerCheck (rt : Runtime Salt Hash Uuid)
    (assignment : RoleAssignment) : bindAssignment rt assignment ≠ .error customerCheck := by
  have huser := bindUuid_ne_customerCheck rt "user_id" assignment.userId
  have hrole := bindText_ne_customerCheck rt "role" assignment.role
  have hgranter := bindUuid?_ne_customerCheck rt "granted_by_user_id" assignment.grantedByUserId
  have hcustomer := bindUuid?_ne_customerCheck rt "customer_id" assignment.customerId
  unfold bindAssignment
  cases hu : bindUuid rt "user_id" assignment.userId with
  | error failure => simpa [hu, bind, Except.bind] using huser
  | ok user =>
      cases hr : bindText rt "role" assignment.role with
      | error failure => simpa [hr, bind, Except.bind] using hrole
      | ok role =>
          cases hg : bindUuid? rt "granted_by_user_id" assignment.grantedByUserId with
          | error failure => simpa [hr, hg, bind, Except.bind] using hgranter
          | ok granter =>
              cases hc : bindUuid? rt "customer_id" assignment.customerId with
              | error failure => simpa [hr, hg, hc, bind, Except.bind] using hcustomer
              | ok customer => simp [bind, Except.bind, pure, Except.pure]

-- The assignment that `grant_role` returns when it does.
def granted (userId : String) (archetype : Archetype) (role : String)
    (grantedByUserId customerId : Option String) (moment : Instant) : RoleAssignment where
  userId := userId
  accountArchetype := archetype
  role := role
  grantedAt := moment
  grantedByUserId := grantedByUserId
  revokedAt := none
  customerId := customerId

-- A grant that does not raise has put one checked row at the end of the table. When it
-- does, the table is as it was and the constraint on the customer is not why.
theorem wp_grantRole (rt : Runtime Salt Hash Uuid)
    {Q : Except Failure RoleAssignment → Database Uuid → Prop} (userId : String)
    (archetype : Archetype) (role : String) (grantedByUserId customerId : Option String)
    (grantedAt : Option Instant) (now : Instant) (database : Database Uuid)
    (hraise : ∀ failure, failure ≠ customerCheck → Q (.error failure) database)
    (hreturn : ∀ assignment row next,
      assignment = granted userId archetype role grantedByUserId customerId
        (grantedAt.getD now) →
      bindAssignment rt assignment = .ok row → (catalogueFor archetype).has role = true →
      database.insertAssignment row = .ok next → Q (.ok assignment) next) :
    wp (grantRole rt userId archetype role grantedByUserId customerId grantedAt now) Q
      database := by
  unfold grantRole
  cases hrole : (catalogueFor archetype).has role with
  | false => exact hraise _ (by simp [customerCheck])
  | true =>
      simp only [Bool.not_true, Bool.false_eq_true, ↓reduceIte]
      cases hscope : checkCustomerScope archetype customerId with
      | error failure =>
          refine hraise failure ?_
          unfold checkCustomerScope at hscope
          split_ifs at hscope <;> cases hscope <;> simp [customerCheck]
      | ok _ =>
          simp only [wp_execute]
          generalize hassignment : RoleAssignment.mk userId archetype role (grantedAt.getD now)
            grantedByUserId none customerId = assignment
          cases hb : bindAssignment rt assignment with
          | error failure =>
              refine hraise failure ?_
              rintro rfl
              exact bindAssignment_ne_customerCheck rt assignment hb
          | ok row =>
              have hcustomer : row.CustomerScoped := by
                apply customerScoped_of_check _ (bindAssignment_eq_ok hb)
                rw [← hassignment]
                exact hscope
              cases hi : database.insertAssignment row with
              | error failure =>
                  simp only [bind, Except.bind, hi]
                  refine hraise failure ?_
                  rintro rfl
                  exact insertAssignment_ne_customerCheck hcustomer hi
              | ok inserted =>
                  simp only [bind, Except.bind, hi]
                  exact hreturn assignment row inserted hassignment.symm hb hrole hi

theorem wp_revokeRole (rt : Runtime Salt Hash Uuid)
    {Q : Except Failure Bool → Database Uuid → Prop} (userId role : String)
    (grantedAt : Instant) (revokedAt : Option Instant) (now : Instant)
    (database : Database Uuid) (hraise : ∀ failure, Q (.error failure) database)
    (hreturn : ∀ user rowcount next, rt.uuid userId = some user →
      database.updateRevoked user role grantedAt (revokedAt.getD now) = (rowcount, next) →
      Q (.ok (rowcount == 1)) next) :
    wp (revokeRole rt userId role grantedAt revokedAt now) Q database := by
  unfold revokeRole
  simp only [wp_bind, wp_execute]
  cases hu : bindUuid rt "user_id" userId with
  | error failure => exact hraise _
  | ok user =>
      cases hr : bindText rt "role" role with
      | error failure => exact hraise failure
      | ok text =>
          obtain ⟨-, rfl⟩ := bindText_eq_ok.mp hr
          exact hreturn user _ _ (bindUuid_eq_ok.mp hu) rfl

-- What the WHERE clause of `live_assignments` selects for the given texts.
def HeldBy (rt : Runtime Salt Hash Uuid) (userId : String) (customerId : Option String)
    (row : AssignmentRow Uuid) : Prop :=
  rt.uuid userId = some row.userId ∧ row.revokedAt = none ∧
    ∀ customer ∈ customerId, ∃ value, rt.uuid customer = some value ∧ row.customerId = some value

theorem mem_selectLive {rt : Runtime Salt Hash Uuid} {userId : String}
    {customerId : Option String} {user : Uuid} {customer : Option Uuid}
    (hu : bindUuid rt "user_id" userId = .ok user)
    (hc : bindUuid? rt "customer_id" customerId = .ok customer) (database : Database Uuid)
    (row : AssignmentRow Uuid) :
    row ∈ database.selectLive user customer ↔
      row ∈ database.userRoleAssignment ∧ HeldBy rt userId customerId row := by
  rw [bindUuid_eq_ok] at hu
  rw [bindUuid?_eq_ok] at hc
  unfold Database.selectLive HeldBy
  rw [List.mem_filter, hu]
  simp only [decide_eq_true_eq, Option.some.injEq, eq_comm (a := user)]
  cases customerId with
  | none =>
      obtain rfl : none = customer := hc.2
      simp
  | some text =>
      obtain ⟨hsome, hcustomer⟩ := hc
      obtain ⟨value, rfl⟩ := Option.isSome_iff_exists.mp (hsome.symm.trans Option.isSome_some)
      have hvalue : rt.uuid text = some value := hcustomer
      simp [hvalue]

-- The reduction to role names keeps exactly the names of the selected rows.
theorem mem_selectLive_roles (rt : Runtime Salt Hash Uuid) (userId : String)
    (customerId : Option String) (database : Database Uuid) (user : Uuid)
    (customer : Option Uuid) (hu : bindUuid rt "user_id" userId = .ok user)
    (hc : bindUuid? rt "customer_id" customerId = .ok customer) (role : String) :
    role ∈ (((database.selectLive user customer).map (toAssignment rt)).map
        RoleAssignment.role).dedup ↔
      ∃ row ∈ database.userRoleAssignment, HeldBy rt userId customerId row ∧ row.role = role := by
  have hroles : ((database.selectLive user customer).map (toAssignment rt)).map
      RoleAssignment.role = (database.selectLive user customer).map AssignmentRow.role := by
    rw [List.map_map]
    rfl
  simp only [hroles, List.mem_dedup, List.mem_map, mem_selectLive hu hc, and_assoc]

omit [DecidableEq Uuid] in
theorem heldBy_user_bound {rt : Runtime Salt Hash Uuid} {userId : String}
    {customerId : Option String} {row : AssignmentRow Uuid} (h : HeldBy rt userId customerId row)
    (failure : Failure) : bindUuid rt "user_id" userId ≠ .error failure := by
  unfold bindUuid
  rw [h.1]
  simp

omit [DecidableEq Uuid] in
theorem heldBy_customer_bound {rt : Runtime Salt Hash Uuid} {userId : String}
    {customerId : Option String} {row : AssignmentRow Uuid} (h : HeldBy rt userId customerId row)
    (failure : Failure) : bindUuid? rt "customer_id" customerId ≠ .error failure := by
  cases customerId with
  | none => simp [bindUuid?]
  | some text =>
      obtain ⟨value, hv, -⟩ := h.2.2 text rfl
      simp [bindUuid?, bindUuid, hv, Functor.map, Except.map]

theorem wp_liveAssignments (rt : Runtime Salt Hash Uuid)
    {Q : Except Failure (List RoleAssignment) → Database Uuid → Prop} (userId : String)
    (customerId : Option String) (database : Database Uuid)
    (hraise : ∀ failure, (rt.uuid userId = none ∨ ∃ text ∈ customerId, rt.uuid text = none) →
      Q (.error failure) database)
    (hreturn : ∀ rows : List (AssignmentRow Uuid),
      (∀ row, row ∈ rows ↔ row ∈ database.userRoleAssignment ∧ HeldBy rt userId customerId row) →
      Q (.ok (rows.map (toAssignment rt))) database) :
    wp (liveAssignments rt userId customerId) Q database := by
  unfold liveAssignments
  simp only [wp_bind, wp_execute]
  cases hu : bindUuid rt "user_id" userId with
  | error failure =>
      refine hraise _ (.inl ?_)
      unfold bindUuid at hu
      cases h : rt.uuid userId with
      | none => rfl
      | some user => simp [h] at hu
  | ok user =>
      cases hc : bindUuid? rt "customer_id" customerId with
      | error failure =>
          refine hraise _ (.inr ?_)
          cases customerId with
          | none => simp [bindUuid?] at hc
          | some text =>
              refine ⟨text, rfl, ?_⟩
              unfold bindUuid? bindUuid at hc
              cases h : rt.uuid text with
              | none => rfl
              | some value => simp [h, Functor.map, Except.map] at hc
      | ok customer => exact hreturn _ (mem_selectLive hu hc database)

theorem wp_liveRoleIdentifiers (rt : Runtime Salt Hash Uuid)
    {Q : Except Failure (List String) → Database Uuid → Prop} (userId : String)
    (customerId : Option String) (database : Database Uuid)
    (hraise : ∀ failure, (∀ row : AssignmentRow Uuid, ¬ HeldBy rt userId customerId row) →
      Q (.error failure) database)
    (hreturn : ∀ held, (∀ role, role ∈ held ↔ ∃ row ∈ database.userRoleAssignment,
        HeldBy rt userId customerId row ∧ row.role = role) →
      Q (.ok held) database) :
    wp (liveRoleIdentifiers rt userId customerId) Q database := by
  unfold liveRoleIdentifiers liveAssignments
  simp only [wp_bind, wp_execute]
  cases hu : bindUuid rt "user_id" userId with
  | error failure => exact hraise _ fun row hr => heldBy_user_bound hr failure hu
  | ok user =>
      cases hc : bindUuid? rt "customer_id" customerId with
      | error failure => exact hraise _ fun row hr => heldBy_customer_bound hr failure hc
      | ok customer =>
          exact hreturn _ (mem_selectLive_roles rt userId customerId database user customer hu hc)

end RoleStore

end TrustlistCore.Auth
