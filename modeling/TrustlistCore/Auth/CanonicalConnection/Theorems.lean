import TrustlistCore.Auth.CanonicalConnection
import TrustlistCore.Auth.RoleStore.Theorems
import TrustlistCore.EventBus.Envelope.Theorems
import TrustlistCore.Library.Pointwise

namespace TrustlistCore.Auth.CanonicalConnection

open Library Relational DataModel.CanonicalStore
open DataModel (Server)
open EventBus (points)
open EventBus.Value (characters characters_charPoint)

variable {Salt Hash Jsonb : Type} {server : Server Instant Jsonb} {binding : Binding Jsonb}
variable {rt : Runtime Salt Hash Uuid} {environment : Environment Instant}

theorem characters_points (text : String) : String.ofList (characters (points text)) = text := by
  unfold points
  rw [characters_charPoint, String.ofList_toList]

theorem points_inj {a b : String} : points a = points b ↔ a = b := by
  constructor
  · intro h
    rw [← characters_points a, h, characters_points b]
  · exact congrArg points

theorem value_inj {a b : Archetype} : a.value = b.value ↔ a = b := by
  cases a <;> cases b <;> decide

section Stands

structure AccountStands (stored : CanonicalRow Instant Jsonb) (account : Uuid × Archetype) :
    Prop where
  userId : stored .userId = some (.uuid account.1)
  archetype : stored .archetype = some (.label account.2.value)

structure AssignmentStands (stored : CanonicalRow Instant Jsonb) (row : AssignmentRow Uuid) :
    Prop where
  userId : stored .userId = some (.uuid row.userId)
  accountArchetype : stored .accountArchetype = some (.label row.accountArchetype.value)
  role : stored .role = some (.text (points row.role))
  grantedAt : stored .grantedAt = some (.timestamp row.grantedAt)
  grantedByUserId : stored .grantedByUserId = row.grantedByUserId.map .uuid
  revokedAt : stored .revokedAt = row.revokedAt.map .timestamp
  customerId : stored .customerId = row.customerId.map .uuid

variable (server binding rt) in
structure AuditStands (stored : CanonicalRow Instant Jsonb) (event : AuditEvent) : Prop where
  generated : ∃ id, event.eventId = rt.uuidText id
  bound : ∃ values environment, auditValues server binding rt event = some values ∧
    stored = (createTable server .authAuditEvent).fill values environment

variable (server binding rt) in
-- The store meets its constraints, and holds these rows of the tables of the library.
structure Represents (store : Store Instant Jsonb) (database : Database Uuid) : Prop where
  sound : Sound (schema server) store
  account : List.Forall₂ AccountStands (store .userAccount) database.userAccount
  assignment : List.Forall₂ AssignmentStands (store .userRoleAssignment)
    database.userRoleAssignment
  audit : List.Forall₂ (AuditStands server binding rt) (store .authAuditEvent)
    database.authAuditEvent

variable (server binding rt) in
-- The driver and the server take what the library takes them to take.
structure Faithful : Prop where
  uuid_uuidText : ∀ id, rt.uuid (rt.uuidText id) = some id
  text : ∀ text, rt.text text = server.accepts (points text)
  admits : ∀ event, rt.admits event = (auditValues server binding rt event).isSome

-- An exception of the library is itself, and a violated constraint an `IntegrityError`.
inductive SameRaise : Raised → Failure → Prop
  | failure (failure : Failure) : SameRaise (.failure failure) failure
  | constraint {refusal : Refusal Table Column} (name : String) (h : refusal.OfConstraint) :
      SameRaise (.refusal refusal) (.integrityError name)

end Stands

section Accounts

variable {rows : List (CanonicalRow Instant Jsonb)} {accounts : List (Uuid × Archetype)}

theorem exists_account_iff (h : List.Forall₂ AccountStands rows accounts) (userId : Uuid) :
    (∃ target ∈ rows, target .userId = some (.uuid userId)) ↔ userId ∈ accounts.map Prod.fst := by
  rw [List.mem_map]
  constructor
  · rintro ⟨target, htarget, huser⟩
    obtain ⟨account, haccount, hstands⟩ := exists_left h htarget
    rw [hstands.userId] at huser
    exact ⟨account, haccount, by injection huser with huser; injection huser⟩
  · rintro ⟨account, haccount, rfl⟩
    obtain ⟨target, htarget, hstands⟩ := exists_right h haccount
    exact ⟨target, htarget, hstands.userId⟩

theorem exists_account_archetype_iff (h : List.Forall₂ AccountStands rows accounts)
    (userId : Uuid) (archetype : Archetype) :
    (∃ target ∈ rows, target .userId = some (.uuid userId) ∧
      target .archetype = some (.label archetype.value)) ↔ (userId, archetype) ∈ accounts := by
  constructor
  · rintro ⟨target, htarget, huser, harchetype⟩
    obtain ⟨account, haccount, hstands⟩ := exists_left h htarget
    rw [hstands.userId] at huser
    rw [hstands.archetype] at harchetype
    injection huser with huser
    injection huser with huser
    injection harchetype with harchetype
    injection harchetype with harchetype
    rw [value_inj] at harchetype
    rw [← huser, ← harchetype]
    exact haccount
  · intro hmem
    obtain ⟨target, htarget, hstands⟩ := exists_right h hmem
    exact ⟨target, htarget, hstands.userId, hstands.archetype⟩

end Accounts

section Grant

variable (row : AssignmentRow Uuid)

variable (server environment) in
def grantRow : CanonicalRow Instant Jsonb :=
  (createTable server .userRoleAssignment).fill (grantValues row (points row.role)) environment

variable (server environment) in
theorem stands_grant (hlive : row.revokedAt = none) :
    AssignmentStands (grantRow server environment row) row := by
  refine ⟨rfl, rfl, rfl, rfl, rfl, ?_, rfl⟩
  rw [hlive]
  rfl

variable (server environment) in
theorem columns_grant : ∀ column ∈ (createTable server .userRoleAssignment).columns,
    column.Accepts (grantRow server environment row) := by
  intro column hcolumn
  simp only [createTable, userRoleAssignment, List.mem_cons, List.not_mem_nil, or_false]
    at hcolumn
  rcases hcolumn with rfl | rfl | rfl | rfl | rfl | rfl | rfl
  · rfl
  · change userArchetype.admits (.label row.accountArchetype.value : Cell Instant Jsonb) = true
    cases row.accountArchetype <;> rfl
  · rfl
  · rfl
  · have hgranter : grantRow server environment row
        (optional .grantedByUserId .uuid : CanonicalColumn Instant Jsonb).column =
          row.grantedByUserId.map .uuid := rfl
    unfold ColumnDefinition.Accepts
    rw [hgranter]
    cases row.grantedByUserId <;> rfl
  · rfl
  · have hcustomer : grantRow server environment row
        (optional .customerId .uuid : CanonicalColumn Instant Jsonb).column =
          row.customerId.map .uuid := rfl
    unfold ColumnDefinition.Accepts
    rw [hcustomer]
    cases row.customerId <;> rfl

variable (server environment) in
-- The CHECK on the row is the one on the assignment.
theorem holds_grant_iff :
    (customerIdRequiredForBrandCustomer : Check Column (Cell Instant Jsonb)).holds
      (grantRow server environment row) = true ↔ row.CustomerScoped := by
  have harchetype : grantRow server environment row .accountArchetype =
      some (.label row.accountArchetype.value) := rfl
  have hcustomer : grantRow server environment row .customerId = row.customerId.map .uuid := rfl
  unfold customerIdRequiredForBrandCustomer AssignmentRow.CustomerScoped
  simp only [harchetype, hcustomer, Option.isSome_map, Option.isNone_map, decide_eq_true_eq]
  cases row.accountArchetype <;> simp [Archetype.value]

section Insert

variable {row} {store : Store Instant Jsonb} {database : Database Uuid}

-- What lets an assignment into the tables of the library.
structure Grantable (database : Database Uuid) (row : AssignmentRow Uuid) : Prop where
  customer : row.CustomerScoped
  key : row.key ∉ database.userRoleAssignment.map AssignmentRow.key
  account : (row.userId, row.accountArchetype) ∈ database.userAccount
  granter : ∀ granter, row.grantedByUserId = some granter →
    granter ∈ database.userAccount.map Prod.fst

theorem insertAssignment_of_grantable (h : Grantable database row) :
    ∃ next, database.insertAssignment row = .ok next := by
  have hgranter : row.grantedByUserId.all
      (fun granter => granter ∈ database.userAccount.map Prod.fst) = true := by
    cases hrow : row.grantedByUserId with
    | none => rfl
    | some granter => exact decide_eq_true (h.granter granter hrow)
  unfold Database.insertAssignment
  rw [dif_pos h.customer, dif_neg h.key, dif_pos h.account, if_pos hgranter]
  exact ⟨_, rfl⟩

theorem insertAssignment_refused (h : ¬ Grantable database row) :
    ∃ name, database.insertAssignment row = .error (.integrityError name) := by
  unfold Database.insertAssignment
  split_ifs with hscoped hkey haccount hgranter
  · exact ⟨_, rfl⟩
  · exfalso
    apply h
    refine ⟨hscoped, hkey, haccount, ?_⟩
    intro granter hrow
    rw [hrow] at hgranter
    exact of_decide_eq_true hgranter
  · exact ⟨_, rfl⟩
  · exact ⟨_, rfl⟩
  · exact ⟨_, rfl⟩

variable (server environment) in
theorem clash_grant_iff {stored : CanonicalRow Instant Jsonb} {known : AssignmentRow Uuid}
    (hstands : AssignmentStands stored known) :
    Key.Clash ⟨"pk_user_role_assignment", [.userId, .role, .grantedAt]⟩ stored
      (grantRow server environment row) ↔ known.key = row.key := by
  have hstored : project [.userId, .role, .grantedAt] stored =
      some [.uuid known.userId, .text (points known.role), .timestamp known.grantedAt] := by
    simp [project, hstands.userId, hstands.role, hstands.grantedAt]
  have hrow : project [.userId, .role, .grantedAt] (grantRow server environment row) =
      some [.uuid row.userId, .text (points row.role), .timestamp row.grantedAt] := rfl
  unfold Key.Clash AssignmentRow.key
  simp only [hstored, hrow, Option.some.injEq, exists_eq_left', List.cons.injEq, Cell.uuid.injEq,
    Cell.text.injEq, Cell.timestamp.injEq, and_true, Prod.mk.injEq, points_inj]
  exact ⟨fun h => ⟨h.1.symm, h.2.1.symm, h.2.2.symm⟩, fun h => ⟨h.1.symm, h.2.1.symm, h.2.2.symm⟩⟩

variable (environment) in
theorem resolved_grant_iff (hrep : Represents server binding rt store database)
    (next : Store Instant Jsonb) (hnext : next .userAccount = store .userAccount) :
    (∀ foreignKey ∈ (createTable server .userRoleAssignment).foreignKeys,
      foreignKey.Resolved next (grantRow server environment row)) ↔
      (row.userId, row.accountArchetype) ∈ database.userAccount ∧
        ∀ granter, row.grantedByUserId = some granter →
          granter ∈ database.userAccount.map Prod.fst := by
  have hgranter : ForeignKey.Resolved
      (toUserAccount "fk_user_role_assignment_granted_by_user_id_user_account" .grantedByUserId)
        next (grantRow server environment row) ↔
      ∀ granter, row.grantedByUserId = some granter →
        granter ∈ database.userAccount.map Prod.fst := by
    have hcolumn : grantRow server environment row .grantedByUserId =
        row.grantedByUserId.map .uuid := rfl
    refine ForeignKey.resolved_one.trans ?_
    rw [hcolumn, hnext]
    constructor
    · intro h granter hrow
      exact (exists_account_iff hrep.account granter).mp (h (.uuid granter) (by rw [hrow]; rfl))
    · intro h cell hcell
      obtain ⟨granter, hrow, rfl⟩ := Option.map_eq_some_iff.mp hcell
      exact (exists_account_iff hrep.account granter).mpr (h granter hrow)
  have haccount : ForeignKey.Resolved
      (toUserAccountArchetype "fk_user_role_assignment_user_id_user_account")
        next (grantRow server environment row) ↔
      (row.userId, row.accountArchetype) ∈ database.userAccount := by
    have hproject : project [.userId, .accountArchetype] (grantRow server environment row) =
        some [.uuid row.userId, .label row.accountArchetype.value] := rfl
    unfold ForeignKey.Resolved toUserAccountArchetype
    simp only [hproject, hnext, Option.some.injEq, forall_eq', project_two]
    exact exists_account_archetype_iff hrep.account row.userId row.accountArchetype
  simp only [createTable, userRoleAssignment, List.mem_cons, List.not_mem_nil, or_false,
    forall_eq_or_imp, forall_eq]
  rw [hgranter, haccount]
  exact and_comm

variable [DecidableEq Jsonb]

variable (environment) in
-- The migrated table takes exactly the assignments that the library takes it to take.
theorem execute_grant_iff (hrep : Represents server binding rt store database) :
    (∃ next, execute (schema server) store (.insert .userRoleAssignment
      (grantValues row (points row.role)) environment) = .ok next) ↔ Grantable database row := by
  have hother : ∀ rows, Function.update store .userRoleAssignment rows .userAccount =
      store .userAccount := by
    intro rows
    exact Function.update_of_ne (by decide) _ _
  constructor
  · rintro ⟨next, hexecute⟩
    obtain ⟨hnext, hadmits, hclash, hresolved⟩ := execute_insert hexecute
    obtain ⟨haccount, hgranter⟩ :=
      (resolved_grant_iff environment hrep next (by rw [hnext, hother])).mp
        hresolved
    have hcheck := hadmits.checks _ (List.mem_singleton_self _)
    refine ⟨(holds_grant_iff server environment row).mp hcheck, ?_, haccount, hgranter⟩
    · intro hkey
      obtain ⟨known, hknown, hsame⟩ := List.mem_map.mp hkey
      obtain ⟨stored, hstored, hstands⟩ := exists_right hrep.assignment hknown
      exact hclash _ (List.mem_singleton_self _) stored hstored
        ((clash_grant_iff server environment hstands).mpr hsame)
  · intro h
    refine ⟨_, execute_insert_of rfl ⟨columns_grant server environment row, ?_⟩ ?_ ?_⟩
    · intro check hcheck
      rw [List.mem_singleton.mp hcheck]
      exact (holds_grant_iff server environment row).mpr h.customer
    · intro key hkey stored hstored hclash
      rw [List.mem_singleton.mp hkey] at hclash
      obtain ⟨known, hknown, hstands⟩ := exists_left hrep.assignment hstored
      apply h.key
      rw [← (clash_grant_iff server environment hstands).mp hclash]
      exact List.mem_map_of_mem hknown
    · exact (resolved_grant_iff environment hrep _ (hother _)).mpr ⟨h.account, h.granter⟩

end Insert

end Grant

section Revoke

variable [DecidableEq Jsonb] {stored : CanonicalRow Instant Jsonb} {row : AssignmentRow Uuid}
variable (userId : Uuid) (role : String) (grantedAt revokedAt : Instant)

theorem namesLive_eq (h : AssignmentStands stored row) :
    namesLive userId (points role) grantedAt stored =
      Database.namesLive userId role grantedAt row := by
  unfold namesLive Database.namesLive AssignmentRow.key
  rw [h.userId, h.role, h.grantedAt, h.revokedAt]
  simp only [Option.some.injEq, Cell.uuid.injEq, Cell.text.injEq, points_inj,
    Cell.timestamp.injEq, Option.map_eq_none_iff, Prod.mk.injEq, and_assoc]

theorem stands_revoked (h : AssignmentStands stored row) :
    AssignmentStands (updated (namesLive userId (points role) grantedAt) (setRevoked revokedAt)
      stored) (Database.stampRevoked userId role grantedAt revokedAt row) := by
  unfold updated Database.stampRevoked
  rw [namesLive_eq userId role grantedAt h]
  by_cases hnamed : Database.namesLive userId role grantedAt row = true
  · rw [if_pos hnamed, if_pos hnamed]
    exact ⟨h.userId, h.accountArchetype, h.role, h.grantedAt, h.grantedByUserId, rfl,
      h.customerId⟩
  · rw [if_neg hnamed, if_neg hnamed]
    exact h

omit [DecidableEq Jsonb] in
variable (server) in
theorem admits_revoked (h : (createTable server .userRoleAssignment).Admits stored) :
    (createTable server .userRoleAssignment).Admits (setRevoked revokedAt stored) := by
  constructor
  · intro column hcolumn
    have hold := h.columns column hcolumn
    by_cases hrevoked : column.column = .revokedAt
    · simp only [createTable, userRoleAssignment, List.mem_cons, List.not_mem_nil, or_false]
        at hcolumn
      rcases hcolumn with rfl | rfl | rfl | rfl | rfl | rfl | rfl
      · cases hrevoked
      · cases hrevoked
      · cases hrevoked
      · cases hrevoked
      · cases hrevoked
      · rfl
      · cases hrevoked
    · unfold ColumnDefinition.Accepts setRevoked at *
      rwa [Function.update_of_ne hrevoked]
  · intro check hcheck
    have hold := h.checks check hcheck
    rw [List.mem_singleton.mp hcheck] at hold ⊢
    exact hold

-- An UPDATE of `revoked_at` touches no key and no reference, so nothing refuses it.
theorem submit_revoked {store : Store Instant Jsonb} (hsound : Sound (schema server) store) :
    submit (schema server) applicationRole store (.update .userRoleAssignment
        (namesLive userId (points role) grantedAt) (setRevoked revokedAt)) =
      .ok (Function.update store .userRoleAssignment ((store .userRoleAssignment).map
        (updated (namesLive userId (points role) grantedAt) (setRevoked revokedAt)))) := by
  rw [submit_of_granted server]
  · apply execute_update_of hsound
    · intro row hrow _
      exact admits_revoked server revokedAt (hsound.admitted .userRoleAssignment row hrow)
    · intro key hkey row _ _
      rw [List.mem_singleton.mp hkey]
      rfl
    · intro foreignKey hforeignKey row _ _
      simp only [schema, createTable, userRoleAssignment, List.mem_cons, List.not_mem_nil,
        or_false] at hforeignKey
      rcases hforeignKey with rfl | rfl
      · rfl
      · rfl
  · intro privilege hprivilege
    simp only [Statement.privileges, List.mem_cons, List.not_mem_nil, or_false] at hprivilege
    rcases hprivilege with rfl | rfl
    · decide
    · decide

end Revoke

section Audit

theorem auditValues_congr {other : Runtime Salt Hash Uuid} (h : rt.uuid = other.uuid)
    (event : AuditEvent) :
    auditValues server binding rt event = auditValues server binding other event := by
  unfold auditValues
  rw [h]

variable {event : AuditEvent} {values : Column → Option (Option (Cell Instant Jsonb))}

variable (server) in
-- The row of an audit event whose values are bound.
structure AuditFilled (rt : Runtime Salt Hash Uuid) (event : AuditEvent)
    (row : CanonicalRow Instant Jsonb) : Prop where
  eventId : ∃ id, rt.uuid event.eventId = some id ∧ row .authAuditEventId = some (.uuid id)
  userId : ∃ user, event.userId.mapM rt.uuid = some user ∧ row .userId = user.map .uuid
  columns : ∀ column ∈ (createTable server .authAuditEvent).columns, column.Accepts row

variable (environment) in
theorem auditFilled (h : auditValues server binding rt event = some values) :
    AuditFilled server rt event
      ((createTable server .authAuditEvent).fill values environment) := by
  unfold auditValues at h
  simp only [Option.bind_eq_bind, Option.bind_eq_some_iff, Option.some.injEq] at h
  obtain ⟨id, hid, user, huser, ip, _, agent, _, details, _, rfl⟩ := h
  refine ⟨⟨id, hid, rfl⟩, ⟨user, huser, rfl⟩, ?_⟩
  intro column hcolumn
  simp only [createTable, authAuditEvent, List.mem_cons, List.not_mem_nil, or_false] at hcolumn
  rcases hcolumn with rfl | rfl | rfl | rfl | rfl | rfl | rfl
  · rfl
  · cases user <;> rfl
  · change authAuditEventType.admits (.label event.eventType.value : Cell Instant Jsonb) = true
    cases event.eventType <;> rfl
  · rfl
  · cases ip <;> rfl
  · cases agent <;> rfl
  · rfl

theorem exists_id (hfaithful : Faithful server binding rt) {stored : CanonicalRow Instant Jsonb}
    (h : AuditStands server binding rt stored event) :
    ∃ id, event.eventId = rt.uuidText id ∧ stored .authAuditEventId = some (.uuid id) := by
  obtain ⟨id, hid⟩ := h.generated
  obtain ⟨values, environment, hvalues, rfl⟩ := h.bound
  obtain ⟨found, hfound, hcolumn⟩ := (auditFilled environment hvalues).eventId
  rw [hid, hfaithful.uuid_uuidText] at hfound
  obtain rfl := Option.some.inj hfound
  exact ⟨id, hid, hcolumn⟩

variable {store : Store Instant Jsonb} {database : Database Uuid}

-- What lets an event that the columns take into the audit table.
structure Auditable (rt : Runtime Salt Hash Uuid) (database : Database Uuid) (event : AuditEvent) :
    Prop where
  key : event.eventId ∉ database.authAuditEvent.map AuditEvent.eventId
  account : ∀ user, event.userId = some user →
    ∃ key, rt.uuid user = some key ∧ key ∈ database.userAccount.map Prod.fst

theorem insertAuditEvent_of_auditable (hadmits : rt.admits event = true)
    (h : Auditable rt database event) :
    ∃ next, database.insertAuditEvent rt.uuid rt.admits event = .ok next := by
  have haccount : event.userId.all (fun user =>
      (rt.uuid user).any (fun key => key ∈ database.userAccount.map Prod.fst)) = true := by
    cases huser : event.userId with
    | none => rfl
    | some user =>
        obtain ⟨key, hkey, hmem⟩ := h.account user huser
        simp only [Option.all_some, hkey, Option.any_some]
        exact decide_eq_true hmem
  unfold Database.insertAuditEvent
  rw [if_pos hadmits, dif_neg h.key, if_pos haccount]
  exact ⟨_, rfl⟩

theorem insertAuditEvent_refused (hadmits : rt.admits event = true)
    (h : ¬ Auditable rt database event) :
    ∃ name, database.insertAuditEvent rt.uuid rt.admits event =
      .error (.integrityError name) := by
  unfold Database.insertAuditEvent
  rw [if_pos hadmits]
  split_ifs with hkey haccount
  · exact ⟨_, rfl⟩
  · exfalso
    apply h
    refine ⟨hkey, ?_⟩
    intro user huser
    rw [huser, Option.all_some, Option.any_eq_true] at haccount
    obtain ⟨key, hfound, hmem⟩ := haccount
    exact ⟨key, hfound, of_decide_eq_true hmem⟩
  · exact ⟨_, rfl⟩

theorem resolved_audit_iff (hrep : Represents server binding rt store database)
    {row : CanonicalRow Instant Jsonb} (hrow : AuditFilled server rt event row)
    (next : Store Instant Jsonb) (hnext : next .userAccount = store .userAccount) :
    (∀ foreignKey ∈ (createTable server .authAuditEvent).foreignKeys,
      foreignKey.Resolved next row) ↔
      ∀ user, event.userId = some user →
        ∃ key, rt.uuid user = some key ∧ key ∈ database.userAccount.map Prod.fst := by
  obtain ⟨bound, hbound, hcolumn⟩ := hrow.userId
  simp only [createTable, authAuditEvent, List.mem_singleton, forall_eq]
  refine ForeignKey.resolved_one.trans ?_
  rw [hcolumn, hnext]
  cases huser : event.userId with
  | none =>
      rw [huser] at hbound
      obtain rfl : none = bound := Option.some.inj hbound
      simp
  | some user =>
      rw [huser, Option.mapM_some, Option.map_eq_map, Option.map_eq_some_iff] at hbound
      obtain ⟨key, hkey, rfl⟩ := hbound
      simp only [Option.map_some, Option.some.injEq, forall_eq', hkey, exists_eq_left']
      exact exists_account_iff hrep.account key

variable [DecidableEq Jsonb]

variable (environment) in
theorem execute_audit_iff (hfaithful : Faithful server binding rt)
    (hrep : Represents server binding rt store database)
    (hvalues : auditValues server binding rt event = some values)
    (hgenerated : ∃ id, event.eventId = rt.uuidText id) :
    (∃ next, execute (schema server) store (.insert .authAuditEvent values environment) =
      .ok next) ↔ Auditable rt database event := by
  have hrow := auditFilled environment hvalues
  have hstands : AuditStands server binding rt
      ((createTable server .authAuditEvent).fill values environment) event :=
    ⟨hgenerated, values, environment, hvalues, rfl⟩
  obtain ⟨id, hid, hcolumn⟩ := exists_id hfaithful hstands
  -- two ids are one as soon as their texts are
  have hclash : ∀ stored known, AuditStands server binding rt stored known →
      (Key.Clash ⟨"pk_auth_audit_event", [.authAuditEventId]⟩ stored
        ((createTable server .authAuditEvent).fill values environment) ↔
          known.eventId = event.eventId) := by
    intro stored known hknown
    obtain ⟨other, hother, hstored⟩ := exists_id hfaithful hknown
    rw [Key.clash_one, hstored, hcolumn, hother, hid]
    constructor
    · rintro ⟨cell, hcell, hsame⟩
      rw [← hcell] at hsame
      injection hsame with hsame
      injection hsame with hsame
      rw [hsame]
    · intro hsame
      have htexts := congrArg rt.uuid hsame
      rw [hfaithful.uuid_uuidText, hfaithful.uuid_uuidText] at htexts
      rw [Option.some.inj htexts]
      exact ⟨_, rfl, rfl⟩
  have hother : ∀ rows, Function.update store .authAuditEvent rows .userAccount =
      store .userAccount := by
    intro rows
    exact Function.update_of_ne (by decide) _ _
  constructor
  · rintro ⟨next, hexecute⟩
    obtain ⟨hnext, _, hdistinct, hresolved⟩ := execute_insert hexecute
    refine ⟨?_, (resolved_audit_iff hrep hrow next (by rw [hnext, hother])).mp hresolved⟩
    intro hkey
    obtain ⟨known, hknown, hsame⟩ := List.mem_map.mp hkey
    obtain ⟨stored, hstored, hstandsKnown⟩ := exists_right hrep.audit hknown
    exact hdistinct _ (List.mem_singleton_self _) stored hstored
      ((hclash stored known hstandsKnown).mpr hsame)
  · intro h
    refine ⟨_, execute_insert_of rfl ⟨hrow.columns, ?_⟩ ?_ ?_⟩
    · intro check hcheck
      exact absurd hcheck List.not_mem_nil
    · intro key hkey stored hstored hclashes
      rw [List.mem_singleton.mp hkey] at hclashes
      obtain ⟨known, hknown, hstandsKnown⟩ := exists_left hrep.audit hstored
      apply h.key
      rw [← (hclash stored known hstandsKnown).mp hclashes]
      exact List.mem_map_of_mem hknown
    · exact (resolved_audit_iff hrep hrow _ (hother _)).mpr h.account

end Audit

section Requests

variable [DecidableEq Jsonb]

theorem run_execute {A : Type} (statement : Database Uuid → Except Failure (A × Database Uuid))
    (database : Database Uuid) :
    (RoleStore.execute statement).run database =
      match statement database with
      | .ok (value, next) => .ok value next
      | .error failure => .error failure database := by
  unfold RoleStore.execute
  rw [EStateM.run_bind, EStateM.run_get]
  simp only
  rcases statement database with failure | ⟨value, next⟩ <;> rfl

theorem run_submitted (statement : CanonicalStatement Instant Jsonb)
    (store : Store Instant Jsonb) :
    (submitted server statement).run store =
      match submit (schema server) applicationRole store statement with
      | .ok next => .ok () next
      | .error refusal => .error (.refusal refusal) store := by
  unfold submitted
  rw [EStateM.run_bind, EStateM.run_get]
  simp only
  cases submit (schema server) applicationRole store statement <;> rfl

omit [DecidableEq Jsonb] in
theorem lift_ok {A : Type} (value : A) : (lift (.ok value) : Connection Jsonb A) = pure value :=
  rfl

omit [DecidableEq Jsonb] in
theorem bindText_eq_ok {column text : String} :
    bindText server column text = .ok (points text) ↔ server.accepts (points text) = true := by
  unfold bindText
  split <;> simp [*]

omit [DecidableEq Jsonb] in
theorem bindText_eq_error {column text : String} (h : server.accepts (points text) = false) :
    bindText server column text = .error (.dataError column) := by
  unfold bindText
  rw [h]
  rfl

theorem simulates_insertAssignment (row : AssignmentRow Uuid) (hlive : row.revokedAt = none)
    (assignment : RoleAssignment) :
    Simulates (Represents server binding rt) SameRaise
      (do
        submitted server (.insert .userRoleAssignment (grantValues row (points row.role))
          environment)
        return assignment)
      (RoleStore.execute fun database => do
        let next ← database.insertAssignment row
        return (assignment, next)) := by
  intro store database hrep
  have hgranted : submit (schema server) applicationRole store
      (.insert .userRoleAssignment (grantValues row (points row.role)) environment) =
        execute (schema server) store
          (.insert .userRoleAssignment (grantValues row (points row.role)) environment) := by
    apply submit_of_granted
    intro privilege hprivilege
    rw [List.mem_singleton.mp hprivilege]
    decide
  rw [EStateM.run_bind, run_submitted, run_execute, hgranted]
  by_cases h : Grantable database row
  · obtain ⟨next, hnext⟩ := (execute_grant_iff environment hrep).mpr h
    obtain ⟨after, hafter⟩ := insertAssignment_of_grantable h
    obtain ⟨hassignment, haccount, haudit⟩ :=
      Database.insertAssignment_eq_ok database after row hafter
    rw [hnext, hafter]
    have hstore := (execute_insert hnext).1
    refine .ok ⟨sound_insert hnext hrep.sound, ?_, ?_, ?_⟩
    · rw [haccount, hstore, Function.update_of_ne (by decide)]
      exact hrep.account
    · rw [hassignment, hstore, Function.update_self]
      exact List.rel_append hrep.assignment (.cons (stands_grant server environment row hlive) .nil)
    · rw [haudit, hstore, Function.update_of_ne (by decide)]
      exact hrep.audit
  · obtain ⟨name, hrefused⟩ := insertAssignment_refused h
    rw [hrefused]
    cases hexecute : execute (schema server) store
        (.insert .userRoleAssignment (grantValues row (points row.role)) environment) with
    | ok next => exact absurd ((execute_grant_iff environment hrep).mp ⟨next, hexecute⟩) h
    | error refusal =>
        have hconstraint := ofConstraint_of_execute_insert rfl
          (columns_grant server environment row) hexecute
        exact .error (.constraint name hconstraint)

theorem simulates_grantRole (hfaithful : Faithful server binding rt) (userId : String)
    (archetype : Archetype) (role : String) (grantedByUserId customerId : Option String)
    (grantedAt : Option Instant) (now : Instant) :
    Simulates (Represents server binding rt) SameRaise
      (grantRole server environment rt userId archetype role grantedByUserId customerId grantedAt
        now)
      (RoleStore.grantRole rt userId archetype role grantedByUserId customerId grantedAt now) := by
  unfold grantRole RoleStore.grantRole
  by_cases hrole : (catalogueFor archetype).has role = true
  · simp only [hrole, Bool.not_true, Bool.false_eq_true, if_false]
    cases RoleStore.checkCustomerScope archetype customerId with
    | error failure => exact .throw (.failure failure)
    | ok _ =>
        simp only
        cases hbind : RoleStore.bindAssignment rt
            { userId, accountArchetype := archetype, role, grantedAt := grantedAt.getD now,
              grantedByUserId, revokedAt := none, customerId } with
        | error failure =>
            intro store database hrep
            rw [run_execute]
            exact .error (.failure failure)
        | ok row =>
            have hbound := RoleStore.bindAssignment_eq_ok hbind
            have hsame : row.role = role := hbound.role
            subst hsame
            simp only [bindText_eq_ok.mpr ((hfaithful.text _).symm.trans hbound.text)]
            exact simulates_insertAssignment row hbound.revokedAt _
  · simp only [Bool.not_eq_true] at hrole
    simp only [hrole, Bool.not_false, if_true]
    exact .throw (.failure _)

theorem simulates_revokeRole (hfaithful : Faithful server binding rt) (userId role : String)
    (grantedAt : Instant) (revokedAt : Option Instant) (now : Instant) :
    Simulates (Represents server binding rt) SameRaise
      (revokeRole server rt userId role grantedAt revokedAt now)
      (RoleStore.revokeRole rt userId role grantedAt revokedAt now) := by
  unfold revokeRole RoleStore.revokeRole
  cases hbind : RoleStore.bindUuid rt "user_id" userId with
  | error failure =>
      intro store database hrep
      exact .error (.failure failure)
  | ok user =>
  cases hrole : RoleStore.bindText rt "role" role with
  | error failure =>
      obtain ⟨hrefused, rfl⟩ := RoleStore.bindText_eq_error.mp hrole
      simp only [bindText_eq_error ((hfaithful.text _).symm.trans hrefused)]
      intro store database hrep
      exact .error (.failure _)
  | ok text =>
      obtain ⟨htaken, rfl⟩ := RoleStore.bindText_eq_ok.mp hrole
      simp only [bindText_eq_ok.mpr ((hfaithful.text _).symm.trans htaken)]
      intro store database hrep
      have hcount : (store .userRoleAssignment).countP (namesLive user (points role) grantedAt) =
          database.userRoleAssignment.countP (Database.namesLive user role grantedAt) :=
        countP_congr hrep.assignment fun _ _ hstands => namesLive_eq user role grantedAt hstands
      have hsubmit := submit_revoked user role grantedAt (revokedAt.getD now) hrep.sound
      have hsound := sound_execute (submit_eq_ok hsubmit).2 hrep.sound
      simp only [lift_ok, pure_bind, EStateM.run_bind, EStateM.run_get, run_submitted, run_execute,
        hsubmit, hcount]
      refine .ok ⟨hsound, ?_, ?_, ?_⟩
      · rw [Function.update_of_ne (by decide)]
        exact hrep.account
      · rw [Function.update_self]
        exact List.rel_map
          (fun _ _ hstands => stands_revoked user role grantedAt (revokedAt.getD now) hstands)
          hrep.assignment
      · rw [Function.update_of_ne (by decide)]
        exact hrep.audit

omit [DecidableEq Jsonb] in
theorem archetypeCell_value (archetype : Archetype) :
    archetypeCell (some (.label archetype.value : Cell Instant Jsonb)) = some archetype := by
  cases archetype <;> rfl

omit [DecidableEq Jsonb] in
theorem readAssignment_eq {stored : CanonicalRow Instant Jsonb} {row : AssignmentRow Uuid}
    (h : AssignmentStands stored row) :
    readAssignment rt stored = some (RoleStore.toAssignment rt row) := by
  have huser : uuidCell (stored .userId) = some row.userId := by rw [h.userId]; rfl
  have harchetype : archetypeCell (stored .accountArchetype) = some row.accountArchetype := by
    rw [h.accountArchetype, archetypeCell_value]
  have hrole : textCell (stored .role) = some (points row.role) := by rw [h.role]; rfl
  have hgranted : timestampCell (stored .grantedAt) = some row.grantedAt := by
    rw [h.grantedAt]
    rfl
  have hgranter : uuidCell (stored .grantedByUserId) = row.grantedByUserId := by
    rw [h.grantedByUserId]
    cases row.grantedByUserId <;> rfl
  have hrevoked : timestampCell (stored .revokedAt) = row.revokedAt := by
    rw [h.revokedAt]
    cases row.revokedAt <;> rfl
  have hcustomer : uuidCell (stored .customerId) = row.customerId := by
    rw [h.customerId]
    cases row.customerId <;> rfl
  unfold readAssignment RoleStore.toAssignment
  simp only [huser, harchetype, hrole, hgranted, hgranter, hrevoked, hcustomer,
    characters_points, Option.bind_eq_bind, Option.bind_some]

theorem selectsLive_eq {stored : CanonicalRow Instant Jsonb} {row : AssignmentRow Uuid}
    (h : AssignmentStands stored row) (userId : Uuid) (customerId : Option Uuid) :
    selectsLive userId customerId stored =
      decide (row.userId = userId ∧ row.revokedAt = none ∧
        customerId.all (fun customer => row.customerId = some customer)) := by
  unfold selectsLive
  rw [h.userId, h.revokedAt, h.customerId]
  cases customerId with
  | none => simp
  | some customer => cases row.customerId <;> simp

theorem simulates_liveAssignments (userId : String) (customerId : Option String) :
    Simulates (Represents server binding rt) SameRaise
      (liveAssignments rt userId customerId) (RoleStore.liveAssignments rt userId customerId) := by
  unfold liveAssignments RoleStore.liveAssignments
  cases hbind : RoleStore.bindUuid rt "user_id" userId with
  | error failure =>
      intro store database hrep
      exact .error (.failure failure)
  | ok user =>
      cases hcustomer : RoleStore.bindUuid? rt "customer_id" customerId with
      | error failure =>
          intro store database hrep
          exact .error (.failure failure)
      | ok customer =>
          intro store database hrep
          have hrows : ((store .userRoleAssignment).filter
              (selectsLive user customer)).filterMap (readAssignment rt) =
              (database.selectLive user customer).map (RoleStore.toAssignment rt) :=
            filterMap_filter_eq hrep.assignment
              (fun _ _ hstands => selectsLive_eq hstands user customer)
              fun _ _ hstands => readAssignment_eq hstands
          simp only [lift_ok, pure_bind, EStateM.run_bind, EStateM.run_get, run_execute, hrows]
          exact .ok hrep

theorem simulates_insertAuditEvent (hfaithful : Faithful server binding rt) (event : AuditEvent)
    (hgenerated : ∃ id, event.eventId = rt.uuidText id) :
    Simulates (Represents server binding rt) SameRaise
      (insertAuditEvent server binding environment rt event)
      (RoleStore.insertAuditEvent rt event) := by
  intro store database hrep
  have hadmits := hfaithful.admits event
  unfold insertAuditEvent RoleStore.insertAuditEvent
  rw [run_execute]
  cases hvalues : auditValues server binding rt event with
  | none =>
      rw [hvalues, Option.isSome_none] at hadmits
      have hrefused : database.insertAuditEvent rt.uuid rt.admits event =
          .error (.dataError "auth_audit_event") := by
        unfold Database.insertAuditEvent
        rw [if_neg (by rw [hadmits]; exact Bool.false_ne_true)]
      rw [hrefused]
      exact .error (.failure _)
  | some values =>
      rw [hvalues, Option.isSome_some] at hadmits
      have hgranted : submit (schema server) applicationRole store
          (.insert .authAuditEvent values environment) =
            execute (schema server) store (.insert .authAuditEvent values environment) := by
        apply submit_of_granted
        intro privilege hprivilege
        rw [List.mem_singleton.mp hprivilege]
        decide
      simp only
      rw [run_submitted, hgranted]
      by_cases h : Auditable rt database event
      · obtain ⟨next, hnext⟩ := (execute_audit_iff environment hfaithful hrep
          hvalues hgenerated).mpr h
        obtain ⟨after, hafter⟩ := insertAuditEvent_of_auditable hadmits h
        obtain ⟨hassignment, haccount, haudit⟩ :=
          Database.insertAuditEvent_eq_ok database after rt.uuid rt.admits event hafter
        rw [hnext, hafter]
        have hstore := (execute_insert hnext).1
        refine .ok ⟨sound_insert hnext hrep.sound, ?_, ?_, ?_⟩
        · rw [haccount, hstore, Function.update_of_ne (by decide)]
          exact hrep.account
        · rw [hassignment, hstore, Function.update_of_ne (by decide)]
          exact hrep.assignment
        · rw [haudit, hstore, Function.update_self]
          exact List.rel_append hrep.audit
            (.cons ⟨hgenerated, values, environment, hvalues, rfl⟩ .nil)
      · obtain ⟨name, hrefused⟩ := insertAuditEvent_refused hadmits h
        rw [hrefused]
        cases hexecute : execute (schema server) store
            (.insert .authAuditEvent values environment) with
        | ok next =>
            have hauditable := execute_audit_iff environment hfaithful hrep hvalues hgenerated
            exact absurd (hauditable.mp ⟨next, hexecute⟩) h
        | error refusal =>
            have hconstraint := ofConstraint_of_execute_insert rfl
              (auditFilled environment hvalues).columns hexecute
            exact .error (.constraint name hconstraint)

theorem simulates_operate (hfaithful : Faithful server binding rt) (request : Request)
    (hregular : Regular rt request) :
    Simulates (Represents server binding rt) SameRaise
      (operate server binding environment rt request) (RoleStore.operate rt request) := by
  cases request with
  | grantRole userId archetype role grantedBy customerId grantedAt now =>
      exact (simulates_grantRole hfaithful userId archetype role grantedBy customerId grantedAt
        now).map _
  | revokeRole userId role grantedAt revokedAt now =>
      exact (simulates_revokeRole hfaithful userId role grantedAt revokedAt now).map _
  | liveAssignments userId customerId =>
      exact (simulates_liveAssignments userId customerId).map _
  | insertAuditEvent event => exact (simulates_insertAuditEvent hfaithful event hregular).map _

end Requests

end TrustlistCore.Auth.CanonicalConnection
