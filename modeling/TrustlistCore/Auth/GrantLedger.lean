import TrustlistCore.Auth.Service.Theorems

namespace TrustlistCore.Auth.RoleStore

open Library

variable {Salt Hash Uuid : Type} [DecidableEq Uuid]

-- A call on the store with its arguments, the last of which is what the clock answers; or
-- a change of the other tables, such as a new account.
inductive Call (Uuid : Type) [DecidableEq Uuid]
  | grantRole (userId : String) (archetype : Archetype) (role : String)
      (grantedByUserId customerId : Option String) (grantedAt : Option Instant) (now : Instant)
  | revokeRole (userId role : String) (grantedAt : Instant) (revokedAt : Option Instant)
      (now : Instant)
  | others (database : Database Uuid)

inductive Reply
  | assignment (value : RoleAssignment)
  | bool (value : Bool)
  | none
  deriving DecidableEq

abbrev Entry (Uuid : Type) [DecidableEq Uuid] := Call Uuid × Except Failure Reply

def perform (rt : Runtime Salt Hash Uuid) : Call Uuid → Transaction Uuid Reply
  | .grantRole userId archetype role grantedByUserId customerId grantedAt now =>
      .assignment <$> grantRole rt userId archetype role grantedByUserId customerId grantedAt now
  | .revokeRole userId role grantedAt revokedAt now =>
      .bool <$> revokeRole rt userId role grantedAt revokedAt now
  | .others database => do
      set database
      return .none

def step (rt : Runtime Salt Hash Uuid) (database : Database Uuid) (call : Call Uuid) :
    Except Failure Reply × Database Uuid :=
  outcome (perform rt call) database

-- Nobody else writes to the table of the grants.
def GrantsByStore (database : Database Uuid) : Call Uuid → Prop
  | .others other => other.userRoleAssignment = database.userRoleAssignment
  | _ => True

-- The row of a grant that succeeded.
def Granted (rt : Runtime Salt Hash Uuid) (entry : Entry Uuid) (row : AssignmentRow Uuid) :
    Prop :=
  ∃ userId archetype role grantedBy customerId grantedAt now reply,
    entry = (.grantRole userId archetype role grantedBy customerId grantedAt now, .ok reply) ∧
      bindAssignment rt (granted userId archetype role grantedBy customerId
        (grantedAt.getD now)) = .ok row

-- `user_id`, `role` and `granted_at` are those of the row.
def Names (rt : Runtime Salt Hash Uuid) (userId role : String) (grantedAt : Instant)
    (row : AssignmentRow Uuid) : Prop :=
  rt.uuid userId = some row.userId ∧ role = row.role ∧ grantedAt = row.grantedAt

def Revokes (rt : Runtime Salt Hash Uuid) (row : AssignmentRow Uuid) (entry : Entry Uuid) :
    Prop :=
  ∃ userId role grantedAt revokedAt now,
    entry.1 = .revokeRole userId role grantedAt revokedAt now ∧ Names rt userId role grantedAt row

-- A `revoke_role` for the row has returned True.
def Revoked (rt : Runtime Salt Hash Uuid) (trace : List (Entry Uuid))
    (row : AssignmentRow Uuid) : Prop :=
  ∃ entry ∈ trace, Revokes rt row entry ∧ entry.2 = .ok (.bool true)

-- The grant exists and no `revoke_role` has named it since.
def Unnamed (rt : Runtime Salt Hash Uuid) (trace : List (Entry Uuid))
    (row : AssignmentRow Uuid) : Prop :=
  ∃ before entry after, trace = before ++ entry :: after ∧ Granted rt entry row ∧
    ∀ later ∈ after, ¬ Revokes rt row later

-- What the table holds after a history of calls: the grants that are live there are those
-- that were not revoked, and every grant keeps its key.
structure Ledger (rt : Runtime Salt Hash Uuid) (trace : List (Entry Uuid))
    (table : List (AssignmentRow Uuid)) : Prop where
  live : ∀ row, row ∈ table ∧ row.revokedAt = none ↔
    (∃ entry ∈ trace, Granted rt entry row) ∧ ¬ Revoked rt trace row
  kept : ∀ row, (∃ entry ∈ trace, Granted rt entry row) →
    row.key ∈ table.map AssignmentRow.key
  dead : ∀ row, Revoked rt trace row →
    ∃ stored ∈ table, stored.key = row.key ∧ stored.revokedAt ≠ none
  named : ∀ row, (∃ entry ∈ trace, Granted rt entry row) →
    (Unnamed rt trace row ↔ ¬ Revoked rt trace row)
  catalogued : ∀ row ∈ table, (catalogueFor row.accountArchetype).has row.role = true
  texts : ∀ row ∈ table, rt.text row.role = true

section Effects

-- What one call does, whatever it answers.
inductive Effect (rt : Runtime Salt Hash Uuid) (before : Database Uuid) :
    Entry Uuid → Database Uuid → Prop
  | granted {call : Call Uuid} {assignment : RoleAssignment} {after : Database Uuid}
      (row : AssignmentRow Uuid) (hgrant : Granted rt (call, .ok (.assignment assignment)) row)
      (hlive : row.revokedAt = none)
      (hknown : (catalogueFor row.accountArchetype).has row.role = true)
      (htext : rt.text row.role = true)
      (hinsert : before.insertAssignment row = .ok after) :
      Effect rt before (call, .ok (.assignment assignment)) after
  | refused {call : Call Uuid} {failure : Failure} (hcheck : failure ≠ customerCheck)
      (hnames : ∀ row, rt.text row.role = true → ¬ Revokes rt row (call, .error failure)) :
      Effect rt before (call, .error failure) before
  | revoke {userId role : String} {grantedAt : Instant} {revokedAt : Option Instant}
      {now : Instant} {rowcount : Nat} {after : Database Uuid} (user : Uuid)
      (huser : rt.uuid userId = some user)
      (hupdate : before.updateRevoked user role grantedAt (revokedAt.getD now) =
        (rowcount, after)) :
      Effect rt before
        (.revokeRole userId role grantedAt revokedAt now, .ok (.bool (rowcount == 1))) after
  | others {database : Database Uuid}
      (hsame : database.userRoleAssignment = before.userRoleAssignment) :
      Effect rt before (.others database, .ok .none) database

theorem step_effect (rt : Runtime Salt Hash Uuid) (database : Database Uuid) (call : Call Uuid)
    (henabled : GrantsByStore database call) :
    Effect rt database (call, (step rt database call).1) (step rt database call).2 := by
  have h : wp (perform rt call)
      (fun answer next => Effect rt database (call, answer) next) database := by
    cases call with
    | grantRole userId archetype role grantedBy customerId grantedAt now =>
        simp only [perform, wp_map]
        apply wp_grantRole
        · intro failure hcheck
          refine .refused hcheck ?_
          rintro row - ⟨_, _, _, _, _, ⟨⟩, -⟩
        · intro assignment row next hassignment hbind hknown hinsert
          have hbound := bindAssignment_eq_ok hbind
          refine .granted row ⟨userId, archetype, role, grantedBy, customerId, grantedAt, now,
            .assignment assignment, rfl, ?_⟩ hbound.revokedAt ?_ hbound.text hinsert
          · rw [← hassignment]
            exact hbind
          · rw [hbound.accountArchetype, hbound.role, hassignment]
            exact hknown
    | revokeRole userId role grantedAt revokedAt now =>
        simp only [perform, wp_map, revokeRole, wp_bind, wp_execute]
        cases hu : bindUuid rt "user_id" userId with
        | error failure =>
            refine .refused ?_ ?_
            · rintro rfl
              exact bindUuid_ne_customerCheck rt _ _ hu
            · rintro row - ⟨_, _, _, _, _, ⟨⟩, huser, -, -⟩
              rw [bindUuid_eq_ok.mpr huser] at hu
              cases hu
        | ok user =>
            cases hr : bindText rt "role" role with
            | error failure =>
                refine .refused ?_ ?_
                · rintro rfl
                  exact bindText_ne_customerCheck rt _ _ hr
                · rintro row htext ⟨_, _, _, _, _, ⟨⟩, -, rfl, -⟩
                  rw [bindText_eq_ok.mpr ⟨htext, rfl⟩] at hr
                  cases hr
            | ok text =>
                obtain ⟨-, rfl⟩ := bindText_eq_ok.mp hr
                exact .revoke user (bindUuid_eq_ok.mp hu) rfl
    | others other => exact .others henabled
  exact wp_iff_outcome.mp h

end Effects

section Stamped

-- The primary key lets an UPDATE reach one row at most.
theorem rowcount_eq_one_iff (database : Database Uuid) (user : Uuid) (role : String)
    (grantedAt revokedAt : Instant) :
    (database.updateRevoked user role grantedAt revokedAt).1 = 1 ↔
      ∃ row ∈ database.userRoleAssignment, row.key = (user, role, grantedAt) ∧
        row.revokedAt = none := by
  have hone : database.userRoleAssignment.countP (Database.namesLive user role grantedAt) ≤ 1 := by
    rw [List.countP_eq_length_filter]
    have hnodup := database.assignmentKey.sublist
      ((List.filter_sublist (p := Database.namesLive user role grantedAt)
        (l := database.userRoleAssignment)).map AssignmentRow.key)
    have hsame : (database.userRoleAssignment.filter
        (Database.namesLive user role grantedAt)).map AssignmentRow.key =
        List.replicate (database.userRoleAssignment.filter
          (Database.namesLive user role grantedAt)).length (user, role, grantedAt) := by
      rw [List.eq_replicate_iff]
      refine ⟨by rw [List.length_map], ?_⟩
      intro key hkey
      obtain ⟨row, hrow, rfl⟩ := List.mem_map.mp hkey
      have hnames := (List.mem_filter.mp hrow).2
      simp only [Database.namesLive, decide_eq_true_eq] at hnames
      exact hnames.1
    rw [hsame, List.nodup_replicate] at hnodup
    exact hnodup
  have hpos := List.countP_pos_iff (p := Database.namesLive user role grantedAt)
    (l := database.userRoleAssignment)
  simp only [Database.namesLive, decide_eq_true_eq] at hpos
  rw [← hpos]
  have hcount : (database.updateRevoked user role grantedAt revokedAt).1 =
      database.userRoleAssignment.countP (Database.namesLive user role grantedAt) := rfl
  omega

variable {user : Uuid} {role : String} {grantedAt revokedAt : Instant}
  {table : List (AssignmentRow Uuid)} {row : AssignmentRow Uuid}

theorem stampRevoked_key :
    (Database.stampRevoked user role grantedAt revokedAt row).key = row.key :=
  (Database.stampRevoked_frame user role grantedAt revokedAt row).1

-- What is live after the UPDATE was live before and is not what it named.
theorem mem_stamped_live :
    (row ∈ table.map (Database.stampRevoked user role grantedAt revokedAt) ∧
        row.revokedAt = none) ↔
      (row ∈ table ∧ row.revokedAt = none) ∧ row.key ≠ (user, role, grantedAt) := by
  constructor
  · rintro ⟨hrow, hlive⟩
    obtain ⟨stored, hstored, rfl⟩ := List.mem_map.mp hrow
    unfold Database.stampRevoked at hlive ⊢
    by_cases hnames : Database.namesLive user role grantedAt stored
    · simp [hnames] at hlive
    · rw [if_neg hnames] at hlive ⊢
      refine ⟨⟨hstored, hlive⟩, ?_⟩
      intro hkey
      exact hnames (by simp [Database.namesLive, hkey, hlive])
  · rintro ⟨⟨hrow, hlive⟩, hkey⟩
    refine ⟨List.mem_map.mpr ⟨row, hrow, ?_⟩, hlive⟩
    unfold Database.stampRevoked
    rw [if_neg (by simp [Database.namesLive, hkey])]

theorem map_key_stamped :
    (table.map (Database.stampRevoked user role grantedAt revokedAt)).map AssignmentRow.key =
      table.map AssignmentRow.key := by
  rw [List.map_map]
  exact List.map_congr_left fun row _ => stampRevoked_key

-- An UPDATE that names nothing live changes nothing.
theorem updateRevoked_eq_self {database : Database Uuid}
    (hnone : ¬ ∃ row ∈ database.userRoleAssignment, row.key = (user, role, grantedAt) ∧
      row.revokedAt = none) :
    (database.updateRevoked user role grantedAt revokedAt).2 = database := by
  have hsame : database.userRoleAssignment.map
      (Database.stampRevoked user role grantedAt revokedAt) = database.userRoleAssignment := by
    rw [List.map_congr_left (g := id), List.map_id]
    intro row hrow
    unfold Database.stampRevoked
    rw [if_neg]
    · rfl
    · simp only [Database.namesLive, decide_eq_true_eq]
      exact fun hnames => hnone ⟨row, hrow, hnames⟩
  unfold Database.updateRevoked
  cases database
  simp only at hsame
  simp only [hsame]

end Stamped

section Steps

variable {rt : Runtime Salt Hash Uuid} {trace : List (Entry Uuid)} {entry : Entry Uuid}
  {row : AssignmentRow Uuid}

theorem granted_snoc :
    (∃ earlier ∈ trace ++ [entry], Granted rt earlier row) ↔
      (∃ earlier ∈ trace, Granted rt earlier row) ∨ Granted rt entry row := by
  simp [or_and_right, exists_or]

theorem revoked_snoc :
    Revoked rt (trace ++ [entry]) row ↔
      Revoked rt trace row ∨ Revokes rt row entry ∧ entry.2 = .ok (.bool true) := by
  simp [Revoked, or_and_right, exists_or]

theorem unnamed_snoc :
    Unnamed rt (trace ++ [entry]) row ↔
      Granted rt entry row ∨ Unnamed rt trace row ∧ ¬ Revokes rt row entry := by
  constructor
  · rintro ⟨before, grant, after, hsplit, hgrant, hafter⟩
    rcases Journal.snoc_eq_split.mp hsplit with ⟨-, -, rfl⟩ | ⟨rest, rfl, rfl⟩
    · exact .inl hgrant
    · right
      refine ⟨⟨before, grant, rest, rfl, hgrant, ?_⟩, hafter entry (by simp)⟩
      intro later hlater
      exact hafter later (List.mem_append_left _ hlater)
  · rintro (hgrant | ⟨⟨before, grant, after, rfl, hgrant, hafter⟩, hentry⟩)
    · exact ⟨trace, entry, [], rfl, hgrant, by simp⟩
    · refine ⟨before, grant, after ++ [entry], by simp, hgrant, ?_⟩
      intro later hlater
      rcases List.mem_append.mp hlater with hlater | hlater
      · exact hafter later hlater
      · rw [List.mem_singleton.mp hlater]
        exact hentry

theorem revokes_iff {userId role : String} {grantedAt : Instant} {revokedAt : Option Instant}
    {now : Instant} {user : Uuid} (huser : rt.uuid userId = some user)
    (answer : Except Failure Reply) :
    Revokes rt row (.revokeRole userId role grantedAt revokedAt now, answer) ↔
      row.key = (user, role, grantedAt) := by
  unfold Revokes Names AssignmentRow.key
  constructor
  · rintro ⟨_, _, _, _, _, ⟨⟩, hrow, rfl, rfl⟩
    rw [huser] at hrow
    rw [Option.some.inj hrow]
  · intro hkey
    injection hkey with huserId hrest
    injection hrest with hrole hgrantedAt
    exact ⟨userId, role, grantedAt, revokedAt, now, rfl, huserId ▸ huser, hrole.symm,
      hgrantedAt.symm⟩

-- The role of a grant has been bound to its column.
theorem text_of_granted (h : ∃ earlier ∈ trace, Granted rt earlier row) :
    rt.text row.role = true := by
  obtain ⟨_, -, _, _, _, _, _, _, _, _, rfl, hbind⟩ := h
  exact (bindAssignment_eq_ok hbind).text

-- An entry that grants nothing and revokes nothing.
theorem Ledger.idle {table : List (AssignmentRow Uuid)} (h : Ledger rt trace table)
    (hgrant : ∀ row, ¬ Granted rt entry row)
    (hrevoke : ∀ row, Revokes rt row entry → entry.2 ≠ .ok (.bool true) ∧
      ((∃ earlier ∈ trace, Granted rt earlier row) → Revoked rt trace row)) :
    Ledger rt (trace ++ [entry]) table := by
  have hgranted : ∀ row, (∃ earlier ∈ trace ++ [entry], Granted rt earlier row) ↔
      ∃ earlier ∈ trace, Granted rt earlier row := by
    intro row
    rw [granted_snoc, or_iff_left (hgrant row)]
  have hrevoked : ∀ row, Revoked rt (trace ++ [entry]) row ↔ Revoked rt trace row := by
    intro row
    rw [revoked_snoc, or_iff_left]
    exact fun hboth => (hrevoke row hboth.1).1 hboth.2
  constructor
  · intro row
    rw [hgranted, hrevoked]
    exact h.live row
  · intro row
    rw [hgranted]
    exact h.kept row
  · intro row
    rw [hrevoked]
    exact h.dead row
  · intro row
    rw [hgranted, hrevoked, unnamed_snoc, or_iff_right (hgrant row)]
    intro hrow
    rw [← h.named row hrow]
    apply and_iff_left_of_imp
    intro hunnamed hnames
    exact (h.named row hrow).mp hunnamed ((hrevoke row hnames).2 hrow)
  · exact h.catalogued
  · exact h.texts

theorem Ledger.insert {table : List (AssignmentRow Uuid)} (h : Ledger rt trace table)
    {call : Call Uuid} {assignment : RoleAssignment} {stored : AssignmentRow Uuid}
    (hgrant : Granted rt (call, .ok (.assignment assignment)) stored)
    (hlive : stored.revokedAt = none)
    (hknown : (catalogueFor stored.accountArchetype).has stored.role = true)
    (htext : rt.text stored.role = true)
    (hkey : stored.key ∉ table.map AssignmentRow.key) :
    Ledger rt (trace ++ [(call, .ok (.assignment assignment))]) (table ++ [stored]) := by
  -- the call grants this row and no other, and revokes none
  have honly : ∀ row, Granted rt (call, .ok (.assignment assignment)) row ↔ row = stored := by
    intro row
    constructor
    · obtain ⟨_, _, _, _, _, _, _, _, ⟨⟩, hstored⟩ := hgrant
      rintro ⟨_, _, _, _, _, _, _, _, ⟨⟩, hrow⟩
      rw [hstored] at hrow
      exact (Except.ok.inj hrow).symm
    · rintro rfl
      exact hgrant
  have hnames : ∀ row, ¬ Revokes rt row (call, .ok (.assignment assignment)) := by
    obtain ⟨_, _, _, _, _, _, _, _, ⟨⟩, -⟩ := hgrant
    rintro row ⟨_, _, _, _, _, ⟨⟩, -⟩
  have hrevoked : ∀ row, Revoked rt (trace ++ [(call, .ok (.assignment assignment))]) row ↔
      Revoked rt trace row := by
    intro row
    rw [revoked_snoc, or_iff_left]
    exact fun hboth => hnames row hboth.1
  have hfresh : ¬ Revoked rt trace stored := by
    intro hdead
    obtain ⟨other, hother, hsame, -⟩ := h.dead stored hdead
    exact hkey (hsame ▸ List.mem_map_of_mem hother)
  have hnew : ¬ ∃ earlier ∈ trace, Granted rt earlier stored :=
    fun hearlier => hkey (h.kept stored hearlier)
  constructor
  · intro row
    rw [granted_snoc, hrevoked, honly, List.mem_append, List.mem_singleton]
    by_cases hrow : row = stored
    · subst hrow
      exact iff_of_true ⟨.inr rfl, hlive⟩ ⟨.inr rfl, hfresh⟩
    · rw [or_iff_left hrow, or_iff_left hrow]
      exact h.live row
  · intro row
    rw [granted_snoc, honly, List.map_append, List.mem_append]
    rintro (hearlier | rfl)
    · exact .inl (h.kept row hearlier)
    · exact .inr (by simp)
  · intro row
    rw [hrevoked]
    intro hdead
    obtain ⟨other, hother, hsame⟩ := h.dead row hdead
    exact ⟨other, List.mem_append_left _ hother, hsame⟩
  · intro row
    rw [granted_snoc, hrevoked, unnamed_snoc, honly, and_iff_left (hnames row)]
    by_cases hrow : row = stored
    · subst hrow
      exact fun _ => iff_of_true (.inl rfl) hfresh
    · rw [or_iff_left hrow, or_iff_right hrow]
      exact h.named row
  · intro row hrow
    rcases List.mem_append.mp hrow with hrow | hrow
    · exact h.catalogued row hrow
    · rw [List.mem_singleton.mp hrow]
      exact hknown
  · intro row hrow
    rcases List.mem_append.mp hrow with hrow | hrow
    · exact h.texts row hrow
    · rw [List.mem_singleton.mp hrow]
      exact htext

theorem Ledger.stamp {table : List (AssignmentRow Uuid)} (h : Ledger rt trace table)
    {userId role : String} {grantedAt : Instant} {revokedAt : Option Instant} {now : Instant}
    {user : Uuid} (huser : rt.uuid userId = some user) {named : AssignmentRow Uuid}
    (hnamed : named ∈ table) (hkey : named.key = (user, role, grantedAt))
    (hlive : named.revokedAt = none) :
    Ledger rt
      (trace ++ [(.revokeRole userId role grantedAt revokedAt now, .ok (.bool true))])
      (table.map (Database.stampRevoked user role grantedAt (revokedAt.getD now))) := by
  have hgrant : ∀ row, ¬ Granted rt
      (.revokeRole userId role grantedAt revokedAt now, .ok (.bool true)) row := by
    rintro row ⟨_, _, _, _, _, _, _, _, ⟨⟩, -⟩
  have hrevoked : ∀ row, Revoked rt
      (trace ++ [(.revokeRole userId role grantedAt revokedAt now, .ok (.bool true))]) row ↔
      Revoked rt trace row ∨ row.key = (user, role, grantedAt) := by
    intro row
    rw [revoked_snoc, revokes_iff huser]
    simp
  constructor
  · intro row
    rw [granted_snoc, or_iff_left (hgrant row), hrevoked, mem_stamped_live, h.live row, not_or,
      and_assoc]
  · intro row
    rw [granted_snoc, or_iff_left (hgrant row), map_key_stamped]
    exact h.kept row
  · intro row
    rw [hrevoked]
    rintro (hdead | hrow)
    · obtain ⟨other, hother, hsame, hstamped⟩ := h.dead row hdead
      refine ⟨_, List.mem_map_of_mem hother, stampRevoked_key.trans hsame, ?_⟩
      unfold Database.stampRevoked
      split
      · simp
      · exact hstamped
    · refine ⟨_, List.mem_map_of_mem hnamed, stampRevoked_key.trans (hkey.trans hrow.symm), ?_⟩
      unfold Database.stampRevoked
      rw [if_pos (by simp [Database.namesLive, hkey, hlive])]
      simp
  · intro row
    rw [granted_snoc, or_iff_left (hgrant row), hrevoked, unnamed_snoc,
      or_iff_right (hgrant row), revokes_iff huser, not_or]
    intro hrow
    rw [h.named row hrow]
  · intro row hrow
    obtain ⟨stored, hstored, rfl⟩ := List.mem_map.mp hrow
    simpa using h.catalogued stored hstored
  · intro row hrow
    obtain ⟨stored, hstored, rfl⟩ := List.mem_map.mp hrow
    simpa using h.texts stored hstored

theorem Ledger.effect {before after : Database Uuid}
    (h : Ledger rt trace before.userRoleAssignment) (heffect : Effect rt before entry after) :
    Ledger rt (trace ++ [entry]) after.userRoleAssignment := by
  cases heffect with
  | granted row hgrant hlive hknown htext hinsert =>
      have hkey : row.key ∉ before.userRoleAssignment.map AssignmentRow.key := by
        unfold Database.insertAssignment at hinsert
        split_ifs at hinsert with hscope hk
        exact hk
      rw [(Database.insertAssignment_eq_ok _ _ _ hinsert).1]
      exact h.insert hgrant hlive hknown htext hkey
  | refused hcheck hnames =>
      refine h.idle ?_ ?_
      · rintro row ⟨_, _, _, _, _, _, _, _, ⟨⟩, -⟩
      · intro row hrow
        refine ⟨by simp, ?_⟩
        intro hgranted
        exact absurd hrow (hnames row (text_of_granted hgranted))
  | @revoke userId role grantedAt revokedAt now rowcount after user huser hupdate =>
      obtain rfl : _ = rowcount := congrArg Prod.fst hupdate
      have hafter : (before.updateRevoked user role grantedAt (revokedAt.getD now)).2 = after :=
        congrArg Prod.snd hupdate
      have hone := rowcount_eq_one_iff before user role grantedAt (revokedAt.getD now)
      rw [← hafter]
      by_cases hcount : (before.updateRevoked user role grantedAt (revokedAt.getD now)).1 = 1
      · obtain ⟨row, hrow, hkey, hlive⟩ := hone.mp hcount
        rw [hcount]
        exact h.stamp huser hrow hkey hlive
      · -- no live row has this key, so nothing is stamped
        have hnone := mt hone.mpr hcount
        rw [updateRevoked_eq_self hnone]
        refine h.idle ?_ ?_
        · rintro row ⟨_, _, _, _, _, _, _, _, ⟨⟩, -⟩
        · intro row hnames
          rw [revokes_iff huser] at hnames
          refine ⟨by simpa using hcount, ?_⟩
          intro hgranted
          by_contra hrevoked
          obtain ⟨hrow, hlive⟩ := (h.live row).mpr ⟨hgranted, hrevoked⟩
          exact hnone ⟨row, hrow, hnames, hlive⟩
  | others hsame =>
      rw [hsame]
      refine h.idle ?_ ?_
      · rintro row ⟨_, _, _, _, _, _, _, _, ⟨⟩, -⟩
      · rintro row ⟨_, _, _, _, _, ⟨⟩, -⟩

end Steps

theorem ledger_run (rt : Runtime Salt Hash Uuid) {start last : Database Uuid}
    {trace : List (Entry Uuid)} (hrun : Run (step rt) GrantsByStore start trace last)
    (hstart : start.userRoleAssignment = []) : Ledger rt trace last.userRoleAssignment := by
  induction hrun with
  | nil =>
      rw [hstart]
      constructor <;> simp [Revoked]
  | snoc call _ henabled ih => exact ih.effect (step_effect rt _ call henabled)

-- What a history of calls on the store comes to, in the state it leads to.
structure Bookkept (rt : Runtime Salt Hash Uuid) (trace : List (Entry Uuid))
    (database : Database Uuid) : Prop where
  live : ∀ userId customerId assignments,
    (outcome (liveAssignments rt userId customerId) database).1 = .ok assignments →
      ∀ assignment, assignment ∈ assignments ↔ ∃ row,
        (∃ entry ∈ trace, Granted rt entry row) ∧ ¬ Revoked rt trace row ∧
          rt.uuid userId = some row.userId ∧
          (∀ text ∈ customerId, ∃ customer, rt.uuid text = some customer ∧
            row.customerId = some customer) ∧
          assignment = toAssignment rt row
  listed : ∀ userId customerId, rt.uuid userId ≠ none →
    (∀ text ∈ customerId, rt.uuid text ≠ none) → ∃ assignments,
      outcome (liveAssignments rt userId customerId) database = (.ok assignments, database)
  first : ∀ userId role grantedAt revokedAt now,
    (step rt database (.revokeRole userId role grantedAt revokedAt now)).1 = .ok (.bool true) ↔
      ∃ row, Names rt userId role grantedAt row ∧ Unnamed rt trace row
  once : ∀ userId role grantedAt revokedAt now row, Names rt userId role grantedAt row →
    Revoked rt trace row →
      (step rt database (.revokeRole userId role grantedAt revokedAt now)).1 = .ok (.bool false)
  unchanged : ∀ userId role grantedAt revokedAt now,
    (step rt database (.revokeRole userId role grantedAt revokedAt now)).1 ≠ .ok (.bool true) →
      (step rt database (.revokeRole userId role grantedAt revokedAt now)).2 = database
  checked : ∀ userId archetype role grantedBy customerId grantedAt now,
    (step rt database
      (.grantRole userId archetype role grantedBy customerId grantedAt now)).1 ≠
        .error customerCheck
  raised : ∀ userId archetype role grantedBy customerId grantedAt now failure,
    (step rt database
      (.grantRole userId archetype role grantedBy customerId grantedAt now)).1 =
        .error failure →
      (step rt database
        (.grantRole userId archetype role grantedBy customerId grantedAt now)).2 = database
  known : ∀ userId user archetype customerId held, rt.uuid userId = some user →
    (user, archetype) ∈ database.userAccount →
    (outcome (liveRoleIdentifiers rt userId customerId) database).1 = .ok held →
      (∀ role ∈ held, (catalogueFor archetype).has role = true) ∧
        ∀ permission, ∃ answer,
          (catalogueFor archetype).hasPermission rt.repr held permission = .ok answer

section Bookkept

variable {rt : Runtime Salt Hash Uuid} {trace : List (Entry Uuid)} {database : Database Uuid}

theorem Unnamed.granted {row : AssignmentRow Uuid} (h : Unnamed rt trace row) :
    ∃ entry ∈ trace, Granted rt entry row := by
  obtain ⟨before, entry, after, rfl, hgrant, -⟩ := h
  exact ⟨entry, by simp, hgrant⟩

-- The live grant that a revocation names, if there is one.
theorem Ledger.names_live (h : Ledger rt trace database.userRoleAssignment)
    {userId role : String} {grantedAt : Instant} {user : Uuid}
    (huser : rt.uuid userId = some user) :
    (∃ row ∈ database.userRoleAssignment, row.key = (user, role, grantedAt) ∧
        row.revokedAt = none) ↔
      ∃ row, Names rt userId role grantedAt row ∧ Unnamed rt trace row := by
  have hnames : ∀ row : AssignmentRow Uuid,
      Names rt userId role grantedAt row ↔ row.key = (user, role, grantedAt) := by
    intro row
    unfold Names AssignmentRow.key
    rw [huser, Option.some.injEq, Prod.mk.injEq, Prod.mk.injEq, eq_comm (a := user),
      eq_comm (a := role), eq_comm (a := grantedAt)]
  constructor
  · rintro ⟨row, hrow, hkey, hlive⟩
    obtain ⟨hgranted, hrevoked⟩ := (h.live row).mp ⟨hrow, hlive⟩
    exact ⟨row, (hnames row).mpr hkey, (h.named row hgranted).mpr hrevoked⟩
  · rintro ⟨row, hrow, hunnamed⟩
    have hgranted := hunnamed.granted
    obtain ⟨hmem, hlive⟩ := (h.live row).mpr ⟨hgranted, (h.named row hgranted).mp hunnamed⟩
    exact ⟨row, hmem, (hnames row).mp hrow, hlive⟩

-- A call of `revoke_role`, on any table.
theorem step_revokeRole (rt : Runtime Salt Hash Uuid) (database : Database Uuid)
    (userId role : String) (grantedAt : Instant) (revokedAt : Option Instant) (now : Instant) :
    (∃ failure, step rt database (.revokeRole userId role grantedAt revokedAt now) =
        (.error failure, database) ∧
          ∀ row, rt.text row.role = true → ¬ Names rt userId role grantedAt row) ∨
    ∃ user, rt.uuid userId = some user ∧
      step rt database (.revokeRole userId role grantedAt revokedAt now) =
        (.ok (.bool ((database.updateRevoked user role grantedAt (revokedAt.getD now)).1 == 1)),
          (database.updateRevoked user role grantedAt (revokedAt.getD now)).2) := by
  have heffect := step_effect rt database (.revokeRole userId role grantedAt revokedAt now) trivial
  generalize step rt database (.revokeRole userId role grantedAt revokedAt now) = result
    at heffect ⊢
  obtain ⟨answer, next⟩ := result
  cases heffect with
  | granted row hgrant => obtain ⟨_, _, _, _, _, _, _, _, ⟨⟩, -⟩ := hgrant
  | refused hcheck hnames =>
      left
      refine ⟨_, rfl, ?_⟩
      intro row htext hrow
      exact hnames row htext ⟨userId, role, grantedAt, revokedAt, now, rfl, hrow⟩
  | revoke user huser hupdate =>
      right
      obtain ⟨rfl, rfl⟩ := Prod.mk.inj hupdate
      exact ⟨user, huser, rfl⟩

theorem Ledger.first (h : Ledger rt trace database.userRoleAssignment) (userId role : String)
    (grantedAt : Instant) (revokedAt : Option Instant) (now : Instant) :
    (step rt database (.revokeRole userId role grantedAt revokedAt now)).1 = .ok (.bool true) ↔
      ∃ row, Names rt userId role grantedAt row ∧ Unnamed rt trace row := by
  rcases step_revokeRole rt database userId role grantedAt revokedAt now with
    ⟨failure, hstep, hnames⟩ | ⟨user, huser, hstep⟩
  · rw [hstep]
    refine iff_of_false (by simp) ?_
    rintro ⟨row, hrow, hunnamed⟩
    exact hnames row (text_of_granted hunnamed.granted) hrow
  · rw [hstep, ← h.names_live huser,
      ← rowcount_eq_one_iff database user role grantedAt (revokedAt.getD now)]
    simp

theorem Ledger.once (h : Ledger rt trace database.userRoleAssignment) {userId role : String}
    {grantedAt : Instant} (revokedAt : Option Instant) (now : Instant)
    {row : AssignmentRow Uuid} (hnames : Names rt userId role grantedAt row)
    (hrevoked : Revoked rt trace row) :
    (step rt database (.revokeRole userId role grantedAt revokedAt now)).1 =
      .ok (.bool false) := by
  rcases step_revokeRole rt database userId role grantedAt revokedAt now with
    ⟨failure, -, hnone⟩ | ⟨user, huser, hstep⟩
  · obtain ⟨stored, hstored, hsame, -⟩ := h.dead row hrevoked
    have hrole : stored.role = row.role := congrArg (fun key => key.2.1) hsame
    exact absurd hnames (hnone row (hrole ▸ h.texts stored hstored))
  · rw [hstep]
    have hone := rowcount_eq_one_iff database user role grantedAt (revokedAt.getD now)
    have hkey : row.key = (user, role, grantedAt) := by
      obtain ⟨huser', rfl, rfl⟩ := hnames
      rw [huser] at huser'
      rw [Option.some.inj huser', AssignmentRow.key]
    -- the key is taken by the row that was stamped
    have hnolive : ¬ ∃ live ∈ database.userRoleAssignment,
        live.key = (user, role, grantedAt) ∧ live.revokedAt = none := by
      rintro ⟨live, hlive, hsame, hunrevoked⟩
      obtain ⟨stored, hstored, hstoredKey, hstamped⟩ := h.dead row hrevoked
      have heq : stored = live := by
        apply List.inj_on_of_nodup_map database.assignmentKey hstored hlive
        rw [hstoredKey, hkey, hsame]
      exact hstamped (heq ▸ hunrevoked)
    have hcount := mt hone.mp hnolive
    simpa using hcount

theorem revokeRole_unchanged (userId role : String) (grantedAt : Instant)
    (revokedAt : Option Instant) (now : Instant)
    (hanswer : (step rt database (.revokeRole userId role grantedAt revokedAt now)).1 ≠
      .ok (.bool true)) :
    (step rt database (.revokeRole userId role grantedAt revokedAt now)).2 = database := by
  rcases step_revokeRole rt database userId role grantedAt revokedAt now with
    ⟨failure, hstep, -⟩ | ⟨user, huser, hstep⟩
  · rw [hstep]
  · rw [hstep] at hanswer ⊢
    apply updateRevoked_eq_self
    rw [← rowcount_eq_one_iff database user role grantedAt (revokedAt.getD now)]
    intro hcount
    exact hanswer (by simp [hcount])

theorem grantRole_raises {userId : String} {archetype : Archetype} {role : String}
    {grantedBy customerId : Option String} {grantedAt : Option Instant} {now : Instant}
    {failure : Failure}
    (hanswer : (step rt database
      (.grantRole userId archetype role grantedBy customerId grantedAt now)).1 =
        .error failure) :
    failure ≠ customerCheck ∧
      (step rt database
        (.grantRole userId archetype role grantedBy customerId grantedAt now)).2 = database := by
  have heffect := step_effect rt database
    (.grantRole userId archetype role grantedBy customerId grantedAt now) trivial
  generalize step rt database
    (.grantRole userId archetype role grantedBy customerId grantedAt now) = result
    at heffect hanswer ⊢
  obtain ⟨answer, next⟩ := result
  cases heffect with
  | granted row => cases hanswer
  | refused hcheck =>
      cases hanswer
      exact ⟨hcheck, rfl⟩

theorem Ledger.mem_live_iff (h : Ledger rt trace database.userRoleAssignment) {userId : String}
    {customerId : Option String} {row : AssignmentRow Uuid} :
    row ∈ database.userRoleAssignment ∧ HeldBy rt userId customerId row ↔
      (∃ entry ∈ trace, Granted rt entry row) ∧ ¬ Revoked rt trace row ∧
        rt.uuid userId = some row.userId ∧
        ∀ text ∈ customerId, ∃ customer, rt.uuid text = some customer ∧
          row.customerId = some customer := by
  rw [← and_assoc, ← h.live row]
  unfold HeldBy
  constructor
  · rintro ⟨hrow, huser, hlive, hcustomer⟩
    exact ⟨⟨hrow, hlive⟩, huser, hcustomer⟩
  · rintro ⟨⟨hrow, hlive⟩, huser, hcustomer⟩
    exact ⟨hrow, huser, hlive, hcustomer⟩

theorem Ledger.live_exact (h : Ledger rt trace database.userRoleAssignment) (userId : String)
    (customerId : Option String) (assignments : List RoleAssignment)
    (hanswer : (outcome (liveAssignments rt userId customerId) database).1 = .ok assignments)
    (assignment : RoleAssignment) :
    assignment ∈ assignments ↔ ∃ row,
      (∃ entry ∈ trace, Granted rt entry row) ∧ ¬ Revoked rt trace row ∧
        rt.uuid userId = some row.userId ∧
        (∀ text ∈ customerId, ∃ customer, rt.uuid text = some customer ∧
          row.customerId = some customer) ∧
        assignment = toAssignment rt row := by
  have hwp : wp (liveAssignments rt userId customerId) (fun answer _ => answer = .ok assignments →
      ∀ assignment, assignment ∈ assignments ↔ ∃ row, (row ∈ database.userRoleAssignment ∧
        HeldBy rt userId customerId row) ∧ assignment = toAssignment rt row) database := by
    apply wp_liveAssignments
    · intro failure _ hfailure
      cases hfailure
    · rintro rows hrows ⟨⟩ assignment
      simp only [List.mem_map, hrows, eq_comm (a := assignment)]
  rw [wp_iff_outcome.mp hwp hanswer assignment]
  simp only [h.mem_live_iff, and_assoc]

theorem live_listed {userId : String} {customerId : Option String}
    (huser : rt.uuid userId ≠ none) (hcustomer : ∀ text ∈ customerId, rt.uuid text ≠ none) :
    ∃ assignments,
      outcome (liveAssignments rt userId customerId) database = (.ok assignments, database) := by
  have hwp : wp (liveAssignments rt userId customerId) (fun answer next =>
      ∃ assignments, (answer, next) = (.ok assignments, database)) database := by
    apply wp_liveAssignments
    · rintro failure (hnone | ⟨text, htext, hnone⟩)
      · exact absurd hnone huser
      · exact absurd hnone (hcustomer text htext)
    · exact fun rows _ => ⟨_, rfl⟩
  exact wp_iff_outcome.mp hwp

theorem Ledger.roles_known (h : Ledger rt trace database.userRoleAssignment) {userId : String}
    {user : Uuid} {archetype : Archetype} (customerId : Option String) {held : List String}
    (huser : rt.uuid userId = some user) (haccount : (user, archetype) ∈ database.userAccount)
    (hanswer : (outcome (liveRoleIdentifiers rt userId customerId) database).1 = .ok held) :
    ∀ role ∈ held, (catalogueFor archetype).has role = true := by
  have hwp : wp (liveRoleIdentifiers rt userId customerId) (fun answer _ => answer = .ok held →
      ∀ role ∈ held, ∃ row ∈ database.userRoleAssignment,
        HeldBy rt userId customerId row ∧ row.role = role) database := by
    apply wp_liveRoleIdentifiers
    · intro failure _ hfailure
      cases hfailure
    · rintro _ hheld ⟨⟩ role hrole
      exact (hheld role).mp hrole
  intro role hrole
  obtain ⟨row, hrow, hheld, rfl⟩ := wp_iff_outcome.mp hwp hanswer role hrole
  have hsame : row.userId = user := Option.some.inj (hheld.1.symm.trans huser)
  -- the foreign key leads to the one account of this user
  have hpair := List.inj_on_of_nodup_map database.accountKey
    (database.assignmentAccount row hrow) haccount hsame
  obtain rfl : row.accountArchetype = archetype := congrArg Prod.snd hpair
  exact h.catalogued row hrow

end Bookkept

-- The bookkeeping of the grants, over every history of calls that succeed or fail in any
-- order, while the other tables change as they may.
theorem grants_bookkept (rt : Runtime Salt Hash Uuid) {start last : Database Uuid}
    {trace : List (Entry Uuid)} (hrun : Run (step rt) GrantsByStore start trace last)
    (hstart : start.userRoleAssignment = []) : Bookkept rt trace last := by
  have hledger := ledger_run rt hrun hstart
  constructor
  · exact hledger.live_exact
  · exact fun _ _ huser hcustomer => live_listed huser hcustomer
  · exact hledger.first
  · exact fun _ _ _ revokedAt now _ hnames hrevoked => hledger.once revokedAt now hnames hrevoked
  · exact revokeRole_unchanged
  · exact fun _ _ _ _ _ _ _ hanswer => (grantRole_raises hanswer).1 rfl
  · exact fun _ _ _ _ _ _ _ _ hanswer => (grantRole_raises hanswer).2
  · intro userId user archetype customerId held huser haccount hanswer
    have hknown := hledger.roles_known customerId huser haccount hanswer
    refine ⟨hknown, ?_⟩
    intro permission
    have hraises := RoleCatalogue.hasPermission_raises_iff rt.repr (catalogueFor archetype) held
      permission
    cases hpermission : (catalogueFor archetype).hasPermission rt.repr held permission with
    | ok answer => exact ⟨answer, rfl⟩
    | error failure =>
        obtain ⟨role, hrole, hunknown⟩ := hraises.mp ⟨failure, hpermission⟩
        rw [hknown role hrole] at hunknown
        cases hunknown

-- An operator who is granted a role, loses it and is granted it again holds it once.
theorem grants_bookkept_regranted :
    ∃ trace last, Run (step .plain) GrantsByStore AuthService.operatorAccount trace last ∧
      Bookkept .plain trace last ∧
      (outcome (liveAssignments .plain "u-1" none) last).1 =
        .ok [granted "u-1" .OPERATOR "owner" none none 3] := by
  have hstart : Run (step .plain) GrantsByStore AuthService.operatorAccount []
    AuthService.operatorAccount := .nil
  have hgrant := hstart.snoc (.grantRole "u-1" .OPERATOR "owner" none none (some 1) 1)
    (by trivial)
  have hrevoke := hgrant.snoc (.revokeRole "u-1" "owner" 1 none 2) (by trivial)
  have hregrant := hrevoke.snoc (.grantRole "u-1" .OPERATOR "owner" none none none 3)
    (by trivial)
  exact ⟨_, _, hregrant, grants_bookkept .plain hregrant rfl, rfl⟩

end TrustlistCore.Auth.RoleStore
