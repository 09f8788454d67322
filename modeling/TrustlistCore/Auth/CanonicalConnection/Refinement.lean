import TrustlistCore.Auth.CanonicalConnection.Theorems

namespace TrustlistCore.Auth.CanonicalConnection

open Library Relational DataModel.CanonicalStore
open DataModel (Server)
open EventBus (points)

variable {Salt Hash Jsonb : Type} {server : Server Instant Jsonb} {binding : Binding Jsonb}
variable {rt : Runtime Salt Hash Uuid}

section Others

variable {store next : Store Instant Jsonb} {database : Database Uuid}

theorem exists_accounts (hsound : Sound (schema server) store) :
    ∃ accounts, List.Forall₂ AccountStands (store .userAccount) accounts := by
  have hadmitted := hsound.admitted .userAccount
  generalize store .userAccount = rows at hadmitted
  induction rows with
  | nil => exact ⟨[], .nil⟩
  | cons row rows ih =>
      obtain ⟨accounts, haccounts⟩ :=
        ih fun later hlater => hadmitted later (List.mem_cons_of_mem _ hlater)
      have hadmits := hadmitted row List.mem_cons_self
      obtain ⟨_, huser, haccepted⟩ := exists_cell hadmits (randomKey .userId)
        (by simp [schema, createTable, userAccount]) rfl
      obtain ⟨userId, rfl⟩ := uuid_of_admits haccepted
      obtain ⟨_, harchetype, haccepted⟩ := exists_cell hadmits (required .archetype userArchetype)
        (by simp [schema, createTable, userAccount]) rfl
      obtain ⟨label, hlabel, rfl⟩ := label_of_admits haccepted
      have hknown : ∃ archetype : Archetype, archetype.value = label := by
        simp only [List.mem_cons, List.not_mem_nil, or_false] at hlabel
        rcases hlabel with rfl | rfl | rfl
        · exact ⟨.OPERATOR, rfl⟩
        · exact ⟨.BRAND_CUSTOMER, rfl⟩
        · exact ⟨.FOUNDATION_INTERNAL, rfl⟩
      obtain ⟨archetype, rfl⟩ := hknown
      exact ⟨(userId, archetype) :: accounts, .cons ⟨huser, harchetype⟩ haccounts⟩

-- The constraints of the store are those of the tables that the library sees.
theorem exists_represented (hsound : Sound (schema server) next)
    (hassignment : List.Forall₂ AssignmentStands (next .userRoleAssignment)
      database.userRoleAssignment)
    (haudit : List.Forall₂ (AuditStands server binding rt) (next .authAuditEvent)
      database.authAuditEvent) :
    ∃ after : Database Uuid, after.userRoleAssignment = database.userRoleAssignment ∧
      after.authAuditEvent = database.authAuditEvent ∧
      Represents server binding rt next after := by
  obtain ⟨accounts, haccounts⟩ := exists_accounts hsound
  have hkey : (accounts.map Prod.fst).Nodup := by
    have hdistinct := hsound.distinct .userAccount ⟨"pk_user_account", [.userId]⟩
      (by simp [schema, createTable, userAccount])
    have hpairs : (next .userAccount).Pairwise fun a b =>
        ¬ Key.Clash ⟨"pk_user_account", [.userId]⟩ a b := hdistinct
    unfold List.Nodup
    rw [List.pairwise_map]
    refine pairwise_congr haccounts ?_ hpairs
    intro a account b other ha hb hclash hsame
    apply hclash
    rw [Key.clash_one]
    exact ⟨.uuid account.1, ha.userId, by rw [hb.userId, hsame]⟩
  have htarget : ∀ row ∈ database.userRoleAssignment,
      (row.userId, row.accountArchetype) ∈ accounts := by
    intro row hrow
    obtain ⟨stored, hstored, hstands⟩ := exists_right hassignment hrow
    have hproject : project [.userId, .accountArchetype] stored =
        some [.uuid row.userId, .label row.accountArchetype.value] :=
      project_two.mpr ⟨hstands.userId, hstands.accountArchetype⟩
    obtain ⟨target, htarget, hsame⟩ := hsound.resolved .userRoleAssignment
      (toUserAccountArchetype "fk_user_role_assignment_user_id_user_account")
      (by simp [schema, createTable, userRoleAssignment]) stored hstored _ hproject
    exact (exists_account_archetype_iff haccounts row.userId row.accountArchetype).mp
      ⟨target, htarget, project_two.mp hsame⟩
  exact ⟨{ database with
    userAccount := accounts
    accountKey := hkey
    assignmentAccount := htarget }, rfl, rfl, hsound, haccounts, hassignment, haudit⟩

end Others

-- What the two levels are asked, and what they answer.
inductive SameWork {Statements : Type} {Uuid : Type} [DecidableEq Uuid] :
    Environment Instant × Work Statements → Work (Database Uuid) → Prop
  | unit (environment : Environment Instant) (requests : List Request) :
      SameWork (environment, .unit requests) (.unit requests)
  | others (environment : Environment Instant) (statements : Statements)
      (database : Database Uuid) : SameWork (environment, .others statements) (.others database)

structure Matches
    (entry : (Environment Instant × Work (List (CanonicalStatement Instant Jsonb))) ×
      Except Raised (List Response))
    (entry' : Work (Database Uuid) × Except Failure (List Response)) : Prop where
  work : SameWork entry.1 entry'.1
  answer : SameAnswer SameRaise entry.2 entry'.2

variable [DecidableEq Jsonb]

theorem exists_work (hfaithful : Faithful server binding rt) {store : Store Instant Jsonb}
    {database : Database Uuid}
    (input : Environment Instant × Work (List (CanonicalStatement Instant Jsonb)))
    (hrep : Represents server binding rt store database) (howned : Owned rt store input) :
    ∃ input', RoleStore.Owned database input' ∧
      Matches (input, (work server binding rt store input).1)
        (input', (RoleStore.work rt database input').1) ∧
      Represents server binding rt (work server binding rt store input).2
        (RoleStore.work rt database input').2 := by
  obtain ⟨environment, asked⟩ := input
  cases asked with
  | unit requests =>
      have hunit : Simulates (Represents server binding rt) SameRaise
          (requests.mapM (operate server binding environment rt))
          (requests.mapM (RoleStore.operate rt)) :=
        .mapM fun request hrequest => simulates_operate hfaithful request (howned request hrequest)
      obtain ⟨hanswer, hnext⟩ := hunit.atomically hrep
      exact ⟨.unit requests, trivial, ⟨.unit environment requests, hanswer⟩, hnext⟩
  | others statements =>
      have hsound : Sound (schema server)
          (transact (schema server) applicationRole store statements).2 :=
        sound_transact statements hrep.sound
      have hassignment := transact_frame (schema server) store applicationRole statements
        fun statement hstatement => (howned statement hstatement).1
      have haudit := transact_frame (schema server) store applicationRole statements
        fun statement hstatement => (howned statement hstatement).2
      obtain ⟨after, hsame, hevents, hafter⟩ :=
        exists_represented hsound (hassignment ▸ hrep.assignment) (haudit ▸ hrep.audit)
      exact ⟨.others after, ⟨hsame, hevents⟩, ⟨.others environment statements after, .ok []⟩,
        hafter⟩

omit [DecidableEq Jsonb] in
theorem represents_empty :
    Represents server binding rt Relational.Store.empty (Database.empty : Database Uuid) :=
  ⟨sound_empty _, .nil, .nil, .nil⟩

-- What the library does to the tables it sees, it does to the migrated schema.
theorem connection_refines (hfaithful : Faithful server binding rt)
    {trace : List ((Environment Instant × Work (List (CanonicalStatement Instant Jsonb))) ×
      Except Raised (List Response))} {store : Store Instant Jsonb}
    (hrun : Run (work server binding rt) (Owned rt) Relational.Store.empty trace store) :
    ∃ trace' database, Run (RoleStore.work rt) RoleStore.Owned Database.empty trace' database ∧
      List.Forall₂ Matches trace trace' ∧ Represents server binding rt store database :=
  hrun.simulates
    (fun _ _ input hrep howned => exists_work hfaithful input hrep howned) represents_empty

section Sample

def instantServer : Server Instant Bool where
  lower := id
  isSpace point := point.val = 0x20
  timestamptz _ := some 0
  jsonb _ := some true
  accepts text := text.all fun point => 0 < point.val
  convert _ := none

def plainBinding : Binding Bool where
  inet text := some (points text)
  details _ := some true

def uuidTexts : Runtime Unit String Uuid :=
  { Runtime.plain with
    uuid := fun text => Uuid.read text.toList
    uuidText := fun id => String.ofList id.text
    text := fun text => instantServer.accepts (points text)
    admits := fun _ => true }

-- What the columns take is what the server takes.
def uuidRuntime : Runtime Unit String Uuid :=
  { uuidTexts with
    admits := fun event => (auditValues instantServer plainBinding uuidTexts event).isSome }

theorem faithful_uuidRuntime : Faithful instantServer plainBinding uuidRuntime := by
  have huuid : uuidTexts.uuid = uuidRuntime.uuid := by simp only [uuidRuntime]
  constructor
  · intro id
    simp only [uuidRuntime, uuidTexts, String.toList_ofList, Uuid.read_text]
  · intro text
    rfl
  · intro event
    rw [← auditValues_congr huuid]
    simp only [uuidRuntime]

def user : String :=
  uuidRuntime.uuidText ⟨1⟩

def opening : Environment Instant × Work (List (CanonicalStatement Instant Bool)) :=
  (⟨⟨1⟩, 5⟩, .others [.insert .userAccount
    (values [(.archetype, .label "operator"), (.email, .text [0x61]), (.passwordHash, .bytea [])])
    ⟨⟨1⟩, 5⟩])

-- `assign_role` and its audit event.
def granting : Environment Instant × Work (List (CanonicalStatement Instant Bool)) :=
  (⟨⟨3⟩, 6⟩, .unit [.grantRole user .OPERATOR "owner" none none none 6,
    .insertAuditEvent
      { eventId := uuidRuntime.uuidText ⟨2⟩, eventType := .ROLE_GRANT, occurredAt := 6,
        userId := some user, ipAddressObserved := none, userAgentObserved := none,
        eventDetails := [("role", .text "owner")] }])

def revoking : Environment Instant × Work (List (CanonicalStatement Instant Bool)) :=
  (⟨⟨3⟩, 7⟩, .unit [.revokeRole user "owner" 6 none 7])

-- A role with a NUL in it, which neither level takes.
def misnaming : Environment Instant × Work (List (CanonicalStatement Instant Bool)) :=
  (⟨⟨3⟩, 8⟩, .unit [.revokeRole user "own\x00er" 6 none 8])

-- The grant, its audit row and its end; and a call that raises.
theorem connection_refines_granted : ∃ trace' database,
    Run (RoleStore.work uuidRuntime) RoleStore.Owned Database.empty trace' database ∧
      trace'.length = 4 ∧ database.userRoleAssignment.length = 1 ∧
        database.authAuditEvent.length = 1 := by
  have hopening : Run (work instantServer plainBinding uuidRuntime)
      (Owned uuidRuntime) Relational.Store.empty _ _ :=
    Run.nil.snoc opening (by
      intro statement hstatement
      rw [List.mem_singleton.mp hstatement]
      exact ⟨by decide, by decide⟩)
  have hgranting := hopening.snoc granting (by
    intro request hrequest
    simp only [List.mem_cons, List.not_mem_nil, or_false] at hrequest
    rcases hrequest with rfl | rfl
    · trivial
    · exact ⟨⟨2⟩, rfl⟩)
  have hrevoking := hgranting.snoc revoking (by
    intro request hrequest
    rw [List.mem_singleton.mp hrequest]
    trivial)
  have hmisnaming := hrevoking.snoc misnaming (by
    intro request hrequest
    rw [List.mem_singleton.mp hrequest]
    trivial)
  obtain ⟨trace', database, hrun, hmatches, hrep⟩ :=
    connection_refines faithful_uuidRuntime hmisnaming
  refine ⟨trace', database, hrun, ?_, ?_, ?_⟩
  · rw [← hmatches.length_eq]
    simp only [List.length_append, List.length_cons, List.length_nil]
  · rw [← hrep.assignment.length_eq]
    decide +kernel
  · rw [← hrep.audit.length_eq]
    decide +kernel

end Sample

end TrustlistCore.Auth.CanonicalConnection
