import TrustlistCore.DataModel.CanonicalStore
import TrustlistCore.Library.Relational.Integrity

namespace TrustlistCore.DataModel.CanonicalStore

open Library Relational

variable {Timestamp Jsonb : Type} [DecidableEq Timestamp] [DecidableEq Jsonb]
variable {server : Server Timestamp Jsonb}

abbrev CanonicalStatement (Timestamp Jsonb : Type) : Type :=
  Statement Table Column (Cell Timestamp Jsonb) (Environment Timestamp)

abbrev Store (Timestamp Jsonb : Type) : Type :=
  Relational.Store Table Column (Cell Timestamp Jsonb)

abbrev Trace (Timestamp Jsonb : Type) : Type :=
  List (List (CanonicalStatement Timestamp Jsonb) × Except (Refusal Table Column) Unit)

-- The transactions of a member of `trustlist_app`, one after the other.
abbrev ApplicationRun (server : Server Timestamp Jsonb) :
    Store Timestamp Jsonb → Trace Timestamp Jsonb → Store Timestamp Jsonb → Prop :=
  RoleRun (schema server) applicationRole

theorem appendOnly_iff {table : Table} :
    AppendOnly applicationRole table ↔ table ∈ APPEND_ONLY_TABLES := by
  simp [AppendOnly, applicationRole, mem_ALL_TABLES]

theorem sound_reached {trace : Trace Timestamp Jsonb} {store : Store Timestamp Jsonb}
    (hrun : ApplicationRun server Store.empty trace store) : Sound (schema server) store :=
  sound_run hrun (sound_empty _)

variable (server) in
theorem submit_of_granted {store : Store Timestamp Jsonb}
    {statement : CanonicalStatement Timestamp Jsonb}
    (h : ∀ privilege ∈ statement.privileges, privilege ∈ applicationRole) :
    submit (schema server) applicationRole store statement =
      execute (schema server) store statement := by
  unfold submit
  rw [if_pos]
  rw [List.all_eq_true]
  intro privilege hprivilege
  exact List.contains_iff_mem.mpr (h privilege hprivilege)

variable (server) in
-- Every table takes an INSERT of the role that meets its constraints.
theorem submit_insert {store : Store Timestamp Jsonb} {table : Table}
    {values : Column → Option (Option (Cell Timestamp Jsonb))}
    {environment : Environment Timestamp} {row : CanonicalRow Timestamp Jsonb}
    (hrow : (createTable server table).fill values environment = row)
    (hadmits : (createTable server table).Admits row)
    (hclash : ∀ key ∈ (createTable server table).keys, ∀ other ∈ store table, ¬ key.Clash other row)
    (hresolved : ∀ foreignKey ∈ (createTable server table).foreignKeys,
      foreignKey.Resolved (Function.update store table (store table ++ [row])) row) :
    submit (schema server) applicationRole store (.insert table values environment) =
      .ok (Function.update store table (store table ++ [row])) := by
  rw [submit_of_granted server]
  · exact execute_insert_of hrow hadmits hclash hresolved
  · intro privilege hprivilege
    rw [List.mem_singleton.mp hprivilege]
    cases table <;> decide

-- The row that a foreign key leads to: it is there, there is no other, and where its own
-- table is append-only, it is the row that was there before.
structure LeadsTo (before after : Store Timestamp Jsonb) (foreignKey : ForeignKey Table Column)
    (cells : List (Cell Timestamp Jsonb)) (target : CanonicalRow Timestamp Jsonb) : Prop where
  stored : target ∈ after foreignKey.references
  key : project foreignKey.key target = some cells
  only : ∀ other ∈ after foreignKey.references,
    project foreignKey.key other = some cells → other = target
  unchanged : foreignKey.references ∈ APPEND_ONLY_TABLES → target ∈ before foreignKey.references

-- A row of an append-only table outlives every transaction, and so does what it refers to.
theorem history_kept {before after : Trace Timestamp Jsonb} {store last : Store Timestamp Jsonb}
    (hbefore : ApplicationRun server Store.empty before store)
    (hafter : ApplicationRun server store after last) (table : Table)
    (htable : table ∈ APPEND_ONLY_TABLES) :
    store table <+: last table ∧
      ∀ foreignKey ∈ (createTable server table).foreignKeys, ∀ row ∈ store table, ∀ cells,
        project foreignKey.columns row = some cells →
          ∃ target, LeadsTo store last foreignKey cells target := by
  have hfront := prefix_run hafter (appendOnly_iff.mpr htable)
  have hstore := sound_reached hbefore
  have hlast := sound_run hafter hstore
  refine ⟨hfront, ?_⟩
  intro foreignKey hforeignKey row hrow cells hcells
  obtain ⟨target, htarget, hkey, honly⟩ :=
    exists_target hlast hforeignKey (hfront.subset hrow) hcells
  refine ⟨target, htarget, hkey, honly, ?_⟩
  intro happend
  -- the row it led to before is still there, and no other has its key
  obtain ⟨old, hold, holdKey, _⟩ := exists_target hstore hforeignKey hrow hcells
  have hsame : target = old :=
    target_unchanged hlast hforeignKey (prefix_run hafter (appendOnly_iff.mpr happend)) hold
      holdKey htarget hkey
  rwa [hsame]

section Columns

omit [DecidableEq Timestamp] [DecidableEq Jsonb]

theorem exists_cell {definition : Definition Timestamp Jsonb} {row : CanonicalRow Timestamp Jsonb}
    (hadmits : definition.Admits row) (known : CanonicalColumn Timestamp Jsonb)
    (hknown : known ∈ definition.columns) (hrequired : known.nullable = false) :
    ∃ cell, row known.column = some cell ∧ known.admits cell = true := by
  have haccepts := hadmits.columns known hknown
  unfold ColumnDefinition.Accepts at haccepts
  cases hcell : row known.column with
  | none => simp [hcell, hrequired] at haccepts
  | some cell => exact ⟨cell, rfl, by simpa [hcell] using haccepts⟩

theorem uuid_of_admits {cell : Cell Timestamp Jsonb} (h : ColumnType.uuid.admits cell = true) :
    ∃ value, cell = .uuid value := by
  cases cell with
  | uuid value => exact ⟨value, rfl⟩
  | _ => simp [ColumnType.admits] at h

theorem label_of_admits {labels : List String} {cell : Cell Timestamp Jsonb}
    (h : (ColumnType.enum labels).admits cell = true) : ∃ value ∈ labels, cell = .label value := by
  cases cell with
  | label value => exact ⟨value, by simpa [ColumnType.admits] using h, rfl⟩
  | _ => simp [ColumnType.admits] at h

theorem project_one {name : Column} {row : CanonicalRow Timestamp Jsonb}
    {cell : Cell Timestamp Jsonb} :
    project [name] row = some [cell] ↔ row name = some cell := by
  simp [project_cons_eq_some, project_nil_eq_some]

theorem project_two {first second : Column} {row : CanonicalRow Timestamp Jsonb}
    {a b : Cell Timestamp Jsonb} :
    project [first, second] row = some [a, b] ↔ row first = some a ∧ row second = some b := by
  simp [project_cons_eq_some, project_nil_eq_some]

end Columns

-- The archetype on a grant is the one of its account, so the condition on the customer is a
-- condition on the account.
theorem archetype_pinned {trace : Trace Timestamp Jsonb} {store : Store Timestamp Jsonb}
    (hrun : ApplicationRun server Store.empty trace store)
    (assignment : CanonicalRow Timestamp Jsonb)
    (hassignment : assignment ∈ store .userRoleAssignment) :
    ∃ userId archetype, assignment .userId = some (.uuid userId) ∧
      assignment .accountArchetype = some (.label archetype) ∧
      ((assignment .customerId).isSome ↔ archetype = "brand_customer") ∧
      ∃ account ∈ store .userAccount, account .userId = some (.uuid userId) ∧
        account .archetype = some (.label archetype) ∧
        ∀ other ∈ store .userAccount, other .userId = some (.uuid userId) → other = account := by
  have hsound := sound_reached hrun
  have hadmits := hsound.admitted .userRoleAssignment assignment hassignment
  obtain ⟨_, huser, hadmitted⟩ :=
    exists_cell hadmits (required .userId .uuid) (by simp [schema, createTable, userRoleAssignment]) rfl
  obtain ⟨userId, rfl⟩ := uuid_of_admits hadmitted
  obtain ⟨_, harchetype, hadmitted⟩ :=
    exists_cell hadmits (required .accountArchetype userArchetype)
      (by simp [schema, createTable, userRoleAssignment]) rfl
  obtain ⟨archetype, _, rfl⟩ := label_of_admits hadmitted
  refine ⟨userId, archetype, huser, harchetype, ?_, ?_⟩
  · have hcheck := hadmits.checks customerIdRequiredForBrandCustomer
      (by simp [schema, createTable, userRoleAssignment])
    have hcolumn : assignment .accountArchetype = some (.label archetype) := harchetype
    unfold customerIdRequiredForBrandCustomer at hcheck
    simp only [hcolumn, decide_eq_true_eq] at hcheck
    by_cases hbrand : archetype = "brand_customer"
    · simpa [hbrand] using hcheck
    · simpa [hbrand] using hcheck
  · have hforeignKey : toUserAccountArchetype "fk_user_role_assignment_user_id_user_account" ∈
        ((schema server).define .userRoleAssignment).foreignKeys := by
      simp [schema, createTable, userRoleAssignment]
    obtain ⟨account, hmem, hkey, _⟩ :=
      exists_target hsound hforeignKey hassignment (project_two.mpr ⟨huser, harchetype⟩)
    obtain ⟨hid, hown⟩ := project_two.mp hkey
    refine ⟨account, hmem, hid, hown, ?_⟩
    -- the id is a key by itself
    intro other hother hsame
    have hprimary : ⟨"pk_user_account", [.userId]⟩ ∈ ((schema server).define .userAccount).keys := by
      simp [schema, createTable, userAccount]
    apply eq_of_clash hsound hprimary hother hmem
    exact ⟨[.uuid userId], project_one.mpr hsame, project_one.mpr hid⟩

section Sample

def plainServer : Server ℕ Bool where
  lower := id
  isSpace point := point.val = 0x20
  timestamptz _ := some 0
  jsonb _ := some true
  accepts _ := true
  convert _ := none

-- The columns that an INSERT names.
def values {Timestamp Jsonb : Type} (given : List (Column × Cell Timestamp Jsonb)) :
    Column → Option (Option (Cell Timestamp Jsonb)) :=
  fun column => (given.find? fun entry => entry.1 = column).map fun entry => some entry.2

-- A domain, a provenance row and the evidence row that refers to both.
def observed : List (CanonicalStatement ℕ Bool) :=
  [.insert .domain
      (values [(.normalisedUrl, .text [0x61]), (.currentStatus, .label "under_review")]) ⟨⟨1⟩, 5⟩,
    .insert .provenance
      (values [(.source, .label "system"), (.method, .text [0x6D]), (.observedAt, .timestamp 4)])
      ⟨⟨2⟩, 5⟩,
    .insert .evidence
      (values [(.domainId, .uuid ⟨1⟩), (.signalClass, .text [0x73]), (.source, .label "system"),
        (.method, .text [0x6D]), (.observedAt, .timestamp 4), (.observedValue, .jsonb true),
        (.provenanceId, .uuid ⟨2⟩)]) ⟨⟨3⟩, 5⟩]

def after (store : Store ℕ Bool) (transactions : List (List (CanonicalStatement ℕ Bool))) :
    Store ℕ Bool :=
  transactions.foldl
    (fun store statements => (transact (schema plainServer) applicationRole store statements).2)
    store

-- The evidence may not be deleted, and the domain cannot be while the evidence refers to it.
theorem history_kept_observed :
    (after Store.empty [observed] .evidence).length = 1 ∧
      after Store.empty [observed] .evidence <+:
        after (after Store.empty [observed])
          [[.delete .evidence fun _ => true], [.delete .domain fun _ => true]] .evidence := by
  obtain ⟨past, hpast⟩ := Run.of_inputs (transact (schema plainServer) applicationRole)
    Store.empty [observed]
  obtain ⟨rest, hrest⟩ := Run.of_inputs (transact (schema plainServer) applicationRole)
    (after Store.empty [observed])
    [[.delete .evidence fun _ => true], [.delete .domain fun _ => true]]
  exact ⟨by decide, (history_kept hpast hrest .evidence (by decide)).1⟩

-- An account of a brand customer and a grant to it.
def grantedTo : List (CanonicalStatement ℕ Bool) :=
  [.insert .userAccount
      (values [(.archetype, .label "brand_customer"), (.email, .text [0x61]),
        (.passwordHash, .bytea [])]) ⟨⟨1⟩, 5⟩,
    .insert .userRoleAssignment
      (values [(.userId, .uuid ⟨1⟩), (.accountArchetype, .label "brand_customer"),
        (.role, .text [0x72]), (.customerId, .uuid ⟨9⟩)]) ⟨⟨2⟩, 5⟩]

theorem archetype_pinned_granted :
    ∃ assignment ∈ after Store.empty [grantedTo] .userRoleAssignment, ∃ userId archetype,
      assignment .userId = some (.uuid userId) ∧
        ∃ account ∈ after Store.empty [grantedTo] .userAccount,
          account .userId = some (.uuid userId) ∧ account .archetype = some (.label archetype) := by
  obtain ⟨past, hpast⟩ := Run.of_inputs (transact (schema plainServer) applicationRole)
    Store.empty [grantedTo]
  have hlength : 0 < (after Store.empty [grantedTo] .userRoleAssignment).length := by decide
  obtain ⟨assignment, hassignment⟩ := List.exists_mem_of_length_pos hlength
  obtain ⟨userId, archetype, huser, _, _, account, haccount, hid, hown, _⟩ :=
    archetype_pinned hpast assignment hassignment
  exact ⟨assignment, hassignment, userId, archetype, huser, account, haccount, hid, hown⟩

end Sample

end TrustlistCore.DataModel.CanonicalStore
