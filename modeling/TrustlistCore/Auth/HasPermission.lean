import TrustlistCore.Auth.Service.Theorems

namespace TrustlistCore.Auth.AuthService

open Library

variable {Salt Hash Uuid : Type} [DecidableEq Uuid]

-- Every role in the table is a role of the archetype it was granted under.
def Catalogued (table : List (AssignmentRow Uuid)) : Prop :=
  ∀ row ∈ table, (catalogueFor row.accountArchetype).has row.role = true

-- Any call is enabled; the world around the service may change every other table,
-- such as inserting an account, but not the grants.
def GrantsByCalls (state : ServiceState Hash Uuid) : Event Salt Uuid → Prop
  | .call _ _ => True
  | .database database =>
      database.userRoleAssignment = state.audit.database.userRoleAssignment

theorem catalogued_tableEffect {before after : List (AssignmentRow Uuid)} {call : Call}
    (heffect : TableEffect before call after) (hbefore : Catalogued before) :
    Catalogued after := by
  cases heffect with
  | same hsame => rwa [hsame]
  | grant row harchetype hrole hknown hafter =>
      intro other ho
      rw [hafter] at ho
      rcases List.mem_append.mp ho with ho | ho
      · exact hbefore other ho
      · rw [List.mem_singleton.mp ho, harchetype, hrole]
        exact hknown
  | revoke user revokedAt hafter =>
      intro row hr
      rw [hafter] at hr
      obtain ⟨old, ho, rfl⟩ := List.mem_map.mp hr
      simpa using hbefore old ho

theorem catalogued_run (rt : Runtime Salt Hash Uuid) {start last : ServiceState Hash Uuid}
    {trace : List (Event Salt Uuid × Except Failure Reply)}
    (hrun : Run (step rt) GrantsByCalls start trace last)
    (hstart : start.audit.database.userRoleAssignment = []) :
    Catalogued last.audit.database.userRoleAssignment := by
  refine hrun.invariant (P := fun state => Catalogued state.audit.database.userRoleAssignment)
    ?_ ?_
  · intro state event hstate he
    cases event with
    | call call g =>
        have heffect := (step_effects rt g call state).2
        exact catalogued_tableEffect heffect hstate
    | database database =>
        have hsame : database.userRoleAssignment = _ := he
        simpa only [step, hsame] using hstate
  · simp [hstart, Catalogued]

theorem validatePermission_value (repr : String → String) (permission : Permission) :
    validatePermission repr permission.value = .ok permission := by
  cases permission <;> rfl

-- What the code computes: the held names are looked up in the catalogue of the
-- argument, and one unknown name makes the call raise.
theorem hasPermission_returns_true_iff (rt : Runtime Salt Hash Uuid) (g : Generated Salt)
    (state : ServiceState Hash Uuid) (userId : String) (archetype : Archetype)
    (permission : Permission) (given : Permission ⊕ String)
    (hgiven : given = .inl permission ∨ given = .inr permission.value)
    (customerId : Option String) :
    (step rt state (.call (.hasPermission userId archetype given customerId) g)).1 =
        .ok (.bool true) ↔
      (∀ row ∈ state.audit.database.userRoleAssignment,
        RoleStore.HeldBy rt userId customerId row →
          (catalogueFor archetype).has row.role = true) ∧
      ∃ row ∈ state.audit.database.userRoleAssignment,
        RoleStore.HeldBy rt userId customerId row ∧
          (catalogueFor archetype).confers row.role permission = true := by
  apply (step_wp rt g _ state (fun reply _ => reply = .ok (.bool true) ↔ _)).mp
  have hresolved : resolvedPermission rt given = .ok permission := by
    rcases hgiven with rfl | rfl
    · rfl
    · exact validatePermission_value rt.repr permission
  simp only [perform, hasPermission, wp_map, wp_bind, wp_ofExcept, hresolved, wp_onConnection]
  apply RoleStore.wp_liveRoleIdentifiers
  · intro failure hnone
    simp only [Except.map, reduceCtorEq, false_iff, not_and, not_exists]
    intro _ row _ hheld
    exact absurd hheld (hnone row)
  · intro held hheld
    simp only
    have htrue := RoleCatalogue.hasPermission_eq_ok_true_iff rt.repr (catalogueFor archetype)
      held permission
    have hreply : ((catalogueFor archetype).hasPermission rt.repr held permission).map
        Reply.bool = .ok (.bool true) ↔
        (catalogueFor archetype).hasPermission rt.repr held permission = .ok true := by
      cases (catalogueFor archetype).hasPermission rt.repr held permission <;> simp [Except.map]
    rw [hreply, htrue]
    constructor
    · rintro ⟨hall, role, hr, hc⟩
      obtain ⟨row, hrow, hh, rfl⟩ := (hheld role).mp hr
      exact ⟨fun other ho hho => hall _ ((hheld _).mpr ⟨other, ho, hho, rfl⟩), row, hrow, hh, hc⟩
    · rintro ⟨hall, row, hrow, hh, hc⟩
      refine ⟨?_, row.role, (hheld _).mpr ⟨row, hrow, hh, rfl⟩, hc⟩
      intro role hr
      obtain ⟨other, ho, hho, rfl⟩ := (hheld role).mp hr
      exact hall other ho hho

-- The foreign key gives all rows of one user one archetype, so with one row granted
-- elsewhere the right-hand side of the specification is empty.
theorem archetypes_agree (rt : Runtime Salt Hash Uuid) (database : Database Uuid)
    (userId : String) (customerId : Option String) (row other : AssignmentRow Uuid)
    (hrow : row ∈ database.userRoleAssignment) (hother : other ∈ database.userRoleAssignment)
    (hr : RoleStore.HeldBy rt userId customerId row)
    (ho : RoleStore.HeldBy rt userId customerId other) :
    row.accountArchetype = other.accountArchetype := by
  apply database.assignment_archetype_unique row other hrow hother
  exact Option.some.inj (hr.1.symm.trans ho.1)

theorem hasPermission_exact_iff (rt : Runtime Salt Hash Uuid) (g : Generated Salt)
    (start state : ServiceState Hash Uuid)
    (trace : List (Event Salt Uuid × Except Failure Reply))
    (hrun : Run (step rt) GrantsByCalls start trace state)
    (hstart : start.audit.database.userRoleAssignment = [])
    (userId : String) (archetype : Archetype) (permission : Permission)
    (given : Permission ⊕ String)
    (hgiven : given = .inl permission ∨ given = .inr permission.value)
    (customerId : Option String) :
    ((step rt state (.call (.hasPermission userId archetype given customerId) g)).1 =
        .ok (.bool true) ↔
      ∃ row ∈ state.audit.database.userRoleAssignment,
        RoleStore.HeldBy rt userId customerId row ∧ row.accountArchetype = archetype ∧
          (catalogueFor archetype).confers row.role permission = true) ↔
    (∀ row ∈ state.audit.database.userRoleAssignment,
        RoleStore.HeldBy rt userId customerId row → row.accountArchetype = archetype) ∨
      (∃ row ∈ state.audit.database.userRoleAssignment,
        RoleStore.HeldBy rt userId customerId row ∧
          (catalogueFor archetype).has row.role = false) ∨
      (∀ row ∈ state.audit.database.userRoleAssignment,
        RoleStore.HeldBy rt userId customerId row →
          (catalogueFor archetype).confers row.role permission = false) := by
  have hcatalogued := catalogued_run rt hrun hstart
  rw [hasPermission_returns_true_iff rt g state userId archetype permission given hgiven
    customerId]
  by_cases hown : ∀ row ∈ state.audit.database.userRoleAssignment,
      RoleStore.HeldBy rt userId customerId row → row.accountArchetype = archetype
  · refine iff_of_true ?_ (.inl hown)
    constructor
    · rintro ⟨-, row, hrow, hh, hc⟩
      exact ⟨row, hrow, hh, hown row hrow hh, hc⟩
    · rintro ⟨row, hrow, hh, -, hc⟩
      refine ⟨?_, row, hrow, hh, hc⟩
      intro other ho hho
      rw [← hown other ho hho]
      exact hcatalogued other ho
  · -- A row granted under another archetype: no row meets the specification.
    push Not at hown
    obtain ⟨foreign, hforeign, hf, hne⟩ := hown
    have hempty : ¬ ∃ row ∈ state.audit.database.userRoleAssignment,
        RoleStore.HeldBy rt userId customerId row ∧ row.accountArchetype = archetype ∧
          (catalogueFor archetype).confers row.role permission = true := by
      rintro ⟨row, hrow, hh, harchetype, -⟩
      have hsame := archetypes_agree rt state.audit.database userId customerId row foreign hrow
        hforeign hh hf
      exact hne (hsame.symm.trans harchetype)
    simp only [iff_false_right hempty, not_and_or]
    constructor
    · rintro (hunknown | hnone)
      · push Not at hunknown
        obtain ⟨row, hrow, hh, hu⟩ := hunknown
        exact .inr (.inl ⟨row, hrow, hh, by simpa using hu⟩)
      · right
        right
        intro row hrow hh
        by_contra hc
        exact hnone ⟨row, hrow, hh, by simpa using hc⟩
    · rintro (hall | ⟨row, hrow, hh, hu⟩ | hnone)
      · exact absurd (hall foreign hforeign hf) hne
      · left
        intro hall
        simp [hall row hrow hh] at hu
      · right
        rintro ⟨row, hrow, hh, hc⟩
        simp [hnone row hrow hh] at hc

-- The account of an operator who is granted the owner role.
def operatorOwner : ServiceState String String :=
  (step .plain (step .plain noAccounts (.database operatorAccount)).2
    (.call (.assignRole "u-1" .OPERATOR "owner" none none) drawn)).2

theorem operatorOwner_run :
    ∃ trace, Run (step .plain) GrantsByCalls noAccounts trace operatorOwner := by
  have hstart : Run (step .plain) GrantsByCalls noAccounts [] noAccounts := .nil
  have haccount := hstart.snoc (.database operatorAccount) (by exact rfl)
  have hgrant := haccount.snoc (.call (.assignRole "u-1" .OPERATOR "owner" none none) drawn)
    (by trivial)
  exact ⟨_, hgrant⟩

theorem hasPermission_exact_owner :
    (step .plain operatorOwner
        (.call (.hasPermission "u-1" .OPERATOR (.inr "account:manage") none) drawn)).1 =
      .ok (.bool true) := by
  obtain ⟨trace, hrun⟩ := operatorOwner_run
  have hexact := hasPermission_exact_iff .plain drawn noAccounts operatorOwner trace hrun rfl
    "u-1" .OPERATOR .ACCOUNT_MANAGE (.inr "account:manage") (.inr rfl) none
  refine (hexact.mpr (.inl ?_)).mpr ?_
  · intro row hr _
    rw [List.mem_singleton.mp hr]
  · refine ⟨_, List.mem_singleton.mpr rfl, ⟨rfl, rfl, by simp⟩, rfl, by decide⟩

-- The grant of an operator role answers for the brand-customer role of the same name.
theorem hasPermission_crosses_archetypes :
    ∃ trace, Run (step .plain) GrantsByCalls noAccounts trace operatorOwner ∧
      (step .plain operatorOwner
          (.call (.hasPermission "u-1" .BRAND_CUSTOMER (.inl .AUDIT_VIEW) none) drawn)).1 =
        .ok (.bool true) ∧
      ¬ ∃ row ∈ operatorOwner.audit.database.userRoleAssignment,
        RoleStore.HeldBy .plain "u-1" none row ∧ row.accountArchetype = .BRAND_CUSTOMER ∧
          (catalogueFor .BRAND_CUSTOMER).confers row.role .AUDIT_VIEW = true := by
  obtain ⟨trace, hrun⟩ := operatorOwner_run
  refine ⟨trace, hrun, rfl, ?_⟩
  rintro ⟨row, hr, -, harchetype, -⟩
  rw [List.mem_singleton.mp hr] at harchetype
  cases harchetype

end TrustlistCore.Auth.AuthService
