import TrustlistCore.Auth.Rbac

namespace TrustlistCore.Auth

namespace RoleCatalogue

-- The role named `identifier` is in the catalogue, is active and contains `permission`.
def confers (self : RoleCatalogue) (identifier : String) (permission : Permission) : Bool :=
  match self.lookup identifier with
  | some role => !role.featureFlaggedOff && role.grants permission
  | none => false

theorem resolveStep_unknown (repr : String → String) (self : RoleCatalogue)
    (resolved : List Permission) (identifier : String) (hn : self.has identifier = false) :
    ∃ failure, self.resolveStep repr resolved identifier = .error failure := by
  have hl : self.lookup identifier = none := by
    simpa [has] using hn
  exact ⟨_, by simp only [resolveStep, get, hl]; rfl⟩

theorem resolveStep_known (repr : String → String) (self : RoleCatalogue)
    (resolved : List Permission) (identifier : String) (hk : self.has identifier = true) :
    ∃ next, self.resolveStep repr resolved identifier = .ok next ∧
      ∀ permission, permission ∈ next ↔
        permission ∈ resolved ∨ self.confers identifier permission = true := by
  obtain ⟨role, hl⟩ := Option.isSome_iff_exists.mp hk
  cases hf : role.featureFlaggedOff with
  | true =>
      refine ⟨resolved, ?_, ?_⟩
      · simp only [resolveStep, get, hl]
        simp [hf, bind, Except.bind, pure, Except.pure]
      · intro permission
        simp [confers, hl, hf]
  | false =>
      refine ⟨resolved ∪ role.permissions, ?_, ?_⟩
      · simp only [resolveStep, get, hl]
        simp [hf, bind, Except.bind, pure, Except.pure]
      · intro permission
        simp [confers, hl, hf, Role.grants]

-- The loop fails on the first unknown name and otherwise collects exactly what
-- the active roles contain, whatever it has collected before.
theorem resolve_fold (repr : String → String) (self : RoleCatalogue)
    (identifiers : List String) (resolved : List Permission) :
    ((∀ identifier ∈ identifiers, self.has identifier = true) ∧
      ∃ final, identifiers.foldlM (self.resolveStep repr) resolved = .ok final ∧
        ∀ permission, permission ∈ final ↔ permission ∈ resolved ∨
          ∃ identifier ∈ identifiers, self.confers identifier permission = true) ∨
    ((∃ identifier ∈ identifiers, self.has identifier = false) ∧
      ∃ failure, identifiers.foldlM (self.resolveStep repr) resolved = .error failure) := by
  induction identifiers generalizing resolved with
  | nil =>
      left
      exact ⟨by simp, resolved, rfl, by simp⟩
  | cons identifier rest ih =>
      rw [List.foldlM_cons]
      cases hk : self.has identifier with
      | false =>
          obtain ⟨failure, hf⟩ := resolveStep_unknown repr self resolved identifier hk
          right
          exact ⟨⟨identifier, by simp, hk⟩, failure, by rw [hf]; rfl⟩
      | true =>
          obtain ⟨next, hn, hmem⟩ := resolveStep_known repr self resolved identifier hk
          rw [hn]
          rcases ih next with ⟨hall, final, hf, hfinal⟩ | ⟨⟨other, ho, hu⟩, failure, hf⟩
          · left
            refine ⟨by simpa [hk] using hall, final, hf, ?_⟩
            intro permission
            rw [hfinal, hmem]
            simp [or_assoc]
          · right
            exact ⟨⟨other, List.mem_cons_of_mem _ ho, hu⟩, failure, hf⟩

-- A list with a name outside the catalogue raises; every other list answers.
theorem hasPermission_eq_ok_true_iff (repr : String → String) (self : RoleCatalogue)
    (identifiers : List String) (permission : Permission) :
    self.hasPermission repr identifiers permission = .ok true ↔
      (∀ identifier ∈ identifiers, self.has identifier = true) ∧
        ∃ identifier ∈ identifiers, self.confers identifier permission = true := by
  unfold hasPermission resolvePermissions
  rcases resolve_fold repr self identifiers [] with
    ⟨hall, final, hf, hfinal⟩ | ⟨⟨other, ho, hu⟩, failure, hf⟩
  · simp only [List.not_mem_nil, false_or] at hfinal
    rw [hf]
    simp only [bind, Except.bind, pure, Except.pure, Except.ok.injEq, decide_eq_true_eq, hfinal]
    exact ⟨fun h => ⟨hall, h⟩, fun h => h.2⟩
  · rw [hf]
    simp only [bind, Except.bind, reduceCtorEq, false_iff]
    rintro ⟨hall, -⟩
    simp [hall other ho] at hu

theorem hasPermission_raises_iff (repr : String → String) (self : RoleCatalogue)
    (identifiers : List String) (permission : Permission) :
    (∃ failure, self.hasPermission repr identifiers permission = .error failure) ↔
      ∃ identifier ∈ identifiers, self.has identifier = false := by
  unfold hasPermission resolvePermissions
  rcases resolve_fold repr self identifiers [] with
    ⟨hall, final, hf, -⟩ | ⟨hunknown, failure, hf⟩
  · rw [hf]
    simp only [bind, Except.bind, pure, Except.pure, reduceCtorEq, exists_false, false_iff]
    rintro ⟨identifier, hi, hu⟩
    simp [hall identifier hi] at hu
  · rw [hf]
    simp only [bind, Except.bind, Except.error.injEq, exists_eq', true_iff]
    exact hunknown

end RoleCatalogue

end TrustlistCore.Auth
