import Mathlib.Data.List.Pairwise
import TrustlistCore.Library.Relational.Theorems

namespace TrustlistCore.Library.Relational

variable {Table Column Cell Environment : Type}
variable [DecidableEq Table] [DecidableEq Column] [DecidableEq Cell]
variable {schema : Schema Table Column Cell Environment}
variable {store next : Store Table Column Cell} {table : Table}

theorem sound_insert {values : Column → Option (Option Cell)} {environment : Environment}
    (h : execute schema store (.insert table values environment) = .ok next)
    (hsound : Sound schema store) : Sound schema next := by
  obtain ⟨hnext, hadmits, hclash, hresolved⟩ := execute_insert h
  have hkept : ∀ other, ∀ row ∈ store other, row ∈ next other := by
    intro other row hrow
    rw [hnext]
    by_cases hother : other = table
    · subst hother
      simp [hrow]
    · rwa [Function.update_of_ne hother]
  have hcases : ∀ other, ∀ row ∈ next other,
      row ∈ store other ∨ other = table ∧ row = (schema.define table).fill values environment := by
    intro other row hrow
    rw [hnext] at hrow
    by_cases hother : other = table
    · subst hother
      simpa using hrow
    · rw [Function.update_of_ne hother] at hrow
      exact Or.inl hrow
  constructor
  · intro other row hrow
    rcases hcases other row hrow with hold | ⟨rfl, rfl⟩
    · exact hsound.admitted other row hold
    · exact hadmits
  · intro other key hkey
    rw [hnext]
    by_cases hother : other = table
    · subst hother
      rw [Function.update_self]
      unfold Key.Distinct
      rw [List.pairwise_append]
      refine ⟨hsound.distinct other key hkey, List.pairwise_singleton _ _, ?_⟩
      intro a ha b hb
      rw [List.mem_singleton.mp hb]
      exact hclash key hkey a ha
    · rw [Function.update_of_ne hother]
      exact hsound.distinct other key hkey
  · intro other foreignKey hforeignKey row hrow
    rcases hcases other row hrow with hold | ⟨rfl, rfl⟩
    · intro cells hcells
      obtain ⟨target, htarget, heq⟩ :=
        hsound.resolved other foreignKey hforeignKey row hold cells hcells
      exact ⟨target, hkept _ target htarget, heq⟩
    · exact hresolved foreignKey hforeignKey

theorem sound_update {selects : Row Column Cell → Bool}
    {set : Row Column Cell → Row Column Cell}
    (h : execute schema store (.update table selects set) = .ok next)
    (hsound : Sound schema store) : Sound schema next := by
  obtain ⟨rows, hupdate, hnext, hdangling, horphaned⟩ := execute_update h
  obtain ⟨hrows, hadmits, hdistinct⟩ := updateRows_spec hupdate
    (by simpa using hsound.admitted table) (by simpa using hsound.distinct table)
  have htable : next table = rows := by rw [hnext, Function.update_self]
  have hothers : ∀ other, other ≠ table → next other = store other := by
    intro other hother
    rw [hnext, Function.update_of_ne hother]
  have hremoved : ∀ row ∈ store table,
      row ∈ (store table).filter selects ∨ row ∈ next table := by
    intro row hrow
    by_cases hselects : selects row
    · exact Or.inl (List.mem_filter.mpr ⟨hrow, hselects⟩)
    · right
      rw [htable, hrows]
      simp only [List.nil_append, List.mem_map]
      exact ⟨row, hrow, by simp [hselects]⟩
  constructor
  · intro other row hrow
    by_cases hother : other = table
    · subst hother
      exact hadmits row (htable ▸ hrow)
    · rw [hothers other hother] at hrow
      exact hsound.admitted other row hrow
  · intro other key hkey
    by_cases hother : other = table
    · subst hother
      rw [htable]
      exact hdistinct key hkey
    · rw [hothers other hother]
      exact hsound.distinct other key hkey
  · intro other foreignKey hforeignKey row hrow
    -- a row in its new version was looked up anew, any other referred to a row before
    by_cases hother : other = table
    · subst hother
      have hmem := hrow
      rw [htable, hrows, List.nil_append, List.mem_map] at hmem
      obtain ⟨old, hold, rfl⟩ := hmem
      by_cases hselects : selects old
      · rw [if_pos hselects] at hrow ⊢
        apply dangling_eq_none_iff.mp hdangling foreignKey hforeignKey
        exact List.mem_map_of_mem (List.mem_filter.mpr ⟨hold, hselects⟩)
      · rw [if_neg hselects] at hrow ⊢
        exact resolved_of_orphaned horphaned hothers hremoved hforeignKey hrow
          (hsound.resolved other foreignKey hforeignKey old hold)
    · have hold := hrow
      rw [hothers other hother] at hold
      exact resolved_of_orphaned horphaned hothers hremoved hforeignKey hrow
        (hsound.resolved other foreignKey hforeignKey row hold)

theorem sound_delete {selects : Row Column Cell → Bool}
    (h : execute schema store (.delete table selects) = .ok next)
    (hsound : Sound schema store) : Sound schema next := by
  obtain ⟨hnext, horphaned⟩ := execute_delete h
  have hothers : ∀ other, other ≠ table → next other = store other := by
    intro other hother
    rw [hnext, Function.update_of_ne hother]
  have hsublist : ∀ other, (next other).Sublist (store other) := by
    intro other
    rw [hnext]
    by_cases hother : other = table
    · subst hother
      rw [Function.update_self]
      exact List.filter_sublist
    · rw [Function.update_of_ne hother]
  have hremoved : ∀ row ∈ store table,
      row ∈ (store table).filter selects ∨ row ∈ next table := by
    intro row hrow
    rw [hnext, Function.update_self]
    by_cases hselects : selects row
    · simp [hrow, hselects]
    · simp [hrow, hselects]
  constructor
  · intro other row hrow
    exact hsound.admitted other row ((hsublist other).subset hrow)
  · intro other key hkey
    exact (hsound.distinct other key hkey).sublist (hsublist other)
  · intro other foreignKey hforeignKey row hrow
    exact resolved_of_orphaned horphaned hothers hremoved hforeignKey hrow
      (hsound.resolved other foreignKey hforeignKey row ((hsublist other).subset hrow))

theorem sound_execute {statement : Statement Table Column Cell Environment}
    (h : execute schema store statement = .ok next) (hsound : Sound schema store) :
    Sound schema next := by
  cases statement with
  | insert table values environment => exact sound_insert h hsound
  | update table selects set => exact sound_update h hsound
  | delete table selects => exact sound_delete h hsound

-- A table that is not the one of the statement stands as it was.
theorem execute_frame {statement : Statement Table Column Cell Environment}
    (h : execute schema store statement = .ok next) (hother : table ≠ statement.table) :
    next table = store table := by
  cases statement with
  | insert target values environment =>
      rw [(execute_insert h).1]
      exact Function.update_of_ne hother _ _
  | update target selects set =>
      obtain ⟨rows, _, hnext, _⟩ := execute_update h
      rw [hnext]
      exact Function.update_of_ne hother _ _
  | delete target selects =>
      rw [(execute_delete h).1]
      exact Function.update_of_ne hother _ _

section Role

variable {granted : List (Privilege × Table)}

-- No statement of the role changes or takes away a row of the table.
def AppendOnly (granted : List (Privilege × Table)) (table : Table) : Prop :=
  (Privilege.update, table) ∉ granted ∧ (Privilege.delete, table) ∉ granted

theorem submit_eq_ok {statement : Statement Table Column Cell Environment}
    (h : submit schema granted store statement = .ok next) :
    (∀ privilege ∈ statement.privileges, privilege ∈ granted) ∧
      execute schema store statement = .ok next := by
  unfold submit at h
  split_ifs at h with hgranted
  refine ⟨?_, h⟩
  simpa using hgranted

theorem prefix_submit {statement : Statement Table Column Cell Environment}
    (h : submit schema granted store statement = .ok next) (htable : AppendOnly granted table) :
    store table <+: next table := by
  obtain ⟨hgranted, hexecute⟩ := submit_eq_ok h
  by_cases hother : table = statement.table
  · subst hother
    cases statement with
    | insert target values environment =>
        rw [(execute_insert hexecute).1, Statement.table, Function.update_self]
        exact List.prefix_append _ _
    | update target selects set =>
        exact absurd (hgranted (.update, target) (by simp [Statement.privileges])) htable.1
    | delete target selects =>
        exact absurd (hgranted (.delete, target) (by simp [Statement.privileges])) htable.2
  · have hsame := execute_frame hexecute hother
    simp only [hsame, List.prefix_rfl]

-- What every statement of a transaction keeps, the transaction keeps.
theorem transact_invariant {P : Store Table Column Cell → Prop}
    (hstep : ∀ store next statement, submit schema granted store statement = .ok next →
      P store → P next) (statements : List (Statement Table Column Cell Environment))
    (hstore : P store) : P (transact schema granted store statements).2 := by
  have hfold : ∀ next, statements.foldlM (submit schema granted) store = .ok next → P next := by
    induction statements generalizing store with
    | nil =>
        intro next h
        cases h
        exact hstore
    | cons statement statements ih =>
        intro next h
        rw [List.foldlM_cons] at h
        obtain ⟨middle, hfirst, hrest⟩ := Result.bind_eq_ok.mp h
        exact ih (hstep _ _ _ hfirst hstore) next hrest
  unfold transact
  cases h : statements.foldlM (submit schema granted) store with
  | error refusal => exact hstore
  | ok next => exact hfold next h

theorem sound_transact (statements : List (Statement Table Column Cell Environment))
    (hsound : Sound schema store) :
    Sound schema (transact schema granted store statements).2 :=
  transact_invariant (fun _ _ _ h => sound_execute (submit_eq_ok h).2) statements hsound

variable (schema granted store) in
-- A table that none of the statements writes to stands as it was.
theorem transact_frame (statements : List (Statement Table Column Cell Environment))
    (hothers : ∀ statement ∈ statements, statement.table ≠ table) :
    (transact schema granted store statements).2 table = store table := by
  have hfold : ∀ next, statements.foldlM (submit schema granted) store = .ok next →
      next table = store table := by
    induction statements generalizing store with
    | nil =>
        intro next h
        cases h
        rfl
    | cons statement statements ih =>
        intro next h
        rw [List.foldlM_cons] at h
        obtain ⟨middle, hfirst, hrest⟩ := Result.bind_eq_ok.mp h
        have hmiddle := execute_frame (submit_eq_ok hfirst).2
          (hothers statement List.mem_cons_self).symm
        rw [← hmiddle]
        exact ih middle (fun later hlater => hothers later (List.mem_cons_of_mem _ hlater)) next
          hrest
  unfold transact
  cases h : statements.foldlM (submit schema granted) store with
  | error refusal => rfl
  | ok next => exact hfold next h

theorem prefix_transact (statements : List (Statement Table Column Cell Environment))
    (htable : AppendOnly granted table) :
    store table <+: (transact schema granted store statements).2 table :=
  transact_invariant (P := fun next => store table <+: next table)
    (fun _ _ _ h hfront => hfront.trans (prefix_submit h htable)) statements
    (List.prefix_refl _)

-- The runs of the role, a transaction after the other.
abbrev RoleRun (schema : Schema Table Column Cell Environment)
    (granted : List (Privilege × Table)) (start : Store Table Column Cell)
    (trace : List (List (Statement Table Column Cell Environment) ×
      Except (Refusal Table Column) Unit)) (last : Store Table Column Cell) : Prop :=
  Run (transact schema granted) (fun _ _ => True) start trace last

variable {start last : Store Table Column Cell}
variable {trace : List (List (Statement Table Column Cell Environment) ×
  Except (Refusal Table Column) Unit)}

theorem sound_run (hrun : RoleRun schema granted start trace last) (hstart : Sound schema start) :
    Sound schema last :=
  hrun.invariant (fun _ statements hsound _ => sound_transact statements hsound) hstart

theorem prefix_run (hrun : RoleRun schema granted start trace last)
    (htable : AppendOnly granted table) : start table <+: last table :=
  hrun.invariant (P := fun store => start table <+: store table)
    (fun _ statements hfront _ => hfront.trans (prefix_transact statements htable))
    (List.prefix_refl _)

end Role

section Anchor

omit [DecidableEq Table] [DecidableEq Column] [DecidableEq Cell]

theorem eq_of_clash (hsound : Sound schema store) {key : Key Column}
    (hkey : key ∈ (schema.define table).keys) {a b : Row Column Cell} (ha : a ∈ store table)
    (hb : b ∈ store table) (hclash : key.Clash a b) : a = b := by
  have hsymm : Std.Symm fun a b : Row Column Cell => ¬ key.Clash a b :=
    ⟨fun _ _ h hclash => h hclash.symm⟩
  by_contra hne
  exact (hsound.distinct table key hkey).forall ha hb hne hclash

-- The one row that a foreign key of a row refers to.
theorem exists_target (hsound : Sound schema store) {foreignKey : ForeignKey Table Column}
    (hforeignKey : foreignKey ∈ (schema.define table).foreignKeys) {row : Row Column Cell}
    (hrow : row ∈ store table) {cells : List Cell}
    (hcells : project foreignKey.columns row = some cells) :
    ∃ target ∈ store foreignKey.references, project foreignKey.key target = some cells ∧
      ∀ other ∈ store foreignKey.references, project foreignKey.key other = some cells →
        other = target := by
  obtain ⟨target, htarget, heq⟩ :=
    hsound.resolved table foreignKey hforeignKey row hrow cells hcells
  obtain ⟨key, hkey, hcolumns⟩ := schema.references_key table foreignKey hforeignKey
  refine ⟨target, htarget, heq, ?_⟩
  intro other hother hsame
  apply eq_of_clash hsound hkey hother htarget
  exact ⟨cells, by rw [hcolumns, hsame], by rw [hcolumns, heq]⟩

-- Where neither the row nor what it refers to can change, the reference is to the same row
-- for ever.
theorem target_unchanged (hsound : Sound schema next) {foreignKey : ForeignKey Table Column}
    (hforeignKey : foreignKey ∈ (schema.define table).foreignKeys)
    (hreferences : store foreignKey.references <+: next foreignKey.references)
    {target : Row Column Cell} (htarget : target ∈ store foreignKey.references)
    {cells : List Cell} (hcells : project foreignKey.key target = some cells)
    {other : Row Column Cell} (hother : other ∈ next foreignKey.references)
    (hsame : project foreignKey.key other = some cells) : other = target := by
  obtain ⟨key, hkey, hcolumns⟩ := schema.references_key table foreignKey hforeignKey
  apply eq_of_clash hsound hkey hother (hreferences.subset htarget)
  exact ⟨cells, by rw [hcolumns, hsame], by rw [hcolumns, hcells]⟩

end Anchor

end TrustlistCore.Library.Relational
