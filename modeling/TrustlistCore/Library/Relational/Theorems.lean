import Mathlib.Tactic.TautoSet
import Mathlib.Tactic.SplitIfs
import TrustlistCore.Library.Relational
import TrustlistCore.Library.Result
import TrustlistCore.Library.Run

namespace TrustlistCore.Library.Relational

variable {Table Column Cell Environment : Type}

theorem project_nil_eq_some {row : Row Column Cell} {cells : List Cell} :
    project [] row = some cells ↔ cells = [] := by
  simp [project, eq_comm]

theorem project_cons_eq_some {column : Column} {columns : List Column} {row : Row Column Cell}
    {cells : List Cell} :
    project (column :: columns) row = some cells ↔
      ∃ cell rest, row column = some cell ∧ project columns row = some rest ∧
        cells = cell :: rest := by
  unfold project
  rw [List.mapM_cons]
  simp only [Option.bind_eq_bind, Option.pure_def, Option.bind_eq_some_iff, Option.some.injEq]
  constructor
  · rintro ⟨cell, hcell, rest, hrest, rfl⟩
    exact ⟨cell, rest, hcell, hrest, rfl⟩
  · rintro ⟨cell, rest, hcell, hrest, rfl⟩
    exact ⟨cell, hcell, rest, hrest, rfl⟩

def ColumnDefinition.Accepts (definition : ColumnDefinition Column Cell Environment)
    (row : Row Column Cell) : Prop :=
  match row definition.column with
  | none => definition.nullable
  | some cell => definition.admits cell

-- What a row meets by itself.
structure Definition.Admits (definition : Definition Table Column Cell Environment)
    (row : Row Column Cell) : Prop where
  columns : ∀ column ∈ definition.columns, column.Accepts row
  checks : ∀ check ∈ definition.checks, check.holds row

def Key.Clash (key : Key Column) (a b : Row Column Cell) : Prop :=
  ∃ cells, project key.columns a = some cells ∧ project key.columns b = some cells

theorem Key.Clash.symm {key : Key Column} {a b : Row Column Cell} (h : key.Clash a b) :
    key.Clash b a := by
  obtain ⟨cells, ha, hb⟩ := h
  exact ⟨cells, hb, ha⟩

def Key.Distinct (key : Key Column) (rows : List (Row Column Cell)) : Prop :=
  rows.Pairwise fun a b => ¬ key.Clash a b

def ForeignKey.Resolved (foreignKey : ForeignKey Table Column) (store : Store Table Column Cell)
    (row : Row Column Cell) : Prop :=
  ∀ cells, project foreignKey.columns row = some cells →
    ∃ target ∈ store foreignKey.references, project foreignKey.key target = some cells

-- Every constraint of the schema holds in the store.
structure Sound (schema : Schema Table Column Cell Environment)
    (store : Store Table Column Cell) : Prop where
  admitted : ∀ table, ∀ row ∈ store table, (schema.define table).Admits row
  distinct : ∀ table, ∀ key ∈ (schema.define table).keys, key.Distinct (store table)
  resolved : ∀ table, ∀ foreignKey ∈ (schema.define table).foreignKeys,
    ∀ row ∈ store table, foreignKey.Resolved store row

theorem sound_empty (schema : Schema Table Column Cell Environment) :
    Sound schema Store.empty := by
  constructor
  · intro table row hrow
    simp [Store.empty] at hrow
  · intro table key _
    exact List.Pairwise.nil
  · intro table foreignKey _ row hrow
    simp [Store.empty] at hrow

section Refusals

variable {row : Row Column Cell} {others : List (Row Column Cell)}

theorem ColumnDefinition.refusal_eq_none_iff
    {definition : ColumnDefinition Column Cell Environment} :
    (definition.refusal row : Option (Refusal Table Column)) = none ↔ definition.Accepts row := by
  unfold ColumnDefinition.refusal ColumnDefinition.Accepts
  cases row definition.column with
  | none => simp
  | some cell => simp

theorem Check.refusal_eq_none_iff {check : Check Column Cell} :
    (check.refusal row : Option (Refusal Table Column)) = none ↔ check.holds row := by
  simp [Check.refusal]

theorem Key.refusal_eq_none_iff [DecidableEq Cell] {key : Key Column} :
    (key.refusal others row : Option (Refusal Table Column)) = none ↔
      ∀ other ∈ others, ¬ key.Clash other row := by
  unfold Key.refusal Key.Clash
  cases h : project key.columns row with
  | none => simp
  | some cells => simp

theorem Definition.refusal_eq_none_iff [DecidableEq Cell]
    {definition : Definition Table Column Cell Environment} :
    definition.refusal others row = none ↔
      definition.Admits row ∧
        ∀ key ∈ definition.keys, ∀ other ∈ others, ¬ key.Clash other row := by
  unfold Definition.refusal
  rw [Option.or_eq_none_iff, Option.or_eq_none_iff]
  simp only [List.findSome?_eq_none_iff, ColumnDefinition.refusal_eq_none_iff,
    Check.refusal_eq_none_iff, Key.refusal_eq_none_iff]
  exact and_congr_left' ⟨fun h => ⟨h.1, h.2⟩, fun h => ⟨h.columns, h.checks⟩⟩

theorem Key.clash_one {name : String} {column : Column} {a b : Row Column Cell} :
    Key.Clash ⟨name, [column]⟩ a b ↔ ∃ cell, a column = some cell ∧ b column = some cell := by
  simp only [Key.Clash, project_cons_eq_some, project_nil_eq_some]
  constructor
  · rintro ⟨_, ⟨cell, _, ha, rfl, rfl⟩, ⟨other, _, hb, rfl, heq⟩⟩
    exact ⟨cell, ha, by simpa [List.cons.inj heq] using hb⟩
  · rintro ⟨cell, ha, hb⟩
    exact ⟨[cell], ⟨cell, [], ha, rfl, rfl⟩, ⟨cell, [], hb, rfl, rfl⟩⟩

theorem ForeignKey.resolved_one {name : String} {column key : Column} {references : Table}
    {store : Store Table Column Cell} {row : Row Column Cell} :
    ForeignKey.Resolved ⟨name, [column], references, [key]⟩ store row ↔
      ∀ cell, row column = some cell → ∃ target ∈ store references, target key = some cell := by
  simp only [ForeignKey.Resolved, project_cons_eq_some, project_nil_eq_some]
  constructor
  · intro h cell hcell
    obtain ⟨target, htarget, other, _, hother, rfl, heq⟩ := h [cell] ⟨cell, [], hcell, rfl, rfl⟩
    exact ⟨target, htarget, by simpa [List.cons.inj heq] using hother⟩
  · rintro h _ ⟨cell, _, hcell, rfl, rfl⟩
    obtain ⟨target, htarget, hkey⟩ := h cell hcell
    exact ⟨target, htarget, cell, [], hkey, rfl, rfl⟩

theorem ForeignKey.resolves_iff [DecidableEq Cell] {foreignKey : ForeignKey Table Column}
    {store : Store Table Column Cell} :
    foreignKey.resolves store row ↔ foreignKey.Resolved store row := by
  unfold ForeignKey.resolves ForeignKey.Resolved
  cases h : project foreignKey.columns row with
  | none => simp
  | some cells => simp

end Refusals

theorem Key.Distinct.replace {key : Key Column} {done rest : List (Row Column Cell)}
    {row other : Row Column Cell} (h : key.Distinct (done ++ row :: rest))
    (hother : ∀ kept ∈ done ++ rest, ¬ key.Clash kept other) :
    key.Distinct (done ++ other :: rest) := by
  unfold Key.Distinct at *
  rw [List.pairwise_append, List.pairwise_cons] at *
  obtain ⟨hdone, ⟨_, hrest⟩, hacross⟩ := h
  refine ⟨hdone, ⟨?_, hrest⟩, ?_⟩
  · intro kept hkept hclash
    exact hother kept (List.mem_append_right _ hkept) hclash.symm
  · intro kept hkept later hlater
    cases List.mem_cons.mp hlater with
    | inl heq =>
        rw [heq]
        exact hother kept (List.mem_append_left _ hkept)
    | inr hmem => exact hacross kept hkept later (List.mem_cons_of_mem _ hmem)

section Update

variable [DecidableEq Cell] {definition : Definition Table Column Cell Environment}
variable {selects : Row Column Cell → Bool} {set : Row Column Cell → Row Column Cell}

-- What an UPDATE that goes through leaves: every selected row in its new version, in its
-- place, and the table in order.
theorem updateRows_spec {done rest rows : List (Row Column Cell)}
    (h : updateRows definition selects set done rest = .ok rows)
    (hadmits : ∀ row ∈ done ++ rest, definition.Admits row)
    (hdistinct : ∀ key ∈ definition.keys, key.Distinct (done ++ rest)) :
    rows = done ++ rest.map (fun row => if selects row then set row else row) ∧
      (∀ row ∈ rows, definition.Admits row) ∧
        ∀ key ∈ definition.keys, key.Distinct rows := by
  induction rest generalizing done with
  | nil =>
      unfold updateRows at h
      cases h
      rw [List.append_nil] at hadmits hdistinct
      refine ⟨by simp, hadmits, hdistinct⟩
  | cons row rest ih =>
      unfold updateRows at h
      by_cases hselects : selects row
      · rw [if_pos hselects] at h
        cases hrefusal : definition.refusal (done ++ rest) (set row) with
        | some refusal => simp [hrefusal] at h
        | none =>
            simp only [hrefusal] at h
            obtain ⟨hset, hclash⟩ := Definition.refusal_eq_none_iff.mp hrefusal
            have hresult := ih h ?_ ?_
            · simpa [hselects] using hresult
            · intro kept hkept
              simp only [List.append_assoc, List.singleton_append, List.mem_append,
                List.mem_cons] at hkept
              rcases hkept with hkept | rfl | hkept
              · exact hadmits kept (by simp [hkept])
              · exact hset
              · exact hadmits kept (by simp [hkept])
            · intro key hkey
              rw [List.append_assoc, List.singleton_append]
              exact (hdistinct key hkey).replace (hclash key hkey)
      · rw [if_neg hselects] at h
        have hresult := ih h (by simpa using hadmits) (by simpa using hdistinct)
        simpa [hselects] using hresult

-- The row after an UPDATE, whether it was selected or not.
def updated (selects : Row Column Cell → Bool) (set : Row Column Cell → Row Column Cell)
    (row : Row Column Cell) : Row Column Cell :=
  if selects row then set row else row

-- New versions that a table admits and that keep their keys are all taken.
theorem updateRows_of {done rest : List (Row Column Cell)}
    (hadmits : ∀ row ∈ rest, selects row → definition.Admits (set row))
    (hkeys : ∀ key ∈ definition.keys, ∀ row ∈ rest, selects row →
      project key.columns (set row) = project key.columns row)
    (hdistinct : ∀ key ∈ definition.keys, key.Distinct (done ++ rest)) :
    updateRows definition selects set done rest = .ok (done ++ rest.map (updated selects set)) := by
  induction rest generalizing done with
  | nil => simp [updateRows]
  | cons row rest ih =>
      have hadmitsRest : ∀ later ∈ rest, selects later → definition.Admits (set later) :=
        fun later hlater => hadmits later (List.mem_cons_of_mem _ hlater)
      have hkeysRest : ∀ key ∈ definition.keys, ∀ later ∈ rest, selects later →
          project key.columns (set later) = project key.columns later :=
        fun key hkey later hlater => hkeys key hkey later (List.mem_cons_of_mem _ hlater)
      unfold updateRows
      by_cases hselects : selects row
      · have hsame : ∀ key ∈ definition.keys,
            project key.columns (set row) = project key.columns row :=
          fun key hkey => hkeys key hkey row List.mem_cons_self hselects
        have hclash : ∀ key ∈ definition.keys, ∀ other ∈ done ++ rest,
            ¬ key.Clash other (set row) := by
          intro key hkey other hother hclash
          unfold Key.Clash at hclash
          rw [hsame key hkey] at hclash
          have hpairs := hdistinct key hkey
          unfold Key.Distinct at hpairs
          rw [List.pairwise_append, List.pairwise_cons] at hpairs
          obtain ⟨_, ⟨hlater, _⟩, hacross⟩ := hpairs
          cases List.mem_append.mp hother with
          | inl hdone => exact hacross other hdone row List.mem_cons_self hclash
          | inr hrest => exact hlater other hrest (Key.Clash.symm hclash)
        have hrefusal : definition.refusal (done ++ rest) (set row) = none :=
          Definition.refusal_eq_none_iff.mpr ⟨hadmits row List.mem_cons_self hselects, hclash⟩
        rw [if_pos hselects, hrefusal]
        simp only
        rw [ih hadmitsRest hkeysRest]
        · simp [updated, hselects]
        · intro key hkey
          rw [List.append_assoc, List.singleton_append]
          exact (hdistinct key hkey).replace (hclash key hkey)
      · rw [if_neg hselects, ih hadmitsRest hkeysRest]
        · simp [updated, hselects]
        · simpa using hdistinct

end Update

section References

variable [DecidableEq Cell] {schema : Schema Table Column Cell Environment}
variable {store next : Store Table Column Cell} {table : Table}

theorem dangling_eq_none_iff {written : List (Row Column Cell)} :
    dangling schema next table written = none ↔
      ∀ foreignKey ∈ (schema.define table).foreignKeys, ∀ row ∈ written,
        foreignKey.Resolved next row := by
  unfold dangling
  rw [List.findSome?_eq_none_iff]
  refine forall₂_congr fun foreignKey _ => ?_
  by_cases h : written.all (foreignKey.resolves next)
  · simp only [h, if_true, true_iff]
    intro row hrow
    exact ForeignKey.resolves_iff.mp (List.all_eq_true.mp h row hrow)
  · simp only [h, if_false, reduceCtorEq, false_iff]
    intro hall
    apply h
    rw [List.all_eq_true]
    intro row hrow
    exact ForeignKey.resolves_iff.mpr (hall row hrow)

variable [DecidableEq Table]

-- A row whose reference was good before the statement, and that still stands after it.
theorem resolved_of_orphaned {removed : List (Row Column Cell)}
    (horphaned : orphaned schema next table removed = none)
    (hothers : ∀ other, other ≠ table → next other = store other)
    (hremoved : ∀ row ∈ store table, row ∈ removed ∨ row ∈ next table)
    {referring : Table} {foreignKey : ForeignKey Table Column}
    (hforeignKey : foreignKey ∈ (schema.define referring).foreignKeys)
    {row : Row Column Cell} (hrow : row ∈ next referring)
    (hresolved : foreignKey.Resolved store row) : foreignKey.Resolved next row := by
  intro cells hcells
  obtain ⟨target, htarget, hkey⟩ := hresolved cells hcells
  by_cases hreferences : foreignKey.references = table
  · rw [hreferences] at htarget ⊢
    cases hremoved target htarget with
    | inr hkept => exact ⟨target, hkept, hkey⟩
    | inl hgone =>
        unfold orphaned at horphaned
        rw [List.findSome?_eq_none_iff] at horphaned
        have hother := horphaned referring (schema.complete referring)
        rw [List.findSome?_eq_none_iff] at hother
        have hnone := hother foreignKey hforeignKey
        by_contra hnowhere
        simp only [ite_eq_right_iff, reduceCtorEq, imp_false] at hnone
        apply hnone
        refine ⟨hreferences, List.any_eq_true.mpr ⟨target, hgone, ?_⟩⟩
        have hgoneKey : ¬ (next table).any fun kept =>
            project foreignKey.key kept = project foreignKey.key target := by
          intro hany
          obtain ⟨kept, hkept, heq⟩ := List.any_eq_true.mp hany
          exact hnowhere ⟨kept, hkept, (of_decide_eq_true heq).trans hkey⟩
        have hrefers : (next referring).any fun referring =>
            (project foreignKey.columns referring).isSome ∧
              project foreignKey.columns referring = project foreignKey.key target :=
          List.any_eq_true.mpr ⟨row, hrow, by simp [hcells, hkey]⟩
        exact decide_eq_true ⟨hgoneKey, hrefers⟩
  · rw [hothers _ hreferences]
    exact ⟨target, htarget, hkey⟩

end References

theorem orRefuse_eq_ok {A : Type} {refusal : Option (Refusal Table Column)} {value result : A}
    (h : orRefuse refusal value = .ok result) : refusal = none ∧ value = result := by
  cases refusal with
  | none => exact ⟨rfl, Except.ok.inj h⟩
  | some refusal => simp [orRefuse] at h

section Execute

variable [DecidableEq Table] [DecidableEq Column] [DecidableEq Cell]
variable {schema : Schema Table Column Cell Environment}
variable {store next : Store Table Column Cell} {table : Table}

-- What a statement that goes through did to its table.
theorem execute_insert {values : Column → Option (Option Cell)} {environment : Environment}
    (h : execute schema store (.insert table values environment) = .ok next) :
    let row := (schema.define table).fill values environment
    next = Function.update store table (store table ++ [row]) ∧
      (schema.define table).Admits row ∧
      (∀ key ∈ (schema.define table).keys, ∀ other ∈ store table, ¬ key.Clash other row) ∧
      ∀ foreignKey ∈ (schema.define table).foreignKeys, foreignKey.Resolved next row := by
  unfold execute at h
  obtain ⟨_, hrefusal, h⟩ := Result.bind_eq_ok.mp h
  obtain ⟨hdangling, rfl⟩ := orRefuse_eq_ok h
  obtain ⟨hadmits, hclash⟩ := Definition.refusal_eq_none_iff.mp (orRefuse_eq_ok hrefusal).1
  refine ⟨rfl, hadmits, hclash, ?_⟩
  intro foreignKey hforeignKey
  exact dangling_eq_none_iff.mp hdangling foreignKey hforeignKey _ (List.mem_singleton_self _)

-- A row that meets every constraint is inserted.
theorem execute_insert_of {values : Column → Option (Option Cell)} {environment : Environment}
    {row : Row Column Cell} (hrow : (schema.define table).fill values environment = row)
    (hadmits : (schema.define table).Admits row)
    (hclash : ∀ key ∈ (schema.define table).keys, ∀ other ∈ store table, ¬ key.Clash other row)
    (hresolved : ∀ foreignKey ∈ (schema.define table).foreignKeys,
      foreignKey.Resolved (Function.update store table (store table ++ [row])) row) :
    execute schema store (.insert table values environment) =
      .ok (Function.update store table (store table ++ [row])) := by
  have hrefusal : (schema.define table).refusal (store table) row = none :=
    Definition.refusal_eq_none_iff.mpr ⟨hadmits, hclash⟩
  have hdangling : dangling schema (Function.update store table (store table ++ [row])) table [row] =
      none := by
    rw [dangling_eq_none_iff]
    intro foreignKey hforeignKey written hwritten
    rw [List.mem_singleton.mp hwritten]
    exact hresolved foreignKey hforeignKey
  unfold execute
  simp only [hrow, hrefusal, hdangling]
  rfl

-- A constraint of the tables, and neither a privilege nor a value that its column does not take.
def Refusal.OfConstraint : Refusal Table Column → Prop
  | .checkViolation _ => True
  | .uniqueViolation _ => True
  | .foreignKeyViolation _ => True
  | _ => False

-- Where the columns take the row, only a constraint refuses it.
theorem ofConstraint_of_execute_insert {values : Column → Option (Option Cell)}
    {environment : Environment} {row : Row Column Cell}
    (hrow : (schema.define table).fill values environment = row)
    (hcolumns : ∀ column ∈ (schema.define table).columns, column.Accepts row)
    {refusal : Refusal Table Column}
    (h : execute schema store (.insert table values environment) = .error refusal) :
    refusal.OfConstraint := by
  have hnone : ((schema.define table).columns.findSome? fun column =>
      (column.refusal row : Option (Refusal Table Column))) = none := by
    rw [List.findSome?_eq_none_iff]
    intro column hcolumn
    exact ColumnDefinition.refusal_eq_none_iff.mpr (hcolumns column hcolumn)
  unfold execute at h
  simp only [hrow] at h
  cases hrefused : (schema.define table).refusal (store table) row with
  | some found =>
      simp only [hrefused] at h
      obtain rfl : found = refusal := Except.error.inj h
      unfold Definition.refusal at hrefused
      rw [hnone, Option.none_or, Option.or_eq_some_iff] at hrefused
      rcases hrefused with hcheck | ⟨_, hkey⟩
      · obtain ⟨check, _, hfound⟩ := List.exists_of_findSome?_eq_some hcheck
        unfold Check.refusal at hfound
        split_ifs at hfound
        cases hfound
        trivial
      · obtain ⟨key, _, hfound⟩ := List.exists_of_findSome?_eq_some hkey
        unfold Key.refusal at hfound
        split at hfound
        · cases hfound
        · split_ifs at hfound
          cases hfound
          trivial
  | none =>
      simp only [hrefused] at h
      change orRefuse (dangling schema _ table [row]) _ = _ at h
      cases hdangling : dangling schema
          (Function.update store table (store table ++ [row])) table [row] with
      | none =>
          rw [hdangling] at h
          cases h
      | some found =>
          rw [hdangling] at h
          obtain rfl : found = refusal := Except.error.inj h
          obtain ⟨foreignKey, _, hfound⟩ := List.exists_of_findSome?_eq_some hdangling
          split_ifs at hfound
          cases hfound
          trivial

theorem execute_update {selects : Row Column Cell → Bool}
    {set : Row Column Cell → Row Column Cell}
    (h : execute schema store (.update table selects set) = .ok next) :
    ∃ rows, updateRows (schema.define table) selects set [] (store table) = .ok rows ∧
      next = Function.update store table rows ∧
      dangling schema next table (((store table).filter selects).map set) = none ∧
      orphaned schema next table ((store table).filter selects) = none := by
  unfold execute at h
  obtain ⟨rows, hrows, h⟩ := Result.bind_eq_ok.mp h
  obtain ⟨_, hdangling, h⟩ := Result.bind_eq_ok.mp h
  obtain ⟨horphaned, rfl⟩ := orRefuse_eq_ok h
  exact ⟨rows, hrows, rfl, (orRefuse_eq_ok hdangling).1, horphaned⟩

-- An UPDATE that leaves every key and every reference of its rows as they are goes through.
theorem execute_update_of {selects : Row Column Cell → Bool}
    {set : Row Column Cell → Row Column Cell} (hsound : Sound schema store)
    (hadmits : ∀ row ∈ store table, selects row → (schema.define table).Admits (set row))
    (hkeys : ∀ key ∈ (schema.define table).keys, ∀ row ∈ store table, selects row →
      project key.columns (set row) = project key.columns row)
    (hforeign : ∀ foreignKey ∈ (schema.define table).foreignKeys, ∀ row ∈ store table,
      selects row → project foreignKey.columns (set row) = project foreignKey.columns row) :
    execute schema store (.update table selects set) =
      .ok (Function.update store table ((store table).map (updated selects set))) := by
  have hrows : updateRows (schema.define table) selects set [] (store table) =
      .ok ((store table).map (updated selects set)) :=
    updateRows_of hadmits hkeys (by simpa using hsound.distinct table)
  -- what a foreign key references is a key, so every row is still found under its own
  have hkept : ∀ referring, ∀ foreignKey ∈ (schema.define referring).foreignKeys,
      foreignKey.references = table → ∀ row ∈ store table,
        project foreignKey.key (updated selects set row) = project foreignKey.key row := by
    intro referring foreignKey hforeignKey hreferences row hrow
    obtain ⟨key, hkey, hcolumns⟩ := schema.references_key referring foreignKey hforeignKey
    rw [hreferences] at hkey
    unfold updated
    by_cases hselects : selects row
    · rw [if_pos hselects, ← hcolumns, hkeys key hkey row hrow hselects]
    · rw [if_neg hselects]
  have hdangling : dangling schema
      (Function.update store table ((store table).map (updated selects set))) table
      (((store table).filter selects).map set) = none := by
    rw [dangling_eq_none_iff]
    intro foreignKey hforeignKey written hwritten cells hcells
    obtain ⟨row, hrow, rfl⟩ := List.mem_map.mp hwritten
    obtain ⟨hrow, hselects⟩ := List.mem_filter.mp hrow
    rw [hforeign foreignKey hforeignKey row hrow hselects] at hcells
    obtain ⟨target, htarget, hkey⟩ :=
      hsound.resolved table foreignKey hforeignKey row hrow cells hcells
    by_cases hreferences : foreignKey.references = table
    · rw [hreferences] at htarget ⊢
      rw [Function.update_self]
      refine ⟨updated selects set target, List.mem_map_of_mem htarget, ?_⟩
      rw [hkept table foreignKey hforeignKey hreferences target htarget, hkey]
    · rw [Function.update_of_ne hreferences]
      exact ⟨target, htarget, hkey⟩
  have horphaned : orphaned schema
      (Function.update store table ((store table).map (updated selects set))) table
      ((store table).filter selects) = none := by
    unfold orphaned
    rw [List.findSome?_eq_none_iff]
    intro referring _
    rw [List.findSome?_eq_none_iff]
    intro foreignKey hforeignKey
    simp only [ite_eq_right_iff, reduceCtorEq, imp_false]
    intro hgone
    obtain ⟨hreferences, hany⟩ := hgone
    obtain ⟨row, hrow, hmissing⟩ := List.any_eq_true.mp hany
    have hstored : row ∈ store table := (List.mem_filter.mp hrow).1
    apply (of_decide_eq_true hmissing).1
    rw [Function.update_self, List.any_eq_true]
    refine ⟨updated selects set row, List.mem_map_of_mem hstored, decide_eq_true ?_⟩
    exact hkept referring foreignKey hforeignKey hreferences row hstored
  unfold execute
  simp only [hrows]
  change Except.bind _ _ = _
  simp only [Except.bind, hdangling, horphaned]
  rfl

theorem execute_delete {selects : Row Column Cell → Bool}
    (h : execute schema store (.delete table selects) = .ok next) :
    next = Function.update store table ((store table).filter fun row => ¬ selects row) ∧
      orphaned schema next table ((store table).filter selects) = none := by
  unfold execute at h
  obtain ⟨horphaned, rfl⟩ := orRefuse_eq_ok h
  exact ⟨rfl, horphaned⟩

end Execute

end TrustlistCore.Library.Relational
