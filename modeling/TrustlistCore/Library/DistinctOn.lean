import Mathlib.Data.List.Sort

namespace TrustlistCore.Library.DistinctOn

variable {α κ ρ : Type} [LinearOrder κ] [LinearOrder ρ] (key : α → κ) (rank : α → ρ)

-- The first row of every run of equal keys, after a row with the key `last`.
def firsts (last : Option κ) : List α → List α
  | [] => []
  | row :: rest =>
      if some (key row) = last then firsts last rest
      else row :: firsts (some (key row)) rest

def distinctOn (rows : List α) : List α :=
  firsts key none rows

-- In the order of the keys, and within one key from the highest rank down.
def Ranked (rows : List α) : Prop :=
  rows.Pairwise fun a b => key a < key b ∨ key a = key b ∧ rank b < rank a

theorem firsts_sublist (last : Option κ) (rows : List α) : (firsts key last rows).Sublist rows := by
  induction rows generalizing last with
  | nil => exact List.Sublist.slnil
  | cons row rest ih =>
      rw [firsts]
      split
      · exact (ih last).cons row
      · exact (ih _).cons_cons row

-- No key is lost, whatever the order of the rows is.
theorem key_mem_firsts {last : Option κ} {rows : List α} {row : α} (hrow : row ∈ rows)
    (hlast : some (key row) ≠ last) : ∃ kept ∈ firsts key last rows, key kept = key row := by
  induction rows generalizing last with
  | nil => simp at hrow
  | cons first rest ih =>
      rw [firsts]
      by_cases hfirst : some (key first) = last
      · rw [if_pos hfirst]
        rcases List.mem_cons.mp hrow with rfl | hrest
        · exact absurd hfirst hlast
        · exact ih hrest hlast
      · rw [if_neg hfirst]
        by_cases hsame : key first = key row
        · exact ⟨first, List.mem_cons_self, hsame⟩
        · have hrest : row ∈ rest := by
            apply (List.mem_cons.mp hrow).resolve_left
            rintro rfl
            exact hsame rfl
          have hnext : some (key row) ≠ some (key first) := by
            intro heq
            exact hsame (Option.some.inj heq).symm
          obtain ⟨kept, hkept, hkey⟩ := ih hrest hnext
          exact ⟨kept, List.mem_cons_of_mem _ hkept, hkey⟩

variable {key rank}

theorem mem_firsts_iff {rows : List α} (hranked : Ranked key rank rows) {last : Option κ}
    (hlast : ∀ kept ∈ last, ∀ row ∈ rows, kept ≤ key row) (a : α) :
    a ∈ firsts key last rows ↔
      a ∈ rows ∧ some (key a) ≠ last ∧ ∀ b ∈ rows, key b = key a → rank b ≤ rank a := by
  induction rows generalizing last with
  | nil => simp [firsts]
  | cons row rest ih =>
      obtain ⟨hrow, hrest⟩ := List.pairwise_cons.mp hranked
      rw [firsts]
      by_cases hsame : some (key row) = last
      · rw [if_pos hsame, ih hrest fun kept hkept b hb =>
          hlast kept hkept b (List.mem_cons_of_mem _ hb)]
        constructor
        · rintro ⟨ha, hother, htop⟩
          refine ⟨List.mem_cons_of_mem _ ha, hother, ?_⟩
          intro b hb hkey
          rcases List.mem_cons.mp hb with rfl | hb
          · exact absurd (hkey ▸ hsame) hother
          · exact htop b hb hkey
        · rintro ⟨ha, hother, htop⟩
          refine ⟨(List.mem_cons.mp ha).resolve_left ?_, hother, ?_⟩
          · rintro rfl
            exact hother hsame
          · exact fun b hb => htop b (List.mem_cons_of_mem _ hb)
      · have hfrom : ∀ kept ∈ some (key row), ∀ b ∈ rest, kept ≤ key b := by
          rintro _ ⟨⟩ b hb
          rcases hrow b hb with hlt | ⟨heq, -⟩
          · exact hlt.le
          · exact heq.le
        rw [if_neg hsame, List.mem_cons, ih hrest hfrom]
        constructor
        · rintro (rfl | ⟨ha, hother, htop⟩)
          · refine ⟨List.mem_cons_self, hsame, ?_⟩
            intro b hb hkey
            rcases List.mem_cons.mp hb with rfl | hb
            · exact le_rfl
            · rcases hrow b hb with hlt | ⟨-, hlt⟩
              · exact absurd hkey hlt.ne'
              · exact hlt.le
          · refine ⟨List.mem_cons_of_mem _ ha, ?_, ?_⟩
            · -- the key of `row` lies strictly between
              rintro rfl
              have hle := hlast (key a) rfl row List.mem_cons_self
              have hge := hfrom (key row) rfl a ha
              exact hother (congrArg some (le_antisymm hle hge))
            · intro b hb hkey
              rcases List.mem_cons.mp hb with rfl | hb
              · exact absurd (congrArg some hkey.symm) hother
              · exact htop b hb hkey
        · rintro ⟨ha, hother, htop⟩
          rcases List.mem_cons.mp ha with rfl | ha
          · exact .inl rfl
          · right
            refine ⟨ha, ?_, fun b hb => htop b (List.mem_cons_of_mem _ hb)⟩
            intro heq
            have hkey : key row = key a := (Option.some.inj heq).symm
            rcases hrow a ha with hlt | ⟨-, hlt⟩
            · exact hlt.ne hkey
            · exact absurd (htop row List.mem_cons_self hkey) hlt.not_ge

-- Of ranked rows exactly the highest of every key is kept.
theorem mem_distinctOn_iff {rows : List α} (hranked : Ranked key rank rows) (a : α) :
    a ∈ distinctOn key rows ↔ a ∈ rows ∧ ∀ b ∈ rows, key b = key a → rank b ≤ rank a := by
  rw [distinctOn, mem_firsts_iff hranked (by simp)]
  simp

theorem mem_keys_distinctOn_iff {rows : List α} (value : κ) :
    value ∈ (distinctOn key rows).map key ↔ value ∈ rows.map key := by
  constructor
  · intro h
    exact ((firsts_sublist key none rows).map key).mem h
  · intro h
    obtain ⟨row, hrow, rfl⟩ := List.mem_map.mp h
    obtain ⟨kept, hkept, hkey⟩ := key_mem_firsts key hrow (by simp : some (key row) ≠ none)
    exact List.mem_map.mpr ⟨kept, hkept, hkey⟩

theorem pairwise_distinctOn {rows : List α} (hranked : Ranked key rank rows) :
    (distinctOn key rows).Pairwise fun a b => key a < key b := by
  have hsub : (distinctOn key rows).Sublist rows := firsts_sublist key none rows
  refine (List.Pairwise.sublist hsub hranked).imp_of_mem ?_
  intro a b ha hb hab
  rcases hab with hlt | ⟨heq, hlt⟩
  · exact hlt
  · have htop := ((mem_distinctOn_iff hranked b).mp hb).2 a (hsub.mem ha) heq
    exact absurd htop hlt.not_ge

theorem nodup_keys_distinctOn {rows : List α} (hranked : Ranked key rank rows) :
    ((distinctOn key rows).map key).Nodup := by
  unfold List.Nodup
  rw [List.pairwise_map]
  exact (pairwise_distinctOn hranked).imp fun hlt => hlt.ne

-- Lists in the order of the keys are told apart by their rows alone.
theorem eq_of_mem_iff {rows others : List α}
    (hrows : rows.Pairwise fun a b => key a < key b)
    (hothers : others.Pairwise fun a b => key a < key b)
    (hmem : ∀ a, a ∈ rows ↔ a ∈ others) : rows = others := by
  have hnodup {l : List α} (h : l.Pairwise fun a b => key a < key b) : l.Nodup :=
    h.imp fun hlt heq => hlt.ne (congrArg key heq)
  have hperm := (List.perm_ext_iff_of_nodup (hnodup hrows) (hnodup hothers)).mpr hmem
  exact hperm.eq_of_pairwise (fun a b _ _ hab hba => absurd hab hba.not_gt) hrows hothers

end TrustlistCore.Library.DistinctOn
