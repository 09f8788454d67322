import TrustlistCore.Library.Members

namespace TrustlistCore.Library

variable {K : Type} {less : K → K → Bool}

-- Among these keys the comparison is an order.
structure Orders (less : K → K → Bool) (keys : List K) : Prop where
  asymm : ∀ a ∈ keys, ∀ b ∈ keys, less a b = true → less b a = false
  trans : ∀ a ∈ keys, ∀ b ∈ keys, ∀ c ∈ keys, less b a = false → less c b = false → less c a = false

theorem Orders.of_rank {L : Type} [LinearOrder L] {rank : K → L} {keys : List K}
    (h : ∀ a ∈ keys, ∀ b ∈ keys, less a b = true ↔ rank a < rank b) : Orders less keys where
  asymm a ha b hb hab := by
    rw [← Bool.not_eq_true, h b hb a ha]
    exact ((h a ha b hb).mp hab).not_gt
  trans a ha b hb c hc hba hcb := by
    rw [← Bool.not_eq_true, h b hb a ha, not_lt] at hba
    rw [← Bool.not_eq_true, h c hc b hb, not_lt] at hcb
    rw [← Bool.not_eq_true, h c hc a ha, not_lt]
    exact hba.trans hcb

variable (K less) in
-- What is known of a routine that sorts by a comparison of the keys: it looks at nothing else,
-- and puts them in order where the comparison is one.
structure Sorting where
  sort : {V : Type} → List (K × V) → List (K × V)
  perm : ∀ {V : Type} (members : List (K × V)), (sort members).Perm members
  mapValues : ∀ {V W : Type} (g : V → W) (members : List (K × V)),
    sort (members.map fun member => (member.1, g member.2)) =
      (sort members).map fun member => (member.1, g member.2)
  ordered : ∀ {V : Type} (members : List (K × V)), Orders less (Members.keys members) →
    (sort members).Pairwise fun a b => less b.1 a.1 = false

section Insertion

variable {A : Type} {r : A → A → Prop} [DecidableRel r]

theorem pairwise_orderedInsert_of {a : A} {l : List A} (hl : l.Pairwise r)
    (htotal : ∀ b ∈ l, r a b ∨ r b a) (htrans : ∀ b ∈ l, ∀ c ∈ l, r a b → r b c → r a c) :
    (l.orderedInsert r a).Pairwise r := by
  induction l with
  | nil => exact List.pairwise_singleton r a
  | cons b l ih =>
      obtain ⟨hb, hrest⟩ := List.pairwise_cons.mp hl
      rw [List.orderedInsert]
      by_cases hab : r a b
      · rw [if_pos hab]
        refine List.pairwise_cons.mpr ⟨fun c hc => ?_, hl⟩
        rcases List.mem_cons.mp hc with rfl | hc
        · exact hab
        · exact htrans b List.mem_cons_self c (List.mem_cons_of_mem _ hc) hab (hb c hc)
      · rw [if_neg hab]
        have hba := (htotal b List.mem_cons_self).resolve_left hab
        refine List.pairwise_cons.mpr ⟨fun c hc => ?_, ih hrest
          (fun c hc => htotal c (List.mem_cons_of_mem _ hc))
          fun c hc d hd => htrans c (List.mem_cons_of_mem _ hc) d (List.mem_cons_of_mem _ hd)⟩
        rcases (List.mem_orderedInsert r).mp hc with rfl | hc
        · exact hba
        · exact hb c hc

-- A list is sorted by what is an order among its own elements.
theorem pairwise_insertionSort_of {l : List A} (htotal : ∀ a ∈ l, ∀ b ∈ l, r a b ∨ r b a)
    (htrans : ∀ a ∈ l, ∀ b ∈ l, ∀ c ∈ l, r a b → r b c → r a c) :
    (l.insertionSort r).Pairwise r := by
  induction l with
  | nil => exact List.Pairwise.nil
  | cons a l ih =>
      have hmem {b : A} (hb : b ∈ l.insertionSort r) : b ∈ a :: l :=
        List.mem_cons_of_mem a ((List.perm_insertionSort r l).mem_iff.mp hb)
      have hself : a ∈ a :: l := List.mem_cons_self
      refine pairwise_orderedInsert_of
        (ih (fun b hb c hc => htotal b (List.mem_cons_of_mem a hb) c (List.mem_cons_of_mem a hc))
          fun b hb c hc d hd => htrans b (List.mem_cons_of_mem a hb) c (List.mem_cons_of_mem a hc)
            d (List.mem_cons_of_mem a hd))
        (fun b hb => htotal a hself b (hmem hb))
        fun b hb c hc => htrans a hself b (hmem hb) c (hmem hc)

end Insertion

namespace Sorting

-- One such routine.
def insertion : Sorting K less where
  sort members := members.insertionSort fun a b => less b.1 a.1 = false
  perm _ := List.perm_insertionSort _ _
  mapValues g members := by
    symm
    apply List.map_insertionSort
    exact fun _ _ _ _ => Iff.rfl
  ordered members h := by
    have hkey {a : K × _} (ha : a ∈ members) : a.1 ∈ Members.keys members :=
      List.mem_map_of_mem ha
    refine pairwise_insertionSort_of (fun a ha b hb => ?_) fun a ha b hb c hc =>
      h.trans a.1 (hkey ha) b.1 (hkey hb) c.1 (hkey hc)
    by_cases hab : less b.1 a.1 = false
    · exact Or.inl hab
    · exact Or.inr (h.asymm b.1 (hkey hb) a.1 (hkey ha) (Bool.eq_true_of_not_eq_false hab))

variable {sorting : Sorting K less}

-- Keys that come from a linear order are put in the one order they have.
theorem sort_map {L V : Type} [LinearOrder L] {f : L → K}
    (hless : ∀ a b, less (f a) (f b) = true ↔ a < b) {members : List (L × V)}
    (h : (Members.keys members).Nodup) :
    sorting.sort (members.map fun member => (f member.1, member.2)) =
      (Members.sorted members).map fun member => (f member.1, member.2) := by
  have hkeys : Members.keys (members.map fun member => (f member.1, member.2)) =
      (Members.keys members).map f := Members.keys_map f id members
  have hfalse (a b : L) : less (f a) (f b) = false ↔ b ≤ a := by
    rw [← Bool.not_eq_true, hless, not_lt]
  have horders : Orders less
      (Members.keys (members.map fun member => (f member.1, member.2))) := by
    rw [hkeys]
    constructor
    · simp only [List.forall_mem_map, hless, hfalse]
      exact fun a _ b _ hab => hab.le
    · simp only [List.forall_mem_map, hfalse]
      exact fun a _ b _ c _ hab hbc => hab.trans hbc
  have hpairs := sorting.ordered _ horders
  obtain ⟨others, hperm, hothers⟩ := Members.exists_perm_of_map
    (sorting.perm (members.map fun member => (f member.1, member.2)))
  rw [hothers, List.pairwise_map] at hpairs
  simp only [hfalse] at hpairs
  rw [hothers, Members.eq_sorted h hperm hpairs]

-- Among keys that can all be told apart, sorted neighbours stand for all pairs.
theorem pairwise_sort_iff {V : Type} {R : K → K → Prop} {members : List (K × V)}
    (horders : Orders less (Members.keys members))
    (hapart : members.Pairwise fun a b => less a.1 b.1 = true ∨ less b.1 a.1 = true) :
    (sorting.sort members).Pairwise (fun a b => R a.1 b.1) ↔
      ∀ a ∈ Members.keys members, ∀ b ∈ Members.keys members, less a b = true → R a b := by
  have hordered := sorting.ordered members horders
  have hmem {a : K × V} : a ∈ sorting.sort members ↔ a ∈ members :=
    (sorting.perm members).mem_iff
  constructor
  · intro h a ha b hb hless
    obtain ⟨v, hv⟩ := Members.mem_keys.mp ha
    obtain ⟨w, hw⟩ := Members.mem_keys.mp hb
    have hboth : (sorting.sort members).Pairwise fun a b =>
        (less a.1 b.1 = true → R a.1 b.1) ∧ (less b.1 a.1 = true → R b.1 a.1) :=
      (h.and hordered).imp fun hab =>
        ⟨fun _ => hab.1, fun hba => absurd (hab.2.symm.trans hba) Bool.false_ne_true⟩
    have hself : ∀ a ∈ sorting.sort members,
        (less a.1 a.1 = true → R a.1 a.1) ∧ (less a.1 a.1 = true → R a.1 a.1) := by
      intro a ha
      have hkey : a.1 ∈ Members.keys members := List.mem_map_of_mem (hmem.mp ha)
      have hfalse (hless : less a.1 a.1 = true) : R a.1 a.1 :=
        absurd ((horders.asymm a.1 hkey a.1 hkey hless).symm.trans hless) Bool.false_ne_true
      exact ⟨hfalse, hfalse⟩
    exact (List.Pairwise.forall_of_forall_of_flip hself hboth
      (hboth.imp fun hab => ⟨hab.2, hab.1⟩) (hmem.mpr hv) (hmem.mpr hw)).1 hless
  · intro h
    have happart : (sorting.sort members).Pairwise fun a b =>
        less a.1 b.1 = true ∨ less b.1 a.1 = true :=
      ((sorting.perm members).pairwise_iff fun hab => hab.symm).mpr hapart
    refine (hordered.and happart).imp_of_mem fun {a b} ha hb hab => ?_
    refine h a.1 (List.mem_map_of_mem (hmem.mp ha)) b.1 (List.mem_map_of_mem (hmem.mp hb)) ?_
    exact hab.2.resolve_right fun hba => Bool.false_ne_true (hab.1.symm.trans hba)

end Sorting

end TrustlistCore.Library
