import Mathlib.Data.List.Forall2

namespace TrustlistCore.Library

section Pointwise

variable {A B C D : Type} {R : A → B → Prop} {as : List A} {bs : List B}

-- Two lists whose elements are related one by one.

theorem exists_left (h : List.Forall₂ R as bs) {a : A} (ha : a ∈ as) : ∃ b ∈ bs, R a b := by
  induction h with
  | nil => cases ha
  | @cons first other as bs hfirst _ ih =>
      cases List.mem_cons.mp ha with
      | inl heq => exact ⟨other, List.mem_cons_self, heq ▸ hfirst⟩
      | inr hmem =>
          obtain ⟨b, hb, hab⟩ := ih hmem
          exact ⟨b, List.mem_cons_of_mem _ hb, hab⟩

theorem exists_right (h : List.Forall₂ R as bs) {b : B} (hb : b ∈ bs) : ∃ a ∈ as, R a b := by
  obtain ⟨a, ha, hab⟩ := exists_left h.flip hb
  exact ⟨a, ha, hab⟩

theorem forall₂_iff_of_mem {S : A → B → Prop} (h : ∀ a ∈ as, ∀ b ∈ bs, R a b ↔ S a b) :
    List.Forall₂ R as bs ↔ List.Forall₂ S as bs := by
  induction as generalizing bs with
  | nil =>
      cases bs with
      | nil => exact iff_of_true .nil .nil
      | cons b bs => exact iff_of_false (fun h => by cases h) fun h => by cases h
  | cons a as ih =>
      cases bs with
      | nil => exact iff_of_false (fun h => by cases h) fun h => by cases h
      | cons b bs =>
          rw [List.forall₂_cons, List.forall₂_cons, h a List.mem_cons_self b List.mem_cons_self]
          have hrest := ih fun x hx y hy =>
            h x (List.mem_cons_of_mem _ hx) y (List.mem_cons_of_mem _ hy)
          rw [hrest]

theorem any_congr {p : A → Bool} {q : B → Bool} (h : List.Forall₂ R as bs)
    (hsame : ∀ a b, R a b → p a = q b) : as.any p = bs.any q := by
  induction h with
  | nil => rfl
  | cons hfirst _ ih => rw [List.any_cons, List.any_cons, hsame _ _ hfirst, ih]

theorem countP_congr {p : A → Bool} {q : B → Bool} (h : List.Forall₂ R as bs)
    (hsame : ∀ a b, R a b → p a = q b) : as.countP p = bs.countP q := by
  induction h with
  | nil => rfl
  | cons hfirst _ ih => rw [List.countP_cons, List.countP_cons, hsame _ _ hfirst, ih]

theorem pairwise_congr {P : A → A → Prop} {Q : B → B → Prop} (h : List.Forall₂ R as bs)
    (hsame : ∀ a b a' b', R a b → R a' b' → P a a' → Q b b') (hpairs : as.Pairwise P) :
    bs.Pairwise Q := by
  induction h with
  | nil => exact .nil
  | @cons a b as bs hfirst hrest ih =>
      obtain ⟨hhead, htail⟩ := List.pairwise_cons.mp hpairs
      refine List.pairwise_cons.mpr ⟨?_, ih htail⟩
      intro b' hb'
      obtain ⟨a', ha', hrelated⟩ := exists_right hrest hb'
      exact hsame a b a' b' hfirst hrelated (hhead a' ha')

theorem filterMap_filter_eq {p : A → Bool} {q : B → Bool} {f : A → Option C} {g : B → C}
    (h : List.Forall₂ R as bs) (hsame : ∀ a b, R a b → p a = q b)
    (hread : ∀ a b, R a b → f a = some (g b)) :
    (as.filter p).filterMap f = (bs.filter q).map g := by
  induction h with
  | nil => rfl
  | @cons a b as bs hfirst _ ih =>
      have hpq := hsame a b hfirst
      by_cases hselected : q b = true
      · rw [List.filter_cons_of_pos (hpq.trans hselected), List.filter_cons_of_pos hselected,
          List.filterMap_cons_some (hread a b hfirst), List.map_cons, ih]
      · rw [List.filter_cons_of_neg (by rwa [hpq]), List.filter_cons_of_neg hselected, ih]

theorem forall₂_through {S : B → C → Prop} {Q : D → C → Prop} {cs : List C} {ds : List D}
    (hr : List.Forall₂ R as bs) (hs : List.Forall₂ S bs cs) (hq : List.Forall₂ Q ds cs) :
    List.Forall₂ (fun a d => ∃ b c, R a b ∧ S b c ∧ Q d c) as ds := by
  induction hr generalizing cs ds with
  | nil =>
      cases hs
      cases hq
      exact .nil
  | cons hfirst _ ih =>
      cases hs with
      | cons hmiddle hrest =>
          cases hq with
          | cons hlast hothers => exact .cons ⟨_, _, hfirst, hmiddle, hlast⟩ (ih hrest hothers)

end Pointwise

end TrustlistCore.Library
