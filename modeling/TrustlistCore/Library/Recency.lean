import Mathlib.Data.Finset.Card
import Mathlib.Data.List.Dedup

namespace TrustlistCore.Library.Recency

section Evict

variable {K : Type}

-- Drop the oldest entries until at most `capacity` are left.
def evict (capacity : Nat) : List K → List K
  | [] => []
  | oldest :: rest =>
      if capacity < (oldest :: rest).length then evict capacity rest else oldest :: rest

theorem evict_eq_drop (capacity : Nat) (keys : List K) :
    evict capacity keys = keys.drop (keys.length - capacity) := by
  induction keys with
  | nil => rw [List.drop_nil, evict]
  | cons oldest rest ih =>
      unfold evict
      split
      · rename_i hlong
        rw [ih, List.length_cons]
        rw [List.length_cons] at hlong
        have hsucc : rest.length + 1 - capacity = rest.length - capacity + 1 := by omega
        rw [hsucc, List.drop_succ_cons]
      · rename_i hshort
        have hzero : (oldest :: rest).length - capacity = 0 := by omega
        rw [hzero, List.drop_zero]

theorem evict_of_length_le {capacity : Nat} {keys : List K} (h : keys.length ≤ capacity) :
    evict capacity keys = keys := by
  rw [evict_eq_drop, Nat.sub_eq_zero_of_le h, List.drop_zero]

end Evict

-- A capacity that is accepted holds a key, and nothing fits in it.
theorem one_le_toNat {capacity : Int} (h : ¬ capacity < 1) : 1 ≤ capacity.toNat := by
  omega

theorem length_nil_le (K : Type) (capacity : Int) : ([] : List K).length ≤ capacity.toNat :=
  Nat.zero_le _

variable {K : Type} [DecidableEq K]

-- Use a key: it becomes the youngest entry of the list, oldest first.
def touch (capacity : Nat) (keys : List K) (key : K) : List K :=
  evict capacity (keys.erase key ++ [key])

theorem nodup_erase_append {keys : List K} (h : keys.Nodup) (key : K) :
    (keys.erase key ++ [key]).Nodup := by
  apply (h.erase key).append (List.nodup_singleton key)
  rw [List.disjoint_singleton]
  exact h.not_mem_erase

theorem touch_nodup (capacity : Nat) {keys : List K} (h : keys.Nodup) (key : K) :
    (touch capacity keys key).Nodup := by
  unfold touch
  rw [evict_eq_drop]
  exact (nodup_erase_append h key).sublist (List.drop_sublist _ _)

theorem touch_length_le (capacity : Nat) (keys : List K) (key : K) :
    (touch capacity keys key).length ≤ capacity := by
  unfold touch
  rw [evict_eq_drop, List.length_drop]
  omega

theorem mem_touch_of {capacity : Nat} {keys : List K} {key other : K}
    (h : other ∈ touch capacity keys key) : other = key ∨ other ∈ keys := by
  unfold touch at h
  rw [evict_eq_drop] at h
  have hmem := List.mem_of_mem_drop h
  rw [List.mem_append, List.mem_singleton] at hmem
  exact hmem.symm.imp id List.mem_of_mem_erase

-- A key of a store that is within its capacity is refreshed without an eviction.
theorem touch_of_mem {capacity : Nat} {keys : List K} (hlen : keys.length ≤ capacity) {key : K}
    (h : key ∈ keys) : touch capacity keys key = keys.erase key ++ [key] := by
  unfold touch
  apply evict_of_length_le
  have hpos : 0 < keys.length := List.length_pos_of_mem h
  rw [List.length_append, List.length_erase_of_mem h, List.length_singleton]
  omega

-- What is known about a key that was used, when `since` are the uses after it: it is
-- still there and younger keys are among them, or they are enough to have evicted it.
def Aged (capacity : Nat) (key : K) (keys since : List K) : Prop :=
  (∃ older younger, keys = older ++ key :: younger ∧ ∀ other ∈ younger, other ∈ since) ∨
    capacity ≤ (since.toFinset.erase key).card

theorem aged_touch_self {capacity : Nat} (hpos : 0 < capacity) (key : K) (keys : List K) :
    Aged capacity key (touch capacity keys key) [] := by
  left
  unfold touch
  rw [evict_eq_drop]
  refine ⟨(keys.erase key).drop ((keys.erase key ++ [key]).length - capacity), [], ?_, by simp⟩
  apply List.drop_append_of_le_length
  rw [List.length_append, List.length_singleton]
  omega

-- Removing another key does not make anything younger than `key`.
theorem erase_split {key other : K} (hne : other ≠ key) (older younger : List K) :
    ∃ older' younger', (older ++ key :: younger).erase other = older' ++ key :: younger' ∧
      ∀ candidate ∈ younger', candidate ∈ younger := by
  by_cases ho : other ∈ older
  · exact ⟨older.erase other, younger, List.erase_append_left _ ho, fun _ h => h⟩
  · refine ⟨older, younger.erase other, ?_, fun _ h => List.mem_of_mem_erase h⟩
    rw [List.erase_append_right _ ho, List.erase_cons_tail (by simpa using hne.symm)]

theorem aged_touch {capacity : Nat} {key : K} {keys since : List K} (hnodup : keys.Nodup)
    (haged : Aged capacity key keys since) {other : K} (hne : other ≠ key) :
    Aged capacity key (touch capacity keys other) (since ++ [other]) := by
  rcases haged with ⟨older, younger, rfl, hyounger⟩ | henough
  · obtain ⟨older', younger', herase, hsub⟩ := erase_split hne older younger
    have hbase := nodup_erase_append hnodup other
    unfold touch
    rw [evict_eq_drop]
    rw [herase, List.append_assoc, List.cons_append] at hbase ⊢
    generalize hdrop : (older' ++ key :: (younger' ++ [other])).length - capacity = dropped
    have hsince : ∀ candidate ∈ younger' ++ [other], candidate ∈ since ++ [other] := by
      intro candidate hc
      rcases List.mem_append.mp hc with hc | hc
      · exact List.mem_append_left _ (hyounger candidate (hsub candidate hc))
      · exact List.mem_append_right _ hc
    by_cases hkept : dropped ≤ older'.length
    · left
      exact ⟨older'.drop dropped, younger' ++ [other], List.drop_append_of_le_length hkept, hsince⟩
    · -- `key` itself goes, so what is younger fills the whole store
      right
      have hlen : capacity ≤ (younger' ++ [other]).length := by
        simp only [List.length_append, List.length_cons] at hdrop ⊢
        omega
      obtain ⟨hkey, hyoung⟩ := List.nodup_cons.mp (List.nodup_append.mp hbase).2.1
      rw [← List.toFinset_card_of_nodup hyoung] at hlen
      refine hlen.trans (Finset.card_le_card ?_)
      intro candidate hc
      rw [List.mem_toFinset] at hc
      rw [Finset.mem_erase, List.mem_toFinset]
      refine ⟨?_, hsince candidate hc⟩
      rintro rfl
      exact hkey hc
  · right
    refine henough.trans (Finset.card_le_card ?_)
    apply Finset.erase_subset_erase
    intro candidate hc
    simp only [List.mem_toFinset, List.mem_append] at hc ⊢
    exact .inl hc

theorem aged_mono {capacity : Nat} {key : K} {keys since after : List K}
    (haged : Aged capacity key keys since) (hsub : ∀ other ∈ since, other ∈ after) :
    Aged capacity key keys after := by
  rcases haged with ⟨older, younger, rfl, hyounger⟩ | henough
  · exact .inl ⟨older, younger, rfl, fun other h => hsub other (hyounger other h)⟩
  · refine .inr (henough.trans (Finset.card_le_card ?_))
    apply Finset.erase_subset_erase
    intro other ho
    rw [List.mem_toFinset] at ho ⊢
    exact hsub other ho

-- A key is only missing when `capacity` other keys were used after it.
theorem Aged.enough {capacity : Nat} {key : K} {keys since : List K}
    (haged : Aged capacity key keys since) (hgone : key ∉ keys) :
    capacity ≤ (since.toFinset.erase key).card := by
  rcases haged with ⟨older, younger, rfl, -⟩ | henough
  · exact absurd (by simp) hgone
  · exact henough

section Window

-- What a whole history of uses leaves: the keys by their last use, the youngest of them.
def window (capacity : Nat) (uses : List K) : List K :=
  evict capacity uses.dedup

theorem dedup_snoc (uses : List K) (key : K) :
    (uses ++ [key]).dedup = uses.dedup.erase key ++ [key] := by
  induction uses with
  | nil => rfl
  | cons use rest ih =>
      rw [List.cons_append]
      by_cases hrest : use ∈ rest
      · rw [List.dedup_cons_of_mem (List.mem_append_left _ hrest), ih,
          List.dedup_cons_of_mem hrest]
      · rw [List.dedup_cons_of_notMem hrest]
        by_cases heq : use = key
        · subst heq
          have hout : use ∉ rest.dedup := by rwa [List.mem_dedup]
          rw [List.dedup_cons_of_mem (by simp), ih, List.erase_cons_head,
            List.erase_of_not_mem hout]
        · rw [List.dedup_cons_of_notMem (by simp [hrest, heq]), ih,
            List.erase_cons_tail (by simpa using heq), List.cons_append]

-- What was evicted has no say in what the next use evicts.
theorem touch_evict {keys : List K} (h : keys.Nodup) (capacity : Nat) (key : K) :
    touch capacity (evict capacity keys) key = touch capacity keys key := by
  unfold touch
  by_cases hfits : keys.length ≤ capacity
  · rw [evict_of_length_le hfits]
  · obtain ⟨gone, kept, hkeys⟩ : ∃ gone kept, keys = gone ++ kept ∧ kept.length = capacity := by
      refine ⟨keys.take (keys.length - capacity), keys.drop (keys.length - capacity), ?_, ?_⟩
      · rw [List.take_append_drop]
      · rw [List.length_drop]
        omega
    obtain ⟨rfl, hkept⟩ := hkeys
    have hevict : evict capacity (gone ++ kept) = kept := by
      rw [evict_eq_drop, List.length_append, hkept, Nat.add_sub_cancel, List.drop_left]
    have hdrop : ∀ before after : List K, capacity ≤ after.length →
        evict capacity (before ++ after) = evict capacity after := by
      intro before after hlong
      rw [evict_eq_drop, evict_eq_drop, List.length_append, Nat.add_sub_assoc hlong,
        List.drop_append]
      simp
    rw [hevict]
    by_cases hgone : key ∈ gone
    · have hout : key ∉ kept := (List.nodup_append'.mp h).2.2 hgone
      rw [List.erase_append_left _ hgone, List.erase_of_not_mem hout, List.append_assoc]
      exact (hdrop _ _ (by rw [List.length_append]; omega)).symm
    · rw [List.erase_append_right _ hgone, List.append_assoc]
      refine (hdrop _ _ ?_).symm
      rw [List.length_append, List.length_singleton]
      have hone : kept.length - 1 ≤ (kept.erase key).length := List.le_length_erase
      omega

theorem window_snoc (capacity : Nat) (uses : List K) (key : K) :
    window capacity (uses ++ [key]) = touch capacity (window capacity uses) key := by
  unfold window
  rw [touch_evict (List.nodup_dedup uses), dedup_snoc]
  rfl

theorem mem_of_mem_window {capacity : Nat} {uses : List K} {key : K}
    (h : key ∈ window capacity uses) : key ∈ uses := by
  unfold window at h
  rw [evict_eq_drop] at h
  exact List.mem_dedup.mp (List.mem_of_mem_drop h)

-- A key is in the window exactly when fewer than `capacity` others were used after it.
theorem mem_window_split {capacity : Nat} {key : K} {before after : List K}
    (hafter : key ∉ after) :
    key ∈ window capacity (before ++ key :: after) ↔ after.toFinset.card < capacity := by
  obtain ⟨older, holder⟩ :
      ∃ older, (before ++ key :: after).dedup = older ++ key :: after.dedup := by
    obtain ⟨older, holder⟩ := List.suffix_union_right before (key :: after).dedup
    refine ⟨older, ?_⟩
    rw [List.dedup_append, ← holder, List.dedup_cons_of_notMem hafter]
  have hnodup := List.nodup_dedup (before ++ key :: after)
  rw [List.card_toFinset]
  unfold window
  rw [evict_eq_drop]
  rw [holder] at hnodup ⊢
  rw [List.length_append, List.length_cons]
  by_cases hfew : after.dedup.length < capacity
  · have hkept : older.length + (after.dedup.length + 1) - capacity ≤ older.length := by omega
    rw [List.drop_append_of_le_length hkept]
    simp [hfew]
  · have hall : older.length + 1 ≤ older.length + (after.dedup.length + 1) - capacity := by omega
    refine iff_of_false ?_ hfew
    intro hmem
    have hkey : key ∉ after.dedup := by rwa [List.mem_dedup]
    rw [List.append_cons, List.drop_append] at hmem
    rw [List.drop_of_length_le (by simpa using hall), List.nil_append] at hmem
    exact hkey (List.mem_of_mem_drop hmem)

end Window

end TrustlistCore.Library.Recency
