import TrustlistCore.EventBus.Datum.Arrived
import Mathlib.Algebra.Order.Ring.Rat
import Mathlib.Data.Prod.Lex
import Mathlib.Order.WithBot

namespace TrustlistCore.EventBus.Datum

open Library Unicode
open Value (Key)

variable {sorting : KeySorting}

section Ordinary

-- Where a key stands among those it can be compared with.
def rank : Key → WithTop (WithBot ℚ) ×ₗ List CodePoint
  | .number value => toLex (((value : WithBot ℚ) : WithTop (WithBot ℚ)), [])
  | .infinity true => toLex (((⊥ : WithBot ℚ) : WithTop (WithBot ℚ)), [])
  | .str points => toLex (⊤, points)
  | _ => toLex (⊤, [])

theorem less_iff_rank {a b : Key} (hcomparable : a.comparable b = true) (ha : a ≠ .nan)
    (hb : b ≠ .nan) : a.less b = true ↔ rank a < rank b := by
  cases a with
  | none => cases b <;> cases hcomparable
  | nan => exact absurd rfl ha
  | number p =>
      cases b with
      | number q => simp [Key.less, rank, Prod.Lex.toLex_lt_toLex]
      | infinity n => cases n <;> simp [Key.less, rank, Prod.Lex.toLex_lt_toLex]
      | nan => exact absurd rfl hb
      | _ => cases hcomparable
  | infinity m =>
      cases b with
      | number q =>
          have hbot : ((⊥ : WithBot ℚ) : WithTop (WithBot ℚ)) < ((q : WithBot ℚ) : _) :=
            WithTop.coe_lt_coe.mpr (WithBot.bot_lt_coe q)
          cases m with
          | true => exact iff_of_true rfl (Prod.Lex.toLex_lt_toLex.mpr (Or.inl hbot))
          | false => simp [Key.less, rank, Prod.Lex.toLex_lt_toLex]
      | infinity n => cases m <;> cases n <;> simp [Key.less, rank, Prod.Lex.toLex_lt_toLex]
      | nan => exact absurd rfl hb
      | _ => cases hcomparable
  | str s =>
      cases b with
      | str t => simp [Key.less, rank, Prod.Lex.toLex_lt_toLex]
      | _ => cases hcomparable

theorem key_eq_of_rank {a b : Key} (hcomparable : a.comparable b = true) (ha : a ≠ .nan)
    (hb : b ≠ .nan) (h : rank a = rank b) : a = b := by
  cases a with
  | none => cases b <;> cases hcomparable
  | nan => exact absurd rfl ha
  | number p =>
      cases b with
      | number q => simpa [rank] using h
      | infinity n => cases n <;> simp [rank] at h
      | nan => exact absurd rfl hb
      | _ => cases hcomparable
  | infinity m =>
      cases b with
      | number q => cases m <;> simp [rank] at h
      | infinity n => cases m <;> cases n <;> simp [rank] at h ⊢
      | nan => exact absurd rfl hb
      | _ => cases hcomparable
  | str s =>
      cases b with
      | str t => simpa [rank] using h
      | _ => cases hcomparable

-- Keys that can all be compared, no two of them equal and none of them NaN.
structure Ordinary (keys : List Value) : Prop where
  comparable : keys.Pairwise fun a b => Value.comparable a b = true
  distinct : keys.Pairwise fun a b => Value.key a ≠ Value.key b
  number : ∀ key ∈ keys, Value.key key ≠ some .nan

def place (key : Value) : WithTop (WithBot ℚ) ×ₗ List CodePoint :=
  ((Value.key key).map rank).getD (toLex (⊤, []))

theorem exists_key {a b : Value} (h : Value.comparable a b = true) :
    ∃ k l, Value.key a = some k ∧ Value.key b = some l ∧ k.comparable l = true := by
  unfold Value.comparable at h
  split at h
  · rename_i k l hk hl
    exact ⟨k, l, hk, hl, h⟩
  · cases h

theorem less_iff_place {a b : Value} (h : Value.comparable a b = true)
    (ha : Value.key a ≠ some .nan) (hb : Value.key b ≠ some .nan) :
    Value.less a b = true ↔ place a < place b := by
  obtain ⟨k, l, hk, hl, hcomparable⟩ := exists_key h
  unfold Value.less place
  rw [hk] at ha ⊢
  rw [hl] at hb ⊢
  exact less_iff_rank hcomparable (fun heq => ha (congrArg some heq))
    fun heq => hb (congrArg some heq)

theorem less_self (a : Value) : Value.less a a = false := by
  unfold Value.less
  cases hkey : Value.key a with
  | none => rfl
  | some k => cases k <;> simp [Key.less]

theorem comparable_symm {a b : Value} (h : Value.comparable a b = true) :
    Value.comparable b a = true := by
  obtain ⟨k, l, hk, hl, hcomparable⟩ := exists_key h
  unfold Value.comparable
  rw [hk, hl]
  cases k <;> cases l <;> first | rfl | cases hcomparable

theorem Ordinary.less_iff {keys : List Value} (h : Ordinary keys) :
    ∀ a ∈ keys, ∀ b ∈ keys, Value.less a b = true ↔ place a < place b := by
  have : Std.Symm fun a b : Value => Value.comparable a b = true := ⟨fun _ _ => comparable_symm⟩
  intro a ha b hb
  by_cases hab : a = b
  · rw [hab, less_self]
    exact iff_of_false Bool.false_ne_true (lt_irrefl _)
  · have hpair : Value.comparable a b = true :=
      h.comparable.forall ha hb hab
    exact less_iff_place hpair (h.number a ha) (h.number b hb)

-- Such a dict is settled just where its keys and the names they are read back under are in
-- one order.
theorem settled_iff_of_ordinary {members : List (Value × Datum)}
    (h : Ordinary (Members.keys members)) :
    Settled sorting (.dict members) ↔
      ∀ a ∈ Members.keys members, ∀ b ∈ Members.keys members,
        Value.less a b = true → arrivedName a < arrivedName b := by
  have hapart : members.Pairwise fun a b =>
      Value.less a.1 b.1 = true ∨ Value.less b.1 a.1 = true := by
    have hboth := List.pairwise_map.mp (h.comparable.and h.distinct)
    refine hboth.imp_of_mem fun {a b} ha hb hab => ?_
    have hka : a.1 ∈ Members.keys members := List.mem_map_of_mem ha
    have hkb : b.1 ∈ Members.keys members := List.mem_map_of_mem hb
    rw [h.less_iff a.1 hka b.1 hkb, h.less_iff b.1 hkb a.1 hka]
    refine lt_or_gt_of_ne fun hplace => hab.2 ?_
    obtain ⟨k, l, hk, hl, hcomparable⟩ := exists_key hab.1
    have hna := h.number a.1 hka
    have hnb := h.number b.1 hkb
    unfold place at hplace
    rw [hk] at hna hplace ⊢
    rw [hl] at hnb hplace ⊢
    exact congrArg some (key_eq_of_rank hcomparable (fun heq => hna (congrArg some heq))
      (fun heq => hnb (congrArg some heq)) hplace)
  rw [settled_dict, List.pairwise_map]
  exact @Sorting.pairwise_sort_iff _ _ sorting _ (fun a b => arrivedName a < arrivedName b) _
    (Orders.of_rank h.less_iff) hapart

end Ordinary

end TrustlistCore.EventBus.Datum
