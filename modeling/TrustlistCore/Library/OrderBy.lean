import Mathlib.Data.List.Sort
import Mathlib.Data.Prod.Lex

namespace TrustlistCore.Library.OrderBy

variable {α β κ ι : Type} [LinearOrder κ] [LinearOrder ι]

-- The items in ascending order of a key.
def orderBy (key : α → κ) (items : List α) : List α :=
  items.insertionSort fun a b => key a ≤ key b

theorem perm_orderBy (key : α → κ) (items : List α) : (orderBy key items).Perm items :=
  List.perm_insertionSort _ items

theorem mem_orderBy {key : α → κ} {items : List α} {item : α} :
    item ∈ orderBy key items ↔ item ∈ items :=
  (perm_orderBy key items).mem_iff

theorem pairwise_orderBy (key : α → κ) (items : List α) :
    (orderBy key items).Pairwise fun a b => key a ≤ key b := by
  have htotal : Std.Total fun a b : α => key a ≤ key b := ⟨fun a b => le_total (key a) (key b)⟩
  have htrans : IsTrans α fun a b => key a ≤ key b := ⟨fun _ _ _ => le_trans⟩
  exact List.pairwise_insertionSort _ items

-- Where items of one key are one item, there is only one order.
theorem eq_orderBy {key : α → κ} {items sorted : List α}
    (hkey : ∀ a ∈ items, ∀ b ∈ items, key a = key b → a = b) (hperm : sorted.Perm items)
    (hsorted : sorted.Pairwise fun a b => key a ≤ key b) : sorted = orderBy key items := by
  refine (hperm.trans (perm_orderBy key items).symm).eq_of_pairwise ?_ hsorted
    (pairwise_orderBy key items)
  intro a b ha hb hab hba
  exact hkey a (hperm.mem_iff.mp ha) b (mem_orderBy.mp hb) (le_antisymm hab hba)

theorem orderBy_perm {key : α → κ} {items other : List α}
    (hkey : ∀ a ∈ items, ∀ b ∈ items, key a = key b → a = b) (hperm : other.Perm items) :
    orderBy key other = orderBy key items :=
  eq_orderBy hkey ((perm_orderBy key other).trans hperm) (pairwise_orderBy key other)

-- An order that a map into other items keeps.
theorem map_orderBy {key : α → κ} {other : β → ι} {f : α → β} {items : List α}
    (h : ∀ a ∈ items, ∀ b ∈ items, key a ≤ key b ↔ other (f a) ≤ other (f b)) :
    (orderBy key items).map f = orderBy other (items.map f) :=
  List.map_insertionSort _ _ f items h

-- Ties of the first key are broken by the second. Without ties the second does not matter.
theorem le_iff_of_untied {key : α → κ} {tie : α → ι} {a b : α} (h : key a = key b → a = b) :
    (toLex (key a, tie a) : κ ×ₗ ι) ≤ toLex (key b, tie b) ↔ key a ≤ key b := by
  rw [Prod.Lex.toLex_le_toLex]
  constructor
  · rintro (hlt | ⟨heq, -⟩)
    · exact hlt.le
    · exact heq.le
  · intro hle
    rcases hle.lt_or_eq with hlt | heq
    · exact Or.inl hlt
    · right
      rw [h heq]
      exact ⟨rfl, le_rfl⟩

-- Two lists of items that agree on the first key, place by place, and are without ties there:
-- whatever the second keys are, the two come into the same order.
theorem orderBy_pairs {key : α → κ} {tie : α → ι} {pairs : List (α × α)}
    (hsame : ∀ pair ∈ pairs, key pair.1 = key pair.2)
    (huntied : ∀ p ∈ pairs, ∀ q ∈ pairs, key p.1 = key q.1 → p = q) :
    ∃ sorted : List (α × α), sorted.Perm pairs ∧
      orderBy (fun a => (toLex (key a, tie a) : κ ×ₗ ι)) (pairs.map Prod.fst) =
        sorted.map Prod.fst ∧
      orderBy (fun a => (toLex (key a, tie a) : κ ×ₗ ι)) (pairs.map Prod.snd) =
        sorted.map Prod.snd := by
  refine ⟨orderBy (fun pair => key pair.1) pairs, perm_orderBy _ _, ?_, ?_⟩
  · refine (map_orderBy ?_).symm
    intro p hp q hq
    exact (le_iff_of_untied fun heq => congrArg Prod.fst (huntied p hp q hq heq)).symm
  · refine (map_orderBy ?_).symm
    intro p hp q hq
    rw [hsame p hp, hsame q hq]
    refine (le_iff_of_untied fun heq => ?_).symm
    rw [← hsame p hp, ← hsame q hq] at heq
    exact congrArg Prod.snd (huntied p hp q hq heq)

end TrustlistCore.Library.OrderBy
