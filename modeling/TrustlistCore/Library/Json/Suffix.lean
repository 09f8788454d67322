import TrustlistCore.Library.Json

namespace TrustlistCore.Library

-- What a reader leaves is a suffix of what it was given.
namespace Numeral

theorem suffix_readMinus (text : List Char) : (readMinus text).2 <:+ text := by
  unfold readMinus
  split
  · exact List.suffix_cons _ _
  · exact List.suffix_refl _

theorem suffix_readSign (text : List Char) : (readSign text).2 <:+ text := by
  unfold readSign
  split
  · exact List.suffix_cons _ _
  · exact List.suffix_cons _ _
  · exact List.suffix_refl _

theorem suffix_readInteger (text : List Char) : (readInteger text).2 <:+ text := by
  unfold readInteger
  split
  · exact List.suffix_cons _ _
  · exact List.dropWhile_suffix _

theorem suffix_readFraction (text : List Char) : (readFraction text).2 <:+ text := by
  unfold readFraction
  split
  · split
    · exact List.suffix_refl _
    · exact (List.dropWhile_suffix _).trans (List.suffix_cons _ _)
  · exact List.suffix_refl _

theorem suffix_readExponent (text : List Char) : (readExponent text).2 <:+ text := by
  unfold readExponent
  split
  · rename_i mark rest
    have hsign := suffix_readSign rest
    split
    · simp only
      split
      · exact List.suffix_refl _
      · exact ((List.dropWhile_suffix _).trans hsign).trans (List.suffix_cons _ _)
    · exact List.suffix_refl _
  · exact List.suffix_refl _

theorem suffix_read (text : List Char) : (read text).2 <:+ text :=
  (((suffix_readExponent _).trans (suffix_readFraction _)).trans (suffix_readInteger _)).trans
    (suffix_readMinus _)

end Numeral

namespace Json

theorem suffix_word {text rest : List Char} {tree : Tree} {names : List (List Char × Tree)}
    (h : word text names = some (tree, rest)) : rest <:+ text := by
  induction names with
  | nil => cases h
  | cons name names ih =>
      rw [word] at h
      split at h
      · cases h
        exact List.drop_suffix _ _
      · exact ih h

theorem mem_of_word {text rest : List Char} {tree : Tree} {names : List (List Char × Tree)}
    (h : word text names = some (tree, rest)) : ∃ name ∈ names, name.2 = tree := by
  induction names with
  | nil => cases h
  | cons name names ih =>
      rw [word] at h
      split at h
      · cases h
        exact ⟨_, List.mem_cons_self, rfl⟩
      · obtain ⟨found, hfound, htree⟩ := ih h
        exact ⟨found, List.mem_cons_of_mem _ hfound, htree⟩

theorem suffix_of_leaf {text rest : List Char} {tree : Tree} (h : leaf text = some (tree, rest)) :
    rest <:+ text := by
  unfold leaf at h
  split at h
  · rename_i result hword
    cases h
    exact suffix_word hword
  · obtain ⟨⟨number, rest'⟩, hread, hpair⟩ := Option.map_eq_some_iff.mp h
    obtain ⟨-, rfl⟩ := Prod.mk.inj hpair
    obtain ⟨found, -, hfound⟩ := Option.map_eq_some_iff.mp hread
    rw [← (Prod.mk.inj hfound).2]
    exact Numeral.suffix_read text

end Json

end TrustlistCore.Library
