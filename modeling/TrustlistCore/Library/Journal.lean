import Mathlib.Data.List.Basic

namespace TrustlistCore.Library.Journal

variable {α : Type}

-- A journal grows at its end, so an entry of a longer one is the new entry or an old one.
theorem snoc_eq_split {journal past later : List α} {last entry : α} :
    journal ++ [last] = past ++ entry :: later ↔
      (later = [] ∧ past = journal ∧ entry = last) ∨
        ∃ rest, later = rest ++ [last] ∧ journal = past ++ entry :: rest := by
  constructor
  · intro h
    rcases List.eq_nil_or_concat later with rfl | ⟨rest, final, rfl⟩
    · obtain ⟨rfl, hentry⟩ := List.append_inj' h rfl
      exact .inl ⟨rfl, rfl, (List.cons.inj hentry).1.symm⟩
    · rw [List.concat_eq_append, ← List.cons_append, ← List.append_assoc] at h
      obtain ⟨rfl, hlast⟩ := List.append_inj' h rfl
      right
      exact ⟨rest, by rw [List.concat_eq_append, (List.cons.inj hlast).1], rfl⟩
  · rintro (⟨rfl, rfl, rfl⟩ | ⟨rest, rfl, rfl⟩) <;> simp

-- A property of the entries with their past, checked entry by entry.
def Holds (P : List α → α → Prop) (journal : List α) : Prop :=
  ∀ past entry later, journal = past ++ entry :: later → P past entry

theorem holds_nil (P : List α → α → Prop) : Holds P [] := by
  intro past entry later h
  simp at h

theorem holds_snoc {P : List α → α → Prop} {journal : List α} {last : α} :
    Holds P (journal ++ [last]) ↔ Holds P journal ∧ P journal last := by
  constructor
  · intro h
    refine ⟨?_, h journal last [] rfl⟩
    rintro past entry later rfl
    exact h past entry (later ++ [last]) (by simp)
  · rintro ⟨hjournal, hlast⟩ past entry later hsplit
    rcases snoc_eq_split.mp hsplit with ⟨-, rfl, rfl⟩ | ⟨rest, -, hrest⟩
    · exact hlast
    · exact hjournal past entry rest hrest

end TrustlistCore.Library.Journal
