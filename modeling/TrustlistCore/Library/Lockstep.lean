import TrustlistCore.Library.Run

namespace TrustlistCore.Library.Run

section Lockstep

variable {σ τ ι ω : Type} {step : σ → ι → ω × σ} {other : τ → ι → ω × τ}
  {enabled : σ → ι → Prop} {R : σ → τ → Prop}

-- At every point of a run, the same inputs have taken the other machine to a related
-- state, with the same answers.
def Follows (step : σ → ι → ω × σ) (enabled : σ → ι → Prop) (other : τ → ι → ω × τ)
    (R : σ → τ → Prop) (start : σ) (start' : τ) (trace : List (ι × ω)) : Prop :=
  ∀ before after state, trace = before ++ after → Run step enabled start before state →
    ∃ state', Run other (fun _ _ => True) start' before state' ∧ R state state'

theorem last_step {step : σ → ι → ω × σ} {start last : σ} {trace : List (ι × ω)}
    {entry : ι × ω} (hrun : Run step enabled start (trace ++ [entry]) last) :
    ∃ state, Run step enabled start trace state ∧ entry.2 = (step state entry.1).1 ∧
      last = (step state entry.1).2 := by
  obtain ⟨state, hbefore, -, hanswer, hrest⟩ := hrun.exists_step trace entry [] rfl
  generalize hnil : ([] : List (ι × ω)) = rest at hrest
  cases hrest with
  | nil => exact ⟨state, hbefore, hanswer, rfl⟩
  | snoc input _ _ => simp at hnil

theorem follows_nil {start : σ} {start' : τ} (h : R start start') :
    Follows step enabled other R start start' [] := by
  intro before after state hsplit hrun
  obtain ⟨rfl, -⟩ := List.append_eq_nil_iff.mp hsplit.symm
  rw [hrun.unique .nil]
  exact ⟨start', .nil, h⟩

theorem follows_snoc {start state : σ} {start' : τ} {trace : List (ι × ω)} {input : ι}
    (hrun : Run step enabled start trace state) (henabled : enabled state input) :
    Follows step enabled other R start start' (trace ++ [(input, (step state input).1)]) ↔
      Follows step enabled other R start start' trace ∧
        ∃ state', Run other (fun _ _ => True) start' (trace ++ [(input, (step state input).1)]) state' ∧
          R (step state input).2 state' := by
  constructor
  · intro h
    refine ⟨?_, h _ [] _ (by simp) (hrun.snoc input henabled)⟩
    rintro before after middle rfl hbefore
    exact h before (after ++ _) middle (List.append_assoc ..) hbefore
  · rintro ⟨htrace, hlast⟩ before after middle hsplit hbefore
    rcases List.eq_nil_or_concat after with rfl | ⟨rest, entry, rfl⟩
    · rw [List.append_nil] at hsplit
      subst hsplit
      rwa [hbefore.unique (hrun.snoc input henabled)]
    · rw [List.concat_eq_append, ← List.append_assoc] at hsplit
      exact htrace before rest middle (List.append_inj' hsplit rfl).1 hbefore

-- Where a condition on the first machine says exactly when one step keeps the two
-- together, it says so of whole runs.
theorem follows_iff {P : σ → ι → Prop} {start last : σ} {start' : τ} {trace : List (ι × ω)}
    (hstep : ∀ state state' input, R state state' →
      ((other state' input).1 = (step state input).1 ∧
        R (step state input).2 (other state' input).2 ↔ P state input))
    (hrun : Run step enabled start trace last) (hstart : R start start') :
    Follows step enabled other R start start' trace ↔
      Each (fun state entry => P state entry.1) step enabled start trace := by
  induction hrun with
  | nil => exact iff_of_true (follows_nil hstart) (each_nil _ _)
  | @snoc trace state input hrun henabled ih =>
      rw [follows_snoc hrun henabled, each_snoc hrun, ← ih]
      apply and_congr_right
      intro htrace
      obtain ⟨state', hother, hrelated⟩ := htrace trace [] state (by simp) hrun
      rw [← hstep state state' input hrelated]
      constructor
      · rintro ⟨next, hnext, hlast⟩
        obtain ⟨middle, hmiddle, hanswer, rfl⟩ := last_step hnext
        rw [hmiddle.unique hother] at hanswer hlast
        exact ⟨hanswer.symm, hlast⟩
      · rintro ⟨hanswer, hlast⟩
        have hnext := hother.snoc input trivial
        rw [hanswer] at hnext
        exact ⟨_, hnext, hlast⟩

end Lockstep

end TrustlistCore.Library.Run
