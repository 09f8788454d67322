import TrustlistCore.Library.Journal

namespace TrustlistCore.Library

section Run

variable {σ ι ω : Type}

-- A deterministic machine whose environment picks one enabled input at a time. The
-- index records every input with the answer it got, oldest first.
inductive Run (step : σ → ι → ω × σ) (enabled : σ → ι → Prop) (start : σ) :
    List (ι × ω) → σ → Prop
  | nil : Run step enabled start [] start
  | snoc {trace : List (ι × ω)} {state : σ} (input : ι) :
      Run step enabled start trace state → enabled state input →
      Run step enabled start (trace ++ [(input, (step state input).1)]) (step state input).2

namespace Run

variable {step : σ → ι → ω × σ} {enabled : σ → ι → Prop}

theorem trans {first middle last : σ} {before after : List (ι × ω)}
    (hb : Run step enabled first before middle) (ha : Run step enabled middle after last) :
    Run step enabled first (before ++ after) last := by
  induction ha with
  | nil => simpa using hb
  | snoc input _ he ih =>
      rw [← List.append_assoc]
      exact ih.snoc input he

-- The inputs of a trace determine where it ends.
theorem eq_foldl {start last : σ} {trace : List (ι × ω)}
    (hrun : Run step enabled start trace last) :
    last = (trace.map Prod.fst).foldl (fun state input => (step state input).2) start := by
  induction hrun with
  | nil => rfl
  | snoc input _ _ ih => simp [List.foldl_append, ← ih]

theorem unique {start last other : σ} {trace : List (ι × ω)}
    (hl : Run step enabled start trace last) (ho : Run step enabled start trace other) :
    last = other := by
  rw [hl.eq_foldl, ho.eq_foldl]

-- A condition on every step of a run, with the state that the step starts from.
def Each (P : σ → ι × ω → Prop) (step : σ → ι → ω × σ) (enabled : σ → ι → Prop) (start : σ)
    (trace : List (ι × ω)) : Prop :=
  ∀ past entry later state, trace = past ++ entry :: later →
    Run step enabled start past state → P state entry

theorem each_nil (P : σ → ι × ω → Prop) (start : σ) : Each P step enabled start [] := by
  intro past entry later state h
  simp at h

theorem each_snoc {P : σ → ι × ω → Prop} {start state : σ} {trace : List (ι × ω)}
    (hrun : Run step enabled start trace state) (entry : ι × ω) :
    Each P step enabled start (trace ++ [entry]) ↔
      Each P step enabled start trace ∧ P state entry := by
  constructor
  · intro h
    refine ⟨?_, h trace entry [] state rfl hrun⟩
    rintro past first later middle rfl hpast
    exact h past first (later ++ [entry]) middle (by simp) hpast
  · rintro ⟨htrace, hentry⟩ past first later middle hsplit hpast
    rcases Journal.snoc_eq_split.mp hsplit with ⟨rfl, rfl, rfl⟩ | ⟨rest, rfl, rfl⟩
    · rwa [hpast.unique hrun]
    · exact htrace past first rest middle rfl hpast

-- A property kept by every enabled step holds at the end of every run.
theorem invariant {P : σ → Prop}
    (hstep : ∀ state input, P state → enabled state input → P (step state input).2)
    {start last : σ} {trace : List (ι × ω)} (hrun : Run step enabled start trace last)
    (hstart : P start) : P last := by
  induction hrun with
  | nil => exact hstart
  | snoc input _ he ih => exact hstep _ input ih he

theorem mono {allowed : σ → ι → Prop} (h : ∀ state input, enabled state input → allowed state input)
    {start last : σ} {trace : List (ι × ω)} (hrun : Run step enabled start trace last) :
    Run step allowed start trace last := by
  induction hrun with
  | nil => exact .nil
  | snoc input _ he ih => exact ih.snoc input (h _ input he)

-- A run grown by one step whose end is known.
theorem exists_snoc {start state next : σ} (hrun : ∃ trace, Run step enabled start trace state)
    (input : ι) (henabled : enabled state input) (hnext : (step state input).2 = next) :
    ∃ trace, Run step enabled start trace next := by
  obtain ⟨trace, hrun⟩ := hrun
  exact ⟨_, hnext ▸ hrun.snoc input henabled⟩

-- Where every input is enabled, any list of them is a run.
theorem of_inputs (step : σ → ι → ω × σ) (start : σ) (inputs : List ι) :
    ∃ trace, Run step (fun _ _ => True) start trace
      (inputs.foldl (fun state input => (step state input).2) start) := by
  induction inputs generalizing start with
  | nil => exact ⟨[], .nil⟩
  | cons input inputs ih =>
      obtain ⟨trace, hrun⟩ := ih (step start input).2
      have hfirst : Run step (fun _ _ => True) start [] start := .nil
      exact ⟨_, (hfirst.snoc input trivial).trans hrun⟩

-- Every run splits at every point of its trace.
theorem split {start last : σ} {trace : List (ι × ω)} (hrun : Run step enabled start trace last)
    (before after : List (ι × ω)) (htrace : trace = before ++ after) :
    ∃ middle, Run step enabled start before middle ∧ Run step enabled middle after last := by
  induction hrun generalizing after with
  | nil =>
      obtain ⟨rfl, rfl⟩ := List.append_eq_nil_iff.mp htrace.symm
      exact ⟨start, .nil, .nil⟩
  | @snoc trace state input hr he ih =>
      rcases List.eq_nil_or_concat after with rfl | ⟨rest, entry, rfl⟩
      · rw [List.append_nil] at htrace
        exact ⟨_, htrace ▸ hr.snoc input he, .nil⟩
      · rw [List.concat_eq_append, ← List.append_assoc] at htrace
        obtain ⟨hrest, hentry⟩ := List.append_inj' htrace rfl
        obtain ⟨middle, hb, ha⟩ := ih rest hrest
        refine ⟨middle, hb, ?_⟩
        have hlast := ha.snoc input he
        rwa [List.concat_eq_append, ← (List.cons.inj hentry).1]

-- One step, with the state it starts from, for each entry of a trace.
theorem exists_step {start last : σ} {trace : List (ι × ω)}
    (hrun : Run step enabled start trace last) (before : List (ι × ω)) (entry : ι × ω)
    (after : List (ι × ω)) (htrace : trace = before ++ entry :: after) :
    ∃ state, Run step enabled start before state ∧ enabled state entry.1 ∧
      entry.2 = (step state entry.1).1 ∧ Run step enabled (step state entry.1).2 after last := by
  obtain ⟨middle, hb, ha⟩ := hrun.split (before ++ [entry]) after (by simp [htrace])
  generalize hp : before ++ [entry] = prefixTrace at hb
  cases hb with
  | nil => simp at hp
  | @snoc trace state input hr he =>
      obtain ⟨rfl, hentry⟩ := List.append_inj' hp rfl
      obtain rfl := (List.cons.inj hentry).1
      exact ⟨state, hr, he, rfl, ha⟩

end Run

end Run

end TrustlistCore.Library
