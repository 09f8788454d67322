import Mathlib.Data.List.Forall2
import TrustlistCore.Library.Frame
import TrustlistCore.Library.Run

namespace TrustlistCore.Library

section Simulation

variable {ε ε' σ σ' α β : Type} {R : σ → σ' → Prop} {E : ε → ε' → Prop}

-- Two answers that come to the same: one value and related states, or related exceptions.
inductive Agree (R : σ → σ' → Prop) (E : ε → ε' → Prop) :
    EStateM.Result ε σ α → EStateM.Result ε' σ' α → Prop
  | ok {value : α} {next : σ} {next' : σ'} (hnext : R next next') :
      Agree R E (.ok value next) (.ok value next')
  | error {failure : ε} {failure' : ε'} {next : σ} {next' : σ'} (hfailure : E failure failure') :
      Agree R E (.error failure next) (.error failure' next')

-- The first method does on one kind of state what the second does on another.
def Simulates (R : σ → σ' → Prop) (E : ε → ε' → Prop) (method : EStateM ε σ α)
    (method' : EStateM ε' σ' α) : Prop :=
  ∀ state state', R state state' → Agree R E (method.run state) (method'.run state')

namespace Simulates

theorem pure (value : α) :
    Simulates R E (Pure.pure value : EStateM ε σ α) (Pure.pure value : EStateM ε' σ' α) :=
  fun _ _ hstate => .ok hstate

theorem throw {failure : ε} {failure' : ε'} (h : E failure failure') :
    Simulates R E (MonadExcept.throw failure : EStateM ε σ α)
      (MonadExcept.throw failure' : EStateM ε' σ' α) :=
  fun _ _ _ => .error h

theorem bind {method : EStateM ε σ α} {method' : EStateM ε' σ' α} {next : α → EStateM ε σ β}
    {next' : α → EStateM ε' σ' β} (h : Simulates R E method method')
    (hnext : ∀ value, Simulates R E (next value) (next' value)) :
    Simulates R E (method >>= next) (method' >>= next') := by
  intro state state' hstate
  have hfirst := h state state' hstate
  rw [EStateM.run_bind, EStateM.run_bind]
  cases hrun : method.run state with
  | ok value between =>
      cases hrun' : method'.run state' with
      | ok value' between' =>
          rw [hrun, hrun'] at hfirst
          cases hfirst with
          | ok hbetween => exact hnext value between between' hbetween
      | error failure' between' =>
          rw [hrun, hrun'] at hfirst
          cases hfirst
  | error failure between =>
      cases hrun' : method'.run state' with
      | ok value' between' =>
          rw [hrun, hrun'] at hfirst
          cases hfirst
      | error failure' between' =>
          rw [hrun, hrun'] at hfirst
          cases hfirst with
          | error hfailure => exact .error hfailure

theorem map (f : α → β) {method : EStateM ε σ α} {method' : EStateM ε' σ' α}
    (h : Simulates R E method method') : Simulates R E (f <$> method) (f <$> method') := by
  rw [map_eq_pure_bind, map_eq_pure_bind]
  exact h.bind fun value => pure (f value)

theorem mapM {ι : Type} {perform : ι → EStateM ε σ α} {perform' : ι → EStateM ε' σ' α}
    {inputs : List ι} (h : ∀ input ∈ inputs, Simulates R E (perform input) (perform' input)) :
    Simulates R E (inputs.mapM perform) (inputs.mapM perform') := by
  induction inputs with
  | nil => exact pure []
  | cons input inputs ih =>
      rw [List.mapM_cons, List.mapM_cons]
      refine (h input List.mem_cons_self).bind fun value => ?_
      exact (ih fun later hlater => h later (List.mem_cons_of_mem _ hlater)).bind
        fun values => pure (value :: values)

end Simulates

-- A method in a transaction of its own, which an exception rolls back.
def atomically (method : EStateM ε σ α) (state : σ) : Except ε α × σ :=
  match method.run state with
  | .ok value next => (.ok value, next)
  | .error failure _ => (.error failure, state)

-- The same answer, or related exceptions.
inductive SameAnswer (E : ε → ε' → Prop) : Except ε α → Except ε' α → Prop
  | ok (value : α) : SameAnswer E (.ok value) (.ok value)
  | error {failure : ε} {failure' : ε'} (hfailure : E failure failure') :
      SameAnswer E (.error failure) (.error failure')

theorem Simulates.atomically {method : EStateM ε σ α} {method' : EStateM ε' σ' α}
    (h : Simulates R E method method') {state : σ} {state' : σ'} (hstate : R state state') :
    SameAnswer E (atomically method state).1 (atomically method' state').1 ∧
      R (atomically method state).2 (atomically method' state').2 := by
  have hagree := h state state' hstate
  unfold Library.atomically
  cases hrun : method.run state with
  | ok value next =>
      cases hrun' : method'.run state' with
      | ok value' next' =>
          rw [hrun, hrun'] at hagree
          cases hagree with
          | ok hnext => exact ⟨.ok value, hnext⟩
      | error failure' next' =>
          rw [hrun, hrun'] at hagree
          cases hagree
  | error failure next =>
      cases hrun' : method'.run state' with
      | ok value' next' =>
          rw [hrun, hrun'] at hagree
          cases hagree
      | error failure' next' =>
          rw [hrun, hrun'] at hagree
          cases hagree with
          | error hfailure => exact ⟨.error hfailure, hstate⟩

end Simulation

namespace Run

variable {σ σ' ι ι' ω ω' : Type} {step : σ → ι → ω × σ} {step' : σ' → ι' → ω' × σ'}
  {enabled : σ → ι → Prop} {enabled' : σ' → ι' → Prop} {R : σ → σ' → Prop}
  {Matches : ι × ω → ι' × ω' → Prop}

-- Where one machine follows every step of another, it follows its runs.
theorem simulates
    (hstep : ∀ state state' input, R state state' → enabled state input →
      ∃ input', enabled' state' input' ∧
        Matches (input, (step state input).1) (input', (step' state' input').1) ∧
        R (step state input).2 (step' state' input').2)
    {start last : σ} {start' : σ'} {trace : List (ι × ω)}
    (hrun : Run step enabled start trace last) (hstart : R start start') :
    ∃ trace' last', Run step' enabled' start' trace' last' ∧
      List.Forall₂ Matches trace trace' ∧ R last last' := by
  induction hrun with
  | nil => exact ⟨[], start', .nil, .nil, hstart⟩
  | snoc input _ henabled ih =>
      obtain ⟨trace', state', hrun', htrace, hstate⟩ := ih
      obtain ⟨input', henabled', hmatches, hnext⟩ := hstep _ state' input hstate henabled
      refine ⟨_, _, hrun'.snoc input' henabled', ?_, hnext⟩
      exact List.rel_append htrace (.cons hmatches .nil)

end Run

end TrustlistCore.Library
