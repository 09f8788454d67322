import Mathlib.Data.List.Basic

namespace TrustlistCore.Library

section Frame

variable {ε σ τ α β : Type}

-- The state a method leaves behind, whether it returned or raised.
def final (method : EStateM ε σ α) (state : σ) : σ :=
  match method.run state with
  | .ok _ state => state
  | .error _ state => state

-- What a method answers and the state it leaves behind.
def outcome (method : EStateM ε σ α) (state : σ) : Except ε α × σ :=
  match method.run state with
  | .ok value next => (.ok value, next)
  | .error failure next => (.error failure, next)

-- Run a method on a part of the state; the part is written back also when it raises.
def zoom (part : τ → σ) (put : τ → σ → τ) (method : EStateM ε σ α) : EStateM ε τ α := do
  let whole ← get
  match method.run (part whole) with
  | .ok value next =>
      set (put whole next)
      return value
  | .error failure next =>
      set (put whole next)
      throw failure

-- Run a method and keep its exception as a value, as an `except` clause does.
def catching (method : EStateM ε σ α) : EStateM ε σ (Except ε α) := do
  match method.run (← get) with
  | .ok value next =>
      set next
      return .ok value
  | .error failure next =>
      set next
      return .error failure

-- Whatever a method does, its last state is related to its first one by `R`.
def Keeps (R : σ → σ → Prop) (method : EStateM ε σ α) : Prop :=
  ∀ state, R state (final method state)

theorem final_of_ok {method : EStateM ε σ α} {state next : σ} {value : α}
    (h : method.run state = .ok value next) : final method state = next := by
  simp only [final, h]

theorem final_of_error {method : EStateM ε σ α} {state next : σ} {failure : ε}
    (h : method.run state = .error failure next) : final method state = next := by
  simp only [final, h]

theorem run_map (f : α → β) (method : EStateM ε σ α) (state : σ) :
    (f <$> method).run state =
      match method.run state with
      | .ok value next => .ok (f value) next
      | .error failure next => .error failure next := rfl

theorem final_bind (method : EStateM ε σ α) (next : α → EStateM ε σ β) (state : σ) :
    final (method >>= next) state =
      match method.run state with
      | .ok value between => final (next value) between
      | .error _ between => between := by
  unfold final
  rw [EStateM.run_bind]
  cases method.run state <;> rfl

@[simp] theorem final_get_bind (next : σ → EStateM ε σ β) (state : σ) :
    final (get >>= next) state = final (next state) state := rfl

@[simp] theorem final_set_bind (before : σ) (next : PUnit → EStateM ε σ β) (state : σ) :
    final (set before >>= next) state = final (next ⟨⟩) before := rfl

theorem run_zoom (part : τ → σ) (put : τ → σ → τ) (method : EStateM ε σ α) (whole : τ) :
    (zoom part put method).run whole =
      match method.run (part whole) with
      | .ok value next => .ok value (put whole next)
      | .error failure next => .error failure (put whole next) := by
  unfold zoom
  rw [EStateM.run_bind, EStateM.run_get]
  simp only
  cases method.run (part whole) <;> rfl

theorem run_catching (method : EStateM ε σ α) (state : σ) :
    (catching method).run state =
      match method.run state with
      | .ok value next => .ok (.ok value) next
      | .error failure next => .ok (.error failure) next := by
  unfold catching
  rw [EStateM.run_bind, EStateM.run_get]
  simp only
  cases method.run state <;> rfl

theorem outcome_map (f : α → β) (method : EStateM ε σ α) (state : σ) :
    outcome (f <$> method) state = ((outcome method state).1.map f, (outcome method state).2) := by
  unfold outcome
  rw [run_map]
  cases method.run state <;> rfl

theorem outcome_bind (method : EStateM ε σ α) (next : α → EStateM ε σ β) (state : σ) :
    outcome (method >>= next) state =
      match (outcome method state).1 with
      | .ok value => outcome (next value) (outcome method state).2
      | .error failure => (.error failure, (outcome method state).2) := by
  unfold outcome
  rw [EStateM.run_bind]
  cases method.run state <;> rfl

theorem outcome_zoom (part : τ → σ) (put : τ → σ → τ) (method : EStateM ε σ α) (whole : τ) :
    outcome (zoom part put method) whole =
      ((outcome method (part whole)).1, put whole (outcome method (part whole)).2) := by
  unfold outcome
  rw [run_zoom]
  cases method.run (part whole) <;> rfl

theorem outcome_catching (method : EStateM ε σ α) (state : σ) :
    outcome (catching method) state = (.ok (outcome method state).1, (outcome method state).2) := by
  unfold outcome
  rw [run_catching]
  cases method.run state <;> rfl

namespace Keeps

variable {R : σ → σ → Prop}

theorem pure (hrefl : ∀ state, R state state) (value : α) :
    Keeps R (Pure.pure value : EStateM ε σ α) :=
  fun state => hrefl state

theorem bind (htrans : ∀ first middle last, R first middle → R middle last → R first last)
    {method : EStateM ε σ α} {next : α → EStateM ε σ β}
    (hm : Keeps R method) (hn : ∀ value, Keeps R (next value)) :
    Keeps R (method >>= next) := by
  intro state
  have hfirst := hm state
  rw [final_bind]
  cases h : method.run state with
  | ok value between =>
      rw [final_of_ok h] at hfirst
      exact htrans _ _ _ hfirst (hn value between)
  | error failure between =>
      rw [final_of_error h] at hfirst
      exact hfirst

end Keeps

-- The weakest precondition: `Q` holds of the answer and of the state left behind.
def wp (method : EStateM ε σ α) (Q : Except ε α → σ → Prop) (state : σ) : Prop :=
  match method.run state with
  | .ok value next => Q (.ok value) next
  | .error failure next => Q (.error failure) next

section Wp

variable {Q : Except ε α → σ → Prop} {state : σ}

theorem wp_iff_outcome {method : EStateM ε σ α} :
    wp method Q state ↔ Q (outcome method state).1 (outcome method state).2 := by
  unfold wp outcome
  cases method.run state <;> rfl

theorem wp_of_run_ok {method : EStateM ε σ α} {value : α} {next : σ}
    (hrun : method.run state = .ok value next) : wp method Q state ↔ Q (.ok value) next := by
  simp only [wp, hrun]

@[simp] theorem wp_pure (value : α) :
    wp (Pure.pure value : EStateM ε σ α) Q state ↔ Q (.ok value) state := Iff.rfl

@[simp] theorem wp_throw (failure : ε) :
    wp (MonadExcept.throw failure : EStateM ε σ α) Q state ↔ Q (.error failure) state := Iff.rfl

@[simp] theorem wp_ofExcept (answer : Except ε α) :
    wp (MonadExcept.ofExcept answer : EStateM ε σ α) Q state ↔ Q answer state := by
  cases answer <;> rfl

@[simp] theorem wp_bind (method : EStateM ε σ β) (next : β → EStateM ε σ α) :
    wp (method >>= next) Q state ↔
      wp method (fun answer between => match answer with
        | .ok value => wp (next value) Q between
        | .error failure => Q (.error failure) between) state := by
  unfold wp
  rw [EStateM.run_bind]
  cases method.run state <;> rfl

@[simp] theorem wp_map (f : β → α) (method : EStateM ε σ β) :
    wp (f <$> method) Q state ↔ wp method (fun answer => Q (answer.map f)) state := by
  unfold wp
  rw [run_map]
  cases method.run state <;> rfl

@[simp] theorem wp_get (Q : Except ε σ → σ → Prop) :
    wp (get : EStateM ε σ σ) Q state ↔ Q (.ok state) state := Iff.rfl

@[simp] theorem wp_set (next : σ) (Q : Except ε PUnit → σ → Prop) :
    wp (set next : EStateM ε σ PUnit) Q state ↔ Q (.ok ⟨⟩) next := Iff.rfl

@[simp] theorem wp_modify (f : σ → σ) (Q : Except ε PUnit → σ → Prop) :
    wp (modify f : EStateM ε σ PUnit) Q state ↔ Q (.ok ⟨⟩) (f state) := Iff.rfl

@[simp] theorem wp_zoom (part : τ → σ) (put : τ → σ → τ) (method : EStateM ε σ α)
    (Q : Except ε α → τ → Prop) (whole : τ) :
    wp (zoom part put method) Q whole ↔
      wp method (fun answer next => Q answer (put whole next)) (part whole) := by
  unfold wp
  rw [run_zoom]
  cases method.run (part whole) <;> rfl

@[simp] theorem wp_catching (method : EStateM ε σ α) (Q : Except ε (Except ε α) → σ → Prop) :
    wp (catching method) Q state ↔ wp method (fun answer => Q (.ok answer)) state := by
  unfold wp
  rw [run_catching]
  cases method.run state <;> rfl

-- The rule of consequence.
theorem wp_mono {method : EStateM ε σ α} {P : Except ε α → σ → Prop} (hp : wp method P state)
    (himp : ∀ answer next, P answer next → Q answer next) : wp method Q state := by
  unfold wp at hp ⊢
  cases h : method.run state with
  | ok value next =>
      rw [h] at hp
      exact himp _ _ hp
  | error failure next =>
      rw [h] at hp
      exact himp _ _ hp

theorem wp_true (method : EStateM ε σ α) : wp method (fun _ _ => True) state := by
  unfold wp
  cases method.run state <;> trivial

theorem exists_run_eq_ok_iff {method : EStateM ε σ α} {value : α} :
    (∃ next, method.run state = .ok value next) ↔
      wp method (fun answer _ => answer = .ok value) state := by
  unfold wp
  cases method.run state with
  | ok found next =>
      constructor
      · rintro ⟨_, h⟩
        cases h
        rfl
      · intro h
        cases h
        exact ⟨next, rfl⟩
  | error failure next =>
      constructor
      · rintro ⟨_, h⟩
        cases h
      · intro h
        cases h

theorem wp_final (method : EStateM ε σ α) (P : σ → Prop) :
    wp method (fun _ next => P next) state ↔ P (final method state) := by
  unfold wp final
  cases method.run state <;> rfl

end Wp

end Frame

end TrustlistCore.Library
