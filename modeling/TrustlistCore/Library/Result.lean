import Mathlib.Tactic.Common

namespace TrustlistCore.Library.Result

variable {ε α β : Type*}

theorem not_exists_ok {e : ε} : ¬ ∃ value : α, (.error e : Except ε α) = .ok value := by
  rintro ⟨value, h⟩
  cases h

theorem bind_eq_ok {result : Except ε α} {next : α → Except ε β} {value : β} :
    (result.bind next) = .ok value ↔ ∃ a, result = .ok a ∧ next a = .ok value := by
  cases result with
  | error e =>
      constructor
      · intro h
        cases h
      · rintro ⟨a, ha, -⟩
        cases ha
  | ok a =>
      constructor
      · exact fun h => ⟨a, rfl, h⟩
      · rintro ⟨b, hb, h⟩
        cases hb
        exact h

theorem map_eq_ok {result : Except ε α} {f : α → β} {value : β} :
    result.map f = .ok value ↔ ∃ a, result = .ok a ∧ f a = value := by
  cases result with
  | error e =>
      constructor
      · intro h
        cases h
      · rintro ⟨a, ha, -⟩
        cases ha
  | ok a =>
      constructor
      · exact fun h => ⟨a, rfl, Except.ok.inj h⟩
      · rintro ⟨b, hb, rfl⟩
        cases hb
        rfl

theorem map_eq_error {result : Except ε α} {f : α → β} {e : ε} :
    result.map f = .error e ↔ result = .error e := by
  cases result with
  | error raised => simp only [Except.map, Except.error.injEq]
  | ok a =>
      constructor
      · intro h
        cases h
      · intro h
        cases h

theorem mapError_eq_ok {ε' : Type*} {result : Except ε α} {f : ε → ε'} {value : α} :
    result.mapError f = .ok value ↔ result = .ok value := by
  cases result with
  | error e =>
      constructor
      · intro h
        cases h
      · intro h
        cases h
  | ok a => simp only [Except.mapError, Except.ok.injEq]

-- A fold none of whose steps fails, with what is known of the part done so far.
theorem foldlM_eq_ok {σ : Type} {items : List α} {step : σ → α → Except ε σ}
    {P : σ → List α → Prop}
    (hstep : ∀ state done item rest, items = done ++ item :: rest → P state done →
      ∃ next, step state item = .ok next ∧ P next (done ++ [item]))
    {start : σ} (hstart : P start []) : ∃ last, items.foldlM step start = .ok last ∧ P last items := by
  have hrest : ∀ (rest done : List α) (state : σ), items = done ++ rest → P state done →
      ∃ last, rest.foldlM step state = .ok last ∧ P last items := by
    intro rest
    induction rest with
    | nil =>
        intro done state hitems hstate
        rw [List.append_nil] at hitems
        exact ⟨state, rfl, hitems ▸ hstate⟩
    | cons item rest ih =>
        intro done state hitems hstate
        obtain ⟨next, hnext, hdone⟩ := hstep state done item rest hitems hstate
        obtain ⟨last, hlast, hall⟩ := ih (done ++ [item]) next (by simpa using hitems) hdone
        refine ⟨last, ?_, hall⟩
        rw [List.foldlM_cons, hnext]
        exact hlast
  exact hrest items [] start rfl hstart

theorem exists_mapM {step : α → Except ε β} {items : List α}
    (h : ∀ item ∈ items, ∃ value, step item = .ok value) :
    ∃ values, items.mapM step = .ok values ∧ values.length = items.length := by
  induction items with
  | nil => exact ⟨[], rfl, rfl⟩
  | cons item items ih =>
      obtain ⟨value, hvalue⟩ := h item List.mem_cons_self
      obtain ⟨values, hvalues, hlength⟩ := ih fun other hother => h other (List.mem_cons_of_mem _ hother)
      refine ⟨value :: values, ?_, congrArg Nat.succ hlength⟩
      rw [List.mapM_cons, hvalue, hvalues]
      rfl

theorem forall₂_of_mapM {step : α → Except ε β} {items : List α} {values : List β}
    (h : items.mapM step = .ok values) :
    List.Forall₂ (fun item value => step item = .ok value) items values := by
  induction items generalizing values with
  | nil =>
      cases h
      exact .nil
  | cons item items ih =>
      rw [List.mapM_cons] at h
      obtain ⟨value, hvalue, hrest⟩ := bind_eq_ok.mp h
      obtain ⟨others, hothers, hall⟩ := bind_eq_ok.mp hrest
      cases hall
      exact .cons hvalue (ih hothers)

theorem mapM_congr {step other : α → Except ε β} {items : List α}
    (h : ∀ item ∈ items, step item = other item) : items.mapM step = items.mapM other := by
  induction items with
  | nil => rfl
  | cons item items ih =>
      rw [List.mapM_cons, List.mapM_cons, h item List.mem_cons_self,
        ih fun later hlater => h later (List.mem_cons_of_mem _ hlater)]

theorem foldlM_congr {σ : Type*} {step other : σ → α → Except ε σ} {items : List α}
    (h : ∀ item ∈ items, ∀ state, step state item = other state item) (start : σ) :
    items.foldlM step start = items.foldlM other start := by
  induction items generalizing start with
  | nil => rfl
  | cons item items ih =>
      rw [List.foldlM_cons, List.foldlM_cons, h item List.mem_cons_self]
      exact congrArg _ (funext fun next =>
        ih (fun later hlater => h later (List.mem_cons_of_mem _ hlater)) next)

end TrustlistCore.Library.Result
