import TrustlistCore.EventBus.DedupWindow
import TrustlistCore.EventBus.TypeScript.Delivery

namespace TrustlistCore.EventBus

open Library

section Lru

variable {K : Type} [DecidableEq K]

inductive DedupCall (K : Type) where
  | seen (key : K)
  | record (key : K)

-- The answer of `seen`; `record` returns nothing.
abbrev DedupAnswer := Except Failure (Option Bool)

abbrev DedupTrace (K : Type) := List (DedupCall K × DedupAnswer)

def DedupStore.perform {σ : Type} (store : DedupStore K σ) :
    DedupCall K → EStateM Failure σ (Option Bool)
  | .seen key => some <$> store.seen key
  | .record key => (fun _ => none) <$> store.record key

def DedupStore.step {σ : Type} (store : DedupStore K σ) (state : σ) (call : DedupCall K) :
    DedupAnswer × σ :=
  outcome (store.perform call) state

-- A recorded key is touched, and so is one that was looked up and found.
def touched : DedupCall K × DedupAnswer → Option K
  | (.record key, _) => some key
  | (.seen key, .ok (some true)) => some key
  | (.seen _, _) => none

def touches (trace : DedupTrace K) : List K :=
  trace.filterMap touched

-- `key` was recorded, and fewer than `capacity` distinct other keys were touched since the
-- last time that it was.
def Remembered (capacity : Int) (trace : DedupTrace K) (key : K) : Prop :=
  (∃ answer, (.record key, answer) ∈ trace) ∧
    ∃ before after, touches trace = before ++ key :: after ∧ key ∉ after ∧
      (after.toFinset.card : Int) < capacity

-- What a store shows after a history of calls.
structure ExactWindow {σ : Type} (store : DedupStore K σ) (keys : σ → List K)
    (capacity : Int) (trace : DedupTrace K) (state : σ) : Prop where
  bounded : ((keys state).length : Int) ≤ capacity
  seen : ∀ key, ∃ answer, (store.step state (.seen key)).1 = .ok (some answer) ∧
    (answer = true ↔ Remembered capacity trace key) ∧
    (answer = false → (store.step state (.seen key)).2 = state)

-- What either store does in one call, on its capacity and its keys.
structure Lru {σ : Type} (store : DedupStore K σ) (capacity : σ → Nat) (keys : σ → List K) :
    Prop where
  record : ∀ state key, ∃ next, store.step state (.record key) = (.ok none, next) ∧
    capacity next = capacity state ∧
    keys next = Recency.touch (capacity state) (keys state) key
  hit : ∀ state key, key ∈ keys state → ∃ next,
    store.step state (.seen key) = (.ok (some true), next) ∧ capacity next = capacity state ∧
      keys next = Recency.touch (capacity state) (keys state) key
  miss : ∀ state key, key ∉ keys state → store.step state (.seen key) = (.ok (some false), state)

omit [DecidableEq K] in
theorem touches_snoc (trace : DedupTrace K) (entry : DedupCall K × DedupAnswer) :
    touches (trace ++ [entry]) = touches trace ++ (touched entry).toList := by
  unfold touches
  rw [List.filterMap_append]
  cases h : touched entry <;> simp [h]

namespace Lru

variable {σ τ : Type} {store : DedupStore K σ} {capacity : σ → Nat} {keys : σ → List K}
  {other : DedupStore K τ} {capacity' : τ → Nat} {keys' : τ → List K} {start state : σ}
  {trace : DedupTrace K}

-- It is enough to know `seen` and `record` by their weakest preconditions.
theorem of_wp
    (hseen : ∀ (state : σ) (key : K) (Q : Except Failure Bool → σ → Prop),
      (∀ next, key ∈ keys state → capacity next = capacity state →
        keys next = Recency.touch (capacity state) (keys state) key → Q (.ok true) next) →
      (key ∉ keys state → Q (.ok false) state) → wp (store.seen key) Q state)
    (hrecord : ∀ (state : σ) (key : K) (Q : Except Failure Unit → σ → Prop),
      (∀ next, capacity next = capacity state →
        keys next = Recency.touch (capacity state) (keys state) key → Q (.ok ()) next) →
      wp (store.record key) Q state) :
    Lru store capacity keys where
  record state key := by
    have h : wp (store.perform (.record key)) (fun answer next => ∃ last, (answer, next) =
        (.ok none, last) ∧ capacity last = capacity state ∧
          keys last = Recency.touch (capacity state) (keys state) key) state := by
      simp only [DedupStore.perform, wp_map]
      exact hrecord state key _ fun next hcapacity hkeys => ⟨next, rfl, hcapacity, hkeys⟩
    exact wp_iff_outcome.mp h
  hit state key hkey := by
    have h : wp (store.perform (.seen key)) (fun answer next => ∃ last, (answer, next) =
        (.ok (some true), last) ∧ capacity last = capacity state ∧
          keys last = Recency.touch (capacity state) (keys state) key) state := by
      simp only [DedupStore.perform, wp_map]
      apply hseen
      · exact fun next _ hcapacity hkeys => ⟨next, rfl, hcapacity, hkeys⟩
      · exact fun hmiss => absurd hkey hmiss
    exact wp_iff_outcome.mp h
  miss state key hkey := by
    have h : wp (store.perform (.seen key))
        (fun answer next => (answer, next) = (.ok (some false), state)) state := by
      simp only [DedupStore.perform, wp_map]
      apply hseen
      · exact fun _ hhit => absurd hhit hkey
      · exact fun _ => rfl
    exact wp_iff_outcome.mp h

-- The keys of a store are the window of all touches so far.
theorem keys_eq_window (hlru : Lru store capacity keys) (hempty : keys start = [])
    (hrun : Run store.step (fun _ _ => True) start trace state) :
    capacity state = capacity start ∧
      keys state = Recency.window (capacity start) (touches trace) := by
  induction hrun with
  | nil => exact ⟨rfl, hempty⟩
  | @snoc trace state call hrun _ ih =>
      obtain ⟨hcapacity, hkeys⟩ := ih
      rw [touches_snoc]
      cases call with
      | record key =>
          obtain ⟨next, hstep, hnext, htouch⟩ := hlru.record state key
          rw [hstep]
          refine ⟨hnext.trans hcapacity, ?_⟩
          rw [htouch, hcapacity, hkeys, ← Recency.window_snoc]
          rfl
      | seen key =>
          by_cases hkey : key ∈ keys state
          · obtain ⟨next, hstep, hnext, htouch⟩ := hlru.hit state key hkey
            rw [hstep]
            refine ⟨hnext.trans hcapacity, ?_⟩
            rw [htouch, hcapacity, hkeys, ← Recency.window_snoc]
            rfl
          · rw [hlru.miss state key hkey]
            refine ⟨hcapacity, ?_⟩
            rw [hkeys]
            exact congrArg _ (List.append_nil _).symm

-- Nothing is touched that was not recorded first.
theorem recorded_of_touched (hlru : Lru store capacity keys) (hempty : keys start = [])
    (hrun : Run store.step (fun _ _ => True) start trace state) :
    ∀ key ∈ touches trace, ∃ answer, (DedupCall.record key, answer) ∈ trace := by
  induction hrun with
  | nil => simp [touches]
  | @snoc trace state call hrun _ ih =>
      intro key hkey
      rw [touches_snoc, List.mem_append] at hkey
      have hold : key ∈ touches trace → ∃ answer,
          (DedupCall.record key, answer) ∈ trace ++ [(call, (store.step state call).1)] := by
        intro hpast
        exact (ih key hpast).imp fun _ hmem => List.mem_append_left _ hmem
      rcases hkey with hpast | hnew
      · exact hold hpast
      · cases call with
        | record used =>
            have hused : key = used := by simpa [touched] using hnew
            rw [hused]
            exact ⟨_, List.mem_append_right _ (List.mem_singleton.mpr rfl)⟩
        | seen used =>
            by_cases hhit : used ∈ keys state
            · obtain ⟨next, hstep, -, -⟩ := hlru.hit state used hhit
              have hused : key = used := by simpa [hstep, touched] using hnew
              apply hold
              rw [(hlru.keys_eq_window hempty hrun).2] at hhit
              rw [hused]
              exact Recency.mem_of_mem_window hhit
            · simp [hlru.miss state used hhit, touched] at hnew

theorem mem_keys_iff (hlru : Lru store capacity keys) (hempty : keys start = [])
    (hrun : Run store.step (fun _ _ => True) start trace state) (key : K) :
    key ∈ keys state ↔ Remembered (capacity start) trace key := by
  rw [(hlru.keys_eq_window hempty hrun).2]
  constructor
  · intro hkey
    have huse := Recency.mem_of_mem_window hkey
    -- the last touch is the first one from the end
    obtain ⟨after, before, hsplit, hafter⟩ := List.eq_append_cons_of_mem (List.mem_reverse.mpr huse)
    have htouches : touches trace = before.reverse ++ key :: after.reverse := by
      rw [← List.reverse_reverse (touches trace), hsplit]
      simp
    have hfresh : key ∉ after.reverse := by rwa [List.mem_reverse]
    refine ⟨hlru.recorded_of_touched hempty hrun key huse, _, _, htouches, hfresh, ?_⟩
    rw [htouches, Recency.mem_window_split hfresh] at hkey
    omega
  · rintro ⟨-, before, after, htouches, hafter, hfew⟩
    rw [htouches, Recency.mem_window_split hafter]
    omega

theorem exactWindow (hlru : Lru store capacity keys) (hempty : keys start = [])
    (hrun : Run store.step (fun _ _ => True) start trace state) :
    ExactWindow store keys (capacity start) trace state := by
  constructor
  · have hlen : (keys state).length ≤ capacity start := by
      rw [(hlru.keys_eq_window hempty hrun).2, Recency.window, Recency.evict_eq_drop,
        List.length_drop]
      omega
    omega
  · intro key
    have hmem := hlru.mem_keys_iff hempty hrun key
    by_cases hkey : key ∈ keys state
    · obtain ⟨next, hstep, -, -⟩ := hlru.hit state key hkey
      rw [hstep]
      exact ⟨true, rfl, iff_of_true rfl (hmem.mp hkey), by simp⟩
    · rw [hlru.miss state key hkey]
      have hout := mt hmem.mpr hkey
      exact ⟨false, rfl, iff_of_false (by simp) hout, fun _ => rfl⟩

-- Two stores with the same capacity and the same keys answer alike and stay alike.
theorem step_alike (hlru : Lru store capacity keys) (hother : Lru other capacity' keys')
    {state : σ} {state' : τ} (hcapacity : capacity' state' = capacity state)
    (hkeys : keys' state' = keys state) (call : DedupCall K) :
    (other.step state' call).1 = (store.step state call).1 ∧
      capacity' (other.step state' call).2 = capacity (store.step state call).2 ∧
      keys' (other.step state' call).2 = keys (store.step state call).2 := by
  cases call with
  | record key =>
      obtain ⟨next, hstep, hnext, htouch⟩ := hlru.record state key
      obtain ⟨next', hstep', hnext', htouch'⟩ := hother.record state' key
      rw [hstep, hstep']
      refine ⟨rfl, by rw [hnext, hnext', hcapacity], ?_⟩
      rw [htouch, htouch', hcapacity, hkeys]
  | seen key =>
      by_cases hkey : key ∈ keys state
      · obtain ⟨next, hstep, hnext, htouch⟩ := hlru.hit state key hkey
        rw [← hkeys] at hkey
        obtain ⟨next', hstep', hnext', htouch'⟩ := hother.hit state' key hkey
        rw [hstep, hstep']
        refine ⟨rfl, by rw [hnext, hnext', hcapacity], ?_⟩
        rw [htouch, htouch', hcapacity, hkeys]
      · rw [hlru.miss state key hkey]
        rw [← hkeys] at hkey
        rw [hother.miss state' key hkey]
        exact ⟨rfl, hcapacity, hkeys⟩

theorem run_alike (hlru : Lru store capacity keys) (hother : Lru other capacity' keys')
    {start' : τ} (hcapacity : capacity' start' = capacity start)
    (hkeys : keys' start' = keys start)
    (hrun : Run store.step (fun _ _ => True) start trace state) :
    ∃ state', Run other.step (fun _ _ => True) start' trace state' ∧
      capacity' state' = capacity state ∧ keys' state' = keys state := by
  induction hrun with
  | nil => exact ⟨start', .nil, hcapacity, hkeys⟩
  | @snoc trace state call hrun _ ih =>
      obtain ⟨state', hrun', hcapacity', hkeys'⟩ := ih
      obtain ⟨hanswer, hnext⟩ := hlru.step_alike hother hcapacity' hkeys' call
      refine ⟨(other.step state' call).2, ?_, hnext⟩
      rw [← hanswer]
      exact hrun'.snoc call trivial

end Lru

end Lru

section InMemory

variable (K : Type) [DecidableEq K]

theorem InMemoryDedupStore.lru :
    Lru (InMemoryDedupStore.store (K := K)) InMemoryDedupStore.capacity
      InMemoryDedupStore.keys :=
  .of_wp (fun state key _ => state.wp_seen key) fun state key _ => state.wp_record key

theorem TypeScript.InMemoryDedupStore.lru :
    Lru (TypeScript.InMemoryDedupStore.store (K := K)) TypeScript.InMemoryDedupStore.capacity
      TypeScript.InMemoryDedupStore.keys :=
  .of_wp (fun state key _ => state.wp_seen key) fun state key _ => state.wp_record key

end InMemory

-- The window of the store itself, after every history of calls and in both languages,
-- whose answers are the same.
theorem lru_window {K : Type} [DecidableEq K] {capacity : Int} (hcapacity : 1 ≤ capacity) :
    ∃ (start : InMemoryDedupStore K) (start' : TypeScript.InMemoryDedupStore K),
      InMemoryDedupStore.init capacity = .ok start ∧
        TypeScript.InMemoryDedupStore.init capacity = .ok start' ∧
        start.keys = [] ∧ start'.keys = [] ∧
        ∀ trace state, Run InMemoryDedupStore.store.step (fun _ _ => True) start trace state →
          ExactWindow InMemoryDedupStore.store InMemoryDedupStore.keys capacity trace state ∧
            ∃ state', Run TypeScript.InMemoryDedupStore.store.step (fun _ _ => True) start'
                trace state' ∧
              ExactWindow TypeScript.InMemoryDedupStore.store
                TypeScript.InMemoryDedupStore.keys capacity trace state' := by
  have hlow : ¬ capacity < 1 := by omega
  have hsize : ((capacity.toNat : Nat) : Int) = capacity := by omega
  have hinit : InMemoryDedupStore.init (K := K) capacity = .ok _ := dif_neg hlow
  have hinit' : TypeScript.InMemoryDedupStore.init (K := K) capacity = .ok _ := dif_neg hlow
  refine ⟨_, _, hinit, hinit', rfl, rfl, ?_⟩
  intro trace state hrun
  have hexact := (InMemoryDedupStore.lru K).exactWindow rfl hrun
  rw [hsize] at hexact
  refine ⟨hexact, ?_⟩
  -- both stores begin with this capacity and no keys
  generalize hstart : (⟨capacity.toNat, [], _, _, _⟩ : TypeScript.InMemoryDedupStore K) = start'
  have hcapacity' : start'.capacity = capacity.toNat := by rw [← hstart]
  have hempty' : start'.keys = [] := by rw [← hstart]
  obtain ⟨state', hrun', -, -⟩ := (InMemoryDedupStore.lru K).run_alike
    (TypeScript.InMemoryDedupStore.lru K) hcapacity' hempty' hrun
  have hexact' := (TypeScript.InMemoryDedupStore.lru K).exactWindow hempty' hrun'
  rw [hcapacity', hsize] at hexact'
  exact ⟨state', hrun', hexact'⟩

-- With room for two keys, a key that was looked up outlives an older one.
def lookups : List (DedupCall String) :=
  [.record "a", .record "b", .seen "a", .record "c"]

theorem lru_window_evicts : ∃ (start state : InMemoryDedupStore String)
    (trace : DedupTrace String) (start' state' : TypeScript.InMemoryDedupStore String),
    InMemoryDedupStore.init 2 = .ok start ∧ TypeScript.InMemoryDedupStore.init 2 = .ok start' ∧
      Run InMemoryDedupStore.store.step (fun _ _ => True) start trace state ∧
      Run TypeScript.InMemoryDedupStore.store.step (fun _ _ => True) start' trace state' ∧
      state.keys = ["a", "c"] ∧
      ExactWindow InMemoryDedupStore.store InMemoryDedupStore.keys 2 trace state ∧
      ExactWindow TypeScript.InMemoryDedupStore.store TypeScript.InMemoryDedupStore.keys 2 trace
        state' := by
  obtain ⟨start, start', hinit, hinit', -, -, hall⟩ := @lru_window String _ 2 (by decide)
  obtain rfl := Except.ok.inj hinit
  obtain ⟨trace, hrun⟩ := Run.of_inputs InMemoryDedupStore.store.step _ lookups
  obtain ⟨hwindow, state', hrun', hwindow'⟩ := hall trace _ hrun
  exact ⟨_, _, trace, start', state', rfl, hinit', hrun, hrun', by decide, hwindow, hwindow'⟩

end TrustlistCore.EventBus
