import TrustlistCore.EventBus.Errors
import TrustlistCore.Library.Recency

namespace TrustlistCore.EventBus.TypeScript

open Library

-- The keys of the `Map`, in insertion order.
structure InMemoryDedupStore (K : Type) [DecidableEq K] where
  capacity : Nat
  keys : List K
  positive : 1 ≤ capacity
  nodup : keys.Nodup
  bounded : keys.length ≤ capacity

namespace InMemoryDedupStore

variable {K : Type} [DecidableEq K]

def init (capacity : Int) : Except Failure (InMemoryDedupStore K) :=
  if h : capacity < 1 then
    .error (.error "capacity must be at least 1")
  else
    .ok
      { capacity := capacity.toNat
        keys := []
        positive := Recency.one_le_toNat h
        nodup := List.nodup_nil
        bounded := Recency.length_nil_le K capacity }

def delete (keys : List K) (key : K) : List K :=
  keys.erase key

-- `Map.prototype.set`, which leaves a key that is there in its place.
def set (keys : List K) (key : K) : List K :=
  if key ∈ keys then keys else keys ++ [key]

theorem set_delete {keys : List K} (h : keys.Nodup) (key : K) :
    set (delete keys key) key = keys.erase key ++ [key] := by
  unfold set delete
  rw [if_neg h.not_mem_erase]

def refreshed (self : InMemoryDedupStore K) (key : K) (h : key ∈ self.keys) :
    InMemoryDedupStore K :=
  { self with
    keys := set (delete self.keys key) key
    nodup := by
      rw [set_delete self.nodup]
      exact Recency.nodup_erase_append self.nodup key
    bounded := by
      have hpos : 0 < self.keys.length := List.length_pos_of_mem h
      have hlen := self.bounded
      rw [set_delete self.nodup, List.length_append, List.length_erase_of_mem h,
        List.length_singleton]
      omega }

def seen (key : K) : EStateM Failure (InMemoryDedupStore K) Bool := do
  let self ← get
  if h : key ∈ self.keys then
    MonadState.set (self.refreshed key h)
    return true
  return false

-- The loop that deletes the first key while the map is too large is `evict`.
def recorded (capacity : Nat) (keys : List K) (key : K) : List K :=
  Recency.evict capacity (set (delete keys key) key)

theorem recorded_eq_touch (capacity : Nat) {keys : List K} (h : keys.Nodup) (key : K) :
    recorded capacity keys key = Recency.touch capacity keys key := by
  unfold recorded
  rw [set_delete h]
  rfl

def extended (self : InMemoryDedupStore K) (key : K) : InMemoryDedupStore K :=
  { self with
    keys := recorded self.capacity self.keys key
    nodup := by
      rw [recorded_eq_touch _ self.nodup]
      exact Recency.touch_nodup _ self.nodup key
    bounded := by
      rw [recorded_eq_touch _ self.nodup]
      exact Recency.touch_length_le _ _ _ }

def record (key : K) : EStateM Failure (InMemoryDedupStore K) Unit :=
  modify fun self => self.extended key

end InMemoryDedupStore

end TrustlistCore.EventBus.TypeScript
