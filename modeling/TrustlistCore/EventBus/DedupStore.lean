import TrustlistCore.EventBus.Errors
import TrustlistCore.Library.Recency

namespace TrustlistCore.EventBus

open Library

-- The protocol class, for stores whose state is `σ`.
structure DedupStore (K σ : Type) where
  seen : K → EStateM Failure σ Bool
  record : K → EStateM Failure σ Unit

-- The keys of the `OrderedDict`, oldest first. A dict holds a key once, and the
-- constructor refuses a capacity under one.
structure InMemoryDedupStore (K : Type) [DecidableEq K] where
  capacity : Nat
  keys : List K
  positive : 1 ≤ capacity
  nodup : keys.Nodup
  bounded : keys.length ≤ capacity

namespace InMemoryDedupStore

variable {K : Type} [DecidableEq K]

def init (capacity : Int) : Except Failure (InMemoryDedupStore K) :=
  if h : capacity < 1 then
    .error (.valueError "capacity must be at least 1")
  else
    .ok
      { capacity := capacity.toNat
        keys := []
        positive := Recency.one_le_toNat h
        nodup := List.nodup_nil
        bounded := Recency.length_nil_le K capacity }

-- `keys[key] = None`, which leaves a key that is there in its place.
def setItem (keys : List K) (key : K) : List K :=
  if key ∈ keys then keys else keys ++ [key]

def moveToEnd (keys : List K) (key : K) : List K :=
  keys.erase key ++ [key]

theorem moveToEnd_setItem (keys : List K) (key : K) :
    moveToEnd (setItem keys key) key = moveToEnd keys key := by
  unfold setItem moveToEnd
  split
  · rfl
  · rename_i h
    rw [List.erase_append_right _ h, List.erase_cons_head, List.append_nil,
      List.erase_of_not_mem h]

-- The loop `while len(keys) > capacity: popitem(last=False)` is `evict`.
def recorded (capacity : Nat) (keys : List K) (key : K) : List K :=
  Recency.evict capacity (moveToEnd (setItem keys key) key)

theorem recorded_eq_touch (capacity : Nat) (keys : List K) (key : K) :
    recorded capacity keys key = Recency.touch capacity keys key := by
  unfold recorded
  rw [moveToEnd_setItem]
  rfl

def refreshed (self : InMemoryDedupStore K) (key : K) (h : key ∈ self.keys) :
    InMemoryDedupStore K :=
  { self with
    keys := moveToEnd self.keys key
    nodup := Recency.nodup_erase_append self.nodup key
    bounded := by
      have hpos : 0 < self.keys.length := List.length_pos_of_mem h
      have hlen := self.bounded
      unfold moveToEnd
      rw [List.length_append, List.length_erase_of_mem h, List.length_singleton]
      omega }

def seen (key : K) : EStateM Failure (InMemoryDedupStore K) Bool := do
  let self ← get
  if h : key ∈ self.keys then
    set (self.refreshed key h)
    return true
  return false

def extended (self : InMemoryDedupStore K) (key : K) : InMemoryDedupStore K :=
  { self with
    keys := recorded self.capacity self.keys key
    nodup := by
      rw [recorded_eq_touch]
      exact Recency.touch_nodup _ self.nodup key
    bounded := by
      rw [recorded_eq_touch]
      exact Recency.touch_length_le _ _ _ }

def record (key : K) : EStateM Failure (InMemoryDedupStore K) Unit :=
  modify fun self => self.extended key

def store : DedupStore K (InMemoryDedupStore K) where
  seen := seen
  record := record

end InMemoryDedupStore

end TrustlistCore.EventBus
