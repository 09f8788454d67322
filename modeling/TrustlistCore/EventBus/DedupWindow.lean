import TrustlistCore.EventBus.Consumer.Theorems
import TrustlistCore.EventBus.TypeScript.Consumer
import TrustlistCore.Library.Journal

namespace TrustlistCore.EventBus

open Library

section Discipline

variable {TopicPartition Bytes K : Type} [DecidableEq K]

-- The keys a stretch of the journal recorded in the store or hit there.
def used : List (Action TopicPartition Bytes K) → List K
  | [] => []
  | .recorded key :: rest => key :: used rest
  | .duplicate _ key :: rest => key :: used rest
  | _ :: rest => used rest

-- A message is only skipped after a success for its key, and between two successes for
-- one key at least `capacity` other keys were used.
structure Deduplicates (capacity : Nat) (journal : List (Action TopicPartition Bytes K)) :
    Prop where
  skipped : Journal.Holds (fun past entry => ∀ message key, entry = .duplicate message key →
    ∃ earlier, .handled earlier key ∈ past) journal
  repeated : Journal.Holds (fun past entry => ∀ message key, entry = .handled message key →
    ∀ before earlier between, past = before ++ .handled earlier key :: between →
      capacity ≤ ((used between).toFinset.erase key).card) journal

-- What a consumer has to do with its store, whatever else it does: skip the keys it
-- finds, record the keys it handles, and touch the store for no other reason.
inductive Disciplined (capacity : Nat) :
    List (Action TopicPartition Bytes K) → List K → Prop
  | start : Disciplined capacity [] []
  | delivered {journal : List (Action TopicPartition Bytes K)} {keys : List K}
      (message : Message TopicPartition Bytes) (h : Disciplined capacity journal keys) :
      Disciplined capacity (journal ++ [.delivered message]) keys
  | committed {journal : List (Action TopicPartition Bytes K)} {keys : List K}
      (partition : TopicPartition) (offset : Nat) (h : Disciplined capacity journal keys) :
      Disciplined capacity (journal ++ [.committed partition offset]) keys
  | skip {journal : List (Action TopicPartition Bytes K)} {keys : List K}
      (message : Message TopicPartition Bytes) {key : K} (hkey : key ∈ keys)
      (h : Disciplined capacity journal keys) :
      Disciplined capacity (journal ++ [.duplicate message key])
        (Recency.touch capacity keys key)
  | handle {journal : List (Action TopicPartition Bytes K)} {keys : List K}
      (message : Message TopicPartition Bytes) {key : K} (hkey : key ∉ keys)
      (h : Disciplined capacity journal keys) :
      Disciplined capacity (journal ++ [.handled message key] ++ [.recorded key])
        (Recency.touch capacity keys key)

omit [DecidableEq K] in
theorem used_append (journal after : List (Action TopicPartition Bytes K)) :
    used (journal ++ after) = used journal ++ used after := by
  induction journal with
  | nil => rfl
  | cons action rest ih => cases action <;> simp [used, ih]

namespace Disciplined

variable {capacity : Nat} {journal : List (Action TopicPartition Bytes K)} {keys : List K}

theorem nodup (h : Disciplined capacity journal keys) : keys.Nodup := by
  induction h with
  | start => exact List.nodup_nil
  | delivered message h ih => exact ih
  | committed partition offset h ih => exact ih
  | skip message hkey h ih => exact Recency.touch_nodup _ ih _
  | handle message hkey h ih => exact Recency.touch_nodup _ ih _

-- Whatever is in the store was put there after a success.
theorem mem_keys (h : Disciplined capacity journal keys) :
    ∀ key ∈ keys, ∃ message, .handled message key ∈ journal := by
  induction h with
  | start => simp
  | delivered message h ih =>
      intro key hk
      exact (ih key hk).imp fun _ hm => List.mem_append_left _ hm
  | committed partition offset h ih =>
      intro key hk
      exact (ih key hk).imp fun _ hm => List.mem_append_left _ hm
  | skip message hkey h ih =>
      intro key hk
      have hold : key ∈ _ := (Recency.mem_touch_of hk).elim (fun heq => heq ▸ hkey) id
      exact (ih key hold).imp fun _ hm => List.mem_append_left _ hm
  | @handle journal keys message newKey hkey h ih =>
      intro key hk
      rcases Recency.mem_touch_of hk with rfl | hold
      · exact ⟨message, by simp⟩
      · exact (ih key hold).imp fun _ hm => by simp [hm]

-- A key that was handled is in the store, with only later keys younger than it, or has
-- been pushed out by enough of them.
theorem aged (hpos : 1 ≤ capacity) (h : Disciplined capacity journal keys) :
    ∀ past message key later, journal = past ++ .handled message key :: later →
      Recency.Aged capacity key keys (used later) := by
  induction h with
  | start => simp
  | delivered delivered h ih =>
      intro past message key later hsplit
      rcases Journal.snoc_eq_split.mp hsplit with ⟨-, -, ⟨⟩⟩ | ⟨rest, rfl, hrest⟩
      have haged := ih past message key rest hrest
      rw [used_append]
      simpa [used] using haged
  | committed partition offset h ih =>
      intro past message key later hsplit
      rcases Journal.snoc_eq_split.mp hsplit with ⟨-, -, ⟨⟩⟩ | ⟨rest, rfl, hrest⟩
      have haged := ih past message key rest hrest
      rw [used_append]
      simpa [used] using haged
  | @skip journal keys duplicate hit hkey h ih =>
      intro past message key later hsplit
      rcases Journal.snoc_eq_split.mp hsplit with ⟨-, -, ⟨⟩⟩ | ⟨rest, rfl, hrest⟩
      rw [used_append]
      by_cases heq : hit = key
      · subst heq
        exact Recency.aged_mono (Recency.aged_touch_self hpos hit keys) (by simp)
      · exact Recency.aged_touch h.nodup (ih past message key rest hrest) heq
  | @handle journal keys handled fresh hkey h ih =>
      intro past message key later hsplit
      rcases Journal.snoc_eq_split.mp hsplit with ⟨-, -, ⟨⟩⟩ | ⟨rest, rfl, hrest⟩
      rw [used_append]
      rcases Journal.snoc_eq_split.mp hrest with ⟨rfl, -, ⟨⟩⟩ | ⟨older, rfl, holder⟩
      · exact Recency.aged_mono (Recency.aged_touch_self hpos fresh keys) (by simp)
      · by_cases heq : fresh = key
        · subst heq
          exact Recency.aged_mono (Recency.aged_touch_self hpos fresh keys) (by simp)
        · have haged := Recency.aged_touch h.nodup (ih past message key older holder) heq
          rw [used_append]
          simpa [used] using haged

theorem deduplicates (hpos : 1 ≤ capacity) (h : Disciplined capacity journal keys) :
    Deduplicates capacity journal := by
  induction h with
  | start => exact ⟨Journal.holds_nil _, Journal.holds_nil _⟩
  | delivered message h ih =>
      constructor
      · exact Journal.holds_snoc.mpr ⟨ih.skipped, by rintro _ _ ⟨⟩⟩
      · exact Journal.holds_snoc.mpr ⟨ih.repeated, by rintro _ _ ⟨⟩⟩
  | committed partition offset h ih =>
      constructor
      · exact Journal.holds_snoc.mpr ⟨ih.skipped, by rintro _ _ ⟨⟩⟩
      · exact Journal.holds_snoc.mpr ⟨ih.repeated, by rintro _ _ ⟨⟩⟩
  | skip message hkey h ih =>
      constructor
      · refine Journal.holds_snoc.mpr ⟨ih.skipped, ?_⟩
        rintro _ key ⟨⟩
        exact h.mem_keys _ hkey
      · exact Journal.holds_snoc.mpr ⟨ih.repeated, by rintro _ _ ⟨⟩⟩
  | handle message hkey h ih =>
      constructor
      · rw [Journal.holds_snoc, Journal.holds_snoc]
        exact ⟨⟨ih.skipped, by rintro _ _ ⟨⟩⟩, by rintro _ _ ⟨⟩⟩
      · rw [Journal.holds_snoc, Journal.holds_snoc]
        refine ⟨⟨ih.repeated, ?_⟩, by rintro _ _ ⟨⟩⟩
        -- the key was gone when it was handled again
        rintro _ key ⟨⟩ before earlier between rfl
        exact (h.aged hpos before earlier _ between rfl).enough hkey

end Disciplined

end Discipline

namespace InMemoryDedupStore

variable {K : Type} [DecidableEq K] (self : InMemoryDedupStore K)

theorem wp_seen {Q : Except Failure Bool → InMemoryDedupStore K → Prop} (key : K)
    (hhit : ∀ next, key ∈ self.keys → next.capacity = self.capacity →
      next.keys = Recency.touch self.capacity self.keys key → Q (.ok true) next)
    (hmiss : key ∉ self.keys → Q (.ok false) self) : wp (seen key) Q self := by
  unfold seen
  simp only [wp_bind, wp_get]
  split
  · rename_i h
    exact hhit _ h rfl (Recency.touch_of_mem self.bounded h).symm
  · rename_i h
    exact hmiss h

theorem wp_record {Q : Except Failure Unit → InMemoryDedupStore K → Prop} (key : K)
    (h : ∀ next, next.capacity = self.capacity →
      next.keys = Recency.touch self.capacity self.keys key → Q (.ok ()) next) :
    wp (record key) Q self :=
  h (self.extended key) rfl (recorded_eq_touch _ _ _)

end InMemoryDedupStore

namespace EventConsumer

variable {TopicPartition Bytes Envelope K : Type} [DecidableEq TopicPartition] [DecidableEq K]

-- The consumer with the store it uses when none is given.
def inMemory (log : Log TopicPartition Bytes) (fromBytes : Bytes → Except Failure Envelope)
    (idempotencyKey : Envelope → Except Failure K) :
    EventConsumer TopicPartition Bytes Envelope K (InMemoryDedupStore K) where
  log := log
  fromBytes := fromBytes
  idempotencyKey := idempotencyKey
  dedup := InMemoryDedupStore.store

-- The consumer's journal and its store follow the discipline.
def Follows (capacity : Nat)
    (state : ConsumerState TopicPartition Bytes K (InMemoryDedupStore K)) : Prop :=
  state.dedup.capacity = capacity ∧ Disciplined capacity state.journal state.dedup.keys

variable (log : Log TopicPartition Bytes) (fromBytes : Bytes → Except Failure Envelope)
  (idempotencyKey : Envelope → Except Failure K) {capacity : Nat}

theorem follows_commit (poll : Poll TopicPartition Envelope)
    (message : Message TopicPartition Bytes)
    (state : ConsumerState TopicPartition Bytes K (InMemoryDedupStore K))
    (h : Follows capacity state) :
    wp (commit poll message) (fun _ next => Follows capacity next) state := by
  rw [wp_commit]
  cases poll.commitFailure with
  | some text => exact h
  | none => exact ⟨h.1, h.2.committed _ _⟩

theorem follows_process (poll : Poll TopicPartition Envelope)
    (message : Message TopicPartition Bytes)
    (state : ConsumerState TopicPartition Bytes K (InMemoryDedupStore K))
    (h : Follows capacity state) :
    wp ((inMemory log fromBytes idempotencyKey).process poll message)
      (fun _ next => Follows capacity next) state := by
  unfold process
  simp only [wp_bind, wp_ofExcept]
  cases (inMemory log fromBytes idempotencyKey).decode message with
  | error failure => exact h
  | ok envelope =>
      simp only
      cases check (poll.validate envelope) with
      | error failure => exact h
      | ok _ =>
          simp only
          cases (inMemory log fromBytes idempotencyKey).idempotencyKey envelope with
          | error failure => exact h
          | ok key =>
              simp only [wp_onDedup]
              obtain ⟨hcapacity, hdisciplined⟩ := h
              apply InMemoryDedupStore.wp_seen
              · intro next hkey hnext hkeys
                simp only [↓reduceIte, wp_bind, wp_act]
                rw [hcapacity] at hkeys
                apply wp_mono (follows_commit poll message _ ⟨hnext.trans hcapacity, by
                  simp only [hkeys]
                  exact hdisciplined.skip message hkey⟩)
                intro answer last hlast
                cases answer <;> exact hlast
              · intro hkey
                simp only [Bool.false_eq_true, ↓reduceIte, wp_bind, wp_ofExcept]
                cases check (poll.handler envelope) with
                | error failure => exact ⟨hcapacity, hdisciplined⟩
                | ok _ =>
                    simp only [wp_act, wp_onDedup]
                    apply InMemoryDedupStore.wp_record
                    intro next hnext hkeys
                    rw [hcapacity] at hkeys
                    simp only
                    apply wp_mono (follows_commit poll message _ ⟨hnext.trans hcapacity, by
                      simp only [hkeys]
                      exact hdisciplined.handle message hkey⟩)
                    intro answer last hlast
                    cases answer <;> exact hlast

theorem follows_pollOnce (poll : Poll TopicPartition Envelope)
    (state : ConsumerState TopicPartition Bytes K (InMemoryDedupStore K))
    (h : Follows capacity state) :
    wp ((inMemory log fromBytes idempotencyKey).pollOnce poll)
      (fun _ next => Follows capacity next) state := by
  unfold pollOnce
  cases poll.answer with
  | timeout => exact h
  | partitionEof => exact h
  | error text => exact h
  | message partition =>
      simp only [wp_bind, wp_nextMessage]
      cases List.find? _ ((inMemory log fromBytes idempotencyKey).log.messages partition) with
      | none => exact h
      | some message =>
          simp only [wp_map]
          exact follows_process log fromBytes idempotencyKey poll message _
            ⟨h.1, h.2.delivered message⟩

theorem follows_run (maxEvents : Option Nat) (polls : List (Poll TopicPartition Envelope))
    (processed : Nat) (state : ConsumerState TopicPartition Bytes K (InMemoryDedupStore K))
    (h : Follows capacity state) :
    wp ((inMemory log fromBytes idempotencyKey).run maxEvents processed polls)
      (fun _ next => Follows capacity next) state := by
  induction polls generalizing processed state with
  | nil => exact h
  | cons poll rest ih =>
      unfold run
      split
      · exact h
      · simp only [wp_bind]
        apply wp_mono (follows_pollOnce log fromBytes idempotencyKey poll state h)
        intro answer next hnext
        cases answer with
        | error failure => exact hnext
        | ok envelope => exact ih _ next hnext

theorem follows_step (state : ConsumerState TopicPartition Bytes K (InMemoryDedupStore K))
    (event : ConsumerEvent TopicPartition Envelope) (h : Follows capacity state) :
    Follows capacity ((inMemory log fromBytes idempotencyKey).step state event).2 := by
  cases event with
  | pollOnce poll =>
      exact (wp_step_pollOnce _ poll state fun _ next => Follows capacity next).mp
        (follows_pollOnce log fromBytes idempotencyKey poll state h)
  | run maxEvents polls =>
      exact (wp_step_run _ maxEvents polls state fun _ next => Follows capacity next).mp
        (follows_run log fromBytes idempotencyKey maxEvents polls 0 state h)
  | reassign partition => exact h

end EventConsumer

namespace TypeScript

namespace InMemoryDedupStore

variable {K : Type} [DecidableEq K] (self : InMemoryDedupStore K)

theorem wp_seen {Q : Except Failure Bool → InMemoryDedupStore K → Prop} (key : K)
    (hhit : ∀ next, key ∈ self.keys → next.capacity = self.capacity →
      next.keys = Recency.touch self.capacity self.keys key → Q (.ok true) next)
    (hmiss : key ∉ self.keys → Q (.ok false) self) : wp (seen key) Q self := by
  unfold seen
  simp only [wp_bind, wp_get]
  split
  · rename_i h
    refine hhit _ h rfl ?_
    rw [Recency.touch_of_mem self.bounded h, ← set_delete self.nodup]
    rfl
  · rename_i h
    exact hmiss h

theorem wp_record {Q : Except Failure Unit → InMemoryDedupStore K → Prop} (key : K)
    (h : ∀ next, next.capacity = self.capacity →
      next.keys = Recency.touch self.capacity self.keys key → Q (.ok ()) next) :
    wp (record key) Q self :=
  h (self.extended key) rfl (recorded_eq_touch _ self.nodup _)

end InMemoryDedupStore

namespace EventConsumer

variable {TopicPartition Bytes Envelope K : Type} [DecidableEq TopicPartition] [DecidableEq K]

def Follows (capacity : Nat) (state : ConsumerState TopicPartition Bytes K) : Prop :=
  state.dedup.capacity = capacity ∧ Disciplined capacity state.journal state.dedup.keys

variable (self : EventConsumer Bytes Envelope K) {capacity : Nat}

omit [DecidableEq TopicPartition] in
@[simp] theorem wp_act {Q : Except Failure Unit → ConsumerState TopicPartition Bytes K → Prop}
    (action : Action TopicPartition Bytes K) (state : ConsumerState TopicPartition Bytes K) :
    wp (act action) Q state ↔ Q (.ok ()) { state with journal := state.journal ++ [action] } :=
  Iff.rfl

omit [DecidableEq TopicPartition] in
@[simp] theorem wp_onDedup {α : Type}
    {Q : Except Failure α → ConsumerState TopicPartition Bytes K → Prop}
    (method : EStateM Failure (InMemoryDedupStore K) α)
    (state : ConsumerState TopicPartition Bytes K) :
    wp (onDedup method) Q state ↔
      wp method (fun answer dedup => Q answer { state with dedup := dedup }) state.dedup := by
  unfold onDedup
  rw [wp_zoom]

theorem follows_commit (payload : EachMessage TopicPartition Bytes Envelope)
    (state : ConsumerState TopicPartition Bytes K) (h : Follows capacity state) :
    wp (commit payload) (fun _ next => Follows capacity next) state := by
  unfold commit
  simp only [wp_bind, wp_ofExcept]
  cases check payload.commitFailure with
  | error failure => exact h
  | ok _ => exact ⟨h.1, h.2.committed _ _⟩

theorem follows_processMessage (payload : EachMessage TopicPartition Bytes Envelope)
    (state : ConsumerState TopicPartition Bytes K) (h : Follows capacity state) :
    wp (self.processMessage payload) (fun _ next => Follows capacity next) state := by
  unfold processMessage
  cases payload.handler with
  | none => exact h
  | some handler =>
      have hdelivered := h.2.delivered payload.message
      simp only [wp_bind, wp_act, wp_ofExcept]
      cases self.decode payload.message.value with
      | error failure => exact ⟨h.1, hdelivered⟩
      | ok envelope =>
          simp only
          cases check (payload.validate envelope) with
          | error failure => exact ⟨h.1, hdelivered⟩
          | ok _ =>
              simp only [wp_onDedup]
              apply InMemoryDedupStore.wp_seen
              · intro next hkey hnext hkeys
                simp only [↓reduceIte, wp_bind, wp_act]
                rw [h.1] at hkeys
                apply wp_mono (follows_commit payload _ ⟨hnext.trans h.1, by
                  simp only [hkeys]
                  exact hdelivered.skip payload.message hkey⟩)
                intro answer last hlast
                cases answer with
                | error failure => exact hlast
                | ok _ =>
                    simp only [wp_ofExcept]
                    cases check (payload.onProcessed envelope true) <;> exact hlast
              · intro hkey
                simp only [Bool.false_eq_true, ↓reduceIte, wp_bind, wp_ofExcept]
                cases check (handler envelope) with
                | error failure => exact ⟨h.1, hdelivered⟩
                | ok _ =>
                    simp only [wp_act, wp_onDedup]
                    apply InMemoryDedupStore.wp_record
                    intro next hnext hkeys
                    rw [h.1] at hkeys
                    simp only
                    apply wp_mono (follows_commit payload _ ⟨hnext.trans h.1, by
                      simp only [hkeys]
                      exact hdelivered.handle payload.message hkey⟩)
                    intro answer last hlast
                    cases answer <;> exact hlast

theorem follows_step (state : ConsumerState TopicPartition Bytes K)
    (payload : EachMessage TopicPartition Bytes Envelope) (h : Follows capacity state) :
    Follows capacity (self.step state payload).2 := by
  have hprocess := follows_processMessage self payload state h
  unfold wp at hprocess
  unfold step
  cases hrun : (self.processMessage payload).run state with
  | ok value next =>
      rw [hrun] at hprocess
      exact hprocess
  | error failure next =>
      rw [hrun] at hprocess
      exact hprocess

end EventConsumer

end TypeScript

-- The window of both consumers: over every run from an empty store, whatever decodes,
-- validates, raises or fails to commit on the way.
theorem dedup_window {TopicPartition Bytes Envelope K : Type} [DecidableEq TopicPartition]
    [DecidableEq K] (capacity : Int) :
    (∀ (log : Log TopicPartition Bytes) (fromBytes : Bytes → Except Failure Envelope)
        (idempotencyKey : Envelope → Except Failure K)
        (start state : ConsumerState TopicPartition Bytes K (InMemoryDedupStore K))
        (trace : List (EventConsumer.ConsumerEvent TopicPartition Envelope × Except Failure Nat)),
      InMemoryDedupStore.init capacity = .ok start.dedup → start.journal = [] →
        Run (EventConsumer.inMemory log fromBytes idempotencyKey).step (fun _ _ => True)
          start trace state →
        Deduplicates capacity.toNat state.journal) ∧
    (∀ (consumer : TypeScript.EventConsumer Bytes Envelope K)
        (start state : TypeScript.ConsumerState TopicPartition Bytes K)
        (trace : List (TypeScript.EachMessage TopicPartition Bytes Envelope ×
          Except Failure Unit)),
      TypeScript.InMemoryDedupStore.init capacity = .ok start.dedup → start.journal = [] →
        Run consumer.step (fun _ _ => True) start trace state →
        Deduplicates capacity.toNat state.journal) := by
  constructor
  · intro log fromBytes idempotencyKey start state trace hinit hjournal hrun
    unfold InMemoryDedupStore.init at hinit
    split at hinit
    · cases hinit
    · rename_i hcapacity
      injection hinit with hinit
      have hfollows : EventConsumer.Follows capacity.toNat state := by
        refine hrun.invariant (P := EventConsumer.Follows capacity.toNat)
          (fun state event h _ =>
            EventConsumer.follows_step log fromBytes idempotencyKey state event h) ?_
        constructor
        · rw [← hinit]
        · rw [← hinit, hjournal]
          exact .start
      exact hfollows.2.deduplicates (by omega)
  · intro consumer start state trace hinit hjournal hrun
    unfold TypeScript.InMemoryDedupStore.init at hinit
    split at hinit
    · cases hinit
    · rename_i hcapacity
      injection hinit with hinit
      have hfollows : TypeScript.EventConsumer.Follows capacity.toNat state := by
        refine hrun.invariant (P := TypeScript.EventConsumer.Follows capacity.toNat)
          (fun state payload h _ =>
            TypeScript.EventConsumer.follows_step consumer state payload h) ?_
        constructor
        · rw [← hinit]
        · rw [← hinit, hjournal]
          exact .start
      exact hfollows.2.deduplicates (by omega)

-- The same event delivered twice, with a store that holds one key.
def redeliveredLog : Log Unit String where
  messages := fun _ => [⟨(), 0, some "m-0"⟩, ⟨(), 1, some "m-0"⟩]
  own := by simp
  ordered := by simp

def redelivered : EventConsumer Unit String String String (InMemoryDedupStore String) :=
  EventConsumer.inMemory redeliveredLog .ok .ok

def smallWindow : InMemoryDedupStore String where
  capacity := 1
  keys := []
  positive := Nat.le_refl 1
  nodup := List.nodup_nil
  bounded := Nat.zero_le _

def beforeDelivery : ConsumerState Unit String String (InMemoryDedupStore String) where
  position := fun _ => 0
  committed := fun _ => 0
  dedup := smallWindow
  journal := []

def pollReturning : Poll Unit String where
  answer := .message ()
  validate := fun _ => none
  handler := fun _ => none
  commitFailure := none

def afterRedelivery : ConsumerState Unit String String (InMemoryDedupStore String) :=
  (redelivered.step beforeDelivery (.run none [pollReturning, pollReturning])).2

def beforeCallback : TypeScript.ConsumerState Unit String String where
  committed := fun _ => 0
  dedup := ⟨1, [], Nat.le_refl 1, List.nodup_nil, Nat.zero_le _⟩
  journal := []

def afterCallback : TypeScript.ConsumerState Unit String String :=
  ((⟨.ok, id⟩ : TypeScript.EventConsumer String String String).step beforeCallback
    { message := ⟨(), 0, some "m-0"⟩, handler := some (fun _ => none), validate := fun _ => none,
      commitFailure := none, onProcessed := fun _ _ => none }).2

theorem dedup_window_redelivery :
    Deduplicates 1 afterRedelivery.journal ∧ Deduplicates 1 afterCallback.journal := by
  constructor
  · have hstart : Run redelivered.step (fun _ _ => True) beforeDelivery [] beforeDelivery := .nil
    have hrun := hstart.snoc (.run none [pollReturning, pollReturning]) trivial
    exact (dedup_window 1).1 redeliveredLog .ok .ok beforeDelivery afterRedelivery _ rfl rfl hrun
  · have hstart : Run (⟨.ok, id⟩ : TypeScript.EventConsumer String String String).step
        (fun _ _ => True) beforeCallback [] beforeCallback := .nil
    exact (dedup_window 1).2 _ beforeCallback afterCallback _ rfl rfl (hstart.snoc _ trivial)

example : afterRedelivery.journal =
    [.delivered ⟨(), 0, some "m-0"⟩, .handled ⟨(), 0, some "m-0"⟩ "m-0", .recorded "m-0",
      .committed () 1, .delivered ⟨(), 1, some "m-0"⟩, .duplicate ⟨(), 1, some "m-0"⟩ "m-0",
      .committed () 2] := rfl

end TrustlistCore.EventBus
