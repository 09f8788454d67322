import TrustlistCore.EventBus.TypeScript.Consumer

namespace TrustlistCore.EventBus.TypeScript

open Library
open EventBus.EventConsumer (act onDedup)

def InMemoryDedupStore.store {K : Type} [DecidableEq K] : DedupStore K (InMemoryDedupStore K) where
  seen := InMemoryDedupStore.seen
  record := InMemoryDedupStore.record

-- A consumer over any dedup store, with the subscriptions it had when `run` was called.
structure GroupConsumer (Topic Bytes Envelope Handler K σ : Type) where
  log : Log (Topic × Nat) Bytes
  codec : EventConsumer Bytes Envelope K
  dedup : DedupStore K σ
  subscriptions : List (Topic × Handler)

-- How the surroundings of one callback answer.
structure Answers (Envelope Handler : Type) where
  validate : Envelope → Option Failure
  handle : Handler → Envelope → Option Failure
  commitFailure : Option Failure
  onProcessed : Envelope → Bool → Option Failure

-- One event of a run of kafkajs: a callback, with the offset the client goes back to if
-- it rejects; a move of the read position (a rebalance, a restart, a seek); or a change
-- of the dedup store by someone else.
inductive GroupEvent (Topic Envelope Handler σ : Type)
  | eachMessage (partition : Topic × Nat) (answers : Answers Envelope Handler) (resume : Nat)
  | resume (partition : Topic × Nat) (offset : Nat)
  | store (dedup : σ)

abbrev GroupState (Topic Bytes K σ : Type) := EventBus.ConsumerState (Topic × Nat) Bytes K σ

abbrev GroupMethod (Topic Bytes K σ : Type) := EStateM Failure (GroupState Topic Bytes K σ)

namespace GroupConsumer

variable {Topic Bytes Envelope Handler K σ : Type} [DecidableEq Topic]

-- The `Map` of the subscriptions: the last one of a topic counts.
def handlers (self : GroupConsumer Topic Bytes Envelope Handler K σ) (topic : Topic) :
    Option Handler :=
  (self.subscriptions.reverse.find? (fun subscription => subscription.1 = topic)).map Prod.snd

def commit (answers : Answers Envelope Handler) (message : Message (Topic × Nat) Bytes) :
    GroupMethod Topic Bytes K σ Unit := do
  MonadExcept.ofExcept (EventConsumer.check answers.commitFailure)
  modify fun state => { state with
    committed := Function.update state.committed message.partition (message.offset + 1) }
  act (.committed message.partition (message.offset + 1))

-- `EventConsumer.processMessage`, its store being any `DedupStore`.
def processMessage (self : GroupConsumer Topic Bytes Envelope Handler K σ)
    (answers : Answers Envelope Handler) (message : Message (Topic × Nat) Bytes) :
    GroupMethod Topic Bytes K σ Unit := do
  match self.handlers message.partition.1 with
  | none => return ()
  | some handler =>
      let envelope ← MonadExcept.ofExcept (self.codec.decode message.value)
      MonadExcept.ofExcept (EventConsumer.check (answers.validate envelope))
      let key := self.codec.idempotencyKey envelope
      if ← onDedup (self.dedup.seen key) then
        act (.duplicate message key)
        commit answers message
        MonadExcept.ofExcept (EventConsumer.check (answers.onProcessed envelope true))
        return ()
      MonadExcept.ofExcept (EventConsumer.check (answers.handle handler envelope))
      act (.handled message key)
      onDedup (self.dedup.record key)
      act (.recorded key)
      commit answers message
      MonadExcept.ofExcept (EventConsumer.check (answers.onProcessed envelope false))

-- The first message of the partition from the read position on.
def next (self : GroupConsumer Topic Bytes Envelope Handler K σ)
    (state : GroupState Topic Bytes K σ) (partition : Topic × Nat) :
    Option (Message (Topic × Nat) Bytes) :=
  (self.log.messages partition).find? (fun message => state.position partition ≤ message.offset)

def seek (partition : Topic × Nat) (offset : Nat) : GroupMethod Topic Bytes K σ Unit :=
  modify fun state => { state with position := Function.update state.position partition offset }

-- kafkajs moves past a message whose callback resolved and goes back when it rejected.
def deliver (self : GroupConsumer Topic Bytes Envelope Handler K σ)
    (answers : Answers Envelope Handler) (resume : Nat) (message : Message (Topic × Nat) Bytes) :
    GroupMethod Topic Bytes K σ Unit := do
  act (.delivered message)
  match ← catching (self.processMessage answers message) with
  | .ok _ => seek message.partition (message.offset + 1)
  | .error failure =>
      seek message.partition resume
      throw failure

def perform (self : GroupConsumer Topic Bytes Envelope Handler K σ) :
    GroupEvent Topic Envelope Handler σ → GroupMethod Topic Bytes K σ Unit
  | .eachMessage partition answers resume => do
      match self.next (← get) partition with
      | none => return ()
      | some message => self.deliver answers resume message
  | .resume partition offset => seek partition offset
  | .store dedup => modify fun state => { state with dedup := dedup }

def step (self : GroupConsumer Topic Bytes Envelope Handler K σ)
    (state : GroupState Topic Bytes K σ) (event : GroupEvent Topic Envelope Handler σ) :
    Except Failure Unit × GroupState Topic Bytes K σ :=
  match (self.perform event).run state with
  | .ok _ state => (.ok (), state)
  | .error failure state => (.error failure, state)

-- What kafkajs is relied on for: after a rejection it resumes at or before the message,
-- and it moves its position by itself only backwards or to the stored commit.
def Admissible (self : GroupConsumer Topic Bytes Envelope Handler K σ)
    (state : GroupState Topic Bytes K σ) : GroupEvent Topic Envelope Handler σ → Prop
  | .eachMessage partition _ resume =>
      ∀ message, self.next state partition = some message → resume ≤ message.offset
  | .resume partition offset =>
      offset ≤ state.position partition ∨ offset = state.committed partition
  | .store _ => True

abbrev GroupRun (self : GroupConsumer Topic Bytes Envelope Handler K σ) :=
  Library.Run self.step self.Admissible

end GroupConsumer

end TrustlistCore.EventBus.TypeScript
