import TrustlistCore.EventBus.DedupStore
import TrustlistCore.Library.Frame
import TrustlistCore.Library.Run

namespace TrustlistCore.EventBus

open Library

structure Message (TopicPartition Bytes : Type) where
  partition : TopicPartition
  offset : Nat
  value : Option Bytes
  deriving DecidableEq

-- The broker's log of every partition. Offsets grow along it, and need not be dense.
structure Log (TopicPartition Bytes : Type) where
  messages : TopicPartition → List (Message TopicPartition Bytes)
  own : ∀ partition, ∀ message ∈ messages partition, message.partition = partition
  ordered : ∀ partition, (messages partition).Pairwise (fun a b => a.offset < b.offset)

-- What a run does to the world, in order: the messages the client was given, the calls of
-- the handler that returned, the duplicates that were skipped and the stored commits.
inductive Action (TopicPartition Bytes K : Type)
  | delivered (message : Message TopicPartition Bytes)
  | handled (message : Message TopicPartition Bytes) (key : K)
  | duplicate (message : Message TopicPartition Bytes) (key : K)
  | recorded (key : K)
  | committed (partition : TopicPartition) (offset : Nat)

-- The client's read position and the group's stored one are separate: a poll moves the
-- first, a commit the second.
structure ConsumerState (TopicPartition Bytes K σ : Type) where
  position : TopicPartition → Nat
  committed : TopicPartition → Nat
  dedup : σ
  journal : List (Action TopicPartition Bytes K)

inductive PollAnswer (TopicPartition : Type)
  | timeout
  | partitionEof
  | error (text : String)
  | message (partition : TopicPartition)

-- One poll's surroundings: what the client answers, how the schema check and the handler
-- take the envelope, and the text of the `KafkaException` when the commit fails.
structure Poll (TopicPartition Envelope : Type) where
  answer : PollAnswer TopicPartition
  validate : Envelope → Option Failure
  handler : Envelope → Option Failure
  commitFailure : Option String

-- `idempotencyKey` answers the key as the store's dict compares it, or the `TypeError`
-- of a value that cannot be hashed.
structure EventConsumer (TopicPartition Bytes Envelope K σ : Type) where
  log : Log TopicPartition Bytes
  fromBytes : Bytes → Except Failure Envelope
  idempotencyKey : Envelope → Except Failure K
  dedup : DedupStore K σ

abbrev ConsumerMethod (TopicPartition Bytes K σ : Type) :=
  EStateM Failure (ConsumerState TopicPartition Bytes K σ)

namespace EventConsumer

variable {TopicPartition Bytes Envelope K σ : Type} [DecidableEq TopicPartition]

def act (action : Action TopicPartition Bytes K) : ConsumerMethod TopicPartition Bytes K σ Unit :=
  modify fun state => { state with journal := state.journal ++ [action] }

-- The client hands out the next message of a partition and moves past it.
def nextMessage (self : EventConsumer TopicPartition Bytes Envelope K σ)
    (partition : TopicPartition) :
    ConsumerMethod TopicPartition Bytes K σ (Option (Message TopicPartition Bytes)) := do
  let state ← get
  match (self.log.messages partition).find? (fun message =>
      state.position partition ≤ message.offset) with
  | none => return none
  | some message =>
      set { state with
        position := Function.update state.position partition (message.offset + 1) }
      act (.delivered message)
      return some message

-- Only `ValueError` and `KeyError` are turned into an `EventBusError`.
def decode (self : EventConsumer TopicPartition Bytes Envelope K σ)
    (message : Message TopicPartition Bytes) : Except Failure Envelope :=
  match message.value with
  | none => .error (.eventBusError
      "event-bus message has an empty body; cannot decode an envelope.")
  | some raw => match self.fromBytes raw with
    | .ok envelope => .ok envelope
    | .error (.valueError text) => .error (.eventBusError
        s!"event-bus message is not a valid envelope: {text}")
    | .error (.keyError text) => .error (.eventBusError
        s!"event-bus message is not a valid envelope: {text}")
    | .error failure => .error failure

def check (failure : Option Failure) : Except Failure Unit :=
  match failure with
  | none => .ok ()
  | some failure => .error failure

def onDedup {α : Type} (method : EStateM Failure σ α) : ConsumerMethod TopicPartition Bytes K σ α :=
  zoom ConsumerState.dedup (fun state dedup => { state with dedup := dedup }) method

def commit (poll : Poll TopicPartition Envelope) (message : Message TopicPartition Bytes) :
    ConsumerMethod TopicPartition Bytes K σ Unit := do
  match poll.commitFailure with
  | some text => throw (.eventBusError s!"failed to commit offset: {text}")
  | none =>
      modify fun state => { state with
        committed := Function.update state.committed message.partition (message.offset + 1) }
      act (.committed message.partition (message.offset + 1))

-- The consume contract for a message the client has handed out.
def process (self : EventConsumer TopicPartition Bytes Envelope K σ)
    (poll : Poll TopicPartition Envelope) (message : Message TopicPartition Bytes) :
    ConsumerMethod TopicPartition Bytes K σ Envelope := do
  let envelope ← MonadExcept.ofExcept (self.decode message)
  MonadExcept.ofExcept (check (poll.validate envelope))
  let key ← MonadExcept.ofExcept (self.idempotencyKey envelope)
  if ← onDedup (self.dedup.seen key) then
    act (.duplicate message key)
    commit poll message
    return envelope
  MonadExcept.ofExcept (check (poll.handler envelope))
  act (.handled message key)
  onDedup (self.dedup.record key)
  act (.recorded key)
  commit poll message
  return envelope

def pollOnce (self : EventConsumer TopicPartition Bytes Envelope K σ)
    (poll : Poll TopicPartition Envelope) :
    ConsumerMethod TopicPartition Bytes K σ (Option Envelope) := do
  match poll.answer with
  | .timeout => return none
  | .partitionEof => return none
  | .error text => throw (.eventBusError s!"event-bus poll error: {text}")
  | .message partition =>
      match ← self.nextMessage partition with
      | none => return none
      | some message => some <$> self.process poll message

-- The loop of `run`; the list ends where another thread closes the consumer.
def run (self : EventConsumer TopicPartition Bytes Envelope K σ) (maxEvents : Option Nat)
    (processed : Nat) :
    List (Poll TopicPartition Envelope) → ConsumerMethod TopicPartition Bytes K σ Nat
  | [] => return processed
  | poll :: rest => do
      if maxEvents.any (· ≤ processed) then
        return processed
      let envelope ← self.pollOnce poll
      self.run maxEvents (if envelope.isSome then processed + 1 else processed) rest

-- One event of a run: a call of `poll_once` or of `run`, or a rebalance after which the
-- client reads a partition from the group's stored position.
inductive ConsumerEvent (TopicPartition Envelope : Type)
  | pollOnce (poll : Poll TopicPartition Envelope)
  | run (maxEvents : Option Nat) (polls : List (Poll TopicPartition Envelope))
  | reassign (partition : TopicPartition)

-- The caller catches what the calls raise and goes on.
def step (self : EventConsumer TopicPartition Bytes Envelope K σ)
    (state : ConsumerState TopicPartition Bytes K σ) :
    ConsumerEvent TopicPartition Envelope →
      Except Failure Nat × ConsumerState TopicPartition Bytes K σ
  | .pollOnce poll =>
      match (self.pollOnce poll).run state with
      | .ok envelope state => (.ok (if envelope.isSome then 1 else 0), state)
      | .error failure state => (.error failure, state)
  | .run maxEvents polls =>
      match (self.run maxEvents 0 polls).run state with
      | .ok processed state => (.ok processed, state)
      | .error failure state => (.error failure, state)
  | .reassign partition =>
      (.ok 0, { state with
        position := Function.update state.position partition (state.committed partition) })

end EventConsumer

end TrustlistCore.EventBus
