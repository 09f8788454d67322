import TrustlistCore.EventBus.Consumer
import TrustlistCore.EventBus.TypeScript.DedupStore

namespace TrustlistCore.EventBus.TypeScript

open Library

-- kafkajs keeps the read position and calls back with one message at a time.
structure ConsumerState (TopicPartition Bytes K : Type) [DecidableEq K] where
  committed : TopicPartition → Nat
  dedup : InMemoryDedupStore K
  journal : List (Action TopicPartition Bytes K)

-- One callback: the message, the handler of its topic if there is one, how the schema
-- check takes the envelope, whether the commit is refused, and the `onProcessed` callback.
structure EachMessage (TopicPartition Bytes Envelope : Type) where
  message : Message TopicPartition Bytes
  handler : Option (Envelope → Option Failure)
  validate : Envelope → Option Failure
  commitFailure : Option Failure
  onProcessed : Envelope → Bool → Option Failure

structure EventConsumer (Bytes Envelope K : Type) where
  fromBytes : Bytes → Except Failure Envelope
  idempotencyKey : Envelope → K

abbrev ConsumerMethod (TopicPartition Bytes K : Type) [DecidableEq K] :=
  EStateM Failure (ConsumerState TopicPartition Bytes K)

namespace EventConsumer

variable {TopicPartition Bytes Envelope K : Type} [DecidableEq TopicPartition] [DecidableEq K]

-- The text of a caught value: the message of an `Error`.
def causeMessage : Failure → String
  | .eventBusError message => message
  | .valueError message => message
  | .keyError key => key
  | .typeError message => message
  | .attributeError message => message
  | .recursionError message => message
  | .syntaxError message => message
  | .error message => message
  | .schema message => message
  | .handler message => message

def decode (self : EventConsumer Bytes Envelope K) (value : Option Bytes) :
    Except Failure Envelope :=
  match value with
  | none => .error (.eventBusError
      "event-bus message has an empty body; cannot decode an envelope.")
  | some raw => match self.fromBytes raw with
    | .ok envelope => .ok envelope
    | .error cause => .error (.eventBusError
        s!"event-bus message is not a valid envelope: {causeMessage cause}")

def act (action : Action TopicPartition Bytes K) : ConsumerMethod TopicPartition Bytes K Unit :=
  modify fun state => { state with journal := state.journal ++ [action] }

def onDedup {α : Type} (method : EStateM Failure (InMemoryDedupStore K) α) :
    ConsumerMethod TopicPartition Bytes K α :=
  zoom ConsumerState.dedup (fun state dedup => { state with dedup := dedup }) method

def check (failure : Option Failure) : Except Failure Unit :=
  match failure with
  | none => .ok ()
  | some failure => .error failure

def commit (payload : EachMessage TopicPartition Bytes Envelope) :
    ConsumerMethod TopicPartition Bytes K Unit := do
  MonadExcept.ofExcept (check payload.commitFailure)
  modify fun state => { state with
    committed := Function.update state.committed payload.message.partition
      (payload.message.offset + 1) }
  act (.committed payload.message.partition (payload.message.offset + 1))

def processMessage (self : EventConsumer Bytes Envelope K)
    (payload : EachMessage TopicPartition Bytes Envelope) :
    ConsumerMethod TopicPartition Bytes K Unit := do
  match payload.handler with
  | none => return ()
  | some handler =>
      act (.delivered payload.message)
      let envelope ← MonadExcept.ofExcept (self.decode payload.message.value)
      MonadExcept.ofExcept (check (payload.validate envelope))
      if ← onDedup (InMemoryDedupStore.seen (self.idempotencyKey envelope)) then
        act (.duplicate payload.message (self.idempotencyKey envelope))
        commit payload
        MonadExcept.ofExcept (check (payload.onProcessed envelope true))
        return ()
      MonadExcept.ofExcept (check (handler envelope))
      act (.handled payload.message (self.idempotencyKey envelope))
      onDedup (InMemoryDedupStore.record (self.idempotencyKey envelope))
      act (.recorded (self.idempotencyKey envelope))
      commit payload
      MonadExcept.ofExcept (check (payload.onProcessed envelope false))

def step (self : EventConsumer Bytes Envelope K) (state : ConsumerState TopicPartition Bytes K)
    (payload : EachMessage TopicPartition Bytes Envelope) :
    Except Failure Unit × ConsumerState TopicPartition Bytes K :=
  match (self.processMessage payload).run state with
  | .ok _ state => (.ok (), state)
  | .error failure state => (.error failure, state)

end EventConsumer

end TrustlistCore.EventBus.TypeScript
