import TrustlistCore.EventBus.Producer
import TrustlistCore.EventBus.TypeScript.SchemaRegistry

namespace TrustlistCore.EventBus.TypeScript

open Library Unicode

inductive ProduceFailure
  | validate (failure : ValidateFailure)
  | connect (cause : List CodeUnit)
  | backPressureError (message : List CodeUnit)
  | produceError (message : List CodeUnit)

structure ProduceOptions where
  eventType : List CodeUnit
  idempotencyKey : List CodeUnit
  provenance : Provenance
  partitionKey : Option (List CodeUnit) := none
  eventVersion : Option (List CodeUnit) := none
  eventId : Option (List CodeUnit) := none
  producedAt : Option (List CodeUnit) := none

-- One call's surroundings: the provider's carrier, the generated id, the time, and the causes
-- for which kafkajs rejects the connection or the send.
structure Producing where
  injectTraceContext : List (List CodeUnit × List CodeUnit)
  randomUUID : List CodeUnit
  now : List CodeUnit
  connectFailure : Option (List CodeUnit)
  sendFailure : Option (List CodeUnit)

-- `validate` answers what the call of the registry settles with.
structure EventProducer where
  producerId : List CodeUnit
  validate : List CodeUnit → JsonValue → Except ValidateFailure Unit

structure ProducerState where
  connected : Bool
  sent : List (Record (List CodeUnit))

namespace EventProducer

def optional : Option (List CodeUnit) → JsonValue
  | some text => .string text
  | none => .undefined

def carrier (members : List (List CodeUnit × List CodeUnit)) : List (List CodeUnit × JsonValue) :=
  members.map fun member => (member.1, .string member.2)

-- In UTF-8 half of a surrogate pair becomes a replacement character.
def replaced (point : CodePoint) : Char :=
  if isScalar point then Char.ofNat point.val else '\uFFFD'

-- `Buffer.from(text, 'utf8')`
def bufferFrom (text : List CodeUnit) : List UInt8 :=
  Utf8.encode ((decode16 text).map replaced)

def messageKey (partitionKey : Option (List CodeUnit)) : Option (List UInt8) :=
  partitionKey.map bufferFrom

-- Past ASCII only the Kelvin sign and the dotted capital I have an ASCII letter in their lower
-- case, which is no part of the texts that are looked for.
def toLowerCase (text : List CodeUnit) : List CodeUnit :=
  text.map fun unit =>
    if 0x41 ≤ unit.val ∧ unit.val ≤ 0x5A then ⟨(unit.val + 0x20) % 0x10000, by omega⟩ else unit

def classifyProduceFailure (topic message : List CodeUnit) : ProduceFailure :=
  let lower := toLowerCase message
  if occursIn (units "queue full") lower || occursIn (units "buffer") lower ||
      occursIn (units "the producer is busy") lower then
    .backPressureError (units "event-bus producer buffer is saturated while producing to '" ++
      topic ++ units ("'; the bus is applying back-pressure. The caller must degrade " ++
        "gracefully — the SDK does not block."))
  else .produceError (units "failed to produce to '" ++ topic ++ units "': " ++ message)

-- Idempotent: a second call is a no-op.
def connect (producing : Producing) : EStateM ProduceFailure ProducerState Unit := do
  if (← get).connected then return ()
  match producing.connectFailure with
  | some cause => throw (.connect cause)
  | none => modify fun state => { state with connected := true }

-- The `try` block takes in the writing of the message.
def send (producing : Producing) (topic : List CodeUnit) (key : Option (List UInt8))
    (value : Except Failure (List UInt8)) : EStateM ProduceFailure ProducerState Unit :=
  match value, producing.sendFailure with
  | .error cause, _ =>
      throw (classifyProduceFailure topic (units (EventConsumer.causeMessage cause)))
  | .ok _, some cause => throw (classifyProduceFailure topic cause)
  | .ok value, none =>
      modify fun state => { state with sent := state.sent ++ [{ topic, key, value }] }

def produce (self : EventProducer) (producing : Producing) (topic : List CodeUnit)
    (payload : JsonValue) (options : ProduceOptions) :
    EStateM ProduceFailure ProducerState EventEnvelope := do
  MonadExcept.ofExcept ((self.validate options.eventType payload).mapError .validate)
  let envelope := newEnvelope producing.randomUUID producing.now
    { eventType := .string options.eventType
      payload
      producerId := .string self.producerId
      idempotencyKey := .string options.idempotencyKey
      provenance := options.provenance
      traceContext := .object (carrier producing.injectTraceContext)
      eventVersion := optional options.eventVersion
      eventId := optional options.eventId
      producedAt := optional options.producedAt }
  connect producing
  send producing topic (messageKey options.partitionKey) envelope.toBytes
  return envelope

end EventProducer

end TrustlistCore.EventBus.TypeScript
