import TrustlistCore.EventBus.Envelope
import TrustlistCore.Library.Frame

namespace TrustlistCore.EventBus

open Library Unicode

-- `part in text`
def occursIn {α : Type} [DecidableEq α] (part text : List α) : Bool :=
  text.tails.any fun rest => decide (rest.take part.length = part)

-- What the client is handed of an event.
structure Record (Topic : Type) where
  topic : Topic
  key : Option (List UInt8)
  value : List UInt8
  deriving DecidableEq

-- librdkafka refuses an event with the `BufferError` of a full queue or with an error of its own.
inductive Refusal
  | bufferError
  | kafkaException (text : String)

inductive ProduceFailure
  | raised (failure : Failure)
  | unicodeEncodeError
  | backPressureError (message : String)
  | produceError (message : String)

-- The calls of the client, in order.
inductive ClientCall
  | produce (record : Record (List CodePoint))
  | flush
  | poll (timeout : ℕ)

-- The keyword arguments of `produce`.
structure ProduceArguments where
  eventType : List CodePoint
  idempotencyKey : List CodePoint
  provenance : Provenance
  partitionKey : Option (List CodePoint) := none
  eventVersion : Option (List CodePoint) := none
  flush : Bool := false

-- One call's surroundings: the active trace, the generated id, the time and the client's answer.
structure Producing where
  injectTraceContext : List (List CodePoint × List CodePoint)
  uuid4 : Uuid
  now : DateTime
  refusal : Option Refusal

-- `validate` is the check of the registry, `repr` that of a topic for a message.
structure EventProducer where
  producerId : List CodePoint
  validate : List CodePoint → Value → Except Failure Unit
  repr : List CodePoint → String

namespace EventProducer

def QUEUE_FULL : String :=
  "_QUEUE_FULL"

def optional : Option (List CodePoint) → Value
  | some text => .str text
  | none => .none

def carrier (members : List (List CodePoint × List CodePoint)) :
    List (List CodePoint × Value) :=
  members.map fun member => (member.1, .str member.2)

-- `event_version or "1.0.0"`
def versionOr (eventVersion : Option (List CodePoint)) : Value :=
  if (optional eventVersion).truthy then optional eventVersion else .str (points "1.0.0")

-- `text.encode("utf-8")`
def encode (text : List CodePoint) : Except ProduceFailure (List UInt8) :=
  if text.all isScalar then .ok (Utf8.encode (Value.characters text))
  else .error .unicodeEncodeError

-- `partition_key.encode("utf-8") if partition_key else None`
def messageKey (partitionKey : Option (List CodePoint)) :
    Except ProduceFailure (Option (List UInt8)) :=
  match partitionKey with
  | none => .ok none
  | some key => if (optional partitionKey).truthy then (encode key).map some else .ok none

def refused (self : EventProducer) (topic : List CodePoint) : Refusal → ProduceFailure
  | .bufferError => .backPressureError
      (s!"event-bus producer queue is full while producing to {self.repr topic}; the bus is " ++
        "applying back-pressure. The caller must degrade gracefully — the SDK does not block.")
  | .kafkaException text =>
      if occursIn QUEUE_FULL.toList text.toList then
        .backPressureError
          (s!"event-bus producer queue is full while producing to {self.repr topic}; the bus is " ++
            "applying back-pressure.")
      else .produceError s!"failed to produce to {self.repr topic}: {text}"

def raising {α : Type} (result : Except Failure α) : Except ProduceFailure α :=
  result.mapError .raised

def act (call : ClientCall) : EStateM ProduceFailure (List ClientCall) Unit :=
  modify fun calls => calls ++ [call]

def produce (self : EventProducer) (maxStrDigits : ℕ) (producing : Producing)
    (topic : List CodePoint) (payload : Value) (arguments : ProduceArguments) :
    EStateM ProduceFailure (List ClientCall) EventEnvelope := do
  MonadExcept.ofExcept (raising (self.validate arguments.eventType payload))
  let envelope ← MonadExcept.ofExcept (raising (newEnvelope producing.uuid4 producing.now
    { eventType := .str arguments.eventType
      payload
      producerId := .str self.producerId
      idempotencyKey := .str arguments.idempotencyKey
      provenance := arguments.provenance
      traceContext := .dict (carrier producing.injectTraceContext)
      eventVersion := versionOr arguments.eventVersion }))
  let key ← MonadExcept.ofExcept (messageKey arguments.partitionKey)
  let value ← MonadExcept.ofExcept (raising (envelope.toBytes maxStrDigits))
  match producing.refusal with
  | some refusal => throw (self.refused topic refusal)
  | none =>
      act (.produce { topic, key, value })
      act (if arguments.flush then .flush else .poll 0)
      return envelope

end EventProducer

end TrustlistCore.EventBus
