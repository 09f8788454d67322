import TrustlistCore.EventBus.TypeScript.Value
import TrustlistCore.Library.Utf8

namespace TrustlistCore.EventBus.TypeScript

open Library Unicode

namespace JsonValue

-- `data[name]`, for a name that no prototype has.
def property (data : JsonValue) (name : String) : Except Failure JsonValue :=
  match data with
  | .undefined => .error (.typeError s!"Cannot read properties of undefined (reading '{name}')")
  | .null => .error (.typeError s!"Cannot read properties of null (reading '{name}')")
  | .object members => .ok ((Members.find members (units name)).getD .undefined)
  | _ => .ok .undefined

def isNullish : JsonValue → Bool
  | .undefined => true
  | .null => true
  | _ => false

-- `value ?? other`
def coalesce (value other : JsonValue) : JsonValue :=
  if isNullish value then other else value

def indexed (items : List JsonValue) : List (List CodeUnit × JsonValue) :=
  (items.zipIdx.filter fun item => !isHole item.1).map fun item =>
    (utf16 ((Nat.toDigits 10 item.2).map Json.charPoint), item.1)

-- The members that `{ ...value }` copies.
def spread : JsonValue → List (List CodeUnit × JsonValue)
  | .object members => members
  | .array items => indexed items
  | .string units => indexed (units.map fun unit => .string [unit])
  | _ => []

end JsonValue

open JsonValue

def ENVELOPE_VERSION : JsonValue :=
  .string (units "1.0.0")

structure Provenance where
  source : JsonValue
  method : JsonValue
  contributorIdentity : JsonValue

def provenance (source method : JsonValue) (contributorIdentity : JsonValue := .null) :
    Provenance where
  source
  method
  contributorIdentity :=
    match contributorIdentity with
    | .undefined => .null
    | contributorIdentity => contributorIdentity

def provenanceToWire (value : Provenance) : JsonValue :=
  .object
    [(units "source", value.source), (units "method", value.method),
      (units "contributor_identity", value.contributorIdentity)]

def provenanceFromWire (data : JsonValue) : Except Failure Provenance := do
  let source ← property data "source"
  let method ← property data "method"
  let contributorIdentity ← property data "contributor_identity"
  .ok { source, method, contributorIdentity := coalesce contributorIdentity .null }

structure EventEnvelope where
  eventType : JsonValue
  eventVersion : JsonValue
  producerId : JsonValue
  idempotencyKey : JsonValue
  provenance : Provenance
  payload : JsonValue
  traceContext : List (List CodeUnit × JsonValue)
  eventId : JsonValue
  producedAt : JsonValue

namespace EventEnvelope

def toWire (envelope : EventEnvelope) : JsonValue :=
  .object
    [(units "event_id", envelope.eventId), (units "event_type", envelope.eventType),
      (units "event_version", envelope.eventVersion),
      (units "produced_at", envelope.producedAt), (units "producer_id", envelope.producerId),
      (units "trace_context", .object (spread (.object envelope.traceContext))),
      (units "idempotency_key", envelope.idempotencyKey),
      (units "provenance", provenanceToWire envelope.provenance),
      (units "payload", envelope.payload)]

def toBytes (envelope : EventEnvelope) : Except Failure (List UInt8) := do
  match ← stringify envelope.toWire with
  | some text => .ok (Utf8.encode text)
  | none => .error (.typeError "The first argument must be of type string")

def required : List String :=
  ["event_id", "event_type", "event_version", "produced_at", "producer_id", "idempotency_key",
    "provenance", "payload"]

def checkRequired (data : JsonValue) : List String → Except Failure Unit
  | [] => .ok ()
  | field :: fields => do
      if isNullish (← property data field) then
        .error (.error s!"event envelope is missing the required §7b field '{field}'.")
      else checkRequired data fields

def fromWire (data : JsonValue) : Except Failure EventEnvelope := do
  checkRequired data required
  let eventId ← property data "event_id"
  let eventType ← property data "event_type"
  let eventVersion ← property data "event_version"
  let producedAt ← property data "produced_at"
  let producerId ← property data "producer_id"
  let traceContext ← property data "trace_context"
  let idempotencyKey ← property data "idempotency_key"
  let provenance ← provenanceFromWire (← property data "provenance")
  let payload ← property data "payload"
  .ok
    { eventType, eventVersion, producerId, idempotencyKey, provenance, payload
      traceContext := spread (coalesce traceContext (.object []))
      eventId, producedAt }

def fromBytes (raw : List UInt8) : Except Failure EventEnvelope := do
  fromWire (← JsonValue.parse (Utf8.decodeLossy raw))

end EventEnvelope

structure NewEnvelopeOptions where
  eventType : JsonValue
  payload : JsonValue
  producerId : JsonValue
  idempotencyKey : JsonValue
  provenance : Provenance
  traceContext : JsonValue := .undefined
  eventVersion : JsonValue := .undefined
  eventId : JsonValue := .undefined
  producedAt : JsonValue := .undefined

-- `randomUUID` and `now` stand for the generated id and the text of the current time.
def newEnvelope (randomUUID now : List CodeUnit) (options : NewEnvelopeOptions) :
    EventEnvelope where
  eventType := options.eventType
  eventVersion := coalesce options.eventVersion ENVELOPE_VERSION
  producerId := options.producerId
  idempotencyKey := options.idempotencyKey
  provenance := options.provenance
  payload := options.payload
  traceContext := spread (coalesce options.traceContext (.object []))
  eventId := coalesce options.eventId (.string randomUUID)
  producedAt := coalesce options.producedAt (.string now)

end TrustlistCore.EventBus.TypeScript
