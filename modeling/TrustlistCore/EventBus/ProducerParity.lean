import TrustlistCore.EventBus.TypeScript.Producer
import TrustlistCore.EventBus.TypeScript.KeyStability

namespace TrustlistCore.EventBus

open Library Unicode

open EventBus.EventEnvelope (wire)

open Value (Every Prints Scalar)

-- A JSON value has no other objects.
def JsonNode : Value → Prop
  | .object _ _ => False
  | _ => True

section Call

-- Whatever counts as one payload in both languages.
variable (Same : Value → TypeScript.JsonValue → Prop)

-- One event as it is given to either SDK. The names of the carrier are those of an object in both,
-- and the declared type of the payload in TypeScript has no bigint.
structure Call where
  topic : List CodePoint
  eventType : List CodePoint
  idempotencyKey : List CodePoint
  producerId : List CodePoint
  source : List CodePoint
  method : List CodePoint
  contributorIdentity : Option (List CodePoint)
  partitionKey : Option (List CodePoint)
  eventVersion : Option (List CodePoint)
  carrier : List (List CodePoint × List CodePoint)
  payload : Value
  scripted : TypeScript.JsonValue
  distinct : (carrier.map fun member => utf16 member.1).Nodup
  json : Every JsonNode payload
  typed : scripted.Every NoBigint
  same : Same payload scripted

end Call

variable {Same : Value → TypeScript.JsonValue → Prop}

namespace Call

def provenance (call : Call Same) : Provenance where
  source := .str call.source
  method := .str call.method
  contributorIdentity := EventProducer.optional call.contributorIdentity

def arguments (call : Call Same) (flush : Bool) : ProduceArguments where
  eventType := call.eventType
  idempotencyKey := call.idempotencyKey
  provenance := call.provenance
  partitionKey := call.partitionKey
  eventVersion := call.eventVersion
  flush

def options (call : Call Same) : TypeScript.ProduceOptions where
  eventType := utf16 call.eventType
  idempotencyKey := utf16 call.idempotencyKey
  provenance :=
    { source := .string (utf16 call.source), method := .string (utf16 call.method),
      contributorIdentity :=
        match call.contributorIdentity with
        | some identity => .string (utf16 identity)
        | none => .null }
  partitionKey := call.partitionKey.map utf16
  eventVersion := call.eventVersion.map utf16

end Call

-- Two producers of one component that are given an event whose payload their registries accept,
-- with clients that take it.
structure Producers (call : Call Same) where
  python : EventProducer
  producing : Producing
  flush : Bool
  calls : List ClientCall
  script : TypeScript.EventProducer
  scriptProducing : TypeScript.Producing
  state : TypeScript.ProducerState
  producerId : python.producerId = call.producerId
  carrier : producing.injectTraceContext = call.carrier
  accepted : python.validate call.eventType call.payload = .ok ()
  taken : producing.refusal = none
  scriptProducerId : script.producerId = utf16 call.producerId
  scriptCarrier : scriptProducing.injectTraceContext =
    call.carrier.map fun member => (utf16 member.1, utf16 member.2)
  scriptAccepted : script.validate (utf16 call.eventType) call.scripted = .ok ()
  connected : scriptProducing.connectFailure = none
  scriptTaken : scriptProducing.sendFailure = none

namespace Producers

variable {call : Call Same}

end Producers

namespace Producers

variable {call : Call Same}

def envelope (producers : Producers call) : EventEnvelope where
  eventType := .str call.eventType
  eventVersion := EventProducer.versionOr call.eventVersion
  producerId := .str call.producerId
  idempotencyKey := .str call.idempotencyKey
  provenance := call.provenance
  payload := call.payload
  traceContext := (EventProducer.carrier call.carrier).map fun member => (.str member.1, member.2)
  eventId := producers.producing.uuid4
  producedAt := producers.producing.now

def scriptEnvelope (producers : Producers call) : TypeScript.EventEnvelope :=
  TypeScript.newEnvelope producers.scriptProducing.randomUUID producers.scriptProducing.now
    { eventType := .string (utf16 call.eventType)
      payload := call.scripted
      producerId := .string (utf16 call.producerId)
      idempotencyKey := .string (utf16 call.idempotencyKey)
      provenance := call.options.provenance
      traceContext := .object (TypeScript.EventProducer.carrier
        (call.carrier.map fun member => (utf16 member.1, utf16 member.2)))
      eventVersion := TypeScript.EventProducer.optional (call.eventVersion.map utf16) }

theorem carries (producers : Producers call) :
    producers.envelope.Carries (EventProducer.carrier call.carrier) := rfl

theorem typed (producers : Producers call) :
    producers.envelope.Typed (fun _ => True) (EventProducer.carrier call.carrier) where
  eventType := ⟨_, rfl, trivial⟩
  producerId := ⟨_, rfl, trivial⟩
  idempotencyKey := ⟨_, rfl, trivial⟩
  source := ⟨_, rfl, trivial⟩
  method := ⟨_, rfl, trivial⟩
  contributorIdentity := by
    cases hidentity : call.contributorIdentity with
    | none => exact Or.inl (congrArg EventProducer.optional hidentity)
    | some identity => exact Or.inr ⟨_, congrArg EventProducer.optional hidentity, trivial⟩
  carries := producers.carries
  nodup := by
    have hunits : ((call.carrier.map Prod.fst).map utf16).Nodup := by
      rw [List.map_map]
      exact call.distinct
    rw [EventProducer.carrier, Members.keys, List.map_map]
    exact hunits.of_map utf16
  keys _ _ := trivial
  values member hm := by
    obtain ⟨pair, -, rfl⟩ := List.mem_map.mp hm
    exact ⟨_, rfl, trivial⟩
  eventVersion := by
    change Text _ (EventProducer.versionOr call.eventVersion)
    unfold EventProducer.versionOr
    by_cases hgiven : (EventProducer.optional call.eventVersion).truthy
    · rw [if_pos hgiven]
      cases hversion : call.eventVersion with
      | none =>
          rw [hversion] at hgiven
          exact absurd hgiven Bool.false_ne_true
      | some version => exact ⟨_, rfl, trivial⟩
    · rw [if_neg hgiven]
      exact ⟨_, rfl, trivial⟩

end Producers

section Keys

-- The bytes of a partition key in UTF-8.
def keyBytes (text : List CodePoint) : List UInt8 :=
  Utf8.encode (Value.characters text)

theorem encode_eq_ok_iff {text : List CodePoint} {bytes : List UInt8} :
    EventProducer.encode text = .ok bytes ↔ Scalar text ∧ bytes = keyBytes text := by
  unfold EventProducer.encode
  by_cases hscalar : text.all isScalar
  · have hall : Scalar text := List.all_eq_true.mp hscalar
    rw [if_pos hscalar, Except.ok.injEq, eq_comm]
    exact (and_iff_right hall).symm
  · have hnot : ¬ Scalar text := fun h => hscalar (List.all_eq_true.mpr h)
    rw [if_neg hscalar]
    exact iff_of_false (by simp) fun h => hnot h.1

end Keys

section Content

variable {call : Call Same}

end Content

def keyed (partitionKey : List CodePoint) : Call Given where
  topic := points "signal.tier-one"
  eventType := points "domain.observed"
  idempotencyKey := points "key"
  producerId := points "collector-1"
  source := points "system"
  method := points "probe"
  contributorIdentity := none
  partitionKey := some partitionKey
  eventVersion := none
  carrier := [(points "traceparent", points "00")]
  payload := .dict [(points "class", .str (points "tls"))]
  scripted := .object [(TypeScript.units "class", .string (TypeScript.units "tls"))]
  distinct := List.nodup_singleton _
  json := ⟨trivial, trivial, trivial⟩
  typed := ⟨trivial, trivial, trivial⟩
  same := ⟨rfl, rfl, trivial⟩

end TrustlistCore.EventBus
