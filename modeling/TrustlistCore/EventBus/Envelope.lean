import TrustlistCore.EventBus.Value
import TrustlistCore.Library.IsoTime
import TrustlistCore.Library.Utf8
import TrustlistCore.Library.Uuid

namespace TrustlistCore.EventBus

open Library Unicode

namespace Value

def className : Value → String
  | .none => "NoneType"
  | .bool _ => "bool"
  | .int _ => "int"
  | .float _ => "float"
  | .str _ => "str"
  | .list _ => "list"
  | .dict _ => "dict"
  | .object kind _ => kind

def truthy : Value → Bool
  | .none => false
  | .bool value => value
  | .int value => value ≠ 0
  | .float (.finite _ x) => x.val ≠ 0
  | .float _ => true
  | .str points => points ≠ []
  | .list items => ¬ items.isEmpty
  | .dict members => ¬ members.isEmpty
  | .object _ _ => true

-- `data[key]`
def subscript (data : Value) (key : String) : Except Failure Value :=
  match data with
  | .dict members =>
      match Members.find members (points key) with
      | .some value => .ok value
      | .none => .error (.keyError key)
  | .list _ => .error (.typeError "list indices must be integers or slices, not str")
  | .str _ => .error (.typeError "string indices must be integers, not 'str'")
  | data => .error (.typeError s!"'{className data}' object is not subscriptable")

-- `data.get(key)`, of what turned out to be a dict.
def get (data : Value) (key : String) : Value :=
  match data with
  | .dict members => (Members.find members (points key)).getD .none
  | _ => .none

-- What a key of a dict counts as: a number by its value, whatever its class.
inductive Key
  | none
  | number (value : ℚ)
  | infinity (negative : Bool)
  | nan
  | str (points : List CodePoint)
  deriving DecidableEq

def key : Value → Option Key
  | .none => some .none
  | .bool value => some (.number (if value then 1 else 0))
  | .int value => some (.number value)
  | .float (.finite negative x) => some (.number (if negative then -x.val else x.val))
  | .float (.infinity negative) => some (.infinity negative)
  | .float .nan => some .nan
  | .str points => some (.str points)
  | _ => .none

-- A key that is there stays as it is, and only its value changes.
def setItem (members : List (Value × Value)) (name value : Value) : List (Value × Value) :=
  if members.any fun member => key member.1 = key name then
    members.map fun member => if key member.1 = key name then (member.1, value) else member
  else members ++ [(name, value)]

-- The items of an iterable.
def sequence : Value → Option (List Value)
  | .list items => some items
  | .str points => some (points.map fun point => .str [point])
  | .dict members => some (members.map fun member => .str member.1)
  | _ => .none

def update (index : ℕ) (members : List (Value × Value)) :
    List Value → Except Failure (List (Value × Value))
  | [] => .ok members
  | item :: items =>
      match sequence item with
      | some [name, value] =>
          if (key name).isNone then
            .error (.typeError s!"unhashable type: '{className name}'")
          else update (index + 1) (setItem members name value) items
      | some other =>
          .error (.valueError
            s!"dictionary update sequence element #{index} has length {other.length}; 2 is required")
      | .none =>
          .error (.typeError
            s!"cannot convert dictionary update sequence element #{index} to a sequence")

-- `dict(value)`
def dictOf : Value → Except Failure (List (Value × Value))
  | .dict members => .ok (members.map fun member => (.str member.1, member.2))
  | value =>
      match sequence value with
      | some items => update 0 [] items
      | .none => .error (.typeError s!"'{className value}' object is not iterable")

-- The name `json.dumps` writes for a key.
def keyText (maxStrDigits : ℕ) : Value → Except Failure (List CodePoint)
  | .str points => .ok points
  | .none => .ok (points "null")
  | .bool value => .ok (points (if value then "true" else "false"))
  | .int value => (intNumber maxStrDigits value).map fun number => number.text.map Json.charPoint
  | .float value => .ok ((Json.render Json.quoteAscii (floatTree value)).map Json.charPoint)
  | value =>
      .error (.typeError
        s!"keys must be str, int, float, bool or None, not {className value}")

-- The characters of a `str`. Half of a surrogate pair is read as NUL, which like it has no
-- place in the text of an identifier or of a time.
def characters (points : List CodePoint) : List Char :=
  points.map fun point => Char.ofNat point.val

end Value

-- What `uuid.UUID` and `datetime.fromisoformat` read a `str` as, or the text of their
-- `ValueError`.
structure Readers where
  uuid : List CodePoint → Except String Uuid
  fromisoformat : List CodePoint → Except String DateTime

-- The texts of the documented formats alone. CPython takes some others as well, among them all
-- that `int(hex, 16)` does.
def Readers.documented : Readers where
  uuid text :=
    match Uuid.read (Value.characters text) with
    | some uuid => .ok uuid
    | none => .error "badly formed hexadecimal UUID string"
  fromisoformat text :=
    match IsoTime.fromIsoformat (Value.characters text) with
    | some time => .ok time
    | none => .error "Invalid isoformat string"

namespace Value

-- `uuid.UUID(value)`
def uuid (readers : Readers) : Value → Except Failure Uuid
  | .none =>
      .error (.typeError
        "one of the hex, bytes, bytes_le, fields, or int arguments must be given")
  | .str text => (readers.uuid text).mapError .valueError
  | value => .error (.attributeError s!"'{className value}' object has no attribute 'replace'")

-- `datetime.fromisoformat(value)`
def fromIsoformat (readers : Readers) : Value → Except Failure DateTime
  | .str text => (readers.fromisoformat text).mapError .valueError
  | _ => .error (.typeError "fromisoformat: argument must be str")

def ofChars (text : List Char) : Value :=
  .str (text.map Json.charPoint)

end Value

open Value

def ENVELOPE_VERSION : Value :=
  .str (points "1.0.0")

structure Provenance where
  source : Value
  method : Value
  contributorIdentity : Value := .none

namespace Provenance

def toDict (provenance : Provenance) : Value :=
  .dict
    [(points "source", provenance.source), (points "method", provenance.method),
      (points "contributor_identity", provenance.contributorIdentity)]

def fromDict (data : Value) : Except Failure Provenance := do
  let source ← subscript data "source"
  let method ← subscript data "method"
  .ok { source, method, contributorIdentity := get data "contributor_identity" }

end Provenance

-- Nothing checks the types of the fields: a decoded envelope holds what the message held.
structure EventEnvelope where
  eventType : Value
  eventVersion : Value
  producerId : Value
  idempotencyKey : Value
  provenance : Provenance
  payload : Value
  traceContext : List (Value × Value)
  eventId : Uuid
  producedAt : DateTime

namespace EventEnvelope

-- `separators=(",", ":")` and otherwise the defaults of `json.dumps`.
def wire : Options where
  sortKeys := false
  defaultStr := false

-- The envelope as a dict, given the trace context as one.
def toDict (envelope : EventEnvelope) (traceContext : Value) : Value :=
  .dict
    [(points "event_id", ofChars envelope.eventId.text),
      (points "event_type", envelope.eventType),
      (points "event_version", envelope.eventVersion),
      (points "produced_at", ofChars (IsoTime.isoformat envelope.producedAt)),
      (points "producer_id", envelope.producerId),
      (points "trace_context", traceContext),
      (points "idempotency_key", envelope.idempotencyKey),
      (points "provenance", envelope.provenance.toDict),
      (points "payload", envelope.payload)]

section Wire

variable (maxStrDigits : ℕ)

def carrier (envelope : EventEnvelope) : Except Failure Value :=
  (Members.gather (envelope.traceContext.map fun member =>
    (keyText maxStrDigits member.1).map fun name => (name, member.2))).map .dict

def toBytes (envelope : EventEnvelope) : Except Failure (List UInt8) := do
  let traceContext ← carrier maxStrDigits envelope
  (dumps wire maxStrDigits (envelope.toDict traceContext)).map Utf8.encode

end Wire

-- `dict(value or {})`
def carrierOf (value : Value) : Except Failure (List (Value × Value)) :=
  if truthy value then dictOf value else .ok []

def fromDict (data : Value) (readers : Readers := .documented) :
    Except Failure EventEnvelope := do
  let eventId ← uuid readers (← subscript data "event_id")
  let eventType ← subscript data "event_type"
  let eventVersion ← subscript data "event_version"
  let producedAt ← fromIsoformat readers (← subscript data "produced_at")
  let producerId ← subscript data "producer_id"
  let traceContext ← carrierOf (get data "trace_context")
  let idempotencyKey ← subscript data "idempotency_key"
  let provenance ← Provenance.fromDict (← subscript data "provenance")
  let payload ← subscript data "payload"
  .ok
    { eventType, eventVersion, producerId, idempotencyKey, provenance, payload, traceContext,
      eventId, producedAt }

def fromBytes (maxStrDigits : ℕ) (raw : List UInt8) (readers : Readers := .documented) :
    Except Failure EventEnvelope :=
  match Utf8.decode raw with
  | .some text => do fromDict (← loads maxStrDigits text) readers
  | .none => .error (.valueError "UnicodeDecodeError")

end EventEnvelope

-- The keyword arguments of `new_envelope`.
structure Arguments where
  eventType : Value
  payload : Value
  producerId : Value
  idempotencyKey : Value
  provenance : Provenance
  traceContext : Value := .none
  eventVersion : Value := ENVELOPE_VERSION
  eventId : Option Uuid := none
  producedAt : Option DateTime := none

-- `uuid4` and `now` stand for the generated id and the time of the call.
def newEnvelope (uuid4 : Uuid) (now : DateTime) (arguments : Arguments) :
    Except Failure EventEnvelope :=
  if arguments.producedAt.any fun producedAt => producedAt.offset.isNone then
    .error (.valueError ("produced_at must be timezone-aware; the envelope timestamp is " ++
      "an aware UTC instant (PRD §7b `produced_at` is a timestamptz)."))
  else do
    let traceContext ← EventEnvelope.carrierOf arguments.traceContext
    .ok
      { eventType := arguments.eventType
        eventVersion := arguments.eventVersion
        producerId := arguments.producerId
        idempotencyKey := arguments.idempotencyKey
        provenance := arguments.provenance
        payload := arguments.payload
        traceContext
        eventId := arguments.eventId.getD uuid4
        producedAt := arguments.producedAt.getD now }

end TrustlistCore.EventBus
