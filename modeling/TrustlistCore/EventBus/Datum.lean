import TrustlistCore.EventBus.Envelope
import TrustlistCore.EventBus.Idempotency
import TrustlistCore.Library.Sorting

namespace TrustlistCore.EventBus

open Library Unicode

-- A value as a caller builds it: the keys of a dict are of any class, and a sequence may be a
-- tuple.
inductive Datum
  | none
  | bool (value : Bool)
  | int (value : ℤ)
  | float (value : Double)
  | str (points : List CodePoint)
  | list (items : List Datum)
  | tuple (items : List Datum)
  | dict (members : List (Value × Datum))
  | object (kind : String) (text : List CodePoint)

namespace Value

-- Numbers of whatever class can be compared with each other, and strings.
def Key.comparable : Key → Key → Bool
  | .str _, .str _ => true
  | .str _, _ => false
  | _, .str _ => false
  | .none, _ => false
  | _, .none => false
  | _, _ => true

-- `a < b`
def Key.less : Key → Key → Bool
  | .str a, .str b => a < b
  | .number a, .number b => a < b
  | .number _, .infinity negative => ¬ negative
  | .infinity negative, .number _ => negative
  | .infinity negative, .infinity other => negative ∧ ¬ other
  | _, _ => false

def comparable (a b : Value) : Bool :=
  match key a, key b with
  | some a, some b => a.comparable b
  | _, _ => false

def less (a b : Value) : Bool :=
  match key a, key b with
  | some a, some b => a.less b
  | _, _ => false

end Value

-- `sorted` over the items of a dict, no two of whose keys are equal. `<` is no order of NaN.
abbrev KeySorting :=
  Sorting Value Value.less

namespace Datum

open Value (Options keyText comparable intNumber floatTree)

section Dumps

variable (sorting : KeySorting) (options : Options) (maxStrDigits : ℕ)

-- One comparison that fails makes the whole sort fail; there always is one among keys that
-- are not all comparable.
def ordered {V : Type} (members : List (Value × V)) : Except Failure (List (Value × V)) :=
  if options.sortKeys then
    if members.Pairwise fun a b => comparable a.1 b.1 then .ok (sorting.sort members)
    else .error (.typeError "'<' not supported between instances")
  else .ok members

mutual

-- The document `json.dumps` writes. The keys are put in order as they are, and only then
-- written as strings.
def document : Datum → Except Failure Json.Tree
  | .none => .ok .null
  | .bool value => .ok (.bool value)
  | .int value => (intNumber maxStrDigits value).map .number
  | .float value => .ok (floatTree value)
  | .str points => .ok (.string (utf16 points))
  | .list items => (Members.gather (documentItems items)).map .array
  | .tuple items => (Members.gather (documentItems items)).map .array
  | .dict members =>
      (ordered sorting options (documentMembers members)).bind fun members =>
        (Members.gather (members.map fun member =>
          (keyText maxStrDigits member.1).bind fun name =>
            member.2.map fun tree => (utf16 name, tree))).map .object
  | .object kind text =>
      if options.defaultStr then .ok (.string (utf16 text))
      else .error (.typeError s!"Object of type {kind} is not JSON serializable")

def documentItems : List Datum → List (Except Failure Json.Tree)
  | [] => []
  | item :: items => document item :: documentItems items

def documentMembers : List (Value × Datum) → List (Value × Except Failure Json.Tree)
  | [] => []
  | (key, value) :: members => (key, document value) :: documentMembers members

end

def dumps (value : Datum) : Except Failure (List Char) :=
  (document sorting options maxStrDigits value).map (Json.render Json.quoteAscii)

end Dumps

-- What `json.loads` returns is built of lists, and of dicts with strings for keys.
mutual

def ofValue : Value → Datum
  | .none => .none
  | .bool value => .bool value
  | .int value => .int value
  | .float value => .float value
  | .str points => .str points
  | .list items => .list (ofItems items)
  | .dict members => .dict (ofMembers members)
  | .object kind text => .object kind text

def ofItems : List Value → List Datum
  | [] => []
  | item :: items => ofValue item :: ofItems items

def ofMembers : List (List CodePoint × Value) → List (Value × Datum)
  | [] => []
  | (key, value) :: members => (.str key, ofValue value) :: ofMembers members

end

-- A dict whose keys are strings.
def named (members : List (List CodePoint × Datum)) : Datum :=
  .dict (members.map fun member => (.str member.1, member.2))

def missing (payload : List (List CodePoint × Datum)) (keyFields : List (List CodePoint)) :
    List (List CodePoint) :=
  keyFields.filter fun name => ! (Members.keys payload).contains name

def selected (payload : List (List CodePoint × Datum)) (keyFields : List (List CodePoint)) :
    List (List CodePoint × Datum) :=
  Members.ofPairs
    (keyFields.filterMap fun name => (Members.find payload name).map fun value => (name, value))

-- The document that is hashed.
def identity (eventType : List CodePoint) (payload : List (List CodePoint × Datum))
    (keyFields : List (List CodePoint)) : Datum :=
  named
    [(points "event_type", .str eventType),
      (points "key_fields", named (selected payload keyFields))]

def toDict (envelope : EventEnvelope) (traceContext : Value) (payload : Datum) : Datum :=
  named
    [(points "event_id", ofValue (Value.ofChars envelope.eventId.text)),
      (points "event_type", ofValue envelope.eventType),
      (points "event_version", ofValue envelope.eventVersion),
      (points "produced_at", ofValue (Value.ofChars (IsoTime.isoformat envelope.producedAt))),
      (points "producer_id", ofValue envelope.producerId),
      (points "trace_context", ofValue traceContext),
      (points "idempotency_key", ofValue envelope.idempotencyKey),
      (points "provenance", ofValue envelope.provenance.toDict),
      (points "payload", payload)]

section Operations

variable (sorting : KeySorting) (maxStrDigits : ℕ)

def canonicalJson (value : Datum) : Except Failure (List Char) :=
  dumps sorting Idempotency.canonical maxStrDigits value

-- `sha256` stands for `hashlib.sha256(..).hexdigest()`.
def deriveIdempotencyKey (sha256 : List UInt8 → List Char) (eventType : List CodePoint)
    (payload : List (List CodePoint × Datum)) (keyFields : List (List CodePoint)) :
    Except Failure (List Char) :=
  if keyFields = [] then
    .error (.valueError ("key_fields must name at least one payload field; an event with " ++
      "no idempotency-defining fields cannot be deduplicated (PRD §7b)."))
  else if missing payload keyFields ≠ [] then
    let names := (missing payload keyFields).insertionSort (· ≤ ·)
    .error (.valueError ("key_fields names payload field(s) not present in the payload: " ++
      ", ".intercalate (names.map shown) ++ "."))
  else
    (canonicalJson sorting maxStrDigits (identity eventType payload keyFields)).map fun text =>
      sha256 (Utf8.encode text)

-- `EventEnvelope.to_bytes`, the payload being the one given.
def toBytes (envelope : EventEnvelope) (payload : Datum) : Except Failure (List UInt8) := do
  let traceContext ← envelope.carrier maxStrDigits
  (dumps sorting EventEnvelope.wire maxStrDigits (toDict envelope traceContext payload)).map
    Utf8.encode

end Operations

end Datum

end TrustlistCore.EventBus
