import TrustlistCore.EventBus.Value
import TrustlistCore.Library.Utf8

namespace TrustlistCore.EventBus

open Library Unicode

-- The text of a message; a lone surrogate is no character of it.
def shown (points : List CodePoint) : String :=
  String.ofList (points.map fun point => Char.ofNat point.val)

namespace Idempotency

-- `sort_keys=True`, `default=str`.
def canonical : Value.Options where
  sortKeys := true
  defaultStr := true

def canonicalJson (maxStrDigits : ℕ) (value : Value) : Except Failure (List Char) :=
  Value.dumps canonical maxStrDigits value

def missing (payload : List (List CodePoint × Value)) (keyFields : List (List CodePoint)) :
    List (List CodePoint) :=
  keyFields.filter fun name => name ∉ Members.keys payload

-- `{name: payload[name] for name in key_fields}`
def selected (payload : List (List CodePoint × Value)) (keyFields : List (List CodePoint)) :
    List (List CodePoint × Value) :=
  Members.ofPairs
    (keyFields.filterMap fun name => (Members.find payload name).map fun value => (name, value))

def document (eventType : List CodePoint) (payload : List (List CodePoint × Value))
    (keyFields : List (List CodePoint)) : Value :=
  .dict
    [(points "event_type", .str eventType),
      (points "key_fields", .dict (selected payload keyFields))]

-- `sha256` stands for `hashlib.sha256(..).hexdigest()`.
def deriveIdempotencyKey (maxStrDigits : ℕ) (sha256 : List UInt8 → List Char)
    (eventType : List CodePoint) (payload : List (List CodePoint × Value))
    (keyFields : List (List CodePoint)) : Except Failure (List Char) :=
  if keyFields = [] then
    .error (.valueError ("key_fields must name at least one payload field; an event with " ++
      "no idempotency-defining fields cannot be deduplicated (PRD §7b)."))
  else if missing payload keyFields ≠ [] then
    let names := (missing payload keyFields).insertionSort (· ≤ ·)
    .error (.valueError ("key_fields names payload field(s) not present in the payload: " ++
      ", ".intercalate (names.map shown) ++ "."))
  else
    (canonicalJson maxStrDigits (document eventType payload keyFields)).map fun text =>
      sha256 (Utf8.encode text)

end Idempotency

end TrustlistCore.EventBus
