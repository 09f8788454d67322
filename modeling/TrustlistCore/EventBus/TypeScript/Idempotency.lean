import TrustlistCore.EventBus.TypeScript.Value
import TrustlistCore.Library.Utf8

namespace TrustlistCore.EventBus.TypeScript

open Library Unicode

def shown (units : List CodeUnit) : String :=
  String.ofList ((decode16 units).map fun point => Char.ofNat point.val)

namespace Idempotency

def padStart (width : ℕ) (digits : List Char) : List Char :=
  List.replicate (width - digits.length) '0' ++ digits

-- The switch of `encodeString`.
def escape (code : CodeUnit) : List Char :=
  if code.val = 0x22 then ['\\', '"']
  else if code.val = 0x5C then ['\\', '\\']
  else if code.val = 0x08 then ['\\', 'b']
  else if code.val = 0x0C then ['\\', 'f']
  else if code.val = 0x0A then ['\\', 'n']
  else if code.val = 0x0D then ['\\', 'r']
  else if code.val = 0x09 then ['\\', 't']
  else if code.val < 0x20 ∨ 0x7E < code.val then
    '\\' :: 'u' :: padStart 4 (Nat.toDigits 16 code.val)
  else [Char.ofNat code.val]

def encodeString (value : List CodeUnit) : List Char :=
  '"' :: value.flatMap escape ++ ['"']

def bigintText (value : ℤ) : List Char :=
  (if value < 0 then ['-'] else []) ++ Nat.toDigits 10 value.natAbs

def encodeNumber : Double → Except Failure (List Char)
  | .finite negative x =>
      if ¬ Double.isInteger (.finite negative x) then
        .error (.error ("cannot derive an idempotency key over a non-integer number (" ++
          String.ofList (Double.display negative x).text ++ "); float formatting can differ " ++
          "between Python and JavaScript, so a non-integer key value risks a silent " ++
          "cross-language key divergence. Pass the value as a string instead."))
      else if negative ∧ x.val = 0 then .ok ['0']
      else .ok (Double.display negative x).text
  | _ =>
      .error (.error ("cannot derive an idempotency key over a non-finite number; Python " ++
        "json.dumps rejects NaN/Infinity by default and a key built over one would not be " ++
        "cross-language stable."))

mutual

def encode : JsonValue → Except Failure (List Char)
  | .null => .ok "null".toList
  | .undefined => .ok "null".toList
  | .string value => .ok (encodeString value)
  | .boolean value => .ok (if value then "true".toList else "false".toList)
  | .bigint value => .ok (bigintText value)
  | .number value => encodeNumber value
  | .array items =>
      (Members.gather (encodeItems items)).map fun items => '[' :: Json.separated items ++ [']']
  | .object members =>
      (Members.collect (Members.sorted (encodeMembers members))).map fun members =>
        '\x7b' :: Json.separated (members.map fun member =>
          encodeString member.1 ++ ':' :: member.2) ++ ['\x7d']
  | .other text => .ok (encodeString text)
  -- `map` passes over it, and `join` has no text for it.
  | .hole => .ok []

def encodeItems : List JsonValue → List (Except Failure (List Char))
  | [] => []
  | item :: items => encode item :: encodeItems items

def encodeMembers :
    List (List CodeUnit × JsonValue) → List (List CodeUnit × Except Failure (List Char))
  | [] => []
  | (key, value) :: members => (key, encode value) :: encodeMembers members

end

def canonicalJson (value : JsonValue) : Except Failure (List Char) :=
  encode value

def assertCanonicalisable (value : JsonValue) : Except Failure Unit :=
  (canonicalJson value).map fun _ => ()

def proto : List CodeUnit :=
  units "__proto__"

-- The object the selected fields are put into: its own members, and whether an assignment
-- to `__proto__` reaches the accessor of `Object.prototype`.
structure Selected where
  members : List (List CodeUnit × JsonValue)
  accessor : Bool

-- Whether it still does once `value` is the prototype. A primitive other than null is
-- not taken.
def keepsAccessor : JsonValue → Bool
  | .null => false
  | .object members => decide (proto ∉ Members.keys members)
  | _ => true

-- `selected[name] = value`
def assign (selected : Selected) (name : List CodeUnit) (value : JsonValue) : Selected :=
  if name = proto ∧ proto ∉ Members.keys selected.members ∧ selected.accessor then
    { selected with accessor := keepsAccessor value }
  else { selected with members := Members.insert selected.members name value }

def missing (payload : List (List CodeUnit × JsonValue)) (keyFields : List (List CodeUnit)) :
    List (List CodeUnit) :=
  keyFields.filter fun name => name ∉ Members.keys payload

def selected (payload : List (List CodeUnit × JsonValue)) (keyFields : List (List CodeUnit)) :
    Selected :=
  keyFields.foldl
    (fun selected name =>
      assign selected name ((Members.find payload name).getD .undefined))
    { members := [], accessor := true }

def document (eventType : List CodeUnit) (payload : List (List CodeUnit × JsonValue))
    (keyFields : List (List CodeUnit)) : JsonValue :=
  .object
    [(units "event_type", .string eventType),
      (units "key_fields", .object (JsonValue.enumerated (selected payload keyFields).members))]

-- `sha256` stands for `createHash('sha256').update(.., 'utf8').digest('hex')`.
def deriveIdempotencyKey (sha256 : List UInt8 → List Char) (eventType : List CodeUnit)
    (payload : List (List CodeUnit × JsonValue)) (keyFields : List (List CodeUnit)) :
    Except Failure (List Char) :=
  if keyFields.length = 0 then
    .error (.error ("keyFields must name at least one payload field; an event with no " ++
      "idempotency-defining fields cannot be deduplicated (PRD §7b)."))
  else if 0 < (missing payload keyFields).length then
    let names := (missing payload keyFields).insertionSort (· ≤ ·)
    .error (.error ("keyFields names payload field(s) not present in the payload: " ++
      ", ".intercalate (names.map shown) ++ "."))
  else
    (canonicalJson (document eventType payload keyFields)).map fun text =>
      sha256 (Utf8.encode text)

end Idempotency

end TrustlistCore.EventBus.TypeScript
