import TrustlistCore.EventBus.Errors
import TrustlistCore.Library.Double
import TrustlistCore.Library.Json
import TrustlistCore.Library.Members

namespace TrustlistCore.EventBus.TypeScript

open Library Unicode

-- A JavaScript value: a string is its code units, an object its own members in the order
-- of their enumeration. A function or a symbol counts by what `String` makes of it. A hole
-- stands in an array at an index that is no own property of it.
inductive JsonValue
  | undefined
  | null
  | boolean (value : Bool)
  | number (value : Double)
  | bigint (value : ℤ)
  | string (units : List CodeUnit)
  | array (items : List JsonValue)
  | object (members : List (List CodeUnit × JsonValue))
  | other (text : List CodeUnit)
  | hole

def units (text : String) : List CodeUnit :=
  utf16 (text.toList.map Json.charPoint)

namespace JsonValue

def isHole : JsonValue → Bool
  | .hole => true
  | _ => false

-- The array indices are enumerated first, in their numerical order.
def arrayIndex (key : List CodeUnit) : Option ℕ :=
  let digits := key.map fun unit => Char.ofNat unit.val
  let index := Nat.ofDigitChars 10 digits 0
  if Nat.toDigits 10 index = digits ∧ index < 2 ^ 32 - 1 then some index else none

def enumerated {V : Type} (members : List (List CodeUnit × V)) : List (List CodeUnit × V) :=
  (members.filter fun member => (arrayIndex member.1).isSome).insertionSort
      (fun a b => (arrayIndex a.1).getD 0 ≤ (arrayIndex b.1).getD 0) ++
    members.filter fun member => (arrayIndex member.1).isNone

def numberOf : Json.Constant → Double
  | .nan => .nan
  | .infinity negative => .infinity negative

mutual

def ofTree : Json.Tree → JsonValue
  | .null => .null
  | .bool value => .boolean value
  | .number value => .number (.ofNumber value)
  | .constant constant => .number (numberOf constant)
  | .string units => .string units
  | .array items => .array (ofItems items)
  | .object members => .object (enumerated (Members.ofPairs (ofMembers members)))

def ofItems : List Json.Tree → List JsonValue
  | [] => []
  | item :: items => ofTree item :: ofItems items

def ofMembers : List (List CodeUnit × Json.Tree) → List (List CodeUnit × JsonValue)
  | [] => []
  | (key, tree) :: members => (key, ofTree tree) :: ofMembers members

end

end JsonValue

mutual

-- A document of the JSON grammar proper, which has no constants.
def standard : Json.Tree → Bool
  | .constant _ => false
  | .array items => standardItems items
  | .object members => standardMembers members
  | _ => true

def standardItems : List Json.Tree → Bool
  | [] => true
  | item :: items => standard item && standardItems items

def standardMembers : List (List CodeUnit × Json.Tree) → Bool
  | [] => true
  | (_, tree) :: members => standard tree && standardMembers members

end

namespace JsonValue

-- `JSON.parse`
def parse (text : List Char) : Except Failure JsonValue :=
  match Json.parse text with
  | some tree => if standard tree then .ok (ofTree tree) else .error (.syntaxError "JSON.parse")
  | none => .error (.syntaxError "JSON.parse")

def numberTree : Double → Json.Tree
  | .finite negative x => .number (Double.display negative x)
  | _ => .null

-- In an array there is no leaving out.
def orNull : Option Json.Tree → Json.Tree
  | some tree => tree
  | none => .null

-- A member whose value has no document is left out.
def present (members : List (List CodeUnit × Option Json.Tree)) :
    List (List CodeUnit × Json.Tree) :=
  members.filterMap fun member => member.2.map fun tree => (member.1, tree)

mutual

-- The document `JSON.stringify` writes, if it writes one.
def document : JsonValue → Except Failure (Option Json.Tree)
  | .undefined => .ok none
  | .null => .ok (some .null)
  | .boolean value => .ok (some (.bool value))
  | .number value => .ok (some (numberTree value))
  | .bigint _ => .error (.typeError "Do not know how to serialize a BigInt")
  | .string units => .ok (some (.string units))
  | .array items =>
      (Members.gather (documentItems items)).map fun items => some (.array (items.map orNull))
  | .object members =>
      (Members.collect (documentMembers members)).map fun members =>
        some (.object (present members))
  | .other _ => .ok none
  | .hole => .ok none

def documentItems : List JsonValue → List (Except Failure (Option Json.Tree))
  | [] => []
  | item :: items => document item :: documentItems items

def documentMembers :
    List (List CodeUnit × JsonValue) → List (List CodeUnit × Except Failure (Option Json.Tree))
  | [] => []
  | (key, value) :: members => (key, document value) :: documentMembers members

end

-- `JSON.stringify`, which answers `undefined` for what it cannot write.
def stringify (value : JsonValue) : Except Failure (Option (List Char)) :=
  (document value).map fun tree => tree.map (Json.render Json.quoteLiteral)

section Every

variable (P : JsonValue → Prop)

mutual

def Every : JsonValue → Prop
  | .array items => P (.array items) ∧ EveryItem items
  | .object members => P (.object members) ∧ EveryMember members
  | value => P value

def EveryItem : List JsonValue → Prop
  | [] => True
  | item :: items => Every item ∧ EveryItem items

def EveryMember : List (List CodeUnit × JsonValue) → Prop
  | [] => True
  | (_, value) :: members => Every value ∧ EveryMember members

end

end Every

end JsonValue

end TrustlistCore.EventBus.TypeScript
