import TrustlistCore.EventBus.Errors
import TrustlistCore.Library.Double
import TrustlistCore.Library.Json
import TrustlistCore.Library.Members

namespace TrustlistCore.EventBus

open Library Unicode

-- What `json` meets in Python. A `str` is its code points; an object of any other class
-- counts by the name of its class and by what `str` makes of it.
inductive Value
  | none
  | bool (value : Bool)
  | int (value : ℤ)
  | float (value : Double)
  | str (points : List CodePoint)
  | list (items : List Value)
  | dict (members : List (List CodePoint × Value))
  | object (kind : String) (text : List CodePoint)

def points (text : String) : List CodePoint :=
  text.toList.map Json.charPoint

-- `sys.get_int_max_str_digits()`, with 0 for no limit.
def exceeds (maxStrDigits : ℕ) (digits : List Char) : Bool :=
  maxStrDigits ≠ 0 ∧ maxStrDigits < digits.length

namespace Value

-- The arguments the SDK gives to `json.dumps`: `sort_keys=True` and `default=str`.
structure Options where
  sortKeys : Bool
  defaultStr : Bool

def intNumber (maxStrDigits : ℕ) (n : ℤ) : Except Failure Number :=
  if exceeds maxStrDigits (Nat.toDigits 10 n.natAbs) then
    .error (.valueError (s!"Exceeds the limit ({maxStrDigits} digits) for integer string " ++
      "conversion; use sys.set_int_max_str_digits() to increase the limit"))
  else .ok (.ofInt n)

-- A float that is no number is written as one of the constants, since `allow_nan` is on.
def floatTree : Double → Json.Tree
  | .finite negative x => .number (Double.repr negative x)
  | .infinity negative => .constant (.infinity negative)
  | .nan => .constant .nan

def ordered {V : Type} (options : Options) (members : List (List CodePoint × V)) :
    List (List CodePoint × V) :=
  if options.sortKeys then Members.sorted members else members

section Dumps

variable (options : Options) (maxStrDigits : ℕ)

mutual

-- The document `json.dumps` writes, before it is spelled out.
def document : Value → Except Failure Json.Tree
  | .none => .ok .null
  | .bool value => .ok (.bool value)
  | .int value => (intNumber maxStrDigits value).map .number
  | .float value => .ok (floatTree value)
  | .str points => .ok (.string (utf16 points))
  | .list items => (Members.gather (documentItems items)).map .array
  | .dict members =>
      (Members.collect (ordered options (documentMembers members))).map fun members =>
        .object (members.map fun member => (utf16 member.1, member.2))
  | .object kind text =>
      if options.defaultStr then .ok (.string (utf16 text))
      else .error (.typeError s!"Object of type {kind} is not JSON serializable")

def documentItems : List Value → List (Except Failure Json.Tree)
  | [] => []
  | item :: items => document item :: documentItems items

def documentMembers :
    List (List CodePoint × Value) → List (List CodePoint × Except Failure Json.Tree)
  | [] => []
  | (key, value) :: members => (key, document value) :: documentMembers members

end

def dumps (value : Value) : Except Failure (List Char) :=
  (document options maxStrDigits value).map (Json.render Json.quoteAscii)

end Dumps

def readNumber (maxStrDigits : ℕ) (number : Number) : Except Failure Value :=
  if number.isInteger then
    if exceeds maxStrDigits number.integer then
      .error (.valueError (s!"Exceeds the limit ({maxStrDigits} digits) for integer string " ++
        s!"conversion: value has {number.integer.length} digits; use " ++
        "sys.set_int_max_str_digits() to increase the limit"))
    else .ok (.int number.toInt)
  else .ok (.float (.ofNumber number))

def readConstant : Json.Constant → Double
  | .nan => .nan
  | .infinity negative => .infinity negative

section Loads

variable (maxStrDigits : ℕ)

mutual

-- The object a document denotes; of the members of one name the last counts.
def ofTree : Json.Tree → Except Failure Value
  | .null => .ok .none
  | .bool value => .ok (.bool value)
  | .number number => readNumber maxStrDigits number
  | .constant constant => .ok (.float (readConstant constant))
  | .string units => .ok (.str (decode16 units))
  | .array items => (Members.gather (ofItems items)).map .list
  | .object members =>
      (Members.collect (ofMembers members)).map fun members => .dict (Members.ofPairs members)

def ofItems : List Json.Tree → List (Except Failure Value)
  | [] => []
  | item :: items => ofTree item :: ofItems items

def ofMembers :
    List (List CodeUnit × Json.Tree) → List (List CodePoint × Except Failure Value)
  | [] => []
  | (key, tree) :: members => (decode16 key, ofTree tree) :: ofMembers members

end

def loads (text : List Char) : Except Failure Value :=
  match Json.parse text with
  | .some tree => ofTree maxStrDigits tree
  | .none => .error (.valueError "JSONDecodeError")

end Loads

section Every

-- A property of a value and of all that is inside it.
variable (P : Value → Prop)

mutual

def Every : Value → Prop
  | .list items => P (.list items) ∧ EveryItem items
  | .dict members => P (.dict members) ∧ EveryMember members
  | value => P value

def EveryItem : List Value → Prop
  | [] => True
  | item :: items => Every item ∧ EveryItem items

def EveryMember : List (List CodePoint × Value) → Prop
  | [] => True
  | (_, value) :: members => Every value ∧ EveryMember members

end

end Every

end Value

end TrustlistCore.EventBus
