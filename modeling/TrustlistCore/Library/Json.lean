import TrustlistCore.Library.Numeral
import TrustlistCore.Library.Unicode

namespace TrustlistCore.Library.Json

open Unicode

-- What some writers put where a number is not one.
inductive Constant
  | nan
  | infinity (negative : Bool)
  deriving DecidableEq, Repr

-- A document: its strings as UTF-16 units, the members of an object in their order.
inductive Tree
  | null
  | bool (value : Bool)
  | number (value : Number)
  | constant (value : Constant)
  | string (units : List CodeUnit)
  | array (items : List Tree)
  | object (members : List (List CodeUnit × Tree))

def Constant.text : Constant → List Char
  | .nan => ['N', 'a', 'N']
  | .infinity negative =>
      (if negative then ['-'] else []) ++ ['I', 'n', 'f', 'i', 'n', 'i', 't', 'y']

def hexDigit (n : ℕ) : Char :=
  Nat.digitChar n

-- `\u` and four hexadecimal digits.
def unicodeEscape (unit : CodeUnit) : List Char :=
  ['\\', 'u', hexDigit (unit.val / 0x1000), hexDigit (unit.val / 0x100 % 0x10),
    hexDigit (unit.val / 0x10 % 0x10), hexDigit (unit.val % 0x10)]

-- The two-character escapes.
def shortEscapes : List (CodeUnit × Char) :=
  [(0x22, '"'), (0x5C, '\\'), (0x08, 'b'), (0x0C, 'f'), (0x0A, 'n'), (0x0D, 'r'), (0x09, 't')]

def shortEscape (unit : CodeUnit) : Option Char :=
  (shortEscapes.find? fun escape => escape.1 = unit).map Prod.snd

-- `ensure_ascii`: nothing outside the printable ASCII characters is left as it is.
def escapeAscii (unit : CodeUnit) : List Char :=
  match shortEscape unit with
  | some c => ['\\', c]
  | none => if 0x20 ≤ unit.val ∧ unit.val ≤ 0x7E then [Char.ofNat unit.val] else unicodeEscape unit

def quoteAscii (units : List CodeUnit) : List Char :=
  units.flatMap escapeAscii

def isSurrogate (unit : CodeUnit) : Bool :=
  isHigh unit || isLow unit

-- `QuoteJSONString`: only what JSON cannot hold, and a surrogate that stands alone.
def escapeUnit (unit : CodeUnit) : List Char :=
  match shortEscape unit with
  | some c => ['\\', c]
  | none =>
      if unit.val < 0x20 ∨ isSurrogate unit then unicodeEscape unit else [Char.ofNat unit.val]

def quoteLiteral : List CodeUnit → List Char
  | [] => []
  | [unit] => escapeUnit unit
  | first :: second :: rest =>
      if isHigh first ∧ isLow second then
        Char.ofNat (ofPair first second).val :: quoteLiteral rest
      else escapeUnit first ++ quoteLiteral (second :: rest)

def separated : List (List Char) → List Char
  | [] => []
  | [text] => text
  | text :: rest => text ++ ',' :: separated rest

section Render

-- How the body of a string is written.
variable (quote : List CodeUnit → List Char)

def quoted (units : List CodeUnit) : List Char :=
  '"' :: quote units ++ ['"']

mutual

def render : Tree → List Char
  | .null => ['n', 'u', 'l', 'l']
  | .bool true => ['t', 'r', 'u', 'e']
  | .bool false => ['f', 'a', 'l', 's', 'e']
  | .number value => value.text
  | .constant value => value.text
  | .string units => quoted quote units
  | .array items => '[' :: separated (renderItems items) ++ [']']
  | .object members => '\x7b' :: separated (renderMembers members) ++ ['\x7d']

def renderItems : List Tree → List (List Char)
  | [] => []
  | item :: items => render item :: renderItems items

def renderMembers : List (List CodeUnit × Tree) → List (List Char)
  | [] => []
  | (key, value) :: members => (quoted quote key ++ ':' :: render value) :: renderMembers members

end

end Render

section Parse

def isSpace (c : Char) : Bool :=
  c = ' ' || c = '\t' || c = '\n' || c = '\r'

def skip (text : List Char) : List Char :=
  text.dropWhile isSpace

def hexValue (c : Char) : Option ℕ :=
  if '0' ≤ c ∧ c ≤ '9' then some (c.toNat - 0x30)
  else if 'a' ≤ c ∧ c ≤ 'f' then some (c.toNat - 0x61 + 10)
  else if 'A' ≤ c ∧ c ≤ 'F' then some (c.toNat - 0x41 + 10)
  else none

def hexUnit (a b c d : Char) : Option CodeUnit :=
  match hexValue a, hexValue b, hexValue c, hexValue d with
  | some a, some b, some c, some d =>
      let value := a * 0x1000 + b * 0x100 + c * 0x10 + d
      if h : value < 0x10000 then some ⟨value, h⟩ else none
  | _, _, _, _ => none

def escaped (c : Char) : Option CodeUnit :=
  if c = '/' then some 0x2F
  else (shortEscapes.find? fun escape => escape.2 = c).map Prod.fst

def charPoint (c : Char) : CodePoint :=
  ⟨c.toNat, by
    have hvalid : c.toNat < 0xD800 ∨ 0xDFFF < c.toNat ∧ c.toNat < 0x110000 := c.valid
    omega⟩

def prepend (units : List CodeUnit) : List CodeUnit × List Char → List CodeUnit × List Char
  | (more, rest) => (units ++ more, rest)

-- The body of a string up to its closing quote, and what follows.
def string : List Char → Option (List CodeUnit × List Char)
  | [] => none
  | '"' :: rest => some ([], rest)
  | '\\' :: 'u' :: a :: b :: c :: d :: rest =>
      match hexUnit a b c d with
      | some unit => (string rest).map (prepend [unit])
      | none => none
  | '\\' :: c :: rest =>
      match escaped c with
      | some unit => (string rest).map (prepend [unit])
      | none => none
  | c :: rest =>
      if c.toNat < 0x20 then none else (string rest).map (prepend (utf16Point (charPoint c)))

def word : List Char → List (List Char × Tree) → Option (Tree × List Char)
  | _, [] => none
  | text, (name, tree) :: names =>
      if name.isPrefixOf text then some (tree, text.drop name.length) else word text names

def words : List (List Char × Tree) :=
  [(['n', 'u', 'l', 'l'], .null), (['t', 'r', 'u', 'e'], .bool true),
    (['f', 'a', 'l', 's', 'e'], .bool false), (Constant.nan.text, .constant .nan),
    ((Constant.infinity false).text, .constant (.infinity false)),
    ((Constant.infinity true).text, .constant (.infinity true))]

def leaf (text : List Char) : Option (Tree × List Char) :=
  match word text words with
  | some result => some result
  | none => (Number.read text).map fun (value, rest) => (.number value, rest)

mutual

-- One value at the head of the text, and what follows; each step uses up a character,
-- so that as much fuel as there is text is enough.
def value : ℕ → List Char → Option (Tree × List Char)
  | 0, _ => none
  | fuel + 1, text =>
      match skip text with
      | '"' :: rest => (string rest).map fun (units, rest) => (.string units, rest)
      | '[' :: rest =>
          match skip rest with
          | ']' :: rest => some (.array [], rest)
          | rest => (items fuel rest).map fun (items, rest) => (.array items, rest)
      | '\x7b' :: rest =>
          match skip rest with
          | '\x7d' :: rest => some (.object [], rest)
          | rest => (members fuel rest).map fun (members, rest) => (.object members, rest)
      | text => leaf text

def items : ℕ → List Char → Option (List Tree × List Char)
  | 0, _ => none
  | fuel + 1, text => do
      let (item, rest) ← value fuel text
      match skip rest with
      | ',' :: rest => (items fuel rest).map fun (items, rest) => (item :: items, rest)
      | ']' :: rest => some ([item], rest)
      | _ => none

def members : ℕ → List Char → Option (List (List CodeUnit × Tree) × List Char)
  | 0, _ => none
  | fuel + 1, text =>
      match skip text with
      | '"' :: rest => do
          let (key, rest) ← string rest
          match skip rest with
          | ':' :: rest => do
              let (value, rest) ← value fuel rest
              match skip rest with
              | ',' :: rest =>
                  (members fuel rest).map fun (members, rest) => ((key, value) :: members, rest)
              | '\x7d' :: rest => some ([(key, value)], rest)
              | _ => none
          | _ => none
      | _ => none

end

-- A whole document.
def parse (text : List Char) : Option Tree := do
  let (tree, rest) ← value (text.length + 1) text
  if skip rest = [] then some tree else none

end Parse

end TrustlistCore.Library.Json
