import TrustlistCore.EventBus.Value.Theorems
import TrustlistCore.Library.TextEncoding

namespace TrustlistCore.EventBus

open Library Unicode

-- A code point of a document, with the character it is. Half of a surrogate pair, which a
-- decoder may let pass, is no character and counts as NUL.
abbrev Mark := Char × CodePoint

def marks (text : List CodePoint) : List Mark :=
  text.map fun point => (Char.ofNat point.val, point)

namespace Scanner

-- A unit that was escaped, or a code point that stands for itself.
abbrev Piece := CodeUnit ⊕ CodePoint

-- Only two escapes make a pair.
def join : List Piece → List CodePoint
  | .inl first :: .inl second :: rest =>
      if isHigh first ∧ isLow second then ofPair first second :: join rest
      else ofUnit first :: join (.inl second :: rest)
  | .inl unit :: rest => ofUnit unit :: join rest
  | .inr point :: rest => point :: join rest
  | [] => []

def prepend (piece : Piece) : List Piece × List Mark → List Piece × List Mark
  | (pieces, rest) => (piece :: pieces, rest)

def string : List Mark → Option (List Piece × List Mark)
  | [] => none
  | ('"', _) :: rest => some ([], rest)
  | ('\\', _) :: ('u', _) :: (a, _) :: (b, _) :: (c, _) :: (d, _) :: rest =>
      match Json.hexUnit a b c d with
      | some unit => (string rest).map (prepend (.inl unit))
      | none => none
  | ('\\', _) :: (c, _) :: rest =>
      match Json.escaped c with
      | some unit => (string rest).map (prepend (.inl unit))
      | none => none
  | (_, point) :: rest =>
      if point.val < 0x20 then none else (string rest).map (prepend (.inr point))

def skip (text : List Mark) : List Mark :=
  text.dropWhile fun mark => Json.isSpace mark.1

def decodeError : Failure :=
  .valueError "JSONDecodeError"

def tooDeep : Failure :=
  .recursionError "maximum recursion depth exceeded while decoding a JSON document"

def key (text : List Mark) : Except Failure (List CodePoint × List Mark) :=
  match string text with
  | some (pieces, rest) => .ok (join pieces, rest)
  | none => .error decodeError

section Scan

variable (maxStrDigits : ℕ)

def leaf (text : List Mark) : Except Failure (Value × List Mark) :=
  match Json.leaf (text.map Prod.fst) with
  | some (tree, rest) =>
      (Value.ofTree maxStrDigits tree).map fun value => (value, text.drop (text.length - rest.length))
  | none => .error decodeError

mutual

-- One value at the head of the text. The depth is how many containers the interpreter can
-- still open inside one another; the fuel, as in `Json.value`, is used up by the text.
def value : ℕ → ℕ → List Mark → Except Failure (Value × List Mark)
  | 0, _, _ => .error decodeError
  | fuel + 1, depth, text =>
      match skip text with
      | ('"', _) :: rest => (key rest).map fun (points, rest) => (.str points, rest)
      | ('[', _) :: rest =>
          if depth = 0 then .error tooDeep
          else
            match skip rest with
            | (']', _) :: rest => .ok (.list [], rest)
            | rest => (items fuel (depth - 1) rest).map fun (items, rest) => (.list items, rest)
      | ('\x7b', _) :: rest =>
          if depth = 0 then .error tooDeep
          else
            match skip rest with
            | ('\x7d', _) :: rest => .ok (.dict [], rest)
            | rest =>
                (members fuel (depth - 1) rest).map fun (members, rest) =>
                  (.dict (Members.ofPairs members), rest)
      | text => leaf maxStrDigits text

def items : ℕ → ℕ → List Mark → Except Failure (List Value × List Mark)
  | 0, _, _ => .error decodeError
  | fuel + 1, depth, text => do
      let (item, rest) ← value fuel depth text
      match skip rest with
      | (',', _) :: rest => (items fuel depth rest).map fun (items, rest) => (item :: items, rest)
      | (']', _) :: rest => .ok ([item], rest)
      | _ => .error decodeError

def members : ℕ → ℕ → List Mark → Except Failure (List (List CodePoint × Value) × List Mark)
  | 0, _, _ => .error decodeError
  | fuel + 1, depth, text =>
      match skip text with
      | ('"', _) :: rest => do
          let (name, rest) ← key rest
          match skip rest with
          | (':', _) :: rest => do
              let (member, rest) ← value fuel depth rest
              match skip rest with
              | (',', _) :: rest =>
                  (members fuel depth rest).map fun (members, rest) =>
                    ((name, member) :: members, rest)
              | ('\x7d', _) :: rest => .ok ([(name, member)], rest)
              | _ => .error decodeError
          | _ => .error decodeError
      | _ => .error decodeError

end

-- `json.loads` of a text, under the limits of the interpreter.
def loads (depth : ℕ) (text : List CodePoint) : Except Failure Value := do
  let (result, rest) ← value maxStrDigits (2 * text.length + 2) depth (marks text)
  if skip rest = [] then .ok result else .error decodeError

-- `json.loads` of bytes.
def loadsBytes (depth : ℕ) (raw : List UInt8) : Except Failure Value :=
  match TextEncoding.decode raw with
  | some text => loads maxStrDigits depth text
  | none => .error (.valueError "UnicodeDecodeError")

end Scan

end Scanner

end TrustlistCore.EventBus
