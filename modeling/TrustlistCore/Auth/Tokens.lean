import TrustlistCore.Auth.Runtime
import TrustlistCore.EventBus.Envelope
import TrustlistCore.EventBus.Scanner
import TrustlistCore.Library.Base64
import TrustlistCore.Library.IntLiteral

namespace TrustlistCore.Auth

open Library Unicode
open EventBus (Value points exceeds)

-- What Python does under the limits of the interpreter, which refuses to be given others.
structure Interpreter where
  maxStrDigits : ℕ
  recursionLimit : ℕ
  digits : maxStrDigits = 0 ∨ 640 ≤ maxStrDigits
  positive : 0 < recursionLimit

structure VerificationClaim where
  userId : Text
  email : Text
  deriving DecidableEq

def isAscii (text : Text) : Bool :=
  text.all fun point => point.val < 0x80

-- `text.encode("ascii")`
def encodeAscii (text : Text) : Except Failure (List UInt8) :=
  if isAscii text then .ok (text.map fun point => UInt8.ofNat point.val)
  else .error (.unicodeEncodeError
    "'ascii' codec can't encode characters: ordinal not in range(128)")

-- `raw.decode("ascii")`
def decodeAscii (raw : List UInt8) : Except Failure (List Char) :=
  if raw.all fun byte => byte.toNat < 0x80 then .ok (raw.map fun byte => Char.ofNat byte.toNat)
  else .error (.valueError "'ascii' codec can't decode byte: ordinal not in range(128)")

-- `hmac.compare_digest` of two strings.
def compareDigest (expected signature : Text) : Except Failure Bool :=
  if isAscii expected ∧ isAscii signature then .ok (expected = signature)
  else .error (.typeError "comparing strings with non-ASCII characters is not supported")

def b64encode (raw : List UInt8) : Text :=
  ofAscii ((Base64.encode raw).rdropWhile (· = '='))

-- The decoder takes its text as ASCII.
def b64decode (text : Text) : Except Failure (List UInt8) :=
  let padding := List.replicate (Base64.fill text.length) '='
  if isAscii text then
    match Base64.decode (Value.characters text ++ padding) with
    | some raw => .ok raw
    | none => .error (.valueError "Incorrect padding")
  else .error (.valueError "string argument should contain only ASCII characters")

-- `int(text)`
def int (interpreter : Interpreter) (text : List Char) : Except Failure ℤ :=
  match IntLiteral.read text with
  | some literal =>
      if exceeds interpreter.maxStrDigits literal.2 then
        .error (.valueError "Exceeds the limit for integer string conversion")
      else .ok (IntLiteral.toInt literal)
  | none => .error (.valueError "invalid literal for int() with base 10")

-- `str(n)`
def str (interpreter : Interpreter) (n : ℤ) : Except Failure (List Char) :=
  if exceeds interpreter.maxStrDigits (Nat.toDigits 10 n.natAbs) then
    .error (.valueError "Exceeds the limit for integer string conversion")
  else .ok (Number.ofInt n).text

-- `int(timestamp)` cuts the fraction off.
def truncate (timestamp : ℚ) : ℤ :=
  if 0 ≤ timestamp then ⌊timestamp⌋ else ⌈timestamp⌉

-- The instants of `datetime`, from the year 1 through the year 9999.
def Representable (instant : ℚ) : Prop :=
  -62135596800 ≤ instant ∧ instant < 253402300800

instance decidableRepresentable (instant : ℚ) : Decidable (Representable instant) :=
  inferInstanceAs (Decidable (_ ∧ _))

def addTtl (moment ttl : ℚ) : Except Failure ℚ :=
  if Representable (moment + ttl) then .ok (moment + ttl)
  else .error (.overflowError "date value out of range")

-- An exception of the `json` module as it reaches its caller.
def ofJson : EventBus.Failure → Failure
  | .recursionError message => .recursionError message
  | .typeError message => .typeError message
  | .valueError message => .valueError message
  | _ => .valueError "JSONDecodeError"

-- `separators=(",", ":")`, `sort_keys=True`
def compact : Value.Options where
  sortKeys := true
  defaultStr := false

def dumps (interpreter : Interpreter) (value : Value) : Except Failure (List Char) :=
  (Value.dumps compact interpreter.maxStrDigits value).mapError ofJson

def loads (interpreter : Interpreter) (raw : List UInt8) : Except Failure Value :=
  (EventBus.Scanner.loadsBytes interpreter.maxStrDigits interpreter.recursionLimit raw).mapError ofJson

def dot : CodePoint :=
  Json.charPoint '.'

structure TokenSigner where
  secret : List UInt8
  nonempty : secret ≠ []

namespace TokenSigner

def init (secret : List UInt8) : Except Failure TokenSigner :=
  if h : secret = [] then .error (.valueError "token signing secret must not be empty")
  else .ok ⟨secret, h⟩

section Signer

-- `hmacSha256` stands for `hmac.new(secret, message, sha256).digest()`.
variable (interpreter : Interpreter) (hmacSha256 : List UInt8 → List UInt8 → List UInt8)
  (signer : TokenSigner)

def sign (payloadB64 expiryB64 : Text) : Except Failure Text := do
  let message ← encodeAscii (payloadB64 ++ dot :: expiryB64)
  .ok (b64encode (hmacSha256 signer.secret message))

def claimDict (claim : VerificationClaim) : Value :=
  .dict [(points "user_id", .str claim.userId), (points "email", .str claim.email)]

def issueEmailVerificationToken (claim : VerificationClaim) (ttl now : ℚ) :
    Except Failure Text := do
  let expiry ← addTtl now ttl
  let payload ← dumps interpreter (claimDict claim)
  let payloadB64 := b64encode (Utf8.encode payload)
  let expiryText ← str interpreter (truncate expiry)
  let expiryB64 := b64encode (Utf8.encode expiryText)
  let signature ← sign hmacSha256 signer payloadB64 expiryB64
  .ok (payloadB64 ++ dot :: (expiryB64 ++ dot :: signature))

-- The `try` block.
def parse (payloadB64 expiryB64 : Text) : Except Failure (ℤ × Value) := do
  let expiryRaw ← decodeAscii (← b64decode expiryB64)
  let expiryTs ← int interpreter expiryRaw
  let payload ← loads interpreter (← b64decode payloadB64)
  .ok (expiryTs, payload)

-- `except (ValueError, UnicodeDecodeError)`
def parsed (payloadB64 expiryB64 : Text) : Except Failure (ℤ × Value) :=
  match parse interpreter payloadB64 expiryB64 with
  | .error (.valueError _) => .error (.tokenInvalid "token payload is malformed")
  | result => result

def claimOf (payload : Value) : Except Failure VerificationClaim :=
  match payload with
  | .dict _ =>
      match Value.get payload "user_id", Value.get payload "email" with
      | .str userId, .str email => .ok { userId, email }
      | _, _ => .error (.tokenInvalid "token payload is missing required fields")
  | _ => .error (.tokenInvalid "token payload is not an object")

def verifyEmailVerificationToken (token : Text) (now : ℚ) : Except Failure VerificationClaim :=
  match token.splitOn dot with
  | [payloadB64, expiryB64, signature] => do
      let expected ← sign hmacSha256 signer payloadB64 expiryB64
      if !(← compareDigest expected signature) then
        .error (.tokenInvalid "token signature does not verify")
      else
        let (expiryTs, payload) ← parsed interpreter payloadB64 expiryB64
        if expiryTs < now then .error (.tokenExpired "token has expired")
        else claimOf payload
  | _ => .error (.tokenInvalid "token is not three dot-separated segments")

end Signer

end TokenSigner

end TrustlistCore.Auth
