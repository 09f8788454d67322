import TrustlistCore.Auth.Rbac
import TrustlistCore.Library.Double
import TrustlistCore.Library.Json

namespace TrustlistCore.Auth

open Library.Unicode (CodePoint isScalar)

-- A Python `str`.
abbrev Text := List CodePoint

def ofAscii (text : List Char) : Text :=
  text.map Library.Json.charPoint

-- The `str` of a text without half of a surrogate pair in it.
def ofString (text : String) : Text :=
  ofAscii text.toList

-- Microseconds since the epoch, the resolution both of `datetime` and of `timestamptz`.
abbrev Instant := Int

inductive AuthEventType
  | LOGIN_SUCCESS
  | LOGIN_FAILURE
  | MFA_CHALLENGE_ISSUED
  | MFA_CHALLENGE_SUCCESS
  | MFA_CHALLENGE_FAILURE
  | PASSWORD_CHANGE
  | ROLE_GRANT
  | ROLE_REVOKE
  | ACCOUNT_DISABLE
  | SESSION_REVOKE
  deriving DecidableEq, Repr

-- A value of an `event_details` object.
inductive Detail
  | null
  | bool (value : Bool)
  | int (value : ℤ)
  | float (value : Library.Double)
  | text (value : String)
  | str (value : Text)
  | list (items : List Detail)
  | dict (members : List (String × Detail))

structure AuditEvent where
  eventId : String
  eventType : AuthEventType
  occurredAt : Instant
  userId : Option String
  ipAddressObserved : Option String
  userAgentObserved : Option String
  eventDetails : List (String × Detail)

-- What the library uses and does not itself define. `lower`, `repr`, `strip` and
-- `isdigit` are Python's string functions (`lowered` and `quoted` the first two for an
-- email, which may hold lone surrogates), `hash` and `verify` the Argon2 hasher on what UTF-8
-- makes of a password (the salt is the random part), `totpValid` and `provisioningUri` are
-- pyotp's, the latter of which may raise, `uuid`, `uuidText`, `text` and `admits` say what
-- psycopg and PostgreSQL make of the values bound to a column. `emit` is the mirror sink:
-- given the events it has been handed so far, whether it raises on the next one.
structure Runtime (Salt Hash Uuid : Type) where
  lower : String → String
  repr : String → String
  lowered : Text → Text
  quoted : Text → String
  strip : String → String
  isdigit : String → Bool
  hash : Salt → String → Hash
  verify : Hash → String → Bool
  totpValid : String → String → Instant → Bool
  provisioningUri : String → Text → Except Failure String
  uuid : String → Option Uuid
  uuidText : Uuid → String
  text : String → Bool
  admits : AuditEvent → Bool
  emit : List AuditEvent → AuditEvent → Option Failure

-- A runtime over plain texts: a hash is the password itself, every text is a UUID, a text
-- column takes what has no NUL in it, the TOTP code is the secret and the sink never raises.
-- As with pyotp, no provisioning URI is made of an email that cannot be encoded.
def Runtime.plain : Runtime Unit String String where
  lower := id
  repr := fun text => "'" ++ text ++ "'"
  lowered := id
  quoted := fun _ => "''"
  strip := id
  isdigit := fun _ => true
  hash := fun _ password => password
  verify := fun hash password => hash == password
  totpValid := fun secret code _ => secret == code
  provisioningUri := fun secret email =>
    if email.all isScalar then .ok secret
    else .error (.unicodeEncodeError "'utf-8' codec can't encode: surrogates not allowed")
  uuid := some
  uuidText := id
  text := fun text => !text.toList.contains '\x00'
  admits := fun _ => true
  emit := fun _ _ => none

end TrustlistCore.Auth
