import TrustlistCore.Auth.Runtime

namespace TrustlistCore.Auth

-- `password.encode("utf-8")`, which the hasher begins with.
def encodePassword (password : Text) : Except Failure String :=
  if password.all Library.Unicode.isScalar then
    .ok (String.ofList (password.map fun point => Char.ofNat point.val))
  else .error (.unicodeEncodeError "'utf-8' codec can't encode: surrogates not allowed")

section Passwords

variable {Salt Hash Uuid : Type} (rt : Runtime Salt Hash Uuid)

def hashPassword (salt : Salt) (plaintext : Text) : Except Failure Hash :=
  (encodePassword plaintext).map (rt.hash salt)

-- A mismatch and a malformed hash are both `False`.
def verifyPassword (storedHash : Hash) (plaintext : Text) : Except Failure Bool :=
  (encodePassword plaintext).map (rt.verify storedHash)

end Passwords

structure ProviderUser where
  userId : String
  archetype : Archetype
  email : Text
  emailVerified : Bool
  totpEnrolled : Bool
  disabled : Bool
  deriving DecidableEq, Repr

structure Session where
  sessionId : String
  userId : String
  archetype : Archetype
  issuedAt : Instant
  expiresAt : Instant
  deviceFingerprint : Option String
  deriving DecidableEq, Repr

structure TotpEnrolment where
  secret : String
  provisioningUri : String
  deriving DecidableEq, Repr

structure Account (Hash : Type) where
  userId : String
  archetype : Archetype
  email : Text
  passwordHash : Hash
  emailVerified : Bool := false
  disabled : Bool := false
  totpSecret : Option String := none
  totpConfirmed : Bool := false

def Account.view {Hash : Type} (self : Account Hash) : ProviderUser where
  userId := self.userId
  archetype := self.archetype
  email := self.email
  emailVerified := self.emailVerified
  totpEnrolled := self.totpConfirmed
  disabled := self.disabled

structure SessionRecord where
  sessionId : String
  userId : String
  archetype : Archetype
  issuedAt : Instant
  expiresAt : Instant
  deviceFingerprint : Option String
  revoked : Bool := false
  deriving DecidableEq, Repr

def SessionRecord.view (self : SessionRecord) : Session where
  sessionId := self.sessionId
  userId := self.userId
  archetype := self.archetype
  issuedAt := self.issuedAt
  expiresAt := self.expiresAt
  deviceFingerprint := self.deviceFingerprint

-- The three dicts. Nothing the provider does depends on their iteration order.
structure InMemoryIdentityProvider (Hash : Type) where
  sessionTtl : Int
  accounts : String → Option (Account Hash)
  emailIndex : Archetype × Text → Option String
  sessions : String → Option SessionRecord

abbrev ProviderMethod (Hash : Type) := EStateM Failure (InMemoryIdentityProvider Hash)

namespace InMemoryIdentityProvider

variable {Salt Hash Uuid : Type}

def init (sessionTtl : Int) : InMemoryIdentityProvider Hash where
  sessionTtl := sessionTtl
  accounts := fun _ => none
  emailIndex := fun _ => none
  sessions := fun _ => none

-- Assignment to a field of the record stored under `userId`.
def putAccount (userId : String) (account : Account Hash) : ProviderMethod Hash Unit :=
  modify fun self => { self with accounts := Function.update self.accounts userId (some account) }

def account (rt : Runtime Salt Hash Uuid) (userId : String) :
    ProviderMethod Hash (Account Hash) := do
  match (← get).accounts userId with
  | some account => return account
  | none => throw (.authError s!"no account {rt.repr userId}")

-- `salt` is the randomness of `hash_password` and `uuid4` the generated id.
def register (rt : Runtime Salt Hash Uuid) (archetype : Archetype) (email password : Text)
    (salt : Salt) (uuid4 : String) : ProviderMethod Hash ProviderUser := do
  let key := (archetype, rt.lowered email)
  if ((← get).emailIndex key).isSome then
    throw (.authError
      s!"an account already exists for {rt.quoted email} in the {archetype.value} archetype")
  let passwordHash ← MonadExcept.ofExcept (hashPassword rt salt password)
  let account : Account Hash :=
    { userId := uuid4, archetype := archetype, email := email, passwordHash := passwordHash }
  putAccount uuid4 account
  modify fun self => { self with emailIndex := Function.update self.emailIndex key (some uuid4) }
  return account.view

def getUser (rt : Runtime Salt Hash Uuid) (userId : String) : ProviderMethod Hash ProviderUser := do
  return (← account rt userId).view

def findUserByEmail (rt : Runtime Salt Hash Uuid) (archetype : Archetype) (email : Text) :
    ProviderMethod Hash (Option ProviderUser) := do
  match (← get).emailIndex (archetype, rt.lowered email) with
  | none => return none
  | some userId =>
      match (← get).accounts userId with
      | none => throw (.keyError userId)
      | some account => return some account.view

-- `needsRehash` is what `needs_rehash` answers about the stored hash on this call. What the
-- decoy of an unknown email verifies is thrown away, but it raises like any other.
def authenticate (rt : Runtime Salt Hash Uuid) (archetype : Archetype) (email password : Text)
    (needsRehash : Bool) (salt : Salt) : ProviderMethod Hash ProviderUser := do
  match (← get).emailIndex (archetype, rt.lowered email) with
  | none =>
      let decoy ← MonadExcept.ofExcept (hashPassword rt salt (ofString "decoy"))
      let _ ← MonadExcept.ofExcept (verifyPassword rt decoy password)
      throw authenticationFailedDefault
  | some userId =>
      match (← get).accounts userId with
      | none => throw (.keyError userId)
      | some account =>
          let verified ← MonadExcept.ofExcept (verifyPassword rt account.passwordHash password)
          if !verified then
            throw authenticationFailedDefault
          if account.disabled then
            throw (.accountDisabled s!"account {userId} is disabled")
          if needsRehash then
            let passwordHash ← MonadExcept.ofExcept (hashPassword rt salt password)
            putAccount userId { account with passwordHash := passwordHash }
          return account.view

def markEmailVerified (rt : Runtime Salt Hash Uuid) (userId : String) :
    ProviderMethod Hash ProviderUser := do
  let account ← account rt userId
  let verified := { account with emailVerified := true }
  putAccount userId verified
  return verified.view

def changePassword (rt : Runtime Salt Hash Uuid) (userId : String) (newPassword : Text)
    (salt : Salt) : ProviderMethod Hash Unit := do
  let account ← account rt userId
  let passwordHash ← MonadExcept.ofExcept (hashPassword rt salt newPassword)
  putAccount userId { account with passwordHash := passwordHash }

-- `now` is the reading of the clock and `uuid4` the generated session id.
def issueSession (rt : Runtime Salt Hash Uuid) (userId : String)
    (deviceFingerprint : Option String) (now : Instant) (uuid4 : String) :
    ProviderMethod Hash Session := do
  let account ← account rt userId
  if account.disabled then
    throw (.accountDisabled s!"account {userId} is disabled")
  let record : SessionRecord :=
    { sessionId := uuid4
      userId := userId
      archetype := account.archetype
      issuedAt := now
      expiresAt := now + (← get).sessionTtl
      deviceFingerprint := deviceFingerprint }
  modify fun self => { self with sessions := Function.update self.sessions uuid4 (some record) }
  return record.view

def getSession (rt : Runtime Salt Hash Uuid) (sessionId : String) (now : Instant) :
    ProviderMethod Hash Session := do
  match (← get).sessions sessionId with
  | none => throw (.sessionNotFound s!"no session {rt.repr sessionId}")
  | some record =>
      if record.revoked then
        throw (.sessionRevoked s!"session {rt.repr sessionId} is revoked")
      if record.expiresAt ≤ now then
        throw (.sessionRevoked s!"session {rt.repr sessionId} has expired")
      return record.view

def revokeSession (sessionId : String) : ProviderMethod Hash Unit := do
  match (← get).sessions sessionId with
  | none => return ()
  | some record => modify fun self =>
      { self with
        sessions := Function.update self.sessions sessionId (some { record with revoked := true }) }

-- The body of the loop over `_sessions.values()`.
def revokeIfOwned (userId : String) (record : SessionRecord) : SessionRecord :=
  if record.userId = userId then { record with revoked := true } else record

def revokeAllSessions (userId : String) : ProviderMethod Hash Unit :=
  modify fun self =>
    { self with sessions := fun sessionId => (self.sessions sessionId).map (revokeIfOwned userId) }

-- `secret` is what `generate_totp_secret` returns. It is stored before the URI is made.
def enrolTotp (rt : Runtime Salt Hash Uuid) (userId : String) (secret : String) :
    ProviderMethod Hash TotpEnrolment := do
  let account ← account rt userId
  if account.totpConfirmed then
    throw (.totpAlreadyEnrolled s!"account {userId} already has TOTP enrolled")
  putAccount userId { account with totpSecret := some secret, totpConfirmed := false }
  let provisioningUri ← MonadExcept.ofExcept (rt.provisioningUri secret account.email)
  return { secret := secret, provisioningUri := provisioningUri }

-- `totp.verify_totp`: blanks are dropped and a non-numeric code never verifies.
def totpAccepts (rt : Runtime Salt Hash Uuid) (secret code : String) (now : Instant) : Bool :=
  let candidate := String.ofList ((rt.strip code).toList.filter (· ≠ ' '))
  rt.isdigit candidate && rt.totpValid secret candidate now

def verifyTotp (rt : Runtime Salt Hash Uuid) (userId code : String) (now : Instant) :
    ProviderMethod Hash Bool := do
  let account ← account rt userId
  match account.totpSecret with
  | none => throw (.totpNotEnrolled s!"account {userId} has not begun TOTP enrolment")
  | some secret =>
      if totpAccepts rt secret code now then
        putAccount userId { account with totpConfirmed := true }
        return true
      return false

def disableAccount (rt : Runtime Salt Hash Uuid) (userId : String) : ProviderMethod Hash Unit := do
  let account ← account rt userId
  putAccount userId { account with disabled := true }
  revokeAllSessions userId

end InMemoryIdentityProvider

end TrustlistCore.Auth
