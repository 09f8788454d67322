import TrustlistCore.Auth.FakeProvider.Theorems
import TrustlistCore.Auth.Service

namespace TrustlistCore.Auth

-- The methods of the identity provider with their arguments.
inductive Operation
  | register (archetype : Archetype) (email : Text) (password : String)
  | getUser (userId : String)
  | findUserByEmail (archetype : Archetype) (email : Text)
  | authenticate (archetype : Archetype) (email : Text) (password : String)
  | markEmailVerified (userId : String)
  | changePassword (userId newPassword : String)
  | issueSession (userId : String) (deviceFingerprint : Option String)
  | getSession (sessionId : String)
  | revokeSession (sessionId : String)
  | revokeAllSessions (userId : String)
  | enrolTotp (userId : String)
  | verifyTotp (userId code : String)
  | disableAccount (userId : String)

namespace InMemoryIdentityProvider

open Library

variable {Salt Hash Uuid : Type}

def found : Option ProviderUser → Reply
  | some user => .user user
  | none => .none

def operate (rt : Runtime Salt Hash Uuid) (g : Generated Salt) :
    Operation → ProviderMethod Hash Reply
  | .register archetype email password =>
      Reply.user <$> register rt archetype email (ofString password) g.salt g.uuid4
  | .getUser userId => Reply.user <$> getUser rt userId
  | .findUserByEmail archetype email => found <$> findUserByEmail rt archetype email
  | .authenticate archetype email password =>
      Reply.user <$> authenticate rt archetype email (ofString password) g.needsRehash g.salt
  | .markEmailVerified userId => Reply.user <$> markEmailVerified rt userId
  | .changePassword userId newPassword =>
      (fun _ => Reply.none) <$> changePassword rt userId (ofString newPassword) g.salt
  | .issueSession userId deviceFingerprint =>
      Reply.session <$> issueSession rt userId deviceFingerprint g.now g.uuid4
  | .getSession sessionId => Reply.session <$> getSession rt sessionId g.now
  | .revokeSession sessionId => (fun _ => Reply.none) <$> revokeSession sessionId
  | .revokeAllSessions userId => (fun _ => Reply.none) <$> revokeAllSessions userId
  | .enrolTotp userId => Reply.enrolment <$> enrolTotp rt userId g.totpSecret
  | .verifyTotp userId code => Reply.bool <$> verifyTotp rt userId code g.now
  | .disableAccount userId => (fun _ => Reply.none) <$> disableAccount rt userId

-- One call together with what it draws from its surroundings.
abbrev Input (Salt : Type) := Operation × Generated Salt

def step (rt : Runtime Salt Hash Uuid) (self : InMemoryIdentityProvider Hash)
    (input : Input Salt) : Except Failure Reply × InMemoryIdentityProvider Hash :=
  match (operate rt input.2 input.1).run self with
  | .ok reply next => (.ok reply, next)
  | .error failure next => (.error failure, next)

-- `uuid4` never repeats a key of the dict that its value is stored under.
def Fresh (self : InMemoryIdentityProvider Hash) : Input Salt → Prop
  | (.register _ _ _, g) => self.accounts g.uuid4 = none
  | (.issueSession _ _, g) => self.sessions g.uuid4 = none
  | _ => True

abbrev ProviderRun (rt : Runtime Salt Hash Uuid) :=
  Library.Run (step rt) (Fresh : InMemoryIdentityProvider Hash → Input Salt → Prop)

abbrev History (Salt : Type) := List (Input Salt × Except Failure Reply)

theorem step_wp (rt : Runtime Salt Hash Uuid) (self : InMemoryIdentityProvider Hash)
    (input : Input Salt) (Q : Except Failure Reply → InMemoryIdentityProvider Hash → Prop) :
    wp (operate rt input.2 input.1) Q self ↔ Q (step rt self input).1 (step rt self input).2 := by
  unfold wp step
  cases (operate rt input.2 input.1).run self <;> rfl

theorem wp_verifyTotp_iff (rt : Runtime Salt Hash Uuid) (self : InMemoryIdentityProvider Hash)
    {Q : Except Failure Bool → InMemoryIdentityProvider Hash → Prop} (userId code : String)
    (now : Instant) :
    wp (verifyTotp rt userId code now) Q self ↔
      match self.accounts userId with
      | none => Q (.error (.authError s!"no account {rt.repr userId}")) self
      | some stored =>
          match stored.totpSecret with
          | none => Q (.error (.totpNotEnrolled
              s!"account {userId} has not begun TOTP enrolment")) self
          | some secret =>
              if totpAccepts rt secret code now then
                Q (.ok true) (self.withAccount userId { stored with totpConfirmed := true })
              else Q (.ok false) self := by
  unfold verifyTotp
  rw [wp_bind, wp_account]
  cases self.accounts userId with
  | none => rfl
  | some stored =>
      cases hs : stored.totpSecret with
      | none =>
          simp only [hs]
          rfl
      | some secret =>
          simp only [hs]
          cases totpAccepts rt secret code now <;> rfl

-- The answers of a call that leaves every dict as it was.
def idle : Operation → Except Failure Reply → Bool
  | .register _ _ _, .ok _ => false
  | .markEmailVerified _, .ok _ => false
  | .changePassword _ _, .ok _ => false
  | .issueSession _ _, .ok _ => false
  | .revokeSession _, _ => false
  | .revokeAllSessions _, _ => false
  | .enrolTotp _, .ok _ => false
  | .verifyTotp _ _, .ok (.bool true) => false
  | .disableAccount _, _ => false
  | _, _ => true

-- Everything one call can do, with what it answers.
inductive Transition (rt : Runtime Salt Hash Uuid) (g : Generated Salt)
    (before : InMemoryIdentityProvider Hash) :
    Operation → Except Failure Reply → InMemoryIdentityProvider Hash → Prop
  | idle {operation : Operation} {reply : Except Failure Reply}
      (hidle : idle operation reply = true) : Transition rt g before operation reply before
  | register {archetype : Archetype} {email : Text} {password : String} (stored : Account Hash)
      (hnew : before.emailIndex (archetype, rt.lowered email) = none)
      (hstored : stored = { userId := g.uuid4, archetype := archetype, email := email,
                            passwordHash := rt.hash g.salt password }) :
      Transition rt g before (.register archetype email password) (.ok (.user stored.view))
        { before.withAccount g.uuid4 stored with
          emailIndex :=
            Function.update before.emailIndex (archetype, rt.lowered email) (some g.uuid4) }
  | rehash {archetype : Archetype} {email : Text} {password : String} {userId : String}
      {stored : Account Hash}
      (hindex : before.emailIndex (archetype, rt.lowered email) = some userId)
      (hstored : before.accounts userId = some stored)
      (hverify : rt.verify stored.passwordHash password = true) :
      Transition rt g before (.authenticate archetype email password) (.ok (.user stored.view))
        (before.withAccount userId { stored with passwordHash := rt.hash g.salt password })
  | markEmailVerified {userId : String} {stored : Account Hash}
      (hstored : before.accounts userId = some stored) :
      Transition rt g before (.markEmailVerified userId)
        (.ok (.user { stored with emailVerified := true }.view))
        (before.withAccount userId { stored with emailVerified := true })
  | changePassword {userId newPassword : String} {stored : Account Hash}
      (hstored : before.accounts userId = some stored) :
      Transition rt g before (.changePassword userId newPassword) (.ok .none)
        (before.withAccount userId { stored with passwordHash := rt.hash g.salt newPassword })
  | issueSession {userId : String} {deviceFingerprint : Option String} {stored : Account Hash}
      (hstored : before.accounts userId = some stored) (hlive : stored.disabled = false)
      (record : SessionRecord)
      (hrecord : record = { sessionId := g.uuid4, userId := userId, archetype := stored.archetype,
                            issuedAt := g.now, expiresAt := g.now + before.sessionTtl,
                            deviceFingerprint := deviceFingerprint }) :
      Transition rt g before (.issueSession userId deviceFingerprint)
        (.ok (.session record.view)) (before.withSession g.uuid4 record)
  | revokeMissing {sessionId : String} (hmissing : before.sessions sessionId = none) :
      Transition rt g before (.revokeSession sessionId) (.ok .none) before
  | revokeSession {sessionId : String} {record : SessionRecord}
      (hrecord : before.sessions sessionId = some record) :
      Transition rt g before (.revokeSession sessionId) (.ok .none)
        (before.withSession sessionId { record with revoked := true })
  | revokeAllSessions {userId : String} :
      Transition rt g before (.revokeAllSessions userId) (.ok .none) (before.withAllRevoked userId)
  | enrolTotp {userId uri : String} {stored : Account Hash}
      (hstored : before.accounts userId = some stored) :
      Transition rt g before (.enrolTotp userId) (.ok (.enrolment ⟨g.totpSecret, uri⟩))
        (before.withAccount userId
          { stored with totpSecret := some g.totpSecret, totpConfirmed := false })
  | enrolTotpRaises {userId : String} {stored : Account Hash} {failure : Failure}
      (hstored : before.accounts userId = some stored) (hconfirmed : stored.totpConfirmed = false)
      (huri : rt.provisioningUri g.totpSecret stored.email = .error failure) :
      Transition rt g before (.enrolTotp userId) (.error failure)
        (before.withAccount userId
          { stored with totpSecret := some g.totpSecret, totpConfirmed := false })
  | verifyTotp {userId code secret : String} {stored : Account Hash}
      (hstored : before.accounts userId = some stored) (hsecret : stored.totpSecret = some secret) :
      Transition rt g before (.verifyTotp userId code) (.ok (.bool true))
        (before.withAccount userId { stored with totpConfirmed := true })
  | disableMissing {userId : String} {failure : Failure}
      (hmissing : before.accounts userId = none) :
      Transition rt g before (.disableAccount userId) (.error failure) before
  | disableAccount {userId : String} {stored : Account Hash}
      (hstored : before.accounts userId = some stored) :
      Transition rt g before (.disableAccount userId) (.ok .none)
        ((before.withAccount userId { stored with disabled := true }).withAllRevoked userId)

section Operations

variable (rt : Runtime Salt Hash Uuid) (g : Generated Salt) (self : InMemoryIdentityProvider Hash)

theorem register_transition (archetype : Archetype) (email : Text) (password : String) :
    wp (operate rt g (.register archetype email password))
      (Transition rt g self (.register archetype email password)) self := by
  simp only [operate, wp_map, wp_register_ofString]
  cases hnew : self.emailIndex (archetype, rt.lowered email) with
  | some userId => exact .idle rfl
  | none => exact .register _ hnew rfl

theorem getUser_transition (userId : String) :
    wp (operate rt g (.getUser userId))
      (Transition rt g self (.getUser userId)) self := by
  simp only [operate, getUser, wp_map, wp_bind, wp_account]
  cases self.accounts userId <;> exact .idle rfl

theorem findUserByEmail_transition (archetype : Archetype) (email : Text) :
    wp (operate rt g (.findUserByEmail archetype email))
      (Transition rt g self (.findUserByEmail archetype email)) self := by
  simp only [operate, findUserByEmail, wp_map, wp_bind, wp_get]
  cases self.emailIndex (archetype, rt.lowered email) with
  | none => exact .idle rfl
  | some userId =>
      simp only [wp_bind, wp_get]
      cases self.accounts userId <;> exact .idle rfl

theorem authenticate_transition (archetype : Archetype) (email : Text) (password : String) :
    wp (operate rt g (.authenticate archetype email password))
      (Transition rt g self (.authenticate archetype email password)) self := by
  simp only [operate, wp_map]
  apply wp_authenticate
  · intro failure
    exact .idle rfl
  · intro userId stored next hindex hstored hverify hnext
    rcases hnext with rfl | rfl
    · exact .idle rfl
    · exact .rehash hindex hstored hverify

theorem markEmailVerified_transition (userId : String) :
    wp (operate rt g (.markEmailVerified userId))
      (Transition rt g self (.markEmailVerified userId)) self := by
  simp only [operate, wp_map, wp_markEmailVerified]
  cases hstored : self.accounts userId with
  | none => exact .idle rfl
  | some stored => exact .markEmailVerified hstored

theorem changePassword_transition (userId newPassword : String) :
    wp (operate rt g (.changePassword userId newPassword))
      (Transition rt g self (.changePassword userId newPassword)) self := by
  simp only [operate, wp_map, wp_changePassword_ofString]
  cases hstored : self.accounts userId with
  | none => exact .idle rfl
  | some stored => exact .changePassword hstored

theorem issueSession_transition (userId : String) (deviceFingerprint : Option String) :
    wp (operate rt g (.issueSession userId deviceFingerprint))
      (Transition rt g self (.issueSession userId deviceFingerprint)) self := by
  simp only [operate, wp_map, wp_issueSession]
  cases hstored : self.accounts userId with
  | none => exact .idle rfl
  | some stored =>
      cases hlive : stored.disabled with
      | true =>
          simp only [hlive]
          exact .idle rfl
      | false =>
          simp only [hlive]
          exact .issueSession hstored hlive _ rfl

theorem getSession_transition (sessionId : String) :
    wp (operate rt g (.getSession sessionId))
      (Transition rt g self (.getSession sessionId)) self := by
  simp only [operate, wp_map, wp_getSession]
  cases self.sessions sessionId with
  | none => exact .idle rfl
  | some record =>
      simp only
      split_ifs <;> exact .idle rfl

theorem revokeSession_transition (sessionId : String) :
    wp (operate rt g (.revokeSession sessionId))
      (Transition rt g self (.revokeSession sessionId)) self := by
  simp only [operate, wp_map, wp_revokeSession]
  cases hrecord : self.sessions sessionId with
  | none => exact .revokeMissing hrecord
  | some record => exact .revokeSession hrecord

theorem revokeAllSessions_transition (userId : String) :
    wp (operate rt g (.revokeAllSessions userId))
      (Transition rt g self (.revokeAllSessions userId)) self := by
  simp only [operate, wp_map, wp_revokeAllSessions]
  exact .revokeAllSessions

theorem enrolTotp_transition (userId : String) :
    wp (operate rt g (.enrolTotp userId))
      (Transition rt g self (.enrolTotp userId)) self := by
  simp only [operate, wp_map, wp_enrolTotp_iff]
  cases hstored : self.accounts userId with
  | none => exact .idle rfl
  | some stored =>
      cases hconfirmed : stored.totpConfirmed with
      | true =>
          simp only [hconfirmed]
          exact .idle rfl
      | false =>
          simp only [hconfirmed]
          cases huri : rt.provisioningUri g.totpSecret stored.email with
          | ok uri => exact .enrolTotp hstored
          | error failure => exact .enrolTotpRaises hstored hconfirmed huri

theorem verifyTotp_transition (userId code : String) :
    wp (operate rt g (.verifyTotp userId code))
      (Transition rt g self (.verifyTotp userId code)) self := by
  simp only [operate, wp_map, wp_verifyTotp_iff]
  cases hstored : self.accounts userId with
  | none => exact .idle rfl
  | some stored =>
      cases hsecret : stored.totpSecret with
      | none =>
          simp only [hsecret]
          exact .idle rfl
      | some secret =>
          simp only [hsecret]
          split_ifs
          · rw [← hsecret]
            exact .verifyTotp hstored hsecret
          · exact .idle rfl

theorem disableAccount_transition (userId : String) :
    wp (operate rt g (.disableAccount userId))
      (Transition rt g self (.disableAccount userId)) self := by
  simp only [operate, wp_map, wp_disableAccount]
  cases hstored : self.accounts userId with
  | none => exact .disableMissing hstored
  | some stored => exact .disableAccount hstored

end Operations

-- The inversion lemma that the invariants of the provider are read off.
theorem operate_transition (rt : Runtime Salt Hash Uuid) (self : InMemoryIdentityProvider Hash)
    (operation : Operation) (g : Generated Salt) :
    wp (operate rt g operation) (Transition rt g self operation) self := by
  cases operation with
  | register archetype email password =>
      exact register_transition rt g self archetype email password
  | getUser userId => exact getUser_transition rt g self userId
  | findUserByEmail archetype email => exact findUserByEmail_transition rt g self archetype email
  | authenticate archetype email password =>
      exact authenticate_transition rt g self archetype email password
  | markEmailVerified userId => exact markEmailVerified_transition rt g self userId
  | changePassword userId newPassword =>
      exact changePassword_transition rt g self userId newPassword
  | issueSession userId deviceFingerprint =>
      exact issueSession_transition rt g self userId deviceFingerprint
  | getSession sessionId => exact getSession_transition rt g self sessionId
  | revokeSession sessionId => exact revokeSession_transition rt g self sessionId
  | revokeAllSessions userId => exact revokeAllSessions_transition rt g self userId
  | enrolTotp userId => exact enrolTotp_transition rt g self userId
  | verifyTotp userId code => exact verifyTotp_transition rt g self userId code
  | disableAccount userId => exact disableAccount_transition rt g self userId

theorem step_transition (rt : Runtime Salt Hash Uuid) (self : InMemoryIdentityProvider Hash)
    (input : Input Salt) :
    Transition rt input.2 self input.1 (step rt self input).1 (step rt self input).2 :=
  (step_wp rt self input _).mp (operate_transition rt self input.1 input.2)

-- The calls that leave every dict as it was.
def quiet : Operation → Except Failure Reply → Bool
  | .register _ _ _, .ok _ => false
  | .changePassword _ _, .ok _ => false
  | .issueSession _ _, .ok _ => false
  | .disableAccount _, _ => false
  | .revokeSession _, _ => false
  | .revokeAllSessions _, _ => false
  | _, _ => true

-- What a call can do to the credentials and the sessions.
inductive Change (rt : Runtime Salt Hash Uuid) (g : Generated Salt)
    (before : InMemoryIdentityProvider Hash) :
    Operation → Except Failure Reply → InMemoryIdentityProvider Hash → Prop
  | quiet {operation : Operation} {reply : Except Failure Reply}
      (hquiet : quiet operation reply = true) : Change rt g before operation reply before
  | flags {operation : Operation} {reply : Except Failure Reply} {userId : String}
      {stored updated : Account Hash} (hquiet : InMemoryIdentityProvider.quiet operation reply = true)
      (hstored : before.accounts userId = some stored) (huser : updated.userId = stored.userId)
      (harchetype : updated.archetype = stored.archetype) (hemail : updated.email = stored.email)
      (hhash : updated.passwordHash = stored.passwordHash)
      (hdisabled : updated.disabled = stored.disabled) :
      Change rt g before operation reply (before.withAccount userId updated)
  | register {archetype : Archetype} {email : Text} {password : String} (stored : Account Hash)
      (hnew : before.emailIndex (archetype, rt.lowered email) = none)
      (hstored : stored = { userId := g.uuid4, archetype := archetype, email := email,
                            passwordHash := rt.hash g.salt password }) :
      Change rt g before (.register archetype email password) (.ok (.user stored.view))
        { before.withAccount g.uuid4 stored with
          emailIndex :=
            Function.update before.emailIndex (archetype, rt.lowered email) (some g.uuid4) }
  | rehash {archetype : Archetype} {email : Text} {password : String} {userId : String}
      {stored : Account Hash} (reply : Except Failure Reply)
      (hstored : before.accounts userId = some stored)
      (hverify : rt.verify stored.passwordHash password = true) :
      Change rt g before (.authenticate archetype email password) reply
        (before.withAccount userId { stored with passwordHash := rt.hash g.salt password })
  | changePassword {userId newPassword : String} {stored : Account Hash}
      (hstored : before.accounts userId = some stored) :
      Change rt g before (.changePassword userId newPassword) (.ok .none)
        (before.withAccount userId { stored with passwordHash := rt.hash g.salt newPassword })
  | disableMissing {userId : String} {failure : Failure}
      (hmissing : before.accounts userId = none) :
      Change rt g before (.disableAccount userId) (.error failure) before
  | disableAccount {userId : String} {stored : Account Hash}
      (hstored : before.accounts userId = some stored) :
      Change rt g before (.disableAccount userId) (.ok .none)
        ((before.withAccount userId { stored with disabled := true }).withAllRevoked userId)
  | issueSession {userId : String} {deviceFingerprint : Option String} {stored : Account Hash}
      (hstored : before.accounts userId = some stored) (hlive : stored.disabled = false)
      (record : SessionRecord)
      (hrecord : record = { sessionId := g.uuid4, userId := userId, archetype := stored.archetype,
                            issuedAt := g.now, expiresAt := g.now + before.sessionTtl,
                            deviceFingerprint := deviceFingerprint }) :
      Change rt g before (.issueSession userId deviceFingerprint) (.ok (.session record.view))
        (before.withSession g.uuid4 record)
  | revokeMissing {sessionId : String} (hmissing : before.sessions sessionId = none) :
      Change rt g before (.revokeSession sessionId) (.ok .none) before
  | revokeSession {sessionId : String} {record : SessionRecord}
      (hrecord : before.sessions sessionId = some record) :
      Change rt g before (.revokeSession sessionId) (.ok .none)
        (before.withSession sessionId { record with revoked := true })
  | revokeAllSessions {userId : String} :
      Change rt g before (.revokeAllSessions userId) (.ok .none) (before.withAllRevoked userId)

theorem quiet_of_idle {operation : Operation} {reply : Except Failure Reply}
    (h : idle operation reply = true) : quiet operation reply = true := by
  cases operation <;> cases reply <;> first | rfl | cases h

theorem Transition.change {rt : Runtime Salt Hash Uuid} {g : Generated Salt}
    {before after : InMemoryIdentityProvider Hash} {operation : Operation}
    {reply : Except Failure Reply} (h : Transition rt g before operation reply after) :
    Change rt g before operation reply after := by
  cases h with
  | idle hidle => exact .quiet (quiet_of_idle hidle)
  | register stored hnew hstored => exact .register stored hnew hstored
  | rehash hindex hstored hverify => exact .rehash _ hstored hverify
  | markEmailVerified hstored => exact .flags rfl hstored rfl rfl rfl rfl rfl
  | changePassword hstored => exact .changePassword hstored
  | issueSession hstored hlive record hrecord => exact .issueSession hstored hlive record hrecord
  | revokeMissing hmissing => exact .revokeMissing hmissing
  | revokeSession hrecord => exact .revokeSession hrecord
  | revokeAllSessions => exact .revokeAllSessions
  | enrolTotp hstored => exact .flags rfl hstored rfl rfl rfl rfl rfl
  | enrolTotpRaises hstored => exact .flags rfl hstored rfl rfl rfl rfl rfl
  | verifyTotp hstored => exact .flags rfl hstored rfl rfl rfl rfl rfl
  | disableMissing hmissing => exact .disableMissing hmissing
  | disableAccount hstored => exact .disableAccount hstored

theorem step_change (rt : Runtime Salt Hash Uuid) (self : InMemoryIdentityProvider Hash)
    (input : Input Salt) :
    Change rt input.2 self input.1 (step rt self input).1 (step rt self input).2 :=
  (step_transition rt self input).change

end InMemoryIdentityProvider

end TrustlistCore.Auth
