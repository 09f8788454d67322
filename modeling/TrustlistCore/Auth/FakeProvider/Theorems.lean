import TrustlistCore.Auth.FakeProvider
import TrustlistCore.Library.Frame
import TrustlistCore.Library.Json.Theorems

namespace TrustlistCore.Auth.InMemoryIdentityProvider

open Library

variable {Salt Hash Uuid : Type} (rt : Runtime Salt Hash Uuid)
  (self : InMemoryIdentityProvider Hash)

-- What UTF-8 encodes is the `str` of a text.
theorem encodePassword_eq_ok_iff {password : Text} {text : String} :
    encodePassword password = .ok text ↔ password = ofString text := by
  unfold encodePassword
  constructor
  · intro h
    split at h
    · rename_i hall
      rw [← Except.ok.inj h, ofString, String.toList_ofList, ofAscii, List.map_map]
      conv_lhs => rw [← List.map_id password]
      refine List.map_congr_left fun point hpoint => ?_
      have hscalar := of_decide_eq_true (List.all_eq_true.mp hall point hpoint)
      have hvalid : point.val.isValidChar :=
        hscalar.imp id fun hhigh => ⟨by omega, point.isLt⟩
      have hpoint : Json.charPoint (Char.ofNat point.val) = point :=
        Fin.ext (Json.toNat_ofNat hvalid)
      exact hpoint.symm
    · cases h
  · rintro rfl
    have hall : (ofString text).all Unicode.isScalar = true := by
      refine List.all_eq_true.mpr fun point hpoint => ?_
      obtain ⟨c, -, rfl⟩ := List.mem_map.mp hpoint
      have hvalid : c.toNat < 0xD800 ∨ 0xDFFF < c.toNat ∧ c.toNat < 0x110000 := c.valid
      refine decide_eq_true ?_
      change c.toNat < 0xD800 ∨ 0xE000 ≤ c.toNat
      omega
    have htext : (ofString text).map (fun point => Char.ofNat point.val) = text.toList := by
      rw [ofString, ofAscii, List.map_map]
      conv_rhs => rw [← List.map_id text.toList]
      exact List.map_congr_left fun c _ => Char.ofNat_toNat c
    rw [if_pos hall, htext, String.ofList_toList]

theorem error_of_encodePassword {password : Text} {failure : Failure}
    (h : encodePassword password = .error failure) : failure =
      .unicodeEncodeError "'utf-8' codec can't encode: surrogates not allowed" := by
  unfold encodePassword at h
  split at h
  · cases h
  · exact (Except.error.inj h).symm

theorem hashPassword_ofString (salt : Salt) (password : String) :
    hashPassword rt salt (ofString password) = .ok (rt.hash salt password) := by
  rw [hashPassword, encodePassword_eq_ok_iff.mpr rfl]
  rfl

-- What the methods leave behind. Only `enrol_totp` can raise after it has changed a dict.

def withAccount (userId : String) (stored : Account Hash) : InMemoryIdentityProvider Hash :=
  { self with accounts := Function.update self.accounts userId (some stored) }

def withSession (sessionId : String) (record : SessionRecord) : InMemoryIdentityProvider Hash :=
  { self with sessions := Function.update self.sessions sessionId (some record) }

def withAllRevoked (userId : String) : InMemoryIdentityProvider Hash :=
  { self with sessions := fun sessionId => (self.sessions sessionId).map (revokeIfOwned userId) }

@[simp] theorem withAccount_sessions (userId : String) (stored : Account Hash) :
    (self.withAccount userId stored).sessions = self.sessions := rfl

@[simp] theorem withAccount_accounts (userId : String) (stored : Account Hash) :
    (self.withAccount userId stored).accounts =
      Function.update self.accounts userId (some stored) := rfl

@[simp] theorem withSession_sessions (sessionId : String) (record : SessionRecord) :
    (self.withSession sessionId record).sessions =
      Function.update self.sessions sessionId (some record) := rfl

@[simp] theorem withSession_accounts (sessionId : String) (record : SessionRecord) :
    (self.withSession sessionId record).accounts = self.accounts := rfl

@[simp] theorem withAllRevoked_sessions (userId : String) :
    (self.withAllRevoked userId).sessions =
      fun sessionId => (self.sessions sessionId).map (revokeIfOwned userId) := rfl

@[simp] theorem withAllRevoked_accounts (userId : String) :
    (self.withAllRevoked userId).accounts = self.accounts := rfl

theorem wp_account {Q : Except Failure (Account Hash) → InMemoryIdentityProvider Hash → Prop}
    (userId : String) :
    wp (account rt userId) Q self ↔
      match self.accounts userId with
      | some stored => Q (.ok stored) self
      | none => Q (.error (.authError s!"no account {rt.repr userId}")) self := by
  unfold account
  simp only [wp_bind, wp_get]
  cases self.accounts userId <;> rfl

section AccountMethods

variable {Q : Except Failure Unit → InMemoryIdentityProvider Hash → Prop}

theorem wp_changePassword (userId : String) (newPassword : Text) (salt : Salt) :
    wp (changePassword rt userId newPassword salt) Q self ↔
      match self.accounts userId with
      | some stored =>
          match hashPassword rt salt newPassword with
          | .ok hashed => Q (.ok ()) (self.withAccount userId { stored with passwordHash := hashed })
          | .error failure => Q (.error failure) self
      | none => Q (.error (.authError s!"no account {rt.repr userId}")) self := by
  unfold changePassword
  rw [wp_bind, wp_account]
  cases self.accounts userId with
  | none => rfl
  | some stored =>
      simp only [wp_bind, wp_ofExcept]
      cases hashPassword rt salt newPassword <;> rfl

theorem wp_changePassword_ofString (userId newPassword : String) (salt : Salt) :
    wp (changePassword rt userId (ofString newPassword) salt) Q self ↔
      match self.accounts userId with
      | some stored => Q (.ok ())
          (self.withAccount userId { stored with passwordHash := rt.hash salt newPassword })
      | none => Q (.error (.authError s!"no account {rt.repr userId}")) self := by
  rw [wp_changePassword, hashPassword_ofString]

theorem wp_revokeAllSessions (userId : String) :
    wp (revokeAllSessions userId) Q self ↔ Q (.ok ()) (self.withAllRevoked userId) := Iff.rfl

theorem wp_disableAccount (userId : String) :
    wp (disableAccount rt userId) Q self ↔
      match self.accounts userId with
      | some stored => Q (.ok ())
          ((self.withAccount userId { stored with disabled := true }).withAllRevoked userId)
      | none => Q (.error (.authError s!"no account {rt.repr userId}")) self := by
  unfold disableAccount
  rw [wp_bind, wp_account]
  cases self.accounts userId <;> rfl

theorem wp_revokeSession (sessionId : String) :
    wp (revokeSession sessionId) Q self ↔
      match self.sessions sessionId with
      | some record => Q (.ok ()) (self.withSession sessionId { record with revoked := true })
      | none => Q (.ok ()) self := by
  unfold revokeSession
  simp only [wp_bind, wp_get]
  cases self.sessions sessionId <;> rfl

end AccountMethods

section UserMethods

variable {Q : Except Failure ProviderUser → InMemoryIdentityProvider Hash → Prop}

theorem wp_register (archetype : Archetype) (email password : Text) (salt : Salt)
    (uuid4 : String) :
    wp (register rt archetype email password salt uuid4) Q self ↔
      if (self.emailIndex (archetype, rt.lowered email)).isSome then
        Q (.error (.authError
          s!"an account already exists for {rt.quoted email} in the {archetype.value} archetype")) self
      else
        match hashPassword rt salt password with
        | .ok hashed =>
            let stored : Account Hash :=
              { userId := uuid4, archetype := archetype, email := email, passwordHash := hashed }
            Q (.ok stored.view) { self.withAccount uuid4 stored with
              emailIndex :=
                Function.update self.emailIndex (archetype, rt.lowered email) (some uuid4) }
        | .error failure => Q (.error failure) self := by
  unfold register
  simp only [wp_bind, wp_get]
  split
  · rfl
  · simp only [wp_bind, wp_pure, wp_ofExcept]
    cases hashPassword rt salt password <;> rfl

theorem wp_register_ofString (archetype : Archetype) (email : Text) (password : String)
    (salt : Salt) (uuid4 : String) :
    wp (register rt archetype email (ofString password) salt uuid4) Q self ↔
      if (self.emailIndex (archetype, rt.lowered email)).isSome then
        Q (.error (.authError
          s!"an account already exists for {rt.quoted email} in the {archetype.value} archetype")) self
      else
        let stored : Account Hash :=
          { userId := uuid4, archetype := archetype, email := email,
            passwordHash := rt.hash salt password }
        Q (.ok stored.view) { self.withAccount uuid4 stored with
          emailIndex :=
            Function.update self.emailIndex (archetype, rt.lowered email) (some uuid4) } := by
  rw [wp_register, hashPassword_ofString]

theorem wp_markEmailVerified (userId : String) :
    wp (markEmailVerified rt userId) Q self ↔
      match self.accounts userId with
      | some stored => Q (.ok { stored with emailVerified := true }.view)
          (self.withAccount userId { stored with emailVerified := true })
      | none => Q (.error (.authError s!"no account {rt.repr userId}")) self := by
  unfold markEmailVerified
  rw [wp_bind, wp_account]
  cases self.accounts userId <;> rfl

-- The branches of a login, in the order in which the provider takes them.
theorem wp_authenticate_iff (archetype : Archetype) (email password : Text) (needsRehash : Bool)
    (salt : Salt) :
    wp (authenticate rt archetype email password needsRehash salt) Q self ↔
      match self.emailIndex (archetype, rt.lowered email) with
      | none =>
          match encodePassword password with
          | .ok _ => Q (.error authenticationFailedDefault) self
          | .error failure => Q (.error failure) self
      | some userId =>
          match self.accounts userId with
          | none => Q (.error (.keyError userId)) self
          | some stored =>
              match encodePassword password with
              | .error failure => Q (.error failure) self
              | .ok text =>
                  if rt.verify stored.passwordHash text = false then
                    Q (.error authenticationFailedDefault) self
                  else if stored.disabled then
                    Q (.error (.accountDisabled s!"account {userId} is disabled")) self
                  else if needsRehash then
                    Q (.ok stored.view)
                      (self.withAccount userId { stored with passwordHash := rt.hash salt text })
                  else Q (.ok stored.view) self := by
  unfold authenticate
  simp only [wp_bind, wp_get]
  cases self.emailIndex (archetype, rt.lowered email) with
  | none =>
      simp only [wp_bind, wp_ofExcept, hashPassword_ofString, verifyPassword]
      cases encodePassword password <;> rfl
  | some userId =>
      simp only [wp_bind, wp_get]
      cases self.accounts userId with
      | none => rfl
      | some stored =>
          simp only [wp_bind, wp_ofExcept, verifyPassword, hashPassword]
          cases encodePassword password with
          | error failure => rfl
          | ok text =>
              simp only [Except.map]
              cases hv : rt.verify stored.passwordHash text with
              | false => rfl
              | true =>
                  cases hd : stored.disabled with
                  | true => rfl
                  | false => cases needsRehash <;> rfl

theorem wp_authenticate_ofString_iff (archetype : Archetype) (email : Text) (password : String)
    (needsRehash : Bool) (salt : Salt) :
    wp (authenticate rt archetype email (ofString password) needsRehash salt) Q self ↔
      match self.emailIndex (archetype, rt.lowered email) with
      | none => Q (.error authenticationFailedDefault) self
      | some userId =>
          match self.accounts userId with
          | none => Q (.error (.keyError userId)) self
          | some stored =>
              if rt.verify stored.passwordHash password = false then
                Q (.error authenticationFailedDefault) self
              else if stored.disabled then
                Q (.error (.accountDisabled s!"account {userId} is disabled")) self
              else if needsRehash then
                Q (.ok stored.view)
                  (self.withAccount userId { stored with passwordHash := rt.hash salt password })
              else Q (.ok stored.view) self := by
  rw [wp_authenticate_iff, encodePassword_eq_ok_iff.mpr rfl]

-- A successful check stores at most a fresh hash of the password it has just verified.
theorem wp_authenticate (archetype : Archetype) (email : Text) (password : String)
    (needsRehash : Bool) (salt : Salt) (hraise : ∀ failure, Q (.error failure) self)
    (hreturn : ∀ userId stored next,
      self.emailIndex (archetype, rt.lowered email) = some userId →
      self.accounts userId = some stored → rt.verify stored.passwordHash password = true →
      (next = self ∨
        next = self.withAccount userId { stored with passwordHash := rt.hash salt password }) →
      Q (.ok stored.view) next) :
    wp (authenticate rt archetype email (ofString password) needsRehash salt) Q self := by
  rw [wp_authenticate_ofString_iff]
  cases hi : self.emailIndex (archetype, rt.lowered email) with
  | none => exact hraise _
  | some userId =>
      simp only
      cases ha : self.accounts userId with
      | none => exact hraise _
      | some stored =>
          simp only
          split_ifs with hv hd hn
          · exact hraise _
          · exact hraise _
          · exact hreturn userId stored _ hi ha (by simpa using hv) (.inr rfl)
          · exact hreturn userId stored _ hi ha (by simpa using hv) (.inl rfl)

end UserMethods

section SessionMethods

variable {Q : Except Failure Session → InMemoryIdentityProvider Hash → Prop}

theorem wp_issueSession (userId : String) (deviceFingerprint : Option String) (now : Instant)
    (uuid4 : String) :
    wp (issueSession rt userId deviceFingerprint now uuid4) Q self ↔
      match self.accounts userId with
      | some stored =>
          if stored.disabled then
            Q (.error (.accountDisabled s!"account {userId} is disabled")) self
          else
            let record : SessionRecord :=
              { sessionId := uuid4, userId := userId, archetype := stored.archetype,
                issuedAt := now, expiresAt := now + self.sessionTtl,
                deviceFingerprint := deviceFingerprint }
            Q (.ok record.view) (self.withSession uuid4 record)
      | none => Q (.error (.authError s!"no account {rt.repr userId}")) self := by
  unfold issueSession
  rw [wp_bind, wp_account]
  cases self.accounts userId with
  | none => rfl
  | some stored => cases h : stored.disabled <;> simp only [h] <;> rfl

theorem wp_getSession (sessionId : String) (now : Instant) :
    wp (getSession rt sessionId now) Q self ↔
      match self.sessions sessionId with
      | some record =>
          if record.revoked then
            Q (.error (.sessionRevoked s!"session {rt.repr sessionId} is revoked")) self
          else if record.expiresAt ≤ now then
            Q (.error (.sessionRevoked s!"session {rt.repr sessionId} has expired")) self
          else Q (.ok record.view) self
      | none => Q (.error (.sessionNotFound s!"no session {rt.repr sessionId}")) self := by
  unfold getSession
  simp only [wp_bind, wp_get]
  cases self.sessions sessionId with
  | none => rfl
  | some record =>
      cases h : record.revoked <;> by_cases he : record.expiresAt ≤ now <;>
        simp only [h, he] <;> rfl

end SessionMethods

theorem wp_enrolTotp_iff {Q : Except Failure TotpEnrolment → InMemoryIdentityProvider Hash → Prop}
    (userId secret : String) :
    wp (enrolTotp rt userId secret) Q self ↔
      match self.accounts userId with
      | none => Q (.error (.authError s!"no account {rt.repr userId}")) self
      | some stored =>
          if stored.totpConfirmed then
            Q (.error (.totpAlreadyEnrolled s!"account {userId} already has TOTP enrolled")) self
          else
            Q ((rt.provisioningUri secret stored.email).map fun uri => ⟨secret, uri⟩)
              (self.withAccount userId
                { stored with totpSecret := some secret, totpConfirmed := false }) := by
  unfold enrolTotp
  rw [wp_bind, wp_account]
  cases self.accounts userId with
  | none => rfl
  | some stored =>
      cases h : stored.totpConfirmed with
      | true =>
          simp only [h]
          rfl
      | false =>
          simp only [h]
          change wp (do
            let provisioningUri ← MonadExcept.ofExcept (rt.provisioningUri secret stored.email)
            return (⟨secret, provisioningUri⟩ : TotpEnrolment)) Q (self.withAccount userId
              { stored with totpSecret := some secret, totpConfirmed := false }) ↔ _
          rw [wp_bind, wp_ofExcept]
          cases rt.provisioningUri secret stored.email <;> rfl

-- Enrolment and TOTP checks touch one account and leave its hash alone.
theorem wp_enrolTotp {Q : Except Failure TotpEnrolment → InMemoryIdentityProvider Hash → Prop}
    (userId secret : String) (hraise : ∀ failure, Q (.error failure) self)
    (hstore : ∀ stored answer, self.accounts userId = some stored →
      Q answer (self.withAccount userId
        { stored with totpSecret := some secret, totpConfirmed := false })) :
    wp (enrolTotp rt userId secret) Q self := by
  rw [wp_enrolTotp_iff]
  cases ha : self.accounts userId with
  | none => exact hraise _
  | some stored =>
      by_cases h : stored.totpConfirmed
      · simp only [h, if_true]
        exact hraise _
      · simp only [h]
        exact hstore stored _ ha

theorem wp_verifyTotp {Q : Except Failure Bool → InMemoryIdentityProvider Hash → Prop}
    (userId code : String) (now : Instant) (hraise : ∀ failure, Q (.error failure) self)
    (hrefuse : Q (.ok false) self)
    (haccept : ∀ stored, self.accounts userId = some stored →
      Q (.ok true) (self.withAccount userId { stored with totpConfirmed := true })) :
    wp (verifyTotp rt userId code now) Q self := by
  unfold verifyTotp
  rw [wp_bind, wp_account]
  cases ha : self.accounts userId with
  | none => exact hraise _
  | some stored =>
      cases hs : stored.totpSecret with
      | none =>
          simp only [hs]
          exact hraise _
      | some secret =>
          cases h : totpAccepts rt secret code now with
          | false =>
              simp only [hs, h]
              exact hrefuse
          | true =>
              have hr := haccept stored ha
              rw [hs] at hr
              simp only [hs, h]
              exact hr

end TrustlistCore.Auth.InMemoryIdentityProvider
