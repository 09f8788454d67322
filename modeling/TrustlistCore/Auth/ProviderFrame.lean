import TrustlistCore.Auth.CredentialStore

namespace TrustlistCore.Auth.InMemoryIdentityProvider

open Library

variable {Salt Hash Uuid : Type}

section Frame

-- Of the accounts and sessions of anyone else, nothing changes.
structure Frame (subject : Option String) (before after : InMemoryIdentityProvider Hash) :
    Prop where
  accounts : ∀ userId, subject ≠ some userId → after.accounts userId = before.accounts userId
  sessions : ∀ sessionId record, subject ≠ some record.userId →
    (after.sessions sessionId = some record ↔ before.sessions sessionId = some record)

variable {subject : Option String} {before middle after : InMemoryIdentityProvider Hash}
  {userId : String}

theorem Frame.refl : Frame subject before before where
  accounts _ _ := rfl
  sessions _ _ _ := Iff.rfl

theorem Frame.trans (h : Frame subject before middle) (hnext : Frame subject middle after) :
    Frame subject before after where
  accounts other hne := (hnext.accounts other hne).trans (h.accounts other hne)
  sessions sessionId record hne :=
    (hnext.sessions sessionId record hne).trans (h.sessions sessionId record hne)

theorem frame_withAccount (stored : Account Hash) :
    Frame (some userId) before (before.withAccount userId stored) where
  accounts other hne := by
    have hother : other ≠ userId := fun h => hne (congrArg some h.symm)
    rw [withAccount_accounts, Function.update_of_ne hother]
  sessions _ _ _ := Iff.rfl

-- The session stored under the id is the user's, and so is the one that it replaces.
theorem frame_withSession {sessionId : String} {record : SessionRecord}
    (howner : record.userId = userId)
    (hold : ∀ old, before.sessions sessionId = some old → old.userId = userId) :
    Frame (some userId) before (before.withSession sessionId record) where
  accounts _ _ := rfl
  sessions other found hne := by
    have hfound : found.userId ≠ userId := fun h => hne (congrArg some h.symm)
    rw [withSession_sessions]
    by_cases h : other = sessionId
    · rw [h, Function.update_self, Option.some.injEq]
      refine iff_of_false (fun heq => ?_) fun hbefore => hfound (hold found hbefore)
      exact hfound (heq ▸ howner)
    · rw [Function.update_of_ne h]

theorem revokeIfOwned_userId (record : SessionRecord) :
    (revokeIfOwned userId record).userId = record.userId := by
  unfold revokeIfOwned
  by_cases h : record.userId = userId
  · rw [if_pos h]
  · rw [if_neg h]

theorem frame_withAllRevoked : Frame (some userId) before (before.withAllRevoked userId) where
  accounts _ _ := rfl
  sessions sessionId found hne := by
    have hfound : found.userId ≠ userId := fun h => hne (congrArg some h.symm)
    have hkept : revokeIfOwned userId found = found := if_neg hfound
    rw [withAllRevoked_sessions, Option.map_eq_some_iff]
    constructor
    · rintro ⟨old, hold, heq⟩
      have hsame : revokeIfOwned userId old = old := by
        refine if_neg fun howner => hfound ?_
        rw [← heq, revokeIfOwned_userId, howner]
      rwa [← heq, hsame]
    · exact fun hbefore => ⟨found, hbefore, hkept⟩

end Frame

-- Whom a call is about.
def subject (rt : Runtime Salt Hash Uuid) (self : InMemoryIdentityProvider Hash) :
    Input Salt → Option String
  | (.register _ _ _, g) => some g.uuid4
  | (.findUserByEmail archetype email, _) => self.emailIndex (archetype, rt.lowered email)
  | (.authenticate archetype email _, _) => self.emailIndex (archetype, rt.lowered email)
  | (.getSession sessionId, _) => (self.sessions sessionId).map SessionRecord.userId
  | (.revokeSession sessionId, _) => (self.sessions sessionId).map SessionRecord.userId
  | (.getUser userId, _) => some userId
  | (.markEmailVerified userId, _) => some userId
  | (.changePassword userId _, _) => some userId
  | (.issueSession userId _, _) => some userId
  | (.revokeAllSessions userId, _) => some userId
  | (.enrolTotp userId, _) => some userId
  | (.verifyTotp userId _, _) => some userId
  | (.disableAccount userId, _) => some userId

-- A call of `enrol_totp` that raises when it has stored another secret already.
def HalfDone (rt : Runtime Salt Hash Uuid) (self : InMemoryIdentityProvider Hash) :
    Input Salt → Prop
  | (.enrolTotp userId, g) => ∃ stored failure, self.accounts userId = some stored ∧
      stored.totpConfirmed = false ∧ stored.totpSecret ≠ some g.totpSecret ∧
      rt.provisioningUri g.totpSecret stored.email = .error failure
  | _ => False

section Step

variable (rt : Runtime Salt Hash Uuid) (self : InMemoryIdentityProvider Hash)

-- A call that fails has changed nothing, one that succeeds nothing of anyone else.
structure Settled (before : InMemoryIdentityProvider Hash) (input : Input Salt)
    (reply : Except Failure Reply) (after : InMemoryIdentityProvider Hash) : Prop where
  failed : ∀ failure, reply = .error failure → after = before
  refused : reply = .ok (.bool false) → after = before
  frame : ∀ value, reply = .ok value → Frame (subject rt before input) before after

variable {rt self} in
theorem settled_same {input : Input Salt} {reply : Except Failure Reply} :
    Settled rt self input reply self where
  failed _ _ := rfl
  refused _ := rfl
  frame _ _ := Frame.refl

variable {rt self} in
theorem settled_frame {input : Input Salt} {value : Reply} {next : InMemoryIdentityProvider Hash}
    (hvalue : value ≠ .bool false) (h : Frame (subject rt self input) self next) :
    Settled rt self input (.ok value) next where
  failed _ heq := by cases heq
  refused heq := absurd (Except.ok.inj heq) hvalue
  frame _ _ := h

theorem withAccount_self {userId : String} {stored : Account Hash}
    (h : self.accounts userId = some stored) : self.withAccount userId stored = self := by
  unfold withAccount
  rw [← h, Function.update_eq_self]

variable {rt self} in
-- An enrolment that raises and is not half done drew the secret that was stored already.
theorem withAccount_enrolled {userId : String} {stored : Account Hash} {g : Generated Salt}
    {failure : Failure} (hdone : ¬ HalfDone rt self (.enrolTotp userId, g))
    (hstored : self.accounts userId = some stored) (hconfirmed : stored.totpConfirmed = false)
    (huri : rt.provisioningUri g.totpSecret stored.email = .error failure) :
    self.withAccount userId
      { stored with totpSecret := some g.totpSecret, totpConfirmed := false } = self := by
  have hsecret : stored.totpSecret = some g.totpSecret :=
    by_contra fun hne => hdone ⟨stored, failure, hstored, hconfirmed, hne, huri⟩
  rw [← hsecret, ← hconfirmed]
  exact withAccount_self self hstored

variable {rt self} in
theorem Transition.settled {operation : Operation} {g : Generated Salt}
    {reply : Except Failure Reply} {next : InMemoryIdentityProvider Hash}
    (hfresh : Fresh self (operation, g)) (hdone : ¬ HalfDone rt self (operation, g))
    (h : Transition rt g self operation reply next) :
    Settled rt self (operation, g) reply next := by
  cases h with
  | idle => exact settled_same
  | register stored =>
      have hframe : Frame (some g.uuid4) self (self.withAccount g.uuid4 stored) :=
        frame_withAccount stored
      exact settled_frame (by simp) ⟨hframe.accounts, hframe.sessions⟩
  | rehash hindex =>
      refine settled_frame (by simp) ?_
      rw [subject, hindex]
      exact frame_withAccount _
  | markEmailVerified => exact settled_frame (by simp) (frame_withAccount _)
  | changePassword => exact settled_frame (by simp) (frame_withAccount _)
  | issueSession _ _ record hrecord =>
      have howner := congrArg SessionRecord.userId hrecord
      refine settled_frame (by simp) (frame_withSession howner fun old hold => ?_)
      have hnone : self.sessions g.uuid4 = none := hfresh
      rw [hnone] at hold
      cases hold
  | revokeMissing => exact settled_same
  | revokeSession hrecord =>
      refine settled_frame (by simp) ?_
      rw [subject, hrecord]
      refine frame_withSession rfl fun old hold => ?_
      rw [← Option.some.inj (hrecord.symm.trans hold)]
  | revokeAllSessions => exact settled_frame (by simp) frame_withAllRevoked
  | enrolTotp => exact settled_frame (by simp) (frame_withAccount _)
  | enrolTotpRaises hstored hconfirmed huri =>
      rw [withAccount_enrolled hdone hstored hconfirmed huri]
      exact settled_same
  | verifyTotp => exact settled_frame (by simp) (frame_withAccount _)
  | disableMissing => exact settled_same
  | @disableAccount userId stored hstored =>
      have hdisabled : Frame (some userId) self
          (self.withAccount userId { stored with disabled := true }) := frame_withAccount _
      exact settled_frame (by simp) (hdisabled.trans frame_withAllRevoked)

end Step

-- An email with half of a surrogate pair, as JSON can carry it.
def unpaired : Text := [0xD800]

def signedUpUnpaired : InMemoryIdentityProvider String :=
  (step .plain (InMemoryIdentityProvider.init 43200000000)
    (.register .OPERATOR unpaired "first", { AuthService.drawn with uuid4 := "u-1" })).2

theorem run_signedUpUnpaired :
    ProviderRun Runtime.plain (InMemoryIdentityProvider.init 43200000000)
      [((.register .OPERATOR unpaired "first", { AuthService.drawn with uuid4 := "u-1" }),
        .ok (.user ⟨"u-1", .OPERATOR, unpaired, false, false, false⟩))] signedUpUnpaired := by
  have hstart : ProviderRun Runtime.plain (InMemoryIdentityProvider.init 43200000000) []
    (InMemoryIdentityProvider.init 43200000000) := .nil
  exact hstart.snoc (.register .OPERATOR unpaired "first",
    { AuthService.drawn with uuid4 := "u-1" }) (by exact rfl)

end TrustlistCore.Auth.InMemoryIdentityProvider
