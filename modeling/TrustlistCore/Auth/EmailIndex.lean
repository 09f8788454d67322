import TrustlistCore.Auth.SessionLifecycle
import TrustlistCore.Library.SecondaryIndex

namespace TrustlistCore.Auth.InMemoryIdentityProvider

open Library

variable {Salt Hash Uuid : Type}

-- The entry of the index that an account is found under.
def indexKey (rt : Runtime Salt Hash Uuid) (stored : Account Hash) : Archetype × Text :=
  (stored.archetype, rt.lowered stored.email)

-- An account of the session's user, in the session's archetype.
def Owned (accounts : String → Option (Account Hash)) (session : Session) : Prop :=
  ∃ stored, accounts session.userId = some stored ∧ stored.archetype = session.archetype

-- The three dicts refer to each other by ids that exist.
structure Consistent (rt : Runtime Salt Hash Uuid) (provider : InMemoryIdentityProvider Hash) :
    Prop where
  indexes : Indexes (indexKey rt) provider.accounts provider.emailIndex
  owned : ∀ sessionId record, provider.sessions sessionId = some record →
    Owned provider.accounts record.view

section Step

variable {rt : Runtime Salt Hash Uuid} {before : InMemoryIdentityProvider Hash}

theorem consistent_init (sessionTtl : Int) :
    Consistent rt (InMemoryIdentityProvider.init sessionTtl : InMemoryIdentityProvider Hash) where
  indexes := Indexes.empty
  owned := fun _ _ h => by cases h

theorem Owned.update {accounts : String → Option (Account Hash)} {session : Session}
    (h : Owned accounts session) {userId : String} {new : Account Hash}
    (hkept : ∀ old, accounts userId = some old → new.archetype = old.archetype) :
    Owned (Function.update accounts userId (some new)) session := by
  obtain ⟨stored, hstored, harchetype⟩ := h
  by_cases huser : session.userId = userId
  · refine ⟨new, by rw [huser, Function.update_self], ?_⟩
    rw [hkept stored (huser ▸ hstored), harchetype]
  · exact ⟨stored, by rw [Function.update_of_ne huser, hstored], harchetype⟩

-- One record is rewritten, and neither the archetype nor the email.
theorem Consistent.rewrite (h : Consistent rt before) {userId : String} {old new : Account Hash}
    (hold : before.accounts userId = some old) (harchetype : new.archetype = old.archetype)
    (hemail : new.email = old.email) : Consistent rt (before.withAccount userId new) where
  indexes := by
    have hkey : indexKey rt new = indexKey rt old := by
      unfold indexKey
      rw [harchetype, hemail]
    exact h.indexes.rewrite hold hkey
  owned sessionId record hrecord := by
    refine (h.owned sessionId record hrecord).update fun found hfound => ?_
    rw [hold] at hfound
    rw [harchetype, Option.some.inj hfound]

theorem Consistent.register (h : Consistent rt before) {userId : String} {stored : Account Hash}
    (hfresh : before.accounts userId = none)
    (hfree : before.emailIndex (indexKey rt stored) = none) :
    Consistent rt { before.withAccount userId stored with
      emailIndex := Function.update before.emailIndex (indexKey rt stored) (some userId) } where
  indexes := h.indexes.insert hfresh hfree
  owned sessionId record hrecord := by
    refine (h.owned sessionId record hrecord).update fun found hfound => ?_
    rw [hfresh] at hfound
    cases hfound

-- Only the sessions change, and whatever is new among them has an owner.
theorem Consistent.sessions (h : Consistent rt before) {next : InMemoryIdentityProvider Hash}
    (hindex : next.emailIndex = before.emailIndex) (haccounts : next.accounts = before.accounts)
    (hsessions : ∀ sessionId record, next.sessions sessionId = some record →
      (∃ old, before.sessions sessionId = some old ∧ old.view = record.view) ∨
        Owned before.accounts record.view) : Consistent rt next where
  indexes := by
    rw [hindex, haccounts]
    exact h.indexes
  owned sessionId record hrecord := by
    rw [haccounts]
    rcases hsessions sessionId record hrecord with ⟨old, hold, hview⟩ | howned
    · exact hview ▸ h.owned sessionId old hold
    · exact howned

theorem Consistent.withAllRevoked (h : Consistent rt before) (userId : String) :
    Consistent rt (before.withAllRevoked userId) := by
  refine h.sessions rfl rfl fun sessionId record hrecord => ?_
  obtain ⟨old, hold, rfl⟩ := Option.map_eq_some_iff.mp hrecord
  exact .inl ⟨old, hold, (revokeIfOwned_spec userId old).1.symm⟩

theorem Consistent.withSession (h : Consistent rt before) {sessionId : String}
    {record : SessionRecord} (hrecord : (∃ old, before.sessions sessionId = some old ∧
      old.view = record.view) ∨ Owned before.accounts record.view) :
    Consistent rt (before.withSession sessionId record) := by
  refine h.sessions rfl rfl fun other found hfound => ?_
  by_cases heq : other = sessionId
  · rw [withSession_sessions, heq, Function.update_self] at hfound
    rw [heq, ← Option.some.inj hfound]
    exact hrecord
  · rw [withSession_sessions, Function.update_of_ne heq] at hfound
    exact .inl ⟨found, hfound, rfl⟩

theorem consistent_change {after : InMemoryIdentityProvider Hash} {operation : Operation}
    {g : Generated Salt} {reply : Except Failure Reply} (hfresh : Fresh before (operation, g))
    (hchange : Change rt g before operation reply after) (h : Consistent rt before) :
    Consistent rt after := by
  cases hchange with
  | quiet hquiet => exact h
  | flags hquiet hstored huser harchetype hemail hhash hdisabled =>
      exact h.rewrite hstored harchetype hemail
  | @register archetype email password stored hnew hstored =>
      subst hstored
      exact h.register hfresh hnew
  | rehash reply hstored hverify => exact h.rewrite hstored rfl rfl
  | changePassword hstored => exact h.rewrite hstored rfl rfl
  | disableMissing hmissing => exact h
  | @disableAccount userId stored hstored =>
      have hdisabled : Consistent rt (before.withAccount userId { stored with disabled := true }) :=
        h.rewrite hstored rfl rfl
      exact hdisabled.withAllRevoked userId
  | @issueSession userId deviceFingerprint stored hstored hlive record hrecord =>
      refine h.withSession (.inr ⟨stored, ?_, ?_⟩)
      · rw [hrecord]
        exact hstored
      · rw [hrecord]
        rfl
  | revokeMissing hmissing => exact h
  | @revokeSession sessionId record hrecord => exact h.withSession (.inl ⟨record, hrecord, rfl⟩)
  | revokeAllSessions => exact h.withAllRevoked _

end Step

-- A call of the provider, in which a password can be any `str`.
inductive Attempt
  | register (archetype : Archetype) (email password : Text)
  | authenticate (archetype : Archetype) (email password : Text)
  | changePassword (userId : String) (newPassword : Text)
  | operation (operation : Operation)

section Attempt

variable (rt : Runtime Salt Hash Uuid)

def attempt (g : Generated Salt) : Attempt → ProviderMethod Hash Reply
  | .register archetype email password =>
      Reply.user <$> register rt archetype email password g.salt g.uuid4
  | .authenticate archetype email password =>
      Reply.user <$> authenticate rt archetype email password g.needsRehash g.salt
  | .changePassword userId newPassword =>
      (fun _ => Reply.none) <$> changePassword rt userId newPassword g.salt
  | .operation operation => operate rt g operation

def stepAttempt (self : InMemoryIdentityProvider Hash) (input : Attempt × Generated Salt) :
    Except Failure Reply × InMemoryIdentityProvider Hash :=
  match (attempt rt input.2 input.1).run self with
  | .ok reply next => (.ok reply, next)
  | .error failure next => (.error failure, next)

def FreshAttempt (self : InMemoryIdentityProvider Hash) : Attempt × Generated Salt → Prop
  | (.register _ _ _, g) => self.accounts g.uuid4 = none
  | (.operation operation, g) => Fresh self (operation, g)
  | _ => True

abbrev AttemptRun :=
  Library.Run (stepAttempt rt)
    (FreshAttempt : InMemoryIdentityProvider Hash → Attempt × Generated Salt → Prop)

variable {rt}

theorem stepAttempt_wp (self : InMemoryIdentityProvider Hash) (input : Attempt × Generated Salt)
    (Q : Except Failure Reply → InMemoryIdentityProvider Hash → Prop) :
    wp (attempt rt input.2 input.1) Q self ↔
      Q (stepAttempt rt self input).1 (stepAttempt rt self input).2 := by
  unfold wp stepAttempt
  cases (attempt rt input.2 input.1).run self <;> rfl

-- Of a password that cannot be encoded a call makes an exception and nothing else; any other
-- call is one of the operations.
inductive Attempted (rt : Runtime Salt Hash Uuid) (self : InMemoryIdentityProvider Hash)
    (g : Generated Salt) (call : Attempt) :
    Except Failure Reply → InMemoryIdentityProvider Hash → Prop
  | operation (operation : Operation)
      (hfresh : FreshAttempt self (call, g) → Fresh self (operation, g)) :
      Attempted rt self g call (step rt self (operation, g)).1 (step rt self (operation, g)).2
  | refused {failure : Failure} : Attempted rt self g call (.error failure) self

theorem attempted (self : InMemoryIdentityProvider Hash) (call : Attempt) (g : Generated Salt) :
    Attempted rt self g call (stepAttempt rt self (call, g)).1 (stepAttempt rt self (call, g)).2 := by
  refine (stepAttempt_wp self (call, g) (Attempted rt self g call)).mp ?_
  cases call with
  | register archetype email password =>
      cases hencoded : encodePassword password with
      | ok text =>
          rw [encodePassword_eq_ok_iff.mp hencoded]
          exact (step_wp rt self (.register archetype email text, g) _).mpr
            (.operation (.register archetype email text) id)
      | error failure =>
          simp only [attempt, wp_map, wp_register, hashPassword, hencoded, Except.map]
          split
          · exact .refused
          · exact .refused
  | authenticate archetype email password =>
      cases hencoded : encodePassword password with
      | ok text =>
          rw [encodePassword_eq_ok_iff.mp hencoded]
          exact (step_wp rt self (.authenticate archetype email text, g) _).mpr
            (.operation (.authenticate archetype email text) id)
      | error failure =>
          simp only [attempt, wp_map, wp_authenticate_iff, hencoded]
          cases self.emailIndex (archetype, rt.lowered email) with
          | none => exact .refused
          | some userId =>
              simp only
              cases self.accounts userId with
              | none => exact .refused
              | some stored => exact .refused
  | changePassword userId newPassword =>
      cases hencoded : encodePassword newPassword with
      | ok text =>
          rw [encodePassword_eq_ok_iff.mp hencoded]
          exact (step_wp rt self (.changePassword userId text, g) _).mpr
            (.operation (.changePassword userId text) id)
      | error failure =>
          simp only [attempt, wp_map, wp_changePassword, hashPassword, hencoded, Except.map]
          cases self.accounts userId with
          | none => exact .refused
          | some stored => exact .refused
  | operation operation => exact (step_wp rt self (operation, g) _).mpr (.operation operation id)

theorem consistent_attempted {before after : InMemoryIdentityProvider Hash} {call : Attempt}
    {g : Generated Salt} {reply : Except Failure Reply} (hfresh : FreshAttempt before (call, g))
    (hattempted : Attempted rt before g call reply after) (h : Consistent rt before) :
    Consistent rt after := by
  cases hattempted with
  | operation operation hoperation =>
      exact consistent_change (hoperation hfresh) (step_change rt before (operation, g)) h
  | refused => exact h

end Attempt

section Run

variable (rt : Runtime Salt Hash Uuid)

theorem consistent_run {sessionTtl : Int}
    {history : List ((Attempt × Generated Salt) × Except Failure Reply)}
    {last : InMemoryIdentityProvider Hash}
    (hrun : AttemptRun rt (InMemoryIdentityProvider.init sessionTtl) history last) :
    Consistent rt last :=
  hrun.invariant (fun state input h hfresh =>
    consistent_attempted hfresh (attempted state input.1 input.2) h) (consistent_init sessionTtl)

variable {self : InMemoryIdentityProvider Hash} (h : Consistent rt self)

include h

theorem Consistent.findUserByEmail_returns (archetype : Archetype) (email : Text)
    (g : Generated Salt) :
    ∃ reply, (step rt self (.findUserByEmail archetype email, g)).1 = .ok reply := by
  apply (step_wp rt self (.findUserByEmail archetype email, g) fun reply _ =>
    ∃ value, reply = .ok value).mp
  simp only [operate, findUserByEmail, wp_map, wp_bind, wp_get]
  cases hindex : self.emailIndex (archetype, rt.lowered email) with
  | none => exact ⟨_, rfl⟩
  | some userId =>
      obtain ⟨stored, hstored, -⟩ := h.indexes.points _ _ hindex
      simp only [wp_bind, wp_get, hstored]
      exact ⟨_, rfl⟩

theorem Consistent.authenticate_finds (archetype : Archetype) (email password : Text)
    (g : Generated Salt) (userId : String) :
    (stepAttempt rt self (.authenticate archetype email password, g)).1 ≠
      .error (.keyError userId) := by
  apply (stepAttempt_wp self (.authenticate archetype email password, g) fun reply _ =>
    reply ≠ .error (.keyError userId)).mp
  simp only [attempt, wp_map, wp_authenticate_iff]
  cases hindex : self.emailIndex (archetype, rt.lowered email) with
  | none =>
      cases hencoded : encodePassword password with
      | ok text => simp [Except.map, authenticationFailedDefault]
      | error failure => simp [Except.map, error_of_encodePassword hencoded]
  | some found =>
      obtain ⟨stored, hstored, -⟩ := h.indexes.points _ _ hindex
      simp only [hstored]
      cases hencoded : encodePassword password with
      | ok text => simp only; split_ifs <;> simp [Except.map, authenticationFailedDefault]
      | error failure => simp [Except.map, error_of_encodePassword hencoded]

theorem Consistent.register_raises_iff (archetype : Archetype) (email password : Text)
    (g : Generated Salt) :
    (∃ failure, (stepAttempt rt self (.register archetype email password, g)).1 =
        .error failure) ↔
      (∃ userId stored, self.accounts userId = some stored ∧ stored.archetype = archetype ∧
        rt.lowered stored.email = rt.lowered email) ∨
        ∀ text, password ≠ ofString text := by
  have htaken : (self.emailIndex (archetype, rt.lowered email)).isSome ↔
      ∃ userId stored, self.accounts userId = some stored ∧ stored.archetype = archetype ∧
        rt.lowered stored.email = rt.lowered email := by
    rw [h.indexes.isSome_index]
    simp only [indexKey, Prod.mk.injEq]
  rw [← htaken]
  apply (stepAttempt_wp self (.register archetype email password, g) fun reply _ =>
    (∃ failure, reply = .error failure) ↔ _).mp
  simp only [attempt, wp_map, wp_register]
  split_ifs with hsome
  · exact iff_of_true ⟨_, rfl⟩ (Or.inl hsome)
  · cases hencoded : encodePassword password with
    | ok text =>
        rw [encodePassword_eq_ok_iff] at hencoded
        simp only [hencoded, hashPassword_ofString]
        refine iff_of_false ?_ ?_
        · rintro ⟨failure, hraised⟩
          cases hraised
        · exact not_or.mpr ⟨hsome, fun hnone => hnone text rfl⟩
    | error failure =>
        simp only [hashPassword, hencoded, Except.map]
        refine iff_of_true ⟨_, rfl⟩ (Or.inr fun text htext => ?_)
        rw [encodePassword_eq_ok_iff.mpr htext] at hencoded
        cases hencoded

end Run

-- The email index and the accounts are in bijection, and every session has its account.
theorem email_index_consistent (rt : Runtime Salt Hash Uuid) (sessionTtl : Int)
    (history : List ((Attempt × Generated Salt) × Except Failure Reply))
    (last : InMemoryIdentityProvider Hash)
    (hrun : AttemptRun rt (InMemoryIdentityProvider.init sessionTtl) history last) :
    Set.BijOn last.emailIndex {key | (last.emailIndex key).isSome}
        (some '' {userId | (last.accounts userId).isSome}) ∧
      (∀ archetype key userId, last.emailIndex (archetype, key) = some userId →
        ∃ stored, last.accounts userId = some stored ∧ stored.archetype = archetype ∧
          rt.lowered stored.email = key) ∧
      (∀ userId stored, last.accounts userId = some stored → ∀ key,
        last.emailIndex key = some userId ↔ key = (stored.archetype, rt.lowered stored.email)) ∧
      (∀ userId other stored shared, last.accounts userId = some stored →
        last.accounts other = some shared → stored.archetype = shared.archetype →
        rt.lowered stored.email = rt.lowered shared.email → userId = other) ∧
      (∀ archetype email g,
        ∃ reply, (step rt last (.findUserByEmail archetype email, g)).1 = .ok reply) ∧
      (∀ archetype email password g userId,
        (stepAttempt rt last (.authenticate archetype email password, g)).1 ≠
          .error (.keyError userId)) ∧
      (∀ archetype email password g,
        (∃ failure, (stepAttempt rt last (.register archetype email password, g)).1 =
            .error failure) ↔
          (∃ userId stored, last.accounts userId = some stored ∧ stored.archetype = archetype ∧
            rt.lowered stored.email = rt.lowered email) ∨
            ∀ text, password ≠ ofString text) ∧
      ∀ sessionId record, last.sessions sessionId = some record →
        ∃ stored, last.accounts record.userId = some stored ∧
          stored.archetype = record.archetype := by
  have h := consistent_run rt hrun
  refine ⟨h.indexes.bijOn, ?_, ?_, ?_, h.findUserByEmail_returns, h.authenticate_finds,
    h.register_raises_iff, h.owned⟩
  · intro archetype key userId hindex
    obtain ⟨stored, hstored, hkey⟩ := h.indexes.points _ _ hindex
    obtain ⟨harchetype, hemail⟩ := Prod.mk.inj hkey
    exact ⟨stored, hstored, harchetype, hemail⟩
  · exact fun userId stored hstored key => h.indexes.index_eq_some_iff hstored
  · exact fun userId other stored shared hstored hshared harchetype hemail =>
      h.indexes.unique hstored hshared (Prod.ext harchetype hemail)

def firstSignUp : Attempt × Generated Unit :=
  (.register .OPERATOR AuthService.address (ofString "first"),
    { AuthService.drawn with uuid4 := "u-1" })

-- The address is taken from the first registration on.
theorem email_index_consistent_signedUp :
    ∃ failure, (stepAttempt .plain signedUp
      (.register .OPERATOR AuthService.address (ofString "second"), AuthService.drawn)).1 =
        .error failure := by
  have hstart : AttemptRun Runtime.plain (InMemoryIdentityProvider.init 43200000000) []
    (InMemoryIdentityProvider.init 43200000000) := .nil
  have hrun := hstart.snoc firstSignUp (by exact rfl)
  obtain ⟨-, -, -, -, -, -, hraises, -⟩ := email_index_consistent .plain 43200000000 _ _ hrun
  exact (hraises .OPERATOR AuthService.address (ofString "second") AuthService.drawn).mpr
    (Or.inl ⟨"u-1", _, rfl, rfl, rfl⟩)

def surrogate : Text :=
  [0xD800]

-- Half of a surrogate pair is a `str`, and no account is there that it could be refused for.
theorem register_raises_surrogate :
    AttemptRun Runtime.plain (InMemoryIdentityProvider.init 43200000000) []
        (InMemoryIdentityProvider.init 43200000000) ∧
      ¬ ((∃ failure, (stepAttempt .plain (InMemoryIdentityProvider.init 43200000000)
          (.register .OPERATOR AuthService.address surrogate, AuthService.drawn)).1 =
            .error failure) ↔
        ∃ userId stored, (InMemoryIdentityProvider.init 43200000000 :
            InMemoryIdentityProvider String).accounts userId = some stored ∧
          stored.archetype = .OPERATOR ∧
            Runtime.plain.lowered stored.email = Runtime.plain.lowered AuthService.address) := by
  refine ⟨.nil, fun h => ?_⟩
  obtain ⟨userId, stored, hstored, -⟩ := h.mp ⟨_, rfl⟩
  exact nomatch hstored

end TrustlistCore.Auth.InMemoryIdentityProvider
