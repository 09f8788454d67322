import TrustlistCore.Auth.SessionRevocation

namespace TrustlistCore.Auth.AuthService

open Library InMemoryIdentityProvider

variable {Salt Hash Uuid : Type}

-- The password is one the user has: it verifies against the stored hash.
def Verifies (rt : Runtime Salt Hash Uuid) (userId password : String)
    (provider : InMemoryIdentityProvider Hash) : Prop :=
  ∃ stored, provider.accounts userId = some stored ∧
    rt.verify stored.passwordHash password = true

-- Accounts are stored under their own ids, and hashes come from the hasher.
structure AccountsHashed (rt : Runtime Salt Hash Uuid)
    (provider : InMemoryIdentityProvider Hash) : Prop where
  keyed : ∀ userId stored, provider.accounts userId = some stored → stored.userId = userId
  hashed : ∀ userId stored, provider.accounts userId = some stored →
    ∃ salt password, stored.passwordHash = rt.hash salt password

theorem AccountsHashed.withAccount {rt : Runtime Salt Hash Uuid}
    {provider : InMemoryIdentityProvider Hash} (h : AccountsHashed rt provider) (userId : String)
    (updated : Account Hash) (hid : updated.userId = userId)
    (hhash : ∃ salt password, updated.passwordHash = rt.hash salt password) :
    AccountsHashed rt (provider.withAccount userId updated) := by
  constructor
  · intro other stored hs
    by_cases ho : other = userId
    · subst ho
      simp only [withAccount_accounts, Function.update_self, Option.some.injEq] at hs
      rw [← hs, hid]
    · exact h.keyed other stored (by simpa [ho] using hs)
  · intro other stored hs
    by_cases ho : other = userId
    · subst ho
      simp only [withAccount_accounts, Function.update_self, Option.some.injEq] at hs
      rw [← hs]
      exact hhash
    · exact h.hashed other stored (by simpa [ho] using hs)

theorem AccountsHashed.withAllRevoked {rt : Runtime Salt Hash Uuid}
    {provider : InMemoryIdentityProvider Hash} (h : AccountsHashed rt provider)
    (userId : String) : AccountsHashed rt (provider.withAllRevoked userId) :=
  ⟨h.keyed, h.hashed⟩

theorem accountsHashed_effect {rt : Runtime Salt Hash Uuid} {g : Generated Salt}
    {before after : InMemoryIdentityProvider Hash} {call : Call} {reply : Except Failure Reply}
    (heffect : Effect rt g before call reply after) (h : AccountsHashed rt before) :
    AccountsHashed rt after := by
  cases heffect with
  | idle _ => exact h
  | account _ hstored huser hhash =>
      apply h.withAccount
      · rw [huser, h.keyed _ _ hstored]
      · rw [hhash]
        exact h.hashed _ _ hstored
  | @register archetype email password =>
      have hnew := h.withAccount g.uuid4
        { userId := g.uuid4, archetype := archetype, email := email,
          passwordHash := rt.hash g.salt password } rfl ⟨g.salt, password, rfl⟩
      exact ⟨hnew.keyed, hnew.hashed⟩
  | @rehash _ _ password _ _ _ _ stored hstored _ =>
      apply h.withAccount
      · exact h.keyed _ stored hstored
      · exact ⟨g.salt, password, rfl⟩
  | @changePassword _ newPassword _ _ stored hstored =>
      apply AccountsHashed.withAllRevoked
      apply h.withAccount
      · exact h.keyed _ stored hstored
      · exact ⟨g.salt, newPassword, rfl⟩
  | @disableAccount _ _ _ stored hstored =>
      apply AccountsHashed.withAllRevoked
      apply h.withAccount
      · exact h.keyed _ stored hstored
      · exact h.hashed _ stored hstored
  | revokeRole => exact ⟨h.keyed, h.hashed⟩
  | issueSession _ record _ => exact ⟨h.keyed, h.hashed⟩
  | revokeSession _ => exact ⟨h.keyed, h.hashed⟩

theorem Verifies.withAccount {rt : Runtime Salt Hash Uuid}
    {provider : InMemoryIdentityProvider Hash} {userId password : String}
    (h : Verifies rt userId password provider) {other : String} {stored updated : Account Hash}
    (hstored : provider.accounts other = some stored)
    (hkeeps : rt.verify stored.passwordHash password = true →
      rt.verify updated.passwordHash password = true) :
    Verifies rt userId password (provider.withAccount other updated) := by
  obtain ⟨current, hc, hv⟩ := h
  by_cases ho : userId = other
  · subst ho
    rw [hstored] at hc
    cases hc
    exact ⟨updated, by simp, hkeeps hv⟩
  · exact ⟨current, by simpa [ho] using hc, hv⟩

section Hasher

variable (rt : Runtime Salt Hash Uuid)
  (hverify : ∀ salt password other, rt.verify (rt.hash salt password) other = true ↔
    password = other)

include hverify

-- Only `change_password` takes a password away, and then it revokes the sessions.
theorem verifies_effect {g : Generated Salt} {before after : InMemoryIdentityProvider Hash}
    {call : Call} {reply : Except Failure Reply} (heffect : Effect rt g before call reply after)
    (hfresh : ∀ archetype email password, call = .register archetype email password →
      before.accounts g.uuid4 = none)
    (hhashed : AccountsHashed rt before) {userId password : String}
    (h : Verifies rt userId password before) :
    Verifies rt userId password after ∨
      (∃ newPassword ipAddress, call = .changePassword userId newPassword ipAddress) ∧
        after.sessions = (before.withAllRevoked userId).sessions := by
  cases heffect with
  | idle _ => exact .inl h
  | account _ hstored _ hhash =>
      left
      exact h.withAccount hstored (by rw [hhash]; exact id)
  | register =>
      left
      obtain ⟨stored, hs, hv⟩ := h
      have hne : userId ≠ g.uuid4 := by
        rintro rfl
        rw [hfresh _ _ _ rfl] at hs
        cases hs
      exact ⟨stored, by simpa [hne] using hs, hv⟩
  | @rehash _ _ verified _ _ _ _ stored hstored hv =>
      left
      apply h.withAccount hstored
      intro hpassword
      -- both passwords are the one the old hash was made from
      obtain ⟨salt, original, ho⟩ := hhashed.hashed _ _ hstored
      rw [ho, hverify] at hpassword hv
      rw [hverify, ← hv, hpassword]
  | @changePassword changedId newPassword ipAddress _ stored hstored =>
      by_cases hid : userId = changedId
      · subst hid
        exact .inr ⟨⟨_, _, rfl⟩, rfl⟩
      · left
        obtain ⟨current, hc, hv⟩ := h
        exact ⟨current, by simpa [hid] using hc, hv⟩
  | disableAccount hstored => exact .inl (h.withAccount hstored id)
  | revokeRole => exact .inl h
  | issueSession _ record _ => exact .inl h
  | revokeSession _ => exact .inl h

end Hasher

variable [DecidableEq Uuid]

-- The three calls of a login flow, as entries of a trace.
def Authenticates (userId password : String) (entry : Event Salt Uuid × Except Failure Reply) :
    Prop :=
  ∃ archetype email ipAddress userAgent generated user,
    entry = (.call (.authenticate archetype email password ipAddress userAgent) generated,
      .ok (.user user)) ∧ user.userId = userId

def PassesTotp (userId : String) (entry : Event Salt Uuid × Except Failure Reply) : Prop :=
  ∃ code ipAddress generated,
    entry = (.call (.verifyTotp userId code ipAddress) generated, .ok (.bool true)) ∨
      entry = (.call (.verifyTotpStrict userId code ipAddress) generated, .ok .none)

def Issues (userId : String) (session : Session)
    (entry : Event Salt Uuid × Except Failure Reply) : Prop :=
  ∃ deviceFingerprint generated,
    entry = (.call (.issueSession userId deviceFingerprint) generated, .ok (.session session))

def ChangesPassword (userId : String) (entry : Event Salt Uuid × Except Failure Reply) : Prop :=
  ∃ newPassword ipAddress generated reply,
    entry = (.call (.changePassword userId newPassword ipAddress) generated, reply)

theorem accountsHashed_step (rt : Runtime Salt Hash Uuid) (state : ServiceState Hash Uuid)
    (event : Event Salt Uuid) (h : AccountsHashed rt state.provider) :
    AccountsHashed rt (step rt state event).2.provider := by
  cases event with
  | call call g => exact accountsHashed_effect (step_effects rt g call state).1 h
  | database database => exact h

theorem accountsHashed_run (rt : Runtime Salt Hash Uuid) {first last : ServiceState Hash Uuid}
    {trace : Trace Salt Uuid} (hrun : ServiceRun rt first trace last)
    (hfirst : AccountsHashed rt first.provider) : AccountsHashed rt last.provider :=
  hrun.invariant (P := fun state => AccountsHashed rt state.provider)
    (fun state event h _ => accountsHashed_step rt state event h) hfirst

section Run

variable (rt : Runtime Salt Hash Uuid)
  (hverify : ∀ salt password other, rt.verify (rt.hash salt password) other = true ↔
    password = other)

include hverify

theorem authenticate_verifies (g : Generated Salt) (state : ServiceState Hash Uuid)
    (hhashed : AccountsHashed rt state.provider) (archetype : Archetype)
    (email : Text) (password : String) (ipAddress userAgent : Option String) (user : ProviderUser) :
    (step rt state (.call (.authenticate archetype email password ipAddress userAgent) g)).1 =
        .ok (.user user) →
      Verifies rt user.userId password (step rt state
        (.call (.authenticate archetype email password ipAddress userAgent) g)).2.provider := by
  apply (step_wp rt g _ state (fun reply next => reply = .ok (.user user) →
    Verifies rt user.userId password next.provider)).mp
  simp only [perform, authenticate, wp_map, wp_bind, wp_catching, wp_onProvider]
  apply wp_authenticate
  · intro failure
    simp only [wp_bind]
    apply wp_record
    intro answer audit _
    cases answer <;> simp [Except.map]
  · intro userId stored next _ hs hv hn
    simp only [wp_bind]
    apply wp_record
    intro answer audit _
    cases answer with
    | error failure => simp [Except.map]
    | ok _ =>
        simp only [wp_pure, Except.map, Except.ok.injEq, Reply.user.injEq]
        rintro rfl
        have hid : stored.view.userId = userId := hhashed.keyed userId stored hs
        rw [hid]
        rcases hn with rfl | rfl
        · exact ⟨stored, hs, hv⟩
        · exact ⟨_, Function.update_self .., (hverify _ _ _).mpr rfl⟩

theorem verifies_step (state : ServiceState Hash Uuid) (event : Event Salt Uuid)
    (hfresh : Fresh state event) (hhashed : AccountsHashed rt state.provider)
    {userId password : String} (h : Verifies rt userId password state.provider) :
    Verifies rt userId password (step rt state event).2.provider ∨
      ChangesPassword userId (event, (step rt state event).1) ∧
        (step rt state event).2.provider.sessions =
          (state.provider.withAllRevoked userId).sessions := by
  cases event with
  | call call g =>
      have heffect := verifies_effect rt hverify (step_effects rt g call state).1
        (by rintro archetype email password rfl; exact hfresh) hhashed h
      rcases heffect with hkept | ⟨⟨newPassword, ipAddress, rfl⟩, hrevoked⟩
      · exact .inl hkept
      · exact .inr ⟨⟨newPassword, ipAddress, g, _, rfl⟩, hrevoked⟩
  | database database => exact .inl h

theorem verifies_run {first last : ServiceState Hash Uuid} {trace : Trace Salt Uuid}
    (hrun : ServiceRun rt first trace last) (hhashed : AccountsHashed rt first.provider)
    {userId password : String} (h : Verifies rt userId password first.provider)
    (hnone : ∀ entry ∈ trace, ¬ ChangesPassword userId entry) :
    Verifies rt userId password last.provider := by
  induction hrun with
  | nil => exact h
  | @snoc trace state event hr hfresh ih =>
      have hbefore := ih (fun entry he => hnone entry (List.mem_append_left _ he))
      have hstate := accountsHashed_run rt hr hhashed
      rcases verifies_step rt hverify state event hfresh hstate hbefore with hkept | ⟨hc, -⟩
      · exact hkept
      · exact absurd hc (hnone _ (by simp))

-- From the issue on, the password stays good or the session is revoked.
theorem verifies_or_revoked_run {first last : ServiceState Hash Uuid} {trace : Trace Salt Uuid}
    (hrun : ServiceRun rt first trace last) (hhashed : AccountsHashed rt first.provider)
    {userId password : String} (h : Verifies rt userId password first.provider)
    (session : Session) (huser : session.userId = userId)
    (hrecord : ∃ record, first.provider.sessions session.sessionId = some record ∧
      record.view = session) :
    Verifies rt userId password last.provider ∨
      ∃ record, last.provider.sessions session.sessionId = some record ∧
        record.revoked = true := by
  induction hrun with
  | nil => exact .inl h
  | @snoc trace state event hr hfresh ih =>
      have hkept := sessionsKept_step rt state event hfresh
      rcases ih with hv | ⟨record, hrec, hrevoked⟩
      · have hstate := accountsHashed_run rt hr hhashed
        rcases verifies_step rt hverify state event hfresh hstate hv with hgood | ⟨-, hall⟩
        · exact .inl hgood
        · right
          obtain ⟨record, hrec, hview⟩ := hrecord
          obtain ⟨current, hc, hcv, -⟩ := sessionsKept_run rt hr _ record hrec
          refine ⟨revokeIfOwned userId current, ?_, ?_⟩
          · rw [hall]
            simp [hc]
          · rw [revokeIfOwned_revoked]
            right
            rw [← huser, ← hview, ← hcv]
            rfl
      · obtain ⟨kept, hk, -, hkr⟩ := hkept _ record hrec
        exact .inr ⟨kept, hk, hkr hrevoked⟩

end Run

-- A live session whose flow proved a password the user no longer has comes from a flow
-- that a change of the password overtook between its first call and its last.
theorem superseded_session_straddles (rt : Runtime Salt Hash Uuid)
    (hverify : ∀ salt password other, rt.verify (rt.hash salt password) other = true ↔
      password = other)
    (start last : ServiceState Hash Uuid) (sessionTtl : Int)
    (hstart : start.provider = InMemoryIdentityProvider.init sessionTtl)
    (earlier afterPassword afterTotp later : Trace Salt Uuid)
    (first second third : Event Salt Uuid × Except Failure Reply)
    (hrun : ServiceRun rt start
      (earlier ++ first :: (afterPassword ++ second :: afterTotp) ++ third :: later) last)
    (userId password : String) (session : Session)
    (hfirst : Authenticates userId password first) (hsecond : PassesTotp userId second)
    (hthird : Issues userId session third) (sessionId : String) (g : Generated Salt)
    (hreturned : (step rt last (.call (.getSession sessionId) g)).1 = .ok (.session session))
    (hsuperseded : ¬ Verifies rt userId password last.provider) :
    ∃ entry ∈ afterPassword ++ afterTotp, ChangesPassword userId entry := by
  by_contra hnone
  push Not at hnone
  have hhashed : AccountsHashed rt start.provider := by
    rw [hstart]
    constructor <;> rintro _ _ ⟨⟩
  have hkeyed : Keyed start.provider := by
    rw [hstart]
    rintro _ _ ⟨⟩
  obtain ⟨atFirst, hr₁, -, hreply₁, hrest⟩ := hrun.exists_step earlier first
    ((afterPassword ++ second :: afterTotp) ++ third :: later) (by simp)
  obtain ⟨atThird, hr₂, hfresh, hreply₂, hr₃⟩ :=
    hrest.exists_step (afterPassword ++ second :: afterTotp) third later rfl
  -- the password is good after `authenticate`
  obtain ⟨archetype, email, ipAddress, userAgent, g₁, user, rfl, huser⟩ := hfirst
  have hhashed₁ := accountsHashed_run rt hr₁ hhashed
  have hgood := authenticate_verifies rt hverify g₁ atFirst hhashed₁ archetype email password
    ipAddress userAgent user hreply₁.symm
  rw [huser] at hgood
  -- it stays good up to the issue, since the flow meets no change of the password
  have hhashed₂ := accountsHashed_step rt atFirst
    (.call (.authenticate archetype email password ipAddress userAgent) g₁) hhashed₁
  have hbetween : ∀ entry ∈ afterPassword ++ second :: afterTotp,
      ¬ ChangesPassword userId entry := by
    intro entry he
    rcases List.mem_append.mp he with he | he
    · exact hnone entry (List.mem_append_left _ he)
    · rcases List.mem_cons.mp he with rfl | he
      · obtain ⟨code, ip, g₂, rfl | rfl⟩ := hsecond <;> rintro ⟨_, _, _, _, ⟨⟩⟩
      · exact hnone entry (List.mem_append_right _ he)
  have hgood₂ := verifies_run rt hverify hr₂ hhashed₂ hgood hbetween
  have hhashed₃ := accountsHashed_run rt hr₂ hhashed₂
  -- and so it is when the session is issued
  obtain ⟨deviceFingerprint, g₃, rfl⟩ := hthird
  have heffect := (step_effects rt g₃ (.issueSession userId deviceFingerprint) atThird).1
  rw [← hreply₂] at heffect
  obtain ⟨huser₃, record, hrecord, hview, -⟩ := issueSession_effect heffect
  have hgood₃ := (verifies_step rt hverify atThird
    (.call (.issueSession userId deviceFingerprint) g₃) hfresh hhashed₃ hgood₂).resolve_right
      (by rintro ⟨⟨_, _, _, _, ⟨⟩⟩, -⟩)
  have hhashed₄ := accountsHashed_step rt atThird
    (.call (.issueSession userId deviceFingerprint) g₃) hhashed₃
  -- a later change of the password revokes the session, which is then not returned
  rcases verifies_or_revoked_run rt hverify hr₃ hhashed₄ hgood₃ session huser₃
      ⟨record, hrecord, hview⟩ with hkept | ⟨revoked, hr, hrevoked⟩
  · exact hsuperseded hkept
  · obtain ⟨live, hl, hlive⟩ :=
      getSession_returns_live rt g last (keyed_run rt hrun hkeyed) sessionId session hreturned
    rw [hr] at hl
    cases hl
    rw [hrevoked] at hlive
    cases hlive

-- A login that is under way when another client changes the password.
def enrolEvent : Event Unit String := .call (.enrolTotp "u-1") { drawn with eventId := "e-2" }

def authenticateEvent : Event Unit String :=
  .call (.authenticate .OPERATOR address "first" none none) { drawn with eventId := "e-3" }

def verifyEvent : Event Unit String :=
  .call (.verifyTotp "u-1" "JBSWY3DP" none) { drawn with eventId := "e-4" }

def changeEvent : Event Unit String :=
  .call (.changePassword "u-1" "second" none) { drawn with eventId := "e-5" }

def issueEvent : Event Unit String := .call (.issueSession "u-1" none) drawn

def enrolled : ServiceState String String := (step .plain registered enrolEvent).2

def authenticated : ServiceState String String := (step .plain enrolled authenticateEvent).2

def verified : ServiceState String String := (step .plain authenticated verifyEvent).2

def overtaken : ServiceState String String := (step .plain verified changeEvent).2

def straddled : ServiceState String String := (step .plain overtaken issueEvent).2

theorem enrolled_run :
    ∃ earlier : Trace Unit String, ServiceRun .plain noAccounts earlier enrolled :=
  ⟨_, run_registered.snoc enrolEvent (by trivial)⟩

theorem straddled_run : ∃ earlier : Trace Unit String, ServiceRun .plain noAccounts
    (earlier ++ (authenticateEvent, (step .plain enrolled authenticateEvent).1) ::
      ([] ++ (verifyEvent, .ok (.bool true)) :: [(changeEvent, .ok .none)]) ++
      (issueEvent, .ok (.session issuedSession)) :: []) straddled := by
  obtain ⟨earlier, henrol⟩ := enrolled_run
  have hflow := (((henrol.snoc authenticateEvent (by trivial)).snoc verifyEvent
    (by trivial)).snoc changeEvent (by trivial)).snoc issueEvent (by exact rfl)
  refine ⟨earlier, ?_⟩
  simp only [List.append_assoc, List.cons_append, List.nil_append] at hflow ⊢
  exact hflow

theorem straddled_superseded : ¬ Verifies .plain "u-1" "first" straddled.provider := by
  rintro ⟨stored, hs, hv⟩
  rw [← Option.some.inj hs] at hv
  exact absurd hv (by decide)

theorem superseded_session_straddles_login :
    ∃ entry ∈ [] ++ [((changeEvent, .ok .none) : Event Unit String × Except Failure Reply)],
      ChangesPassword "u-1" entry := by
  obtain ⟨earlier, hrun⟩ := straddled_run
  exact superseded_session_straddles .plain (by simp [Runtime.plain]) noAccounts straddled
    43200000000 rfl earlier [] _ [] _ _ _ hrun "u-1" "first" issuedSession
    ⟨_, _, _, _, _, _, rfl, rfl⟩ ⟨_, _, _, .inl rfl⟩ ⟨_, _, rfl⟩ "s-1" drawn rfl
    straddled_superseded

-- The session of that login is live although the password it rests on is gone.
theorem superseded_password_yields_session :
    ∃ (earlier : Trace Unit String) (first second third : Event Unit String × Except Failure Reply),
      ServiceRun .plain noAccounts
        (earlier ++ first :: ([] ++ second :: [(changeEvent, .ok .none)]) ++ third :: [])
        straddled ∧
      Authenticates "u-1" "first" first ∧ PassesTotp "u-1" second ∧
      Issues "u-1" issuedSession third ∧
      (step .plain straddled (.call (.getSession "s-1") drawn)).1 =
        .ok (.session issuedSession) ∧
      ¬ Verifies .plain "u-1" "first" straddled.provider := by
  obtain ⟨earlier, hrun⟩ := straddled_run
  exact ⟨earlier, _, _, _, hrun, ⟨_, _, _, _, _, _, rfl, rfl⟩, ⟨_, _, _, .inl rfl⟩,
    ⟨_, _, rfl⟩, rfl, straddled_superseded⟩

end TrustlistCore.Auth.AuthService
