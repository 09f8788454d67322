import TrustlistCore.Auth.ProviderRun
import TrustlistCore.Auth.Service.Theorems

namespace TrustlistCore.Auth

open Library InMemoryIdentityProvider

-- What an account is to whoever logs in: a name, the one password that opens it,
-- and whether it has been closed.
structure Credential where
  userId : String
  email : Text
  password : String
  disabled : Bool
  deriving DecidableEq, Repr

-- The abstract store. A key is an archetype with a folded email.
abbrev CredentialStore := Archetype × Text → Option Credential

namespace CredentialStore

variable {Salt Hash Uuid : Type}

def update (store : CredentialStore) (userId : String) (f : Credential → Credential) :
    CredentialStore :=
  fun key => (store key).map (fun credential =>
    if credential.userId = userId then f credential else credential)

-- What an answered call does to the store. A call that raised does nothing.
def apply (fold : Text → Text) (store : CredentialStore) :
    Operation → Except Failure Reply → CredentialStore
  | .register archetype email password, .ok (.user user) =>
      Function.update store (archetype, fold email)
        (some { userId := user.userId, email := email, password := password, disabled := false })
  | .changePassword userId newPassword, .ok _ =>
      store.update userId (fun credential => { credential with password := newPassword })
  | .disableAccount userId, .ok _ =>
      store.update userId (fun credential => { credential with disabled := true })
  | _, _ => store

def after (fold : Text → Text) (history : History Salt) : CredentialStore :=
  history.foldl (fun store entry => store.apply fold entry.1.1 entry.2) (fun _ => none)

theorem after_snoc (fold : Text → Text) (history : History Salt) (input : Input Salt)
    (reply : Except Failure Reply) :
    after fold (history ++ [(input, reply)]) = (after fold history).apply fold input.1 reply := by
  simp [after, List.foldl_append]

theorem update_eq_some {store : CredentialStore} {userId : String} {f : Credential → Credential}
    {key : Archetype × Text} {credential : Credential} :
    store.update userId f key = some credential ↔
      ∃ old, store key = some old ∧
        credential = if old.userId = userId then f old else old := by
  unfold update
  rw [Option.map_eq_some_iff]
  constructor
  · rintro ⟨old, hold, rfl⟩
    exact ⟨old, hold, rfl⟩
  · rintro ⟨old, hold, rfl⟩
    exact ⟨old, hold, rfl⟩

-- The stored hash verifies exactly the password of the credential.
structure Holds (rt : Runtime Salt Hash Uuid) (key : Archetype × Text) (credential : Credential)
    (stored : Account Hash) : Prop where
  userId : stored.userId = credential.userId
  archetype : stored.archetype = key.1
  email : stored.email = credential.email
  password : ∀ candidate, rt.verify stored.passwordHash candidate = true ↔
    credential.password = candidate
  disabled : stored.disabled = credential.disabled

-- The two-level lookup of the provider agrees with the one-level store, and no two
-- keys share an account.
structure Represents (rt : Runtime Salt Hash Uuid) (store : CredentialStore)
    (provider : InMemoryIdentityProvider Hash) : Prop where
  index : ∀ key, provider.emailIndex key = (store key).map Credential.userId
  stored : ∀ key credential, store key = some credential →
    ∃ stored, provider.accounts credential.userId = some stored ∧ Holds rt key credential stored
  unique : ∀ key other credential shared, store key = some credential →
    store other = some shared → credential.userId = shared.userId → key = other

theorem represents_init (rt : Runtime Salt Hash Uuid) (sessionTtl : Int) :
    Represents rt (after rt.lowered ([] : History Salt)) (InMemoryIdentityProvider.init sessionTtl) where
  index := fun _ => rfl
  stored := fun _ _ h => by cases h
  unique := fun _ _ _ _ h => by cases h

section Step

variable {rt : Runtime Salt Hash Uuid} {store : CredentialStore}
  {before : InMemoryIdentityProvider Hash}

-- One account record is rewritten together with the credential that it stands for.
theorem Represents.update (hrep : Represents rt store before) {userId : String}
    {old new : Account Hash} (hold : before.accounts userId = some old)
    (f : Credential → Credential) (hf : ∀ credential, (f credential).userId = credential.userId)
    (hnew : ∀ key credential, Holds rt key credential old → Holds rt key (f credential) new) :
    Represents rt (store.update userId f) (before.withAccount userId new) := by
  have hid : ∀ credential : Credential,
      (if credential.userId = userId then f credential else credential).userId =
        credential.userId := by
    intro credential
    by_cases h : credential.userId = userId
    · rw [if_pos h, hf]
    · rw [if_neg h]
  refine ⟨?_, ?_, ?_⟩
  · intro key
    change before.emailIndex key = _
    rw [hrep.index key, CredentialStore.update, Option.map_map]
    congr 1
    funext credential
    exact (hid credential).symm
  · intro key credential hc
    obtain ⟨kept, hk, rfl⟩ := update_eq_some.mp hc
    obtain ⟨stored, hs, hholds⟩ := hrep.stored key kept hk
    rw [hid]
    by_cases h : kept.userId = userId
    · rw [h, hold] at hs
      cases hs
      rw [if_pos h]
      exact ⟨new, by simp [h], hnew key kept hholds⟩
    · rw [if_neg h]
      exact ⟨stored, by simp [h, hs], hholds⟩
  · intro key other credential shared hc hs hshared
    obtain ⟨first, hfirst, rfl⟩ := update_eq_some.mp hc
    obtain ⟨second, hsecond, rfl⟩ := update_eq_some.mp hs
    rw [hid, hid] at hshared
    exact hrep.unique key other first second hfirst hsecond hshared

-- The record changes in a way that the credential does not see.
theorem Represents.keep (hrep : Represents rt store before) {userId : String}
    {old new : Account Hash} (hold : before.accounts userId = some old)
    (hnew : ∀ key credential, Holds rt key credential old → Holds rt key credential new) :
    Represents rt store (before.withAccount userId new) := by
  have h := hrep.update hold id (fun _ => rfl) hnew
  have hid : store.update userId id = store := by
    funext key
    simp [CredentialStore.update]
  rwa [hid] at h

-- Sessions are no part of a credential.
theorem Represents.sessions (hrep : Represents rt store before)
    {next : InMemoryIdentityProvider Hash} (hindex : next.emailIndex = before.emailIndex)
    (haccounts : next.accounts = before.accounts) : Represents rt store next where
  index := by
    rw [hindex]
    exact hrep.index
  stored := by
    rw [haccounts]
    exact hrep.stored
  unique := hrep.unique

theorem Represents.register (hrep : Represents rt store before) {key : Archetype × Text}
    {userId : String} {credential : Credential} {stored : Account Hash}
    (hfresh : before.accounts userId = none) (hid : credential.userId = userId)
    (hholds : Holds rt key credential stored) :
    Represents rt (Function.update store key (some credential))
      { before.withAccount userId stored with
        emailIndex := Function.update before.emailIndex key (some userId) } := by
  have hother : ∀ other kept, store other = some kept → kept.userId ≠ userId := by
    intro other kept hk h
    obtain ⟨found, hf, -⟩ := hrep.stored other kept hk
    rw [h, hfresh] at hf
    cases hf
  refine ⟨?_, ?_, ?_⟩
  · intro other
    by_cases h : other = key
    · simp [h, hid]
    · simp [h, hrep.index other]
  · intro other kept hk
    by_cases h : other = key
    · subst h
      rw [Function.update_self] at hk
      cases hk
      exact ⟨stored, by simp [hid], hholds⟩
    · rw [Function.update_of_ne h] at hk
      obtain ⟨found, hf, hfound⟩ := hrep.stored other kept hk
      exact ⟨found, by simp [hother other kept hk, hf], hfound⟩
  · intro first second kept shared hk hs hshared
    by_cases hf : first = key <;> by_cases hl : second = key
    · rw [hf, hl]
    · rw [hf, Function.update_self] at hk
      rw [Function.update_of_ne hl] at hs
      cases hk
      exact absurd (hshared.symm.trans hid) (hother second shared hs)
    · rw [Function.update_of_ne hf] at hk
      rw [hl, Function.update_self] at hs
      cases hs
      exact absurd (hshared.trans hid) (hother first kept hk)
    · rw [Function.update_of_ne hf] at hk
      rw [Function.update_of_ne hl] at hs
      exact hrep.unique first second kept shared hk hs hshared

end Step

section Refinement

variable (rt : Runtime Salt Hash Uuid)
  (hverify : ∀ salt password candidate,
    rt.verify (rt.hash salt password) candidate = true ↔ password = candidate)

theorem apply_quiet (fold : Text → Text) (store : CredentialStore) {operation : Operation}
    {reply : Except Failure Reply} (hquiet : quiet operation reply = true) :
    store.apply fold operation reply = store := by
  unfold quiet at hquiet
  unfold apply
  split <;> simp_all

include hverify in
-- One call of the provider is one step of the store.
theorem represents_change {store : CredentialStore} {before after : InMemoryIdentityProvider Hash}
    {operation : Operation} {g : Generated Salt} {reply : Except Failure Reply}
    (hfresh : Fresh before (operation, g)) (hchange : Change rt g before operation reply after)
    (hrep : Represents rt store before) :
    Represents rt (store.apply rt.lowered operation reply) after := by
  cases hchange with
  | quiet hquiet =>
      rw [apply_quiet _ _ hquiet]
      exact hrep
  | flags hquiet hstored huser harchetype hemail hhash hdisabled =>
      rw [apply_quiet _ _ hquiet]
      apply hrep.keep hstored
      intro key credential hholds
      exact ⟨huser.trans hholds.userId, harchetype.trans hholds.archetype,
        hemail.trans hholds.email, hhash ▸ hholds.password, hdisabled.trans hholds.disabled⟩
  | @register archetype email password stored hnew hstored =>
      subst hstored
      apply hrep.register hfresh rfl
      exact ⟨rfl, rfl, rfl, hverify g.salt password, rfl⟩
  | @rehash archetype email password userId stored reply hstored hv =>
      -- The new hash verifies the password that the old one has just verified.
      have hstore : store.apply rt.lowered (.authenticate archetype email password) reply = store :=
        rfl
      rw [hstore]
      apply hrep.keep hstored
      intro key credential hholds
      have hpassword := (hholds.password password).mp hv
      refine ⟨hholds.userId, hholds.archetype, hholds.email, ?_, hholds.disabled⟩
      intro candidate
      rw [hpassword]
      exact hverify g.salt password candidate
  | @changePassword userId newPassword stored hstored =>
      apply hrep.update hstored (fun credential => { credential with password := newPassword })
        (fun _ => rfl)
      intro key credential hholds
      exact ⟨hholds.userId, hholds.archetype, hholds.email, hverify g.salt newPassword,
        hholds.disabled⟩
  | disableMissing hmissing => exact hrep
  | @disableAccount userId stored hstored =>
      have hdisable : Represents rt
          (store.update userId (fun credential => { credential with disabled := true }))
          (before.withAccount userId { stored with disabled := true }) := by
        refine hrep.update hstored _ ?_ ?_
        · intro credential
          rfl
        · intro key credential hholds
          exact ⟨hholds.userId, hholds.archetype, hholds.email, hholds.password, rfl⟩
      exact hdisable.sessions rfl rfl
  | issueSession hstored hlive record hrecord => exact hrep.sessions rfl rfl
  | revokeMissing hmissing => exact hrep
  | revokeSession hrecord => exact hrep.sessions rfl rfl
  | revokeAllSessions => exact hrep.sessions rfl rfl

include hverify in
theorem represents_run {sessionTtl : Int} {history : History Salt}
    {last : InMemoryIdentityProvider Hash}
    (hrun : ProviderRun rt (InMemoryIdentityProvider.init sessionTtl) history last) :
    Represents rt (after rt.lowered history) last := by
  induction hrun with
  | nil => exact represents_init rt sessionTtl
  | @snoc history state input _ hfresh ih =>
      rw [after_snoc]
      exact represents_change rt hverify hfresh (step_change rt state input) ih

end Refinement

end CredentialStore

namespace InMemoryIdentityProvider

variable {Salt Hash Uuid : Type}

-- The answer of a login is the answer of the abstract store, whatever `needs_rehash`
-- says on this call and said on the calls before it.
theorem authenticate_refines (rt : Runtime Salt Hash Uuid)
    (hverify : ∀ salt password candidate,
      rt.verify (rt.hash salt password) candidate = true ↔ password = candidate)
    (sessionTtl : Int) (history : History Salt) (last : InMemoryIdentityProvider Hash)
    (hrun : ProviderRun rt (InMemoryIdentityProvider.init sessionTtl) history last)
    (archetype : Archetype) (email : Text) (password : String) (g : Generated Salt) :
    let reply := (step rt last (.authenticate archetype email password, g)).1
    let registered := CredentialStore.after rt.lowered history (archetype, rt.lowered email)
    (∀ user, reply = .ok (.user user) → ∃ credential, registered = some credential ∧
        user.userId = credential.userId ∧ user.archetype = archetype ∧
        user.email = credential.email) ∧
      ((∃ user, reply = .ok (.user user)) ↔ ∃ credential, registered = some credential ∧
        credential.password = password ∧ credential.disabled = false) ∧
      ((∃ message, reply = .error (.accountDisabled message)) ↔
        ∃ credential, registered = some credential ∧
          credential.password = password ∧ credential.disabled = true) ∧
      (reply = .error authenticationFailedDefault ↔
        ∀ credential, registered = some credential → credential.password ≠ password) := by
  have hrep := CredentialStore.represents_run rt hverify hrun
  have hstep := (step_wp rt last (.authenticate archetype email password, g)
    (fun reply _ => (step rt last (.authenticate archetype email password, g)).1 = reply)).mpr rfl
  simp only [operate, wp_map, wp_authenticate_ofString_iff, hrep.index] at hstep
  simp only
  cases hc : CredentialStore.after rt.lowered history (archetype, rt.lowered email) with
  | none =>
      rw [hc] at hstep
      simp [show _ = _ from hstep, Except.map, authenticationFailedDefault]
  | some credential =>
      obtain ⟨stored, hs, hholds⟩ := hrep.stored _ credential hc
      simp only [hc, Option.map_some, hs] at hstep
      have hdisabled := hholds.disabled
      by_cases hv : rt.verify stored.passwordHash password = true
      · have hpassword := (hholds.password password).mp hv
        have hview : stored.view.userId = credential.userId ∧ stored.view.archetype = archetype ∧
            stored.view.email = credential.email :=
          ⟨hholds.userId, hholds.archetype, hholds.email⟩
        cases hd : stored.disabled with
        | true =>
            simp only [hv, hd] at hstep
            simp [show _ = _ from hstep, ← hdisabled, hd, hpassword, Except.map,
              authenticationFailedDefault]
        | false =>
            simp only [hv, hd] at hstep
            have hreply : (step rt last (.authenticate archetype email password, g)).1 =
                .ok (.user stored.view) := by
              cases hneeds : g.needsRehash <;> simpa [hneeds, Except.map] using hstep
            simp [hreply, ← hdisabled, hd, hpassword, hview]
      · have hpassword : credential.password ≠ password :=
          fun h => hv ((hholds.password password).mpr h)
        simp only [hv] at hstep
        simp [show _ = _ from hstep, hpassword, Except.map, authenticationFailedDefault]

def signedUp : InMemoryIdentityProvider String :=
  (step .plain (InMemoryIdentityProvider.init 43200000000)
    (.register .OPERATOR AuthService.address "first", { AuthService.drawn with uuid4 := "u-1" })).2

theorem run_signedUp :
    ProviderRun Runtime.plain (InMemoryIdentityProvider.init 43200000000)
      [((.register .OPERATOR AuthService.address "first",
          { AuthService.drawn with uuid4 := "u-1" }),
        .ok (.user ⟨"u-1", .OPERATOR, AuthService.address, false, false, false⟩))] signedUp := by
  have hstart : ProviderRun Runtime.plain (InMemoryIdentityProvider.init 43200000000) []
    (InMemoryIdentityProvider.init 43200000000) := .nil
  exact hstart.snoc (.register .OPERATOR AuthService.address "first",
    { AuthService.drawn with uuid4 := "u-1" }) (by exact rfl)

theorem authenticate_refines_signedUp :
    ∃ user, (step .plain signedUp
      (.authenticate .OPERATOR AuthService.address "first", AuthService.drawn)).1 =
        .ok (.user user) := by
  have hrefines := authenticate_refines .plain (by intro salt password; simp [Runtime.plain])
    43200000000 _ signedUp run_signedUp .OPERATOR AuthService.address "first" AuthService.drawn
  exact hrefines.2.1.mpr ⟨⟨"u-1", AuthService.address, "first", false⟩, rfl, rfl, rfl⟩

end InMemoryIdentityProvider

end TrustlistCore.Auth
