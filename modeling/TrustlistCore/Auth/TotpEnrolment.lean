import TrustlistCore.Auth.ProviderFrame
import TrustlistCore.Library.Journal

namespace TrustlistCore.Auth.InMemoryIdentityProvider

open Library

variable {Salt Hash Uuid : Type}

abbrev Entry (Salt : Type) := Input Salt × Except Failure Reply

-- The secret that a call handed to the user.
def secretIssued (userId : String) : Entry Salt → Option String
  | ((.enrolTotp target, _), .ok (.enrolment enrolment)) =>
      if target = userId then some enrolment.secret else none
  | _ => none

-- A call that accepted a code of the user.
def verified (userId : String) : Entry Salt → Bool
  | ((.verifyTotp target _, _), .ok (.bool true)) => target = userId
  | _ => false

-- The user's most recent enrolment, and what came after it.
def LastEnrolment (history : History Salt) (userId secret : String) (later : History Salt) : Prop :=
  ∃ past entry, history = past ++ entry :: later ∧ secretIssued userId entry = some secret ∧
    ∀ other ∈ later, secretIssued userId other = none

def Confirmed (userId : String) (later : History Salt) : Prop :=
  ∃ entry ∈ later, verified userId entry = true

-- What the answers say of a user: the secret that counts, and whether a code was accepted.
structure Totp where
  secret : Option String := none
  confirmed : Bool := false
  deriving DecidableEq

namespace Totp

def next (userId : String) (state : Totp) (entry : Entry Salt) : Totp :=
  match secretIssued userId entry with
  | some secret => { secret := some secret }
  | none => { state with
      confirmed := state.confirmed || (state.secret.isSome && verified userId entry) }

def after (userId : String) (history : History Salt) : Totp :=
  history.foldl (next userId) {}

theorem after_snoc (userId : String) (history : History Salt) (entry : Entry Salt) :
    after userId (history ++ [entry]) = next userId (after userId history) entry := by
  rw [after, List.foldl_append]
  rfl

variable {userId secret : String} {state : Totp} {history later : History Salt} {entry : Entry Salt}

theorem next_of_issued (h : secretIssued userId entry = some secret) :
    next userId state entry = { secret := some secret } := by
  rw [next, h]

theorem next_of_not_issued (h : secretIssued userId entry = none) :
    next userId state entry = { state with
      confirmed := state.confirmed || (state.secret.isSome && verified userId entry) } := by
  rw [next, h]

-- A call that neither enrolled the user nor accepted a code.
theorem next_idle (h : secretIssued userId entry = none)
    (hverified : verified userId entry = false) : next userId state entry = state := by
  rw [next_of_not_issued h, hverified, Bool.and_false, Bool.or_false]

theorem lastEnrolment_snoc :
    LastEnrolment (history ++ [entry]) userId secret later ↔
      (later = [] ∧ secretIssued userId entry = some secret) ∨
        ∃ rest, later = rest ++ [entry] ∧ secretIssued userId entry = none ∧
          LastEnrolment history userId secret rest := by
  unfold LastEnrolment
  constructor
  · rintro ⟨past, first, hsplit, hissued, hlater⟩
    rcases Journal.snoc_eq_split.mp hsplit with ⟨hnil, -, rfl⟩ | ⟨rest, rfl, hhistory⟩
    · exact .inl ⟨hnil, hissued⟩
    · refine .inr ⟨rest, rfl, hlater entry (by simp), past, first, hhistory, hissued, ?_⟩
      exact fun other hother => hlater other (List.mem_append_left _ hother)
  · rintro (⟨rfl, hissued⟩ | ⟨rest, rfl, hnone, past, first, rfl, hissued, hrest⟩)
    · exact ⟨history, entry, rfl, hissued, fun _ h => absurd h List.not_mem_nil⟩
    · refine ⟨past, first, by simp, hissued, fun other hother => ?_⟩
      rcases List.mem_append.mp hother with h | h
      · exact hrest other h
      · rw [List.mem_singleton.mp h]
        exact hnone

theorem confirmed_snoc :
    Confirmed userId (later ++ [entry]) ↔
      Confirmed userId later ∨ verified userId entry = true := by
  simp [Confirmed, or_and_right, exists_or]

-- The state is told by the last enrolment and the codes accepted since.
theorem after_of_lastEnrolment (h : LastEnrolment history userId secret later) :
    (after userId history).secret = some secret ∧
      ((after userId history).confirmed = true ↔ Confirmed userId later) := by
  induction history using List.reverseRecOn generalizing later with
  | nil =>
      obtain ⟨past, first, hsplit, -⟩ := h
      simp at hsplit
  | append_singleton history entry ih =>
      rw [after_snoc]
      rcases lastEnrolment_snoc.mp h with ⟨rfl, hissued⟩ | ⟨rest, rfl, hnone, hrest⟩
      · rw [next_of_issued hissued]
        exact ⟨rfl, by simp [Confirmed]⟩
      · obtain ⟨hsecret, hconfirmed⟩ := ih hrest
        rw [next_of_not_issued hnone, confirmed_snoc, ← hconfirmed]
        exact ⟨hsecret, by simp [hsecret]⟩

theorem exists_lastEnrolment (h : ∃ entry ∈ history, secretIssued userId entry ≠ none) :
    ∃ secret later, LastEnrolment history userId secret later := by
  induction history using List.reverseRecOn with
  | nil => simp at h
  | append_singleton history entry ih =>
      cases hissued : secretIssued userId entry with
      | some secret => exact ⟨secret, [], lastEnrolment_snoc.mpr (.inl ⟨rfl, hissued⟩)⟩
      | none =>
          obtain ⟨other, hother, hsome⟩ := h
          have hmem : other ∈ history := by
            refine (List.mem_append.mp hother).resolve_right fun hlast => hsome ?_
            rw [List.mem_singleton.mp hlast, hissued]
          obtain ⟨secret, later, hrest⟩ := ih ⟨other, hmem, hsome⟩
          exact ⟨secret, later ++ [entry],
            lastEnrolment_snoc.mpr (.inr ⟨later, rfl, hissued, hrest⟩)⟩

theorem after_of_never (h : ∀ entry ∈ history, secretIssued userId entry = none) :
    after userId history = {} := by
  induction history using List.reverseRecOn with
  | nil => rfl
  | append_singleton history entry ih =>
      rw [after_snoc, ih fun other hother => h other (List.mem_append_left _ hother),
        next_of_not_issued (h entry (by simp))]
      rfl

end Totp

-- The state that a record holds.
def totp (provider : InMemoryIdentityProvider Hash) (userId : String) : Totp :=
  match provider.accounts userId with
  | some stored => { secret := stored.totpSecret, confirmed := stored.totpConfirmed }
  | none => {}

section Step

variable (rt : Runtime Salt Hash Uuid) {self : InMemoryIdentityProvider Hash}

theorem totp_of_accounts {userId : String} {stored : Account Hash}
    (h : self.accounts userId = some stored) :
    self.totp userId = { secret := stored.totpSecret, confirmed := stored.totpConfirmed } := by
  rw [totp, h]

theorem totp_withAccount_of_ne {target userId : String} (stored : Account Hash)
    (h : userId ≠ target) : (self.withAccount target stored).totp userId = self.totp userId := by
  unfold totp
  rw [withAccount_accounts, Function.update_of_ne h]

theorem totp_withAccount_self (userId : String) (stored : Account Hash) :
    (self.withAccount userId stored).totp userId =
      { secret := stored.totpSecret, confirmed := stored.totpConfirmed } :=
  totp_of_accounts (Function.update_self ..)

theorem totp_withAccount_same {target : String} {old new : Account Hash}
    (hold : self.accounts target = some old) (hsecret : new.totpSecret = old.totpSecret)
    (hconfirmed : new.totpConfirmed = old.totpConfirmed) (userId : String) :
    (self.withAccount target new).totp userId = self.totp userId := by
  by_cases h : userId = target
  · rw [h, totp_withAccount_self, totp_of_accounts hold, hsecret, hconfirmed]
  · exact totp_withAccount_of_ne new h

-- What a call does to the records is told by its answer.
def Told (before : InMemoryIdentityProvider Hash) (input : Input Salt)
    (reply : Except Failure Reply) (after : InMemoryIdentityProvider Hash) : Prop :=
  ∀ userId, after.totp userId = Totp.next userId (before.totp userId) (input, reply)

theorem told_idle {input : Input Salt} {reply : Except Failure Reply}
    {next : InMemoryIdentityProvider Hash}
    (hissued : ∀ userId, secretIssued userId (input, reply) = none)
    (hverified : ∀ userId, verified userId (input, reply) = false)
    (h : ∀ userId, next.totp userId = self.totp userId) : Told self input reply next := by
  intro userId
  rw [h, Totp.next_idle (hissued userId) (hverified userId)]

theorem told_enrolled {target : String} {g : Generated Salt} {enrolment : TotpEnrolment}
    (stored : Account Hash) (hsecret : stored.totpSecret = some enrolment.secret)
    (hconfirmed : stored.totpConfirmed = false) :
    Told self (.enrolTotp target, g) (.ok (.enrolment enrolment))
      (self.withAccount target stored) := by
  intro userId
  by_cases h : userId = target
  · have hissued : secretIssued userId ((Operation.enrolTotp target, g),
        .ok (.enrolment enrolment)) = some enrolment.secret := if_pos h.symm
    rw [Totp.next_of_issued hissued, h, totp_withAccount_self, hsecret, hconfirmed]
  · have hissued : secretIssued userId ((Operation.enrolTotp target, g),
        .ok (.enrolment enrolment)) = none := if_neg fun heq => h heq.symm
    rw [Totp.next_idle hissued rfl, totp_withAccount_of_ne stored h]

theorem told_verified {target code secret : String} {g : Generated Salt} {stored : Account Hash}
    (hstored : self.accounts target = some stored) (hsecret : stored.totpSecret = some secret) :
    Told self (.verifyTotp target code, g) (.ok (.bool true))
      (self.withAccount target { stored with totpConfirmed := true }) := by
  intro userId
  by_cases h : userId = target
  · have hverified : verified userId ((Operation.verifyTotp target code, g), .ok (.bool true)) =
        true := decide_eq_true h.symm
    rw [Totp.next_of_not_issued rfl, hverified, h, totp_withAccount_self, totp_of_accounts hstored]
    simp [hsecret]
  · have hverified : verified userId ((Operation.verifyTotp target code, g), .ok (.bool true)) =
        false := decide_eq_false fun heq => h heq.symm
    rw [Totp.next_idle rfl hverified, totp_withAccount_of_ne _ h]

variable {rt} in
theorem idle_told {operation : Operation} {reply : Except Failure Reply} (g : Generated Salt)
    (h : idle operation reply = true) : Told self (operation, g) reply self := by
  have hissued (userId : String) : secretIssued userId ((operation, g), reply) = none := by
    cases operation with
    | enrolTotp target =>
        cases reply with
        | error failure => rfl
        | ok answer => cases h
    | _ => rfl
  have hverified (userId : String) : verified userId ((operation, g), reply) = false := by
    cases operation with
    | verifyTotp target code =>
        by_cases haccepted : reply = .ok (.bool true)
        · rw [haccepted] at h
          cases h
        · unfold verified
          split
          · rename_i heq
            exact absurd (congrArg Prod.snd heq) haccepted
          · rfl
    | _ => rfl
  exact told_idle hissued hverified fun _ => rfl

variable {rt} in
theorem Transition.told {operation : Operation} {g : Generated Salt}
    {reply : Except Failure Reply} {next : InMemoryIdentityProvider Hash}
    (hfresh : Fresh self (operation, g)) (hdone : ¬ HalfDone rt self (operation, g))
    (h : Transition rt g self operation reply next) : Told self (operation, g) reply next := by
  have hsame {target : String} {old new : Account Hash} {operation : Operation}
      {reply : Except Failure Reply} (hold : self.accounts target = some old)
      (hissued : ∀ userId, secretIssued userId ((operation, g), reply) = none)
      (hverified : ∀ userId, verified userId ((operation, g), reply) = false)
      (hsecret : new.totpSecret = old.totpSecret)
      (hconfirmed : new.totpConfirmed = old.totpConfirmed) :
      Told self (operation, g) reply (self.withAccount target new) :=
    told_idle hissued hverified (totp_withAccount_same hold hsecret hconfirmed)
  cases h with
  | idle hidle => exact idle_told g hidle
  | register stored hnew hstored =>
      refine told_idle (fun _ => rfl) (fun _ => rfl) fun userId => ?_
      -- The new account is as if there were none.
      by_cases h : userId = g.uuid4
      · have hnone : self.accounts g.uuid4 = none := hfresh
        rw [h]
        refine (totp_withAccount_self g.uuid4 stored).trans ?_
        rw [hstored, totp, hnone]
      · exact totp_withAccount_of_ne stored h
  | rehash _ hstored => exact hsame hstored (fun _ => rfl) (fun _ => rfl) rfl rfl
  | markEmailVerified hstored => exact hsame hstored (fun _ => rfl) (fun _ => rfl) rfl rfl
  | changePassword hstored => exact hsame hstored (fun _ => rfl) (fun _ => rfl) rfl rfl
  | issueSession => exact told_idle (fun _ => rfl) (fun _ => rfl) fun _ => rfl
  | revokeMissing => exact told_idle (fun _ => rfl) (fun _ => rfl) fun _ => rfl
  | revokeSession => exact told_idle (fun _ => rfl) (fun _ => rfl) fun _ => rfl
  | revokeAllSessions => exact told_idle (fun _ => rfl) (fun _ => rfl) fun _ => rfl
  | enrolTotp => exact told_enrolled _ rfl rfl
  | enrolTotpRaises hstored hconfirmed huri =>
      rw [withAccount_enrolled hdone hstored hconfirmed huri]
      exact told_idle (fun _ => rfl) (fun _ => rfl) fun _ => rfl
  | verifyTotp hstored hsecret => exact told_verified hstored hsecret
  | disableMissing => exact told_idle (fun _ => rfl) (fun _ => rfl) fun _ => rfl
  | disableAccount hstored => exact hsame hstored (fun _ => rfl) (fun _ => rfl) rfl rfl

end Step

section Run

variable (rt : Runtime Salt Hash Uuid) {self last : InMemoryIdentityProvider Hash}

-- No step of the run raises with its work half done.
abbrev Completed (start : InMemoryIdentityProvider Hash) (history : History Salt) : Prop :=
  Run.Each (fun state entry => ¬ HalfDone rt state entry.1) (step rt) Fresh start history

theorem told_step {input : Input Salt} (hfresh : Fresh self input)
    (hdone : ¬ HalfDone rt self input) :
    Told self input (step rt self input).1 (step rt self input).2 :=
  (step_transition rt self input).told hfresh hdone

theorem totp_run {sessionTtl : Int} {history : History Salt}
    (hrun : ProviderRun rt (InMemoryIdentityProvider.init sessionTtl) history last)
    (hdone : Completed rt (InMemoryIdentityProvider.init sessionTtl) history) (userId : String) :
    last.totp userId = Totp.after userId history := by
  induction hrun with
  | nil => rfl
  | @snoc history state input hpast hfresh ih =>
      obtain ⟨hearlier, hnow⟩ := (Run.each_snoc hpast _).mp hdone
      rw [Totp.after_snoc, ← ih hearlier]
      exact told_step rt hfresh hnow userId

-- No secret is handed out once a code was accepted.
theorem not_issued_of_confirmed {userId : String} (h : (self.totp userId).confirmed = true)
    (input : Input Salt) : secretIssued userId (input, (step rt self input).1) = none := by
  obtain ⟨operation, g⟩ := input
  cases operation with
  | enrolTotp target =>
      refine (step_wp rt self (.enrolTotp target, g) fun reply _ =>
        secretIssued userId ((Operation.enrolTotp target, g), reply) = none).mp ?_
      simp only [operate, wp_map, wp_enrolTotp_iff]
      cases hstored : self.accounts target with
      | none => rfl
      | some stored =>
          by_cases htarget : target = userId
          · rw [← htarget, totp_of_accounts hstored] at h
            have hconfirmed : stored.totpConfirmed = true := h
            simp only [hconfirmed]
            rfl
          · simp only
            split_ifs
            · rfl
            · cases rt.provisioningUri g.totpSecret stored.email with
              | error failure => rfl
              | ok uri => exact if_neg htarget
  | _ => rfl

theorem confirmed_step {userId : String} (h : (self.totp userId).confirmed = true)
    {input : Input Salt} (hfresh : Fresh self input) (hdone : ¬ HalfDone rt self input) :
    (step rt self input).2.totp userId = self.totp userId := by
  rw [told_step rt hfresh hdone userId,
    Totp.next_of_not_issued (not_issued_of_confirmed rt h input), h, Bool.true_or, ← h]

theorem confirmed_run {userId : String} (h : (self.totp userId).confirmed = true)
    {trace : History Salt} (hrun : ProviderRun rt self trace last)
    (hdone : Completed rt self trace) : last.totp userId = self.totp userId := by
  induction hrun with
  | nil => rfl
  | @snoc trace state input hpast hfresh ih =>
      obtain ⟨hearlier, hnow⟩ := (Run.each_snoc hpast _).mp hdone
      have hsame := ih hearlier
      rw [confirmed_step rt (hsame ▸ h) hfresh hnow, hsame]

theorem accounts_of_confirmed {userId : String} (h : (self.totp userId).confirmed = true) :
    ∃ stored, self.accounts userId = some stored := by
  unfold totp at h
  cases hstored : self.accounts userId with
  | none =>
      rw [hstored] at h
      cases h
  | some stored => exact ⟨stored, rfl⟩

theorem enrolTotp_of_confirmed {userId : String} {stored : Account Hash}
    (hstored : self.accounts userId = some stored) (h : stored.totpConfirmed = true)
    (g : Generated Salt) :
    step rt self (.enrolTotp userId, g) =
      (.error (.totpAlreadyEnrolled s!"account {userId} already has TOTP enrolled"), self) := by
  refine (step_wp rt self (.enrolTotp userId, g) fun reply next => (reply, next) = _).mp ?_
  simp only [operate, wp_map, wp_enrolTotp_iff, hstored, h]
  rfl

theorem verifyTotp_reply {userId : String} {stored : Account Hash}
    (hstored : self.accounts userId = some stored) (code : String) (g : Generated Salt) :
    (step rt self (.verifyTotp userId code, g)).1 =
      match stored.totpSecret with
      | none => .error (.totpNotEnrolled s!"account {userId} has not begun TOTP enrolment")
      | some secret => .ok (.bool (totpAccepts rt secret code g.now)) := by
  refine (step_wp rt self (.verifyTotp userId code, g) fun reply _ => reply = _).mp ?_
  simp only [operate, wp_map, wp_verifyTotp_iff, hstored]
  cases stored.totpSecret with
  | none => rfl
  | some secret => cases h : totpAccepts rt secret code g.now <;> simp only [h] <;> rfl

end Run

-- Enrolment as the answers tell it: a secret counts from its enrolment to the next one, and the
-- first code accepted makes it final.
theorem totp_enrolment (rt : Runtime Salt Hash Uuid) (sessionTtl : Int) (history : History Salt)
    (last : InMemoryIdentityProvider Hash)
    (hrun : ProviderRun rt (InMemoryIdentityProvider.init sessionTtl) history last)
    (hdone : Completed rt (InMemoryIdentityProvider.init sessionTtl) history) (userId : String)
    (stored : Account Hash) (hstored : last.accounts userId = some stored) :
    (stored.view.totpEnrolled = true ↔
        ∃ secret later, LastEnrolment history userId secret later ∧ Confirmed userId later) ∧
      (∀ secret later, LastEnrolment history userId secret later →
        stored.totpSecret = some secret) ∧
      (stored.view.totpEnrolled = true →
        (∀ g, step rt last (.enrolTotp userId, g) =
          (.error (.totpAlreadyEnrolled s!"account {userId} already has TOTP enrolled"), last)) ∧
        ∀ trace next, ProviderRun rt last trace next → Completed rt last trace →
          ∃ kept, next.accounts userId = some kept ∧ kept.view.totpEnrolled = true ∧
            kept.totpSecret = stored.totpSecret) ∧
      (∀ code g,
        (∃ message, (step rt last (.verifyTotp userId code, g)).1 =
          .error (.totpNotEnrolled message)) ↔
            ∀ entry ∈ history, secretIssued userId entry = none) ∧
      ∀ secret later, LastEnrolment history userId secret later → ∀ code g,
        (step rt last (.verifyTotp userId code, g)).1 =
          .ok (.bool (totpAccepts rt secret code g.now)) := by
  have htotp := totp_run rt hrun hdone userId
  rw [totp_of_accounts hstored] at htotp
  have hsecret : stored.totpSecret = (Totp.after userId history).secret :=
    congrArg Totp.secret htotp
  have hconfirmed : stored.totpConfirmed = (Totp.after userId history).confirmed :=
    congrArg Totp.confirmed htotp
  have hlast : ∀ secret later, LastEnrolment history userId secret later →
      stored.totpSecret = some secret := by
    intro secret later h
    rw [hsecret, (Totp.after_of_lastEnrolment h).1]
  have hreply := fun code g => verifyTotp_reply rt hstored code g
  refine ⟨?_, hlast, fun henrolled => ⟨enrolTotp_of_confirmed rt hstored henrolled, ?_⟩, ?_, ?_⟩
  · change stored.totpConfirmed = true ↔ _
    rw [hconfirmed]
    by_cases hnever : ∀ entry ∈ history, secretIssued userId entry = none
    · rw [Totp.after_of_never hnever]
      refine iff_of_false Bool.false_ne_true ?_
      rintro ⟨secret, later, ⟨past, entry, rfl, hissued, -⟩, -⟩
      rw [hnever entry (by simp)] at hissued
      cases hissued
    · push Not at hnever
      obtain ⟨secret, later, h⟩ := Totp.exists_lastEnrolment hnever
      constructor
      · exact fun hc => ⟨secret, later, h, (Totp.after_of_lastEnrolment h).2.mp hc⟩
      · rintro ⟨other, rest, hother, hrest⟩
        exact (Totp.after_of_lastEnrolment hother).2.mpr hrest
  · intro trace next hnext hcompleted
    have hbefore : (last.totp userId).confirmed = true := by
      rw [totp_of_accounts hstored]
      exact henrolled
    have hsame := confirmed_run rt hbefore hnext hcompleted
    obtain ⟨kept, hkept⟩ := accounts_of_confirmed (hsame ▸ hbefore)
    rw [totp_of_accounts hkept, totp_of_accounts hstored] at hsame
    exact ⟨kept, hkept, (congrArg Totp.confirmed hsame).trans henrolled,
      congrArg Totp.secret hsame⟩
  · intro code g
    rw [hreply]
    by_cases hnever : ∀ entry ∈ history, secretIssued userId entry = none
    · rw [hsecret, Totp.after_of_never hnever]
      exact iff_of_true ⟨_, rfl⟩ hnever
    · refine iff_of_false ?_ hnever
      push Not at hnever
      obtain ⟨secret, later, h⟩ := Totp.exists_lastEnrolment hnever
      rw [hlast secret later h]
      rintro ⟨message, heq⟩
      cases heq
  · intro secret later h code g
    rw [hreply, hlast secret later h]

-- Enrolled, then checked with a code that the new secret accepts.
def enrolled : InMemoryIdentityProvider String :=
  (step .plain signedUp (.enrolTotp "u-1", AuthService.drawn)).2

def confirmed : InMemoryIdentityProvider String :=
  (step .plain enrolled (.verifyTotp "u-1" "JBSWY3DP", AuthService.drawn)).2

theorem provisioned_signedUp {stored : Account String} {failure : Failure}
    (hstored : signedUp.accounts "u-1" = some stored) :
    Runtime.plain.provisioningUri "JBSWY3DP" stored.email ≠ .error failure := by
  have hemail : AuthService.address = stored.email :=
    congrArg Account.email (Option.some.inj hstored)
  have hscalar : AuthService.address.all Unicode.isScalar = true := by decide
  have huri : Runtime.plain.provisioningUri "JBSWY3DP" AuthService.address = .ok "JBSWY3DP" := by
    simp only [Runtime.plain, hscalar, if_true]
  rw [← hemail, huri]
  simp

theorem run_confirmed :
    ∃ history later, ProviderRun Runtime.plain (InMemoryIdentityProvider.init 43200000000) history
        confirmed ∧
      Completed .plain (InMemoryIdentityProvider.init 43200000000) history ∧
      LastEnrolment history "u-1" "JBSWY3DP" later ∧ Confirmed "u-1" later := by
  have hstart : ProviderRun Runtime.plain (InMemoryIdentityProvider.init 43200000000) []
    (InMemoryIdentityProvider.init 43200000000) := .nil
  have henrol := run_signedUp.snoc (.enrolTotp "u-1", AuthService.drawn) (by trivial)
  refine ⟨_, _, henrol.snoc (.verifyTotp "u-1" "JBSWY3DP", AuthService.drawn) (by trivial), ?_,
    Totp.lastEnrolment_snoc.mpr (.inr ⟨[], rfl, rfl,
      Totp.lastEnrolment_snoc.mpr (.inl ⟨rfl, rfl⟩)⟩), _, List.mem_singleton_self _, rfl⟩
  refine (Run.each_snoc henrol _).mpr ⟨(Run.each_snoc run_signedUp _).mpr
    ⟨(Run.each_snoc hstart _).mpr ⟨Run.each_nil _ _, id⟩, ?_⟩, id⟩
  rintro ⟨stored, failure, hstored, -, -, hfailed⟩
  exact provisioned_signedUp hstored hfailed

theorem totp_enrolment_confirmed :
    ∃ stored, confirmed.accounts "u-1" = some stored ∧ stored.view.totpEnrolled = true ∧
      stored.totpSecret = some "JBSWY3DP" := by
  obtain ⟨history, later, hrun, hcompleted, hlast, hconfirmed⟩ := run_confirmed
  obtain ⟨stored, hstored⟩ : ∃ stored, confirmed.accounts "u-1" = some stored := ⟨_, rfl⟩
  have h := totp_enrolment .plain 43200000000 history confirmed hrun hcompleted "u-1" stored hstored
  exact ⟨stored, hstored, h.1.mpr ⟨_, later, hlast, hconfirmed⟩, h.2.1 _ later hlast⟩

-- No enrolment ever succeeded, and yet a check is not refused for want of one.
theorem not_totp_enrolment_unpaired :
    ∃ history last, ProviderRun Runtime.plain (InMemoryIdentityProvider.init 43200000000) history
        last ∧
      (∃ stored, last.accounts "u-1" = some stored) ∧
      (∀ entry ∈ history, secretIssued "u-1" entry = none) ∧
      (step .plain last (.verifyTotp "u-1" "JBSWY3DP", AuthService.drawn)).1 =
        .ok (.bool true) := by
  have henrol := run_signedUpUnpaired.snoc (.enrolTotp "u-1", AuthService.drawn) (by trivial)
  refine ⟨_, _, henrol, ⟨_, rfl⟩, ?_, rfl⟩
  intro entry hentry
  rcases List.mem_append.mp hentry with h | h
  · rw [List.mem_singleton.mp h]
    rfl
  · rw [List.mem_singleton.mp h]
    rfl

end TrustlistCore.Auth.InMemoryIdentityProvider
