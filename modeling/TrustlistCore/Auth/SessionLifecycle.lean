import TrustlistCore.Auth.CredentialStore
import TrustlistCore.Library.Journal

namespace TrustlistCore.Auth.InMemoryIdentityProvider

open Library

variable {Salt Hash Uuid : Type}

-- The session that a call of the history handed out.
def sessionIssued : Input Salt × Except Failure Reply → Option Session
  | ((.issueSession _ _, _), .ok (.session session)) => some session
  | _ => none

-- The three ways to end a session, whether or not the call raised.
def Ends (session : Session) : Operation → Prop
  | .revokeSession sessionId => sessionId = session.sessionId
  | .revokeAllSessions userId => userId = session.userId
  | .disableAccount userId => userId = session.userId
  | _ => False

-- `later` is what came after the call that issued the session.
def IssuedBefore (history : History Salt) (session : Session) (later : History Salt) : Prop :=
  ∃ past entry, history = past ++ entry :: later ∧ sessionIssued entry = some session

def Ended (session : Session) (later : History Salt) : Prop :=
  ∃ entry ∈ later, Ends session entry.1.1

theorem issuedBefore_snoc {history later : History Salt} {session : Session}
    {entry : Input Salt × Except Failure Reply} :
    IssuedBefore (history ++ [entry]) session later ↔
      (later = [] ∧ sessionIssued entry = some session) ∨
        ∃ rest, later = rest ++ [entry] ∧ IssuedBefore history session rest := by
  unfold IssuedBefore
  constructor
  · rintro ⟨past, first, hsplit, hissued⟩
    rcases Journal.snoc_eq_split.mp hsplit with ⟨hlater, -, rfl⟩ | ⟨rest, hlater, hhistory⟩
    · exact .inl ⟨hlater, hissued⟩
    · exact .inr ⟨rest, hlater, past, first, hhistory, hissued⟩
  · rintro (⟨rfl, hissued⟩ | ⟨rest, rfl, past, first, rfl, hissued⟩)
    · exact ⟨history, entry, rfl, hissued⟩
    · exact ⟨past, first, by simp, hissued⟩

theorem ended_snoc {later : History Salt} {session : Session}
    {entry : Input Salt × Except Failure Reply} :
    Ended session (later ++ [entry]) ↔ Ended session later ∨ Ends session entry.1.1 := by
  unfold Ended
  constructor
  · rintro ⟨other, hother, hends⟩
    rcases List.mem_append.mp hother with h | h
    · exact .inl ⟨other, h, hends⟩
    · rw [List.mem_singleton.mp h] at hends
      exact .inr hends
  · rintro (⟨other, hother, hends⟩ | hends)
    · exact ⟨other, List.mem_append_left _ hother, hends⟩
    · exact ⟨entry, by simp, hends⟩

theorem not_ends_of_quiet {operation : Operation} {reply : Except Failure Reply}
    (hquiet : quiet operation reply = true) (session : Session) : ¬ Ends session operation := by
  cases operation <;> simp_all [quiet, Ends]

section Step

variable {rt : Runtime Salt Hash Uuid} {g : Generated Salt}
  {before after : InMemoryIdentityProvider Hash} {operation : Operation}
  {reply : Except Failure Reply}

theorem sessionTtl_change (hchange : Change rt g before operation reply after) :
    after.sessionTtl = before.sessionTtl := by
  cases hchange <;> rfl

-- Accounts stay, and only `disable_account` closes one.
theorem account_change (hfresh : Fresh before (operation, g))
    (hchange : Change rt g before operation reply after) {userId : String} {stored : Account Hash}
    (hstored : before.accounts userId = some stored) :
    ∃ next, after.accounts userId = some next ∧
      (next.disabled = true → stored.disabled = true ∨ operation = .disableAccount userId) := by
  have hsame : ∀ {target : String} {old new : Account Hash},
      before.accounts target = some old → new.disabled = old.disabled →
      ∃ next, Function.update before.accounts target (some new) userId = some next ∧
        (next.disabled = true → stored.disabled = true ∨ operation = .disableAccount userId) := by
    intro target old new hold hnew
    by_cases h : userId = target
    · subst h
      rw [hstored] at hold
      cases hold
      exact ⟨new, by simp, fun hd => .inl (hnew ▸ hd)⟩
    · exact ⟨stored, by simp [h, hstored], .inl⟩
  cases hchange with
  | quiet hquiet => exact ⟨stored, hstored, .inl⟩
  | flags hquiet hold huser harchetype hemail hhash hdisabled => exact hsame hold hdisabled
  | @register archetype email password created hnew hcreated =>
      have hne : userId ≠ g.uuid4 := by
        rintro rfl
        rw [show before.accounts g.uuid4 = none from hfresh] at hstored
        cases hstored
      exact ⟨stored, by simp [hne, hstored], .inl⟩
  | rehash reply hold hverify => exact hsame hold rfl
  | changePassword hold => exact hsame hold rfl
  | disableMissing hmissing => exact ⟨stored, hstored, .inl⟩
  | @disableAccount target old hold =>
      by_cases h : userId = target
      · subst h
        exact ⟨{ old with disabled := true }, by simp, fun _ => .inr rfl⟩
      · exact ⟨stored, by simp [h, hstored], .inl⟩
  | issueSession hold hlive record hrecord => exact ⟨stored, hstored, .inl⟩
  | revokeMissing hmissing => exact ⟨stored, hstored, .inl⟩
  | revokeSession hrecord => exact ⟨stored, hstored, .inl⟩
  | revokeAllSessions => exact ⟨stored, hstored, .inl⟩

theorem revokeIfOwned_spec (userId : String) (record : SessionRecord) :
    (revokeIfOwned userId record).view = record.view ∧
      ((revokeIfOwned userId record).revoked = true ↔
        record.revoked = true ∨ userId = record.view.userId) := by
  unfold revokeIfOwned SessionRecord.view
  by_cases h : record.userId = userId
  · simp [h]
  · simp [h, Ne.symm h]

-- A record stays, and is revoked from here on exactly when the call ends the session.
theorem session_change (hfresh : Fresh before (operation, g))
    (hchange : Change rt g before operation reply after) {sessionId : String}
    {record : SessionRecord} (hrecord : before.sessions sessionId = some record)
    (hid : record.sessionId = sessionId) (howner : before.accounts record.userId ≠ none) :
    ∃ next, after.sessions sessionId = some next ∧ next.view = record.view ∧
      (next.revoked = true ↔ record.revoked = true ∨ Ends record.view operation) := by
  have hstays : ¬ Ends record.view operation → ∃ next, before.sessions sessionId = some next ∧
      next.view = record.view ∧
      (next.revoked = true ↔ record.revoked = true ∨ Ends record.view operation) :=
    fun h => ⟨record, hrecord, rfl, by simp [h]⟩
  cases hchange with
  | quiet hquiet => exact hstays (not_ends_of_quiet hquiet _)
  | flags hquiet _ _ _ _ _ _ => exact hstays (not_ends_of_quiet hquiet _)
  | register created hnew hcreated => exact hstays id
  | rehash reply hold hverify => exact hstays id
  | changePassword hold => exact hstays id
  | @disableMissing userId failure hmissing =>
      apply hstays
      intro hends
      have huser : userId = record.userId := hends
      exact howner (huser ▸ hmissing)
  | @disableAccount userId stored hstored =>
      obtain ⟨hview, hrevoked⟩ := revokeIfOwned_spec userId record
      exact ⟨revokeIfOwned userId record, by simp [hrecord], hview, hrevoked⟩
  | @issueSession userId deviceFingerprint stored hstored hlive issuedRecord hissued =>
      have hne : sessionId ≠ g.uuid4 := by
        rintro rfl
        rw [show before.sessions g.uuid4 = none from hfresh] at hrecord
        cases hrecord
      exact ⟨record, by simp [hne, hrecord], rfl, by simp [Ends]⟩
  | @revokeMissing target hmissing =>
      apply hstays
      intro hends
      have htarget : target = record.sessionId := hends
      rw [htarget, hid, hrecord] at hmissing
      cases hmissing
  | @revokeSession target stored hstored =>
      by_cases h : sessionId = target
      · subst h
        rw [hrecord] at hstored
        cases hstored
        refine ⟨{ record with revoked := true }, by simp, rfl, ?_⟩
        exact iff_of_true rfl (.inr hid.symm)
      · refine ⟨record, by simp [h, hrecord], rfl, ?_⟩
        have hends : ¬ Ends record.view (.revokeSession target) := by
          intro hends
          have htarget : target = record.sessionId := hends
          exact h (hid.symm.trans htarget.symm)
        simp [hends]
  | @revokeAllSessions userId =>
      obtain ⟨hview, hrevoked⟩ := revokeIfOwned_spec userId record
      exact ⟨revokeIfOwned userId record, by simp [hrecord], hview, hrevoked⟩

-- Every record of the dict was there before, or is the one just issued to a live account.
theorem session_origin (hchange : Change rt g before operation reply after) {sessionId : String}
    {record : SessionRecord} (hrecord : after.sessions sessionId = some record) :
    (∃ old, before.sessions sessionId = some old ∧ old.view = record.view) ∨
      (sessionIssued ((operation, g), reply) = some record.view ∧ record.sessionId = sessionId ∧
        record.expiresAt = record.issuedAt + before.sessionTtl ∧
        ∃ stored, after.accounts record.userId = some stored ∧ stored.disabled = false) := by
  have hall : ∀ userId, (before.sessions sessionId).map (revokeIfOwned userId) = some record →
      ∃ old, before.sessions sessionId = some old ∧ old.view = record.view := by
    intro userId h
    obtain ⟨old, hold, rfl⟩ := Option.map_eq_some_iff.mp h
    exact ⟨old, hold, (revokeIfOwned_spec userId old).1.symm⟩
  cases hchange with
  | quiet => exact .inl ⟨record, hrecord, rfl⟩
  | flags => exact .inl ⟨record, hrecord, rfl⟩
  | register => exact .inl ⟨record, hrecord, rfl⟩
  | rehash => exact .inl ⟨record, hrecord, rfl⟩
  | changePassword => exact .inl ⟨record, hrecord, rfl⟩
  | disableMissing => exact .inl ⟨record, hrecord, rfl⟩
  | @disableAccount userId stored hstored => exact .inl (hall userId hrecord)
  | @issueSession userId deviceFingerprint stored hstored hlive created hcreated =>
      by_cases h : sessionId = g.uuid4
      · subst h
        have hsame : created = record := by simpa using hrecord
        subst hsame
        right
        rw [hcreated]
        exact ⟨rfl, rfl, rfl, stored, hstored, hlive⟩
      · exact .inl ⟨record, by simpa [h] using hrecord, rfl⟩
  | revokeMissing => exact .inl ⟨record, hrecord, rfl⟩
  | @revokeSession target stored hstored =>
      by_cases h : sessionId = target
      · subst h
        have hsame : { stored with revoked := true } = record := by simpa using hrecord
        exact .inl ⟨stored, hstored, hsame ▸ rfl⟩
      · exact .inl ⟨record, by simpa [h] using hrecord, rfl⟩
  | @revokeAllSessions userId => exact .inl (hall userId hrecord)

theorem issued_change (hchange : Change rt g before operation reply after) {session : Session}
    (hissued : sessionIssued ((operation, g), reply) = some session) :
    ∃ record, after.sessions session.sessionId = some record ∧ record.view = session ∧
      record.revoked = false := by
  unfold sessionIssued at hissued
  split at hissued
  · rename_i heq
    obtain ⟨hinput, rfl⟩ := Prod.mk.inj heq
    obtain ⟨rfl, rfl⟩ := Prod.mk.inj hinput
    cases hissued
    cases hchange with
    | quiet hquiet => simp [quiet] at hquiet
    | flags hquiet => simp [quiet] at hquiet
    | issueSession hstored hlive record hrecord =>
        have hid : record.view.sessionId = g.uuid4 := by
          rw [hrecord]
          rfl
        exact ⟨record, by simp [hid], rfl, by rw [hrecord]⟩
  · cases hissued

end Step

-- What the three dicts remember of a history.
structure Lifecycle (sessionTtl : Int) (history : History Salt)
    (provider : InMemoryIdentityProvider Hash) : Prop where
  ttl : provider.sessionTtl = sessionTtl
  recorded : ∀ session later, IssuedBefore history session later →
    ∃ record, provider.sessions session.sessionId = some record ∧ record.view = session ∧
      (record.revoked = true ↔ Ended session later)
  issued : ∀ sessionId record, provider.sessions sessionId = some record →
    record.sessionId = sessionId ∧ record.expiresAt = record.issuedAt + sessionTtl ∧
      ∃ later, IssuedBefore history record.view later
  owner : ∀ sessionId record, provider.sessions sessionId = some record →
    ∃ stored, provider.accounts record.userId = some stored ∧
      (stored.disabled = true → record.revoked = true)

theorem lifecycle_init (sessionTtl : Int) :
    Lifecycle sessionTtl ([] : History Salt)
      (InMemoryIdentityProvider.init sessionTtl : InMemoryIdentityProvider Hash) where
  ttl := rfl
  recorded := by
    rintro session later ⟨past, entry, h, -⟩
    simp at h
  issued := fun _ _ h => by cases h
  owner := fun _ _ h => by cases h

theorem lifecycle_change {rt : Runtime Salt Hash Uuid} {g : Generated Salt} {sessionTtl : Int}
    {before after : InMemoryIdentityProvider Hash} {operation : Operation}
    {reply : Except Failure Reply} {history : History Salt} (hfresh : Fresh before (operation, g))
    (hchange : Change rt g before operation reply after)
    (hlife : Lifecycle sessionTtl history before) :
    Lifecycle sessionTtl (history ++ [((operation, g), reply)]) after := by
  have howned : ∀ sessionId record, before.sessions sessionId = some record →
      before.accounts record.userId ≠ none := by
    intro sessionId record hr
    obtain ⟨stored, hs, -⟩ := hlife.owner sessionId record hr
    simp [hs]
  refine ⟨?_, ?_, ?_, ?_⟩
  · rw [sessionTtl_change hchange, hlife.ttl]
  · intro session later hissued
    rcases issuedBefore_snoc.mp hissued with ⟨rfl, hnow⟩ | ⟨rest, rfl, hpast⟩
    · obtain ⟨record, hr, hv, hrevoked⟩ := issued_change hchange hnow
      exact ⟨record, hr, hv, by simp [hrevoked, Ended]⟩
    · obtain ⟨record, hr, rfl, hrevoked⟩ := hlife.recorded session rest hpast
      obtain ⟨next, hn, hv, hnext⟩ := session_change hfresh hchange hr rfl (howned _ record hr)
      exact ⟨next, hn, hv, by rw [hnext, hrevoked, ended_snoc]⟩
  · intro sessionId record hr
    rcases session_origin hchange hr with ⟨old, hold, hv⟩ | ⟨hissued, hid, hexpires, -⟩
    · obtain ⟨hid, hexpires, later, hpast⟩ := hlife.issued sessionId old hold
      rw [← hv]
      refine ⟨?_, ?_, later ++ [_], issuedBefore_snoc.mpr (.inr ⟨later, rfl, hpast⟩)⟩
      · rw [← hid]
        exact (congrArg Session.sessionId hv).symm
      · have hissuedAt := congrArg Session.issuedAt hv
        have hexpiresAt := congrArg Session.expiresAt hv
        rw [← show old.issuedAt = record.issuedAt from hissuedAt,
          ← show old.expiresAt = record.expiresAt from hexpiresAt, hexpires]
    · rw [hlife.ttl] at hexpires
      exact ⟨hid, hexpires, [], issuedBefore_snoc.mpr (.inl ⟨rfl, hissued⟩)⟩
  · intro sessionId record hr
    rcases session_origin hchange hr with ⟨old, hold, hv⟩ | ⟨-, -, -, stored, hs, hlive⟩
    · obtain ⟨stored, hs, hdisabled⟩ := hlife.owner sessionId old hold
      obtain ⟨hid, -, -⟩ := hlife.issued sessionId old hold
      obtain ⟨next, hn, -, hnext⟩ := session_change hfresh hchange hold hid (howned _ old hold)
      rw [hr] at hn
      cases hn
      have huser : old.userId = record.userId := congrArg Session.userId hv
      obtain ⟨kept, hk, hclosed⟩ := account_change hfresh hchange hs
      refine ⟨kept, huser ▸ hk, ?_⟩
      intro hd
      rw [hnext]
      rcases hclosed hd with h | rfl
      · exact .inl (hdisabled h)
      · exact .inr rfl
    · exact ⟨stored, hs, by simp [hlive]⟩

theorem lifecycle_run {rt : Runtime Salt Hash Uuid} {sessionTtl : Int} {history : History Salt}
    {last : InMemoryIdentityProvider Hash}
    (hrun : ProviderRun rt (InMemoryIdentityProvider.init sessionTtl) history last) :
    Lifecycle sessionTtl history last := by
  induction hrun with
  | nil => exact lifecycle_init sessionTtl
  | @snoc history state input _ hfresh ih =>
      exact lifecycle_change hfresh (step_change rt state input) ih

-- A session id has at most one issue in a history, and its record tells what became of it.
theorem Lifecycle.issue_eq {sessionTtl : Int} {history later : History Salt}
    {provider : InMemoryIdentityProvider Hash} (hlife : Lifecycle sessionTtl history provider)
    {record : SessionRecord} {session : Session}
    (hrecord : provider.sessions session.sessionId = some record)
    (hissued : IssuedBefore history session later) :
    record.view = session ∧ record.expiresAt = session.issuedAt + sessionTtl ∧
      (record.revoked = true ↔ Ended session later) := by
  obtain ⟨found, hf, hview, hrevoked⟩ := hlife.recorded session later hissued
  rw [hrecord] at hf
  cases hf
  obtain ⟨-, hexpires, -⟩ := hlife.issued _ record hrecord
  exact ⟨hview, by rw [hexpires, ← hview]; rfl, hrevoked⟩

theorem getSession_reply (rt : Runtime Salt Hash Uuid) (self : InMemoryIdentityProvider Hash)
    (sessionId : String) (g : Generated Salt) :
    (step rt self (.getSession sessionId, g)).1 = match self.sessions sessionId with
      | some record =>
          if record.revoked = true then
            .error (.sessionRevoked s!"session {rt.repr sessionId} is revoked")
          else if record.expiresAt ≤ g.now then
            .error (.sessionRevoked s!"session {rt.repr sessionId} has expired")
          else .ok (.session record.view)
      | none => .error (.sessionNotFound s!"no session {rt.repr sessionId}") := by
  apply (step_wp rt self (.getSession sessionId, g) (fun reply _ => reply = _)).mp
  simp only [operate, wp_map, wp_getSession]
  cases self.sessions sessionId with
  | none => rfl
  | some record =>
      simp only
      split_ifs <;> rfl

theorem getSession_revoked {rt : Runtime Salt Hash Uuid} {self : InMemoryIdentityProvider Hash}
    {sessionId : String} {g : Generated Salt} {record : SessionRecord} {session : Session}
    (hrecord : self.sessions sessionId = some record)
    (hreply : (step rt self (.getSession sessionId, g)).1 = .ok (.session session)) :
    record.view = session ∧ record.revoked = false := by
  rw [getSession_reply, hrecord] at hreply
  simp only at hreply
  split_ifs at hreply with hrevoked hexpired
  cases hreply
  exact ⟨rfl, by simpa using hrevoked⟩

section Answers

variable {sessionTtl : Int} {history later : History Salt}
  {provider : InMemoryIdentityProvider Hash} {session : Session} {sessionId : String}

-- The dict knows the ids that sessions were issued under.
theorem Lifecycle.stored_iff (hlife : Lifecycle sessionTtl history provider) :
    (∃ record, provider.sessions sessionId = some record) ↔
      ∃ session later, IssuedBefore history session later ∧ session.sessionId = sessionId := by
  constructor
  · rintro ⟨record, hrecord⟩
    obtain ⟨hid, -, later, hissued⟩ := hlife.issued sessionId record hrecord
    exact ⟨record.view, later, hissued, hid⟩
  · rintro ⟨session, later, hissued, rfl⟩
    obtain ⟨record, hrecord, -⟩ := hlife.recorded session later hissued
    exact ⟨record, hrecord⟩

-- Whoever was issued under the id of a record is this very session.
theorem Lifecycle.open_iff (hlife : Lifecycle sessionTtl history provider) {record : SessionRecord}
    (hrecord : provider.sessions sessionId = some record)
    (hissued : IssuedBefore history session later) (hid : session.sessionId = sessionId)
    (now : Instant) :
    record.view = session ∧ ((now < session.issuedAt + sessionTtl ∧ ¬ Ended session later) ↔
      record.revoked = false ∧ now < record.expiresAt) := by
  obtain ⟨hview, hat, hended⟩ := hlife.issue_eq (hid ▸ hrecord) hissued
  refine ⟨hview, ?_⟩
  rw [← hended, ← hat, Bool.not_eq_true, and_comm]

variable (rt : Runtime Salt Hash Uuid) (g : Generated Salt)

theorem Lifecycle.returned_iff (hlife : Lifecycle sessionTtl history provider) :
    (step rt provider (.getSession sessionId, g)).1 = .ok (.session session) ↔
      ∃ later, IssuedBefore history session later ∧ session.sessionId = sessionId ∧
        g.now < session.issuedAt + sessionTtl ∧ ¬ Ended session later := by
  rw [getSession_reply]
  cases hrecord : provider.sessions sessionId with
  | none =>
      refine iff_of_false (by simp) ?_
      rintro ⟨later, hissued, hid, -⟩
      obtain ⟨record, hsome⟩ := hlife.stored_iff.mpr ⟨session, later, hissued, hid⟩
      rw [hrecord] at hsome
      cases hsome
  | some record =>
      obtain ⟨hid, -, later, hissued⟩ := hlife.issued sessionId record hrecord
      constructor
      · intro hreply
        simp only at hreply
        split_ifs at hreply with hrevoked hexpired
        cases hreply
        obtain ⟨-, hiff⟩ := hlife.open_iff hrecord hissued hid g.now
        exact ⟨later, hissued, hid, hiff.mpr ⟨by simpa using hrevoked, not_le.mp hexpired⟩⟩
      · rintro ⟨rest, hother, hsame, hopen⟩
        obtain ⟨rfl, hiff⟩ := hlife.open_iff hrecord hother hsame g.now
        obtain ⟨hrevoked, hexpired⟩ := hiff.mp hopen
        simp [hrevoked, not_le.mpr hexpired]

theorem Lifecycle.notFound_iff (hlife : Lifecycle sessionTtl history provider) :
    (∃ message, (step rt provider (.getSession sessionId, g)).1 =
        .error (.sessionNotFound message)) ↔
      ¬ ∃ session later, IssuedBefore history session later ∧ session.sessionId = sessionId := by
  rw [getSession_reply, ← hlife.stored_iff]
  cases provider.sessions sessionId with
  | none => exact iff_of_true ⟨_, rfl⟩ (by simp)
  | some record =>
      refine iff_of_false ?_ (by simp)
      simp only
      split_ifs <;> simp

theorem Lifecycle.refused_iff (hlife : Lifecycle sessionTtl history provider) :
    (∃ message, (step rt provider (.getSession sessionId, g)).1 =
        .error (.sessionRevoked message)) ↔
      ∃ session later, IssuedBefore history session later ∧ session.sessionId = sessionId ∧
        ¬ (g.now < session.issuedAt + sessionTtl ∧ ¬ Ended session later) := by
  rw [getSession_reply]
  cases hrecord : provider.sessions sessionId with
  | none =>
      refine iff_of_false (by simp) ?_
      rintro ⟨session, later, hissued, hid, -⟩
      obtain ⟨record, hsome⟩ := hlife.stored_iff.mpr ⟨session, later, hissued, hid⟩
      rw [hrecord] at hsome
      cases hsome
  | some record =>
      obtain ⟨hid, -, later, hissued⟩ := hlife.issued sessionId record hrecord
      constructor
      · rintro ⟨message, hreply⟩
        refine ⟨record.view, later, hissued, hid, ?_⟩
        rw [(hlife.open_iff hrecord hissued hid g.now).2]
        rintro ⟨hrevoked, hexpired⟩
        simp [hrevoked, not_le.mpr hexpired] at hreply
      · rintro ⟨session, rest, hother, hsame, hclosed⟩
        rw [(hlife.open_iff hrecord hother hsame g.now).2] at hclosed
        simp only
        split_ifs with hrevoked hexpired
        · exact ⟨_, rfl⟩
        · exact ⟨_, rfl⟩
        · exact absurd ⟨by simpa using hrevoked, not_le.mp hexpired⟩ hclosed

-- The sessions of a disabled account are revoked, so none of them is returned.
theorem Lifecycle.owner_enabled (hlife : Lifecycle sessionTtl history provider) {userId : String}
    {stored : Account Hash} (hstored : provider.accounts userId = some stored)
    (hdisabled : stored.disabled = true)
    (hreply : (step rt provider (.getSession sessionId, g)).1 = .ok (.session session)) :
    session.userId ≠ userId := by
  intro huser
  cases hrecord : provider.sessions sessionId with
  | none =>
      rw [getSession_reply, hrecord] at hreply
      cases hreply
  | some record =>
      obtain ⟨rfl, hlive⟩ := getSession_revoked hrecord hreply
      obtain ⟨owner, howner, hrevoked⟩ := hlife.owner sessionId record hrecord
      rw [show record.userId = userId from huser, hstored] at howner
      cases howner
      rw [hrevoked hdisabled] at hlive
      cases hlive

end Answers

-- The answers of `get_session` are a function of the history alone.
theorem session_lifecycle (rt : Runtime Salt Hash Uuid) (sessionTtl : Int)
    (history : History Salt) (last : InMemoryIdentityProvider Hash)
    (hrun : ProviderRun rt (InMemoryIdentityProvider.init sessionTtl) history last) :
    (∀ sessionId g,
      let reply := (step rt last (.getSession sessionId, g)).1
      (∀ session, reply = .ok (.session session) ↔
        ∃ later, IssuedBefore history session later ∧ session.sessionId = sessionId ∧
          g.now < session.issuedAt + sessionTtl ∧ ¬ Ended session later) ∧
      ((∃ message, reply = .error (.sessionNotFound message)) ↔
        ¬ ∃ session later, IssuedBefore history session later ∧ session.sessionId = sessionId) ∧
      ((∃ message, reply = .error (.sessionRevoked message)) ↔
        ∃ session later, IssuedBefore history session later ∧ session.sessionId = sessionId ∧
          ¬ (g.now < session.issuedAt + sessionTtl ∧ ¬ Ended session later))) ∧
      ∀ userId stored, last.accounts userId = some stored → stored.disabled = true →
        ∀ sessionId g session, (step rt last (.getSession sessionId, g)).1 = .ok (.session session) →
          session.userId ≠ userId := by
  have hlife := lifecycle_run hrun
  constructor
  · intro sessionId g
    exact ⟨fun session => hlife.returned_iff rt g, hlife.notFound_iff rt g, hlife.refused_iff rt g⟩
  · intro userId stored hstored hdisabled sessionId g session hreply
    exact hlife.owner_enabled rt g hstored hdisabled hreply

-- A session of twelve hours, asked for at the instant of its issue.
def firstSession : Session where
  sessionId := "s-1"
  userId := "u-1"
  archetype := .OPERATOR
  issuedAt := 0
  expiresAt := 43200000000
  deviceFingerprint := none

def signedUpSession : InMemoryIdentityProvider String :=
  (step .plain signedUp (.issueSession "u-1" none, AuthService.drawn)).2

theorem session_lifecycle_first :
    (step .plain signedUpSession (.getSession "s-1", AuthService.drawn)).1 =
      .ok (.session firstSession) := by
  have hissue := run_signedUp.snoc (.issueSession "u-1" none, AuthService.drawn) (by exact rfl)
  have hlife := session_lifecycle .plain 43200000000 _ signedUpSession hissue
  apply ((hlife.1 "s-1" AuthService.drawn).1 firstSession).mpr
  exact ⟨[], ⟨_, _, rfl, rfl⟩, rfl, by decide, by simp [Ended]⟩

end TrustlistCore.Auth.InMemoryIdentityProvider
