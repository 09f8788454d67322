import TrustlistCore.EventBus.AtLeastOnce
import TrustlistCore.EventBus.TypeScript.Delivery

namespace TrustlistCore.EventBus.TypeScript.GroupConsumer

open Library
open EventBus.EventConsumer (Settled About settled_mono wp_act wp_onDedup)

variable {Topic Bytes Envelope Handler K σ : Type}

-- A stored offset is one past a settled message, and everything from the group's start
-- up to it is settled.
def Committable (log : Log (Topic × Nat) Bytes) (start : Topic × Nat → Nat)
    (journal : List (Action (Topic × Nat) Bytes K)) (partition : Topic × Nat) (offset : Nat) :
    Prop :=
  (∀ message ∈ log.messages partition, start partition ≤ message.offset →
    message.offset < offset → Settled journal message) ∧
  ∃ message ∈ log.messages partition, offset = message.offset + 1 ∧ Settled journal message

def CommitSafe (log : Log (Topic × Nat) Bytes) (start : Topic × Nat → Nat)
    (journal : List (Action (Topic × Nat) Bytes K)) : Prop :=
  Journal.Holds (fun past entry => ∀ partition offset, entry = .committed partition offset →
    Committable log start past partition offset) journal

theorem commitSafe_snoc {log : Log (Topic × Nat) Bytes} {start : Topic × Nat → Nat}
    {journal : List (Action (Topic × Nat) Bytes K)} {action : Action (Topic × Nat) Bytes K} :
    CommitSafe log start (journal ++ [action]) ↔ CommitSafe log start journal ∧
      ∀ partition offset, action = .committed partition offset →
        Committable log start journal partition offset :=
  Journal.holds_snoc

variable [DecidableEq Topic]

-- How a callback treats its message: it stops before the commit, having rejected, or it
-- settles the message and commits. After the commit it can still reject.
inductive Passage (message : Message (Topic × Nat) Bytes) (before : GroupState Topic Bytes K σ)
    (answer : Except Failure Unit) (after : GroupState Topic Bytes K σ) : Prop
  | stopped (middle : List (Action (Topic × Nat) Bytes K)) (habout : About message middle)
      (hanswer : ∃ failure, answer = .error failure)
      (hjournal : after.journal = before.journal ++ middle)
      (hposition : after.position = before.position)
      (hcommitted : after.committed = before.committed)
  | committed (middle : List (Action (Topic × Nat) Bytes K)) (habout : About message middle)
      (hsettled : Settled middle message)
      (hjournal : after.journal =
        before.journal ++ middle ++ [.committed message.partition (message.offset + 1)])
      (hposition : after.position = before.position)
      (hcommitted : after.committed =
        Function.update before.committed message.partition (message.offset + 1))

theorem wp_commit {Q : Except Failure Unit → GroupState Topic Bytes K σ → Prop}
    (answers : Answers Envelope Handler) (message : Message (Topic × Nat) Bytes)
    (state : GroupState Topic Bytes K σ) :
    wp (commit answers message) Q state ↔
      match answers.commitFailure with
      | some failure => Q (.error failure) state
      | none => Q (.ok ()) { state with
          committed := Function.update state.committed message.partition (message.offset + 1)
          journal := state.journal ++ [.committed message.partition (message.offset + 1)] } := by
  unfold commit EventConsumer.check
  cases answers.commitFailure <;> rfl

theorem passage_processMessage (self : GroupConsumer Topic Bytes Envelope Handler K σ)
    (answers : Answers Envelope Handler) (message : Message (Topic × Nat) Bytes)
    (state : GroupState Topic Bytes K σ) {handler : Handler}
    (hhandler : self.handlers message.partition.1 = some handler) :
    wp (self.processMessage answers message) (Passage message state) state := by
  have stopped : ∀ failure next, next.journal = state.journal → next.position = state.position →
      next.committed = state.committed → Passage message state (.error failure) next := by
    intro failure next hjournal hposition hcommitted
    have hnone : next.journal = state.journal ++ [] := by rw [hjournal, List.append_nil]
    exact .stopped [] (by simp [About]) ⟨failure, rfl⟩ hnone hposition hcommitted
  unfold processMessage
  simp only [hhandler, wp_bind, wp_ofExcept]
  cases self.codec.decode message.value with
  | error failure => exact stopped failure _ rfl rfl rfl
  | ok envelope =>
      simp only
      cases EventConsumer.check (answers.validate envelope) with
      | error failure => exact stopped failure _ rfl rfl rfl
      | ok _ =>
          simp only [wp_onDedup]
          generalize self.codec.idempotencyKey envelope = key
          apply wp_mono (wp_true _)
          intro answer dedup _
          cases answer with
          | error failure => exact stopped failure _ rfl rfl rfl
          | ok seen =>
              cases seen with
              | true =>
                  have habout : About message [.duplicate message key] := by simp [About]
                  simp only [↓reduceIte, wp_bind, wp_act, wp_commit]
                  cases answers.commitFailure with
                  | some failure => exact .stopped _ habout ⟨failure, rfl⟩ rfl rfl rfl
                  | none =>
                      cases EventConsumer.check (answers.onProcessed envelope true) <;>
                        exact .committed _ habout (.inr ⟨key, by simp⟩) rfl rfl rfl
              | false =>
                  simp only [Bool.false_eq_true, ↓reduceIte, wp_bind, wp_ofExcept]
                  cases EventConsumer.check (answers.handle handler envelope) with
                  | error failure => exact stopped failure _ rfl rfl rfl
                  | ok _ =>
                      simp only [wp_act, wp_onDedup]
                      apply wp_mono (wp_true _)
                      intro answer dedup _
                      cases answer with
                      | error failure =>
                          have habout : About message [.handled message key] := by simp [About]
                          exact .stopped _ habout ⟨failure, rfl⟩ rfl rfl rfl
                      | ok _ =>
                          have habout : About message [.handled message key, .recorded key] := by
                            simp [About]
                          simp only [wp_commit]
                          cases answers.commitFailure with
                          | some failure => exact .stopped _ habout ⟨failure, rfl⟩ (by simp) rfl rfl
                          | none =>
                              cases EventConsumer.check (answers.onProcessed envelope false) <;>
                                exact .committed _ habout (.inl ⟨key, by simp⟩) (by simp) rfl rfl

-- Everything behind the read position of a handled topic is settled, and so is
-- everything behind a stored commit.
structure Safe (consumer : GroupConsumer Topic Bytes Envelope Handler K σ)
    (start : Topic × Nat → Nat) (state : GroupState Topic Bytes K σ) : Prop where
  commits : CommitSafe consumer.log start state.journal
  passed : ∀ partition, consumer.handlers partition.1 ≠ none →
    ∀ message ∈ consumer.log.messages partition, start partition ≤ message.offset →
      message.offset < state.position partition → Settled state.journal message
  stored : ∀ partition, ∀ message ∈ consumer.log.messages partition,
    start partition ≤ message.offset → message.offset < state.committed partition →
      Settled state.journal message

section Step

variable {self : GroupConsumer Topic Bytes Envelope Handler K σ} {start : Topic × Nat → Nat}
  {state : GroupState Topic Bytes K σ}

omit [DecidableEq Topic] in
theorem commitSafe_append {journal middle : List (Action (Topic × Nat) Bytes K)}
    {log : Log (Topic × Nat) Bytes} (hsafe : CommitSafe log start journal)
    (hmiddle : ∀ action ∈ middle, ∀ partition offset, action ≠ .committed partition offset) :
    CommitSafe log start (journal ++ middle) := by
  induction middle using List.reverseRecOn with
  | nil => simpa using hsafe
  | append_singleton middle action ih =>
      rw [← List.append_assoc, commitSafe_snoc]
      refine ⟨ih (fun other ho => hmiddle other (List.mem_append_left _ ho)), ?_⟩
      intro partition offset haction
      exact absurd haction (hmiddle action (by simp) partition offset)

-- The position moves to where everything before it is settled already.
theorem Safe.seek (hsafe : Safe self start state) {partition : Topic × Nat} {offset : Nat}
    (hoffset : self.handlers partition.1 ≠ none →
      ∀ message ∈ self.log.messages partition, start partition ≤ message.offset →
        message.offset < offset → Settled state.journal message) :
    Safe self start
      { state with position := Function.update state.position partition offset } where
  commits := hsafe.commits
  passed := by
    intro other hhandler message hmessage hstart hbelow
    by_cases h : other = partition
    · subst h
      simp only [Function.update_self] at hbelow
      exact hoffset hhandler message hmessage hstart hbelow
    · simp only [Function.update_of_ne h] at hbelow
      exact hsafe.passed other hhandler message hmessage hstart hbelow
  stored := hsafe.stored

theorem Safe.extend (hsafe : Safe self start state) {next : GroupState Topic Bytes K σ}
    {middle : List (Action (Topic × Nat) Bytes K)}
    (hmiddle : ∀ action ∈ middle, ∀ partition offset, action ≠ .committed partition offset)
    (hjournal : next.journal = state.journal ++ middle) (hposition : next.position = state.position)
    (hcommitted : next.committed = state.committed) : Safe self start next := by
  have hmono : ∀ action ∈ state.journal, action ∈ next.journal := by
    intro action ha
    rw [hjournal]
    exact List.mem_append_left _ ha
  refine ⟨?_, ?_, ?_⟩
  · rw [hjournal]
    exact commitSafe_append hsafe.commits hmiddle
  · intro partition hhandler message hmessage hstart hbelow
    rw [hposition] at hbelow
    exact settled_mono (hsafe.passed partition hhandler message hmessage hstart hbelow) hmono
  · intro partition message hmessage hstart hbelow
    rw [hcommitted] at hbelow
    exact settled_mono (hsafe.stored partition message hmessage hstart hbelow) hmono

omit [DecidableEq Topic] in
theorem about_not_committed {message : Message (Topic × Nat) Bytes}
    {middle : List (Action (Topic × Nat) Bytes K)} (habout : About message middle) :
    ∀ action ∈ middle, ∀ partition offset, action ≠ .committed partition offset := by
  rintro action ha partition offset rfl
  obtain ⟨key, h | h | h⟩ := habout _ ha <;> cases h

omit [DecidableEq Topic] in
-- Nothing of the partition lies between the read position and the next message.
theorem below_next {partition : Topic × Nat} {message : Message (Topic × Nat) Bytes}
    (hnext : self.next state partition = some message) {other : Message (Topic × Nat) Bytes}
    (hother : other ∈ self.log.messages partition) (hbelow : other.offset < message.offset + 1) :
    other = message ∨ other.offset < state.position partition := by
  by_cases hread : other.offset < state.position partition
  · exact .inr hread
  · rcases (self.log.find_first hnext).2.2 other hother (not_lt.mp hread) with h | h
    · exact .inl h
    · omega

theorem Safe.passage (hsafe : Safe self start state) {partition : Topic × Nat}
    {message : Message (Topic × Nat) Bytes} (hnext : self.next state partition = some message)
    (hhandler : self.handlers partition.1 ≠ none) {answer : Except Failure Unit}
    {after : GroupState Topic Bytes K σ} (hpassage : Passage message state answer after) :
    Safe self start after ∧
      (∀ other ∈ self.log.messages partition, start partition ≤ other.offset →
        other.offset < message.offset → Settled after.journal other) ∧
      ((∃ failure, answer = .error failure) ∨ Settled after.journal message) := by
  have hpartition := self.log.own partition message (self.log.find_first hnext).1
  have hbehind : ∀ other ∈ self.log.messages partition, start partition ≤ other.offset →
      other.offset < message.offset → Settled state.journal other := by
    intro other hother hstart hbelow
    rcases below_next hnext hother (by omega) with rfl | hread
    · exact absurd hbelow (lt_irrefl _)
    · exact hsafe.passed partition hhandler other hother hstart hread
  cases hpassage with
  | stopped middle habout hanswer hjournal hposition hcommitted =>
      refine ⟨hsafe.extend (about_not_committed habout) hjournal hposition hcommitted, ?_,
        .inl hanswer⟩
      intro other hother hstart hbelow
      apply settled_mono (hbehind other hother hstart hbelow)
      intro action ha
      rw [hjournal]
      exact List.mem_append_left _ ha
  | committed middle habout hsettled hjournal hposition hcommitted =>
      have hlast : ∀ other ∈ self.log.messages partition, start partition ≤ other.offset →
          other.offset < message.offset + 1 → Settled (state.journal ++ middle) other := by
        intro other hother hstart hbelow
        rcases below_next hnext hother hbelow with rfl | hread
        · exact settled_mono hsettled fun _ ha => List.mem_append_right _ ha
        · exact settled_mono (hsafe.passed partition hhandler other hother hstart hread)
            fun _ ha => List.mem_append_left _ ha
      have hmono : ∀ action ∈ state.journal ++ middle, action ∈ after.journal := by
        intro action ha
        rw [hjournal]
        exact List.mem_append_left _ ha
      have hdone : Settled (state.journal ++ middle) message :=
        settled_mono hsettled fun _ ha => List.mem_append_right _ ha
      refine ⟨⟨?_, ?_, ?_⟩, ?_, .inr (settled_mono hdone hmono)⟩
      · rw [hjournal, commitSafe_snoc]
        refine ⟨commitSafe_append hsafe.commits (about_not_committed habout), ?_⟩
        rintro _ _ ⟨⟩
        rw [hpartition]
        exact ⟨hlast, message, (self.log.find_first hnext).1, rfl, hdone⟩
      · intro other hhandler' kept hkept hstart hbelow
        rw [hposition] at hbelow
        exact settled_mono (hsafe.passed other hhandler' kept hkept hstart hbelow)
          fun _ ha => hmono _ (List.mem_append_left _ ha)
      · intro other kept hkept hstart hbelow
        rw [hcommitted, hpartition] at hbelow
        by_cases h : other = partition
        · subst h
          rw [Function.update_self] at hbelow
          exact settled_mono (hlast kept hkept hstart hbelow) hmono
        · rw [Function.update_of_ne h] at hbelow
          exact settled_mono (hsafe.stored other kept hkept hstart hbelow)
            fun _ ha => hmono _ (List.mem_append_left _ ha)
      · intro other hother hstart hbelow
        exact settled_mono (hlast other hother hstart (by omega)) hmono

theorem safe_deliver (hsafe : Safe self start state) {partition : Topic × Nat}
    {message : Message (Topic × Nat) Bytes} (hnext : self.next state partition = some message)
    (answers : Answers Envelope Handler) (resume : Nat) (hresume : resume ≤ message.offset) :
    wp (self.deliver answers resume message) (fun _ next => Safe self start next) state := by
  have hpartition := self.log.own partition message (self.log.find_first hnext).1
  have hgiven : Safe self start { state with journal := state.journal ++ [.delivered message] } := by
    refine hsafe.extend ?_ rfl rfl rfl
    intro action ha partition offset
    rw [List.mem_singleton.mp ha]
    rintro ⟨⟩
  unfold deliver
  simp only [wp_bind, wp_act, wp_catching]
  cases hhandler : self.handlers partition.1 with
  | none =>
      -- The callback resolves at once, and the client goes on behind the message.
      have hskip : self.handlers message.partition.1 = none := by rw [hpartition, hhandler]
      unfold processMessage
      simp only [hskip]
      apply hgiven.seek
      intro hsome
      exact absurd hskip hsome
  | some handler =>
      have hsome : self.handlers partition.1 ≠ none := by simp [hhandler]
      apply wp_mono (passage_processMessage self answers message _ (hpartition ▸ hhandler))
      intro answer after hpassage
      obtain ⟨hafter, hbehind, hdone⟩ := hgiven.passage hnext hsome hpassage
      cases answer with
      | ok _ =>
          obtain hdone := hdone.resolve_left (by rintro ⟨_, ⟨⟩⟩)
          apply hafter.seek
          rw [hpartition]
          intro _ other hother hstart hbelow
          rcases below_next hnext hother hbelow with rfl | hread
          · exact hdone
          · exact hbehind other hother hstart
              (lt_of_lt_of_le hread (self.log.find_first hnext).2.1)
      | error failure =>
          apply hafter.seek
          rw [hpartition]
          intro _ other hother hstart hbelow
          exact hbehind other hother hstart (by omega)

theorem safe_step (hsafe : Safe self start state) (event : GroupEvent Topic Envelope Handler σ)
    (hadmissible : self.Admissible state event) : Safe self start (self.step state event).2 := by
  have hperform : wp (self.perform event) (fun _ next => Safe self start next) state := by
    cases event with
    | eachMessage partition answers resume =>
        simp only [perform, wp_bind, wp_get]
        cases hnext : self.next state partition with
        | none => exact hsafe
        | some message =>
            exact safe_deliver hsafe hnext answers resume (hadmissible message hnext)
    | resume partition offset =>
        apply hsafe.seek
        intro hhandler message hmessage hstart hbelow
        rcases hadmissible with hback | rfl
        · exact hsafe.passed partition hhandler message hmessage hstart (by omega)
        · exact hsafe.stored partition message hmessage hstart hbelow
    | store dedup => exact ⟨hsafe.commits, hsafe.passed, hsafe.stored⟩
  unfold wp at hperform
  unfold step
  cases hrun : (self.perform event).run state with
  | ok _ next =>
      rw [hrun] at hperform
      exact hperform
  | error failure next =>
      rw [hrun] at hperform
      exact hperform

end Step

-- Whatever rejects on the way, a stored offset never passes an unsettled message.
theorem commitSafe_run (self : GroupConsumer Topic Bytes Envelope Handler K σ)
    (first last : GroupState Topic Bytes K σ) (start : Topic × Nat → Nat)
    (trace : List (GroupEvent Topic Envelope Handler σ × Except Failure Unit))
    (hrun : self.GroupRun first trace last) (hjournal : first.journal = [])
    (hposition : first.position = start) (hcommitted : first.committed = start) :
    CommitSafe self.log start last.journal := by
  have hfirst : Safe self start first := by
    refine ⟨by rw [hjournal]; exact Journal.holds_nil _, ?_, ?_⟩
    · intro partition _ message _ hstart hbelow
      rw [hposition] at hbelow
      omega
    · intro partition message _ hstart hbelow
      rw [hcommitted] at hbelow
      omega
  have hlast : Safe self start last := by
    refine hrun.invariant (P := Safe self start) ?_ hfirst
    intro state event hsafe hadmissible
    exact safe_step hsafe event hadmissible
  exact hlast.commits

-- One topic with one message, and the default store.
def greeting : Message (String × Nat) String where
  partition := ("signals", 0)
  offset := 7
  value := some "hello"

def greetings : GroupConsumer String String String Unit String (InMemoryDedupStore String) where
  log :=
    { messages := fun partition => if partition = ("signals", 0) then [greeting] else []
      own := by
        intro partition message hm
        split at hm
        · rename_i hpartition
          rw [List.mem_singleton.mp hm, hpartition]
          rfl
        · simp at hm
      ordered := by
        intro partition
        split <;> simp }
  codec := { fromBytes := .ok, idempotencyKey := id }
  dedup := InMemoryDedupStore.store
  subscriptions := [("signals", ())]

theorem one_le_joined : 1 ≤ 1 :=
  Nat.le_refl 1

theorem length_nil_joined : ([] : List String).length ≤ 1 :=
  Nat.zero_le 1

def joined : GroupState String String String (InMemoryDedupStore String) where
  position := fun _ => 7
  committed := fun _ => 7
  dedup :=
    { capacity := 1
      keys := []
      positive := one_le_joined
      nodup := List.nodup_nil
      bounded := length_nil_joined }
  journal := []

def agreeing : Answers String Unit where
  validate := fun _ => none
  handle := fun _ _ => none
  commitFailure := none
  onProcessed := fun _ _ => none

theorem commitSafe_greeting :
    let last := (greetings.step joined (.eachMessage ("signals", 0) agreeing 0)).2
    CommitSafe greetings.log (fun _ => 7) last.journal ∧
      .committed ("signals", 0) 8 ∈ last.journal := by
  have hstart : greetings.GroupRun joined [] joined := .nil
  have hrun := hstart.snoc (.eachMessage ("signals", 0) agreeing 0)
    (by intro message _; exact Nat.zero_le _)
  refine ⟨commitSafe_run greetings joined _ _ _ hrun rfl rfl rfl, ?_⟩
  have hjournal : (greetings.step joined (.eachMessage ("signals", 0) agreeing 0)).2.journal =
    [.delivered greeting, .handled greeting "hello", .recorded "hello",
      .committed ("signals", 0) 8] := rfl
  simp [hjournal]

end TrustlistCore.EventBus.TypeScript.GroupConsumer
