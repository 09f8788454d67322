import TrustlistCore.EventBus.Consumer.Theorems
import TrustlistCore.Library.Journal

namespace TrustlistCore.EventBus.EventConsumer

open Library

variable {TopicPartition Bytes Envelope K σ : Type} [DecidableEq TopicPartition]

-- The handler returned for the message, or the store recognised its key.
def Settled (journal : List (Action TopicPartition Bytes K))
    (message : Message TopicPartition Bytes) : Prop :=
  (∃ key, .handled message key ∈ journal) ∨ ∃ key, .duplicate message key ∈ journal

-- No stored offset has passed a message that was not settled by then.
def AtLeastOnce (journal : List (Action TopicPartition Bytes K)) : Prop :=
  Journal.Holds (fun past entry => ∀ partition offset, entry = .committed partition offset →
    ∀ message, .delivered message ∈ past → message.partition = partition →
      message.offset < offset → Settled past message) journal

-- The client reads on past a message it was given and that is not settled.
def Blocked (state : ConsumerState TopicPartition Bytes K σ) (partition : TopicPartition) : Prop :=
  ∃ message, .delivered message ∈ state.journal ∧ message.partition = partition ∧
    message.offset < state.position partition ∧ ¬ Settled state.journal message

-- A poll is not answered from a partition that has been read on past a failed message.
def CarefulPoll (state : ConsumerState TopicPartition Bytes K σ)
    (poll : Poll TopicPartition Envelope) : Prop :=
  ∀ partition, poll.answer = .message partition → ¬ Blocked state partition

-- The same of every poll that a call of `run` makes.
def CarefulRun (self : EventConsumer TopicPartition Bytes Envelope K σ) (maxEvents : Option Nat)
    (processed : Nat) (state : ConsumerState TopicPartition Bytes K σ) :
    List (Poll TopicPartition Envelope) → Prop
  | [] => True
  | poll :: rest => maxEvents.any (· ≤ processed) = true ∨ CarefulPoll state poll ∧
      match (self.pollOnce poll).run state with
      | .ok envelope next => self.CarefulRun maxEvents
          (if envelope.isSome then processed + 1 else processed) next rest
      | .error _ _ => True

def Careful (self : EventConsumer TopicPartition Bytes Envelope K σ)
    (state : ConsumerState TopicPartition Bytes K σ) :
    ConsumerEvent TopicPartition Envelope → Prop
  | .pollOnce poll => CarefulPoll state poll
  | .run maxEvents polls => self.CarefulRun maxEvents 0 state polls
  | .reassign _ => True

omit [DecidableEq TopicPartition] in
theorem settled_mono {journal longer : List (Action TopicPartition Bytes K)}
    {message : Message TopicPartition Bytes} (h : Settled journal message)
    (hsub : ∀ action ∈ journal, action ∈ longer) : Settled longer message :=
  h.imp (fun ⟨key, hk⟩ => ⟨key, hsub _ hk⟩) (fun ⟨key, hk⟩ => ⟨key, hsub _ hk⟩)

omit [DecidableEq TopicPartition] in
theorem atLeastOnce_snoc (journal : List (Action TopicPartition Bytes K))
    (action : Action TopicPartition Bytes K) :
    AtLeastOnce (journal ++ [action]) ↔ AtLeastOnce journal ∧
      ∀ partition offset, action = .committed partition offset →
        ∀ message, .delivered message ∈ journal → message.partition = partition →
          message.offset < offset → Settled journal message :=
  Journal.holds_snoc

-- What a run keeps: the promise, and that every message came out of the log.
structure Sound (consumer : EventConsumer TopicPartition Bytes Envelope K σ)
    (state : ConsumerState TopicPartition Bytes K σ) : Prop where
  atLeastOnce : AtLeastOnce state.journal
  fromLog : ∀ message, .delivered message ∈ state.journal →
    message ∈ consumer.log.messages message.partition

-- What the journal says about one message between its delivery and its commit.
def About (message : Message TopicPartition Bytes) (middle : List (Action TopicPartition Bytes K)) :
    Prop :=
  ∀ action ∈ middle, ∃ key,
    action = .handled message key ∨ action = .duplicate message key ∨ action = .recorded key

-- How `poll_once` leaves a message: it raises before the commit, or it settles the
-- message, commits and returns the envelope.
inductive Progress (message : Message TopicPartition Bytes)
    (before : List (Action TopicPartition Bytes K)) :
    Except Failure Envelope → List (Action TopicPartition Bytes K) → Prop
  | failed (failure : Failure) (middle : List (Action TopicPartition Bytes K))
      (habout : About message middle) : Progress message before (.error failure) (before ++ middle)
  | passed (envelope : Envelope) (middle : List (Action TopicPartition Bytes K))
      (habout : About message middle) (hsettled : Settled middle message) :
      Progress message before (.ok envelope)
        (before ++ middle ++ [.committed message.partition (message.offset + 1)])

theorem progress_process (self : EventConsumer TopicPartition Bytes Envelope K σ)
    (poll : Poll TopicPartition Envelope) (message : Message TopicPartition Bytes)
    (state : ConsumerState TopicPartition Bytes K σ) :
    wp (self.process poll message)
      (fun answer next => Progress message state.journal answer next.journal) state := by
  have stopped : ∀ failure, Progress message state.journal
      (.error failure : Except Failure Envelope) state.journal := by
    intro failure
    have habout : About message ([] : List (Action TopicPartition Bytes K)) :=
      fun action ha => by simp at ha
    have hnone : Progress message state.journal (.error failure : Except Failure Envelope)
        (state.journal ++ []) := .failed failure [] habout
    rwa [List.append_nil] at hnone
  unfold process
  simp only [wp_bind, wp_ofExcept]
  cases self.decode message with
  | error failure => exact stopped failure
  | ok envelope =>
      simp only
      cases check (poll.validate envelope) with
      | error failure => exact stopped failure
      | ok _ =>
          simp only
          cases self.idempotencyKey envelope with
          | error failure => exact stopped failure
          | ok key =>
              simp only [wp_onDedup]
              apply wp_mono (wp_true _)
              intro answer dedup _
              cases answer with
              | error failure => exact stopped failure
              | ok seen =>
                  cases seen with
                  | true =>
                      simp only [↓reduceIte, wp_bind, wp_act, wp_commit]
                      have habout : About message [.duplicate message key] := by simp [About]
                      cases poll.commitFailure with
                      | some text => exact .failed _ _ habout
                      | none => exact .passed envelope _ habout (.inr ⟨key, by simp⟩)
                  | false =>
                      simp only [Bool.false_eq_true, ↓reduceIte, wp_bind, wp_ofExcept]
                      cases check (poll.handler envelope) with
                      | error failure => exact stopped failure
                      | ok _ =>
                          simp only [wp_act, wp_onDedup]
                          apply wp_mono (wp_true _)
                          intro answer dedup _
                          cases answer with
                          | error failure =>
                              have habout : About message [.handled message key] := by simp [About]
                              exact .failed failure _ habout
                          | ok _ =>
                              have habout : About message
                                  [.handled message key, .recorded key] := by simp [About]
                              have happend : state.journal ++ [.handled message key] ++
                                  [.recorded key] =
                                    state.journal ++ [.handled message key, .recorded key] := by
                                rw [List.append_assoc, List.singleton_append]
                              simp only [wp_commit, happend]
                              cases poll.commitFailure with
                              | some text => exact .failed _ _ habout
                              | none => exact .passed envelope _ habout (.inl ⟨key, by simp⟩)

section Journal

omit [DecidableEq TopicPartition]

variable {message : Message TopicPartition Bytes}
  {before middle after : List (Action TopicPartition Bytes K)}

theorem atLeastOnce_append_about (habout : About message middle) (hbefore : AtLeastOnce before) :
    AtLeastOnce (before ++ middle) := by
  induction middle using List.reverseRecOn with
  | nil => simpa using hbefore
  | append_singleton middle action ih =>
      rw [← List.append_assoc, atLeastOnce_snoc]
      refine ⟨ih (fun other ho => habout other (List.mem_append_left _ ho)), ?_⟩
      rintro partition offset rfl
      obtain ⟨key, h | h | h⟩ := habout _ (List.mem_append_right _ (List.mem_singleton_self _)) <;>
        cases h

theorem delivered_append_about (habout : About message middle)
    (other : Message TopicPartition Bytes) :
    .delivered other ∈ before ++ middle ↔ .delivered other ∈ before := by
  rw [List.mem_append, or_iff_left]
  intro h
  obtain ⟨key, h | h | h⟩ := habout _ h <;> cases h

theorem settled_append_about (habout : About message middle) {other : Message TopicPartition Bytes}
    (hne : other ≠ message) : Settled (before ++ middle) other ↔ Settled before other := by
  constructor
  · intro h
    rcases h with ⟨key, hk⟩ | ⟨key, hk⟩ <;> rcases List.mem_append.mp hk with hk | hk
    · exact .inl ⟨key, hk⟩
    · obtain ⟨_, h | h | h⟩ := habout _ hk <;> cases h
      exact absurd rfl hne
    · exact .inr ⟨key, hk⟩
    · obtain ⟨_, h | h | h⟩ := habout _ hk <;> cases h
      exact absurd rfl hne
  · intro h
    exact settled_mono h fun _ ha => List.mem_append_left _ ha

theorem Progress.delivered_iff {answer : Except Failure Envelope}
    (hprogress : Progress message before answer after) (other : Message TopicPartition Bytes) :
    .delivered other ∈ after ↔ .delivered other ∈ before := by
  cases hprogress with
  | failed failure middle habout => exact delivered_append_about habout other
  | passed envelope middle habout hsettled =>
      rw [List.mem_append, List.mem_singleton, or_iff_left (by rintro ⟨⟩)]
      exact delivered_append_about habout other

-- A message is passed rightly when everything else given below it is settled.
theorem Progress.atLeastOnce {answer : Except Failure Envelope}
    (hprogress : Progress message before answer after) (hbefore : AtLeastOnce before)
    (hothers : ∀ other, .delivered other ∈ before → other.partition = message.partition →
      other.offset < message.offset + 1 → other = message ∨ Settled before other) :
    AtLeastOnce after := by
  cases hprogress with
  | failed failure middle habout => exact atLeastOnce_append_about habout hbefore
  | passed envelope middle habout hsettled =>
      rw [atLeastOnce_snoc]
      refine ⟨atLeastOnce_append_about habout hbefore, ?_⟩
      rintro partition offset ⟨⟩ other hother hpartition hoffset
      rw [delivered_append_about habout] at hother
      rcases hothers other hother hpartition hoffset with rfl | hs
      · exact settled_mono hsettled fun _ ha => List.mem_append_right _ ha
      · exact settled_mono hs fun _ ha => List.mem_append_left _ ha

-- And passed wrongly when something is not.
theorem Progress.not_atLeastOnce {envelope : Envelope}
    (hprogress : Progress message before (.ok envelope) after)
    {other : Message TopicPartition Bytes} (hother : .delivered other ∈ before)
    (hpartition : other.partition = message.partition) (hoffset : other.offset < message.offset)
    (hunsettled : ¬ Settled before other) : ¬ AtLeastOnce after := by
  cases hprogress with
  | passed envelope middle habout hsettled =>
      rw [atLeastOnce_snoc]
      rintro ⟨-, hlast⟩
      have hne : other ≠ message := by
        rintro rfl
        exact lt_irrefl _ hoffset
      have hs := hlast _ _ rfl other ((delivered_append_about habout other).mpr hother) hpartition
        (hoffset.trans (Nat.lt_succ_self _))
      exact hunsettled ((settled_append_about habout hne).mp hs)

end Journal

-- The message a poll of the partition hands out: the first one from the read position on.
structure Next (consumer : EventConsumer TopicPartition Bytes Envelope K σ)
    (state : ConsumerState TopicPartition Bytes K σ) (partition : TopicPartition)
    (message : Message TopicPartition Bytes) : Prop where
  mem : message ∈ consumer.log.messages partition
  reached : state.position partition ≤ message.offset
  first : ∀ other ∈ consumer.log.messages partition, state.position partition ≤ other.offset →
    other = message ∨ message.offset < other.offset

omit [DecidableEq TopicPartition] in
theorem next_of_find {self : EventConsumer TopicPartition Bytes Envelope K σ}
    {state : ConsumerState TopicPartition Bytes K σ} {partition : TopicPartition}
    {message : Message TopicPartition Bytes}
    (h : (self.log.messages partition).find? (fun message =>
      state.position partition ≤ message.offset) = some message) :
    Next self state partition message := by
  obtain ⟨hmem, hreached, hfirst⟩ := self.log.find_first h
  exact ⟨hmem, hreached, hfirst⟩

-- Every poll either leaves the state alone or takes one message some way.
theorem wp_pollOnce (self : EventConsumer TopicPartition Bytes Envelope K σ)
    (poll : Poll TopicPartition Envelope) (state : ConsumerState TopicPartition Bytes K σ)
    {Q : Except Failure (Option Envelope) → ConsumerState TopicPartition Bytes K σ → Prop}
    (hraise : ∀ failure, Q (.error failure) state) (hnone : Q (.ok none) state)
    (hmessage : ∀ partition message answer next, poll.answer = .message partition →
      Next self state partition message →
      Progress message (state.journal ++ [.delivered message]) answer next.journal →
      Q (answer.map some) next) :
    wp (self.pollOnce poll) Q state := by
  unfold pollOnce
  cases hanswer : poll.answer with
  | timeout => exact hnone
  | partitionEof => exact hnone
  | error text => exact hraise _
  | message partition =>
      simp only [wp_bind, wp_nextMessage]
      cases hfind : (self.log.messages partition).find? (fun message =>
          state.position partition ≤ message.offset) with
      | none => exact hnone
      | some message =>
          simp only [wp_map]
          apply wp_mono (progress_process self poll message _)
          intro answer next hprogress
          exact hmessage partition message answer next hanswer (next_of_find hfind) hprogress

theorem sound_pollOnce (self : EventConsumer TopicPartition Bytes Envelope K σ)
    (poll : Poll TopicPartition Envelope) (state : ConsumerState TopicPartition Bytes K σ)
    (hsound : Sound self state) (hcareful : CarefulPoll state poll) :
    wp (self.pollOnce poll) (fun _ next => Sound self next) state := by
  apply wp_pollOnce self poll state (fun _ => hsound) hsound
  intro partition message answer next hanswer hnext hprogress
  have hpartition := self.log.own partition message hnext.mem
  constructor
  · apply hprogress.atLeastOnce
    · rw [atLeastOnce_snoc]
      exact ⟨hsound.atLeastOnce, by rintro _ _ ⟨⟩⟩
    · intro other hother hsame hoffset
      rw [List.mem_append, List.mem_singleton] at hother
      rcases hother with hother | ⟨⟨⟩⟩
      · have hlog := hsound.fromLog other hother
        rw [hsame, hpartition] at hlog
        by_cases hread : other.offset < state.position partition
        · -- behind the read position: the poll was careful, so it is settled
          right
          by_contra hunsettled
          refine hcareful partition hanswer ⟨other, hother, hsame.trans hpartition, hread, ?_⟩
          intro hs
          exact hunsettled (settled_mono hs fun _ ha => List.mem_append_left _ ha)
        · left
          rcases hnext.first other hlog (not_lt.mp hread) with heq | hlater
          · exact heq
          · omega
      · exact .inl rfl
  · intro other hother
    have hdelivered := (hprogress.delivered_iff other).mp hother
    rw [List.mem_append, List.mem_singleton] at hdelivered
    rcases hdelivered with h | ⟨⟨⟩⟩
    · exact hsound.fromLog other h
    · rw [hpartition]
      exact hnext.mem

theorem sound_run (self : EventConsumer TopicPartition Bytes Envelope K σ)
    (maxEvents : Option Nat) (polls : List (Poll TopicPartition Envelope)) (processed : Nat)
    (state : ConsumerState TopicPartition Bytes K σ) (hsound : Sound self state)
    (hcareful : self.CarefulRun maxEvents processed state polls) :
    wp (self.run maxEvents processed polls) (fun _ next => Sound self next) state := by
  induction polls generalizing processed state with
  | nil => exact hsound
  | cons poll rest ih =>
      unfold run
      unfold CarefulRun at hcareful
      split
      · exact hsound
      · rename_i hlimit
        obtain ⟨hpoll, hrest⟩ := hcareful.resolve_left (by simpa using hlimit)
        have hstep := sound_pollOnce self poll state hsound hpoll
        simp only [wp_bind]
        unfold wp at hstep ⊢
        cases hrun : (self.pollOnce poll).run state with
        | error failure next =>
            rw [hrun] at hstep
            exact hstep
        | ok envelope next =>
            rw [hrun] at hstep hrest
            exact ih _ next hstep hrest

theorem sound_step (self : EventConsumer TopicPartition Bytes Envelope K σ)
    (state : ConsumerState TopicPartition Bytes K σ)
    (event : ConsumerEvent TopicPartition Envelope) (hsound : Sound self state)
    (hcareful : self.Careful state event) : Sound self (self.step state event).2 := by
  cases event with
  | pollOnce poll =>
      exact (wp_step_pollOnce self poll state fun _ next => Sound self next).mp
        (sound_pollOnce self poll state hsound hcareful)
  | run maxEvents polls =>
      exact (wp_step_run self maxEvents polls state fun _ next => Sound self next).mp
        (sound_run self maxEvents polls 0 state hsound hcareful)
  | reassign partition => exact ⟨hsound.atLeastOnce, hsound.fromLog⟩

-- Runs of careful polls never pass an unsettled message; and after such a run one
-- careless poll that comes to its commit does.
theorem atLeastOnce_run (self : EventConsumer TopicPartition Bytes Envelope K σ)
    (start state : ConsumerState TopicPartition Bytes K σ)
    (trace : List (ConsumerEvent TopicPartition Envelope × Except Failure Nat))
    (hrun : Run self.step self.Careful start trace state) (hstart : start.journal = []) :
    AtLeastOnce state.journal ∧
      ∀ poll : Poll TopicPartition Envelope, ¬ CarefulPoll state poll →
        (self.step state (.pollOnce poll)).1 = .ok 1 →
          ¬ AtLeastOnce (self.step state (.pollOnce poll)).2.journal := by
  have hsound : Sound self state := by
    refine hrun.invariant (P := Sound self) (fun _ event => sound_step self _ event) ?_
    exact ⟨by rw [hstart]; exact Journal.holds_nil _, by simp [hstart]⟩
  refine ⟨hsound.atLeastOnce, ?_⟩
  intro poll hcareless
  unfold CarefulPoll at hcareless
  push Not at hcareless
  obtain ⟨blockedPartition, hanswer, other, hother, hpartition, hread, hunsettled⟩ := hcareless
  apply (wp_step_pollOnce self poll state fun reply next =>
    reply = .ok 1 → ¬ AtLeastOnce next.journal).mp
  apply wp_pollOnce self poll state (fun failure => by simp [Except.map]) (by simp [Except.map])
  intro partition message answer next hanswer' hnext hprogress hreply
  rw [hanswer, PollAnswer.message.injEq] at hanswer'
  subst hanswer'
  cases answer with
  | error failure => simp [Except.map] at hreply
  | ok envelope =>
      refine hprogress.not_atLeastOnce (List.mem_append_left _ hother) ?_ ?_ ?_
      · rw [hpartition, self.log.own _ _ hnext.mem]
      · exact lt_of_lt_of_le hread hnext.reached
      · rintro (⟨key, hk⟩ | ⟨key, hk⟩)
        · exact hunsettled (.inl ⟨key, by simpa using hk⟩)
        · exact hunsettled (.inr ⟨key, by simpa using hk⟩)

-- Two messages; the handler raises on the first and returns on the second.
def firstMessage : Message Unit String := { partition := (), offset := 0, value := some "m-0" }

def secondMessage : Message Unit String := { partition := (), offset := 1, value := some "m-1" }

def twoMessages : EventConsumer Unit String String String (InMemoryDedupStore String) where
  log :=
    { messages := fun _ => [firstMessage, secondMessage]
      own := fun _ _ _ => rfl
      ordered := by simp [firstMessage, secondMessage] }
  fromBytes := .ok
  idempotencyKey := .ok
  dedup := InMemoryDedupStore.store

def fresh : ConsumerState Unit String String (InMemoryDedupStore String) where
  position := fun _ => 0
  committed := fun _ => 0
  dedup :=
    { capacity := 100000
      keys := []
      positive := by decide
      nodup := List.nodup_nil
      bounded := Nat.zero_le _ }
  journal := []

def raising : Poll Unit String where
  answer := .message ()
  validate := fun _ => none
  handler := fun _ => some (.handler "simulated processing failure")
  commitFailure := none

def returning : Poll Unit String :=
  { raising with handler := fun _ => none }

def afterFailure : ConsumerState Unit String String (InMemoryDedupStore String) :=
  (twoMessages.step fresh (.pollOnce raising)).2

def afterSuccess : ConsumerState Unit String String (InMemoryDedupStore String) :=
  (twoMessages.step afterFailure (.pollOnce returning)).2

-- After a rebalance the first message comes again, and both are handled and committed.
def afterRedelivery : ConsumerState Unit String String (InMemoryDedupStore String) :=
  (twoMessages.step (twoMessages.step afterFailure (.reassign ())).2 (.pollOnce returning)).2

def afterBoth : ConsumerState Unit String String (InMemoryDedupStore String) :=
  (twoMessages.step afterRedelivery (.pollOnce returning)).2

theorem atLeastOnce_afterBoth :
    afterBoth.committed () = 2 ∧ AtLeastOnce afterBoth.journal := by
  have hstart : Run twoMessages.step twoMessages.Careful fresh [] fresh := .nil
  have hfresh : CarefulPoll fresh raising := by
    rintro partition - ⟨message, hm, -⟩
    cases hm
  have hreassigned : CarefulPoll (twoMessages.step afterFailure (.reassign ())).2 returning := by
    rintro partition - ⟨message, -, -, hread, -⟩
    exact absurd hread (Nat.not_lt_zero _)
  have hredelivered : CarefulPoll afterRedelivery returning := by
    rintro partition - ⟨message, hm, -, -, hunsettled⟩
    have hjournal : afterRedelivery.journal = [.delivered firstMessage, .delivered firstMessage,
        .handled firstMessage "m-0", .recorded "m-0", .committed () 1] := rfl
    rw [hjournal] at hm hunsettled
    obtain rfl : message = firstMessage := by simpa using hm
    exact hunsettled (.inl ⟨"m-0", by simp⟩)
  have hfailed : Run twoMessages.step twoMessages.Careful fresh _ afterFailure :=
    hstart.snoc (.pollOnce raising) (by exact hfresh)
  have hagain : Run twoMessages.step twoMessages.Careful fresh _
      (twoMessages.step afterFailure (.reassign ())).2 := hfailed.snoc (.reassign ()) (by trivial)
  have hfirst : Run twoMessages.step twoMessages.Careful fresh _ afterRedelivery :=
    hagain.snoc (.pollOnce returning) (by exact hreassigned)
  have hboth : Run twoMessages.step twoMessages.Careful fresh _ afterBoth :=
    hfirst.snoc (.pollOnce returning) (by exact hredelivered)
  exact ⟨rfl, (atLeastOnce_run twoMessages fresh afterBoth _ hboth rfl).1⟩

-- The commit of the second message passes the first, whose handler raised.
theorem commit_passes_failed_message :
    (∃ trace, Run twoMessages.step (fun _ _ => True) fresh trace afterSuccess) ∧
      ¬ AtLeastOnce afterSuccess.journal := by
  constructor
  · have hstart : Run twoMessages.step (fun _ _ => True) fresh [] fresh := .nil
    exact ⟨_, (hstart.snoc (.pollOnce raising) trivial).snoc (.pollOnce returning) trivial⟩
  · intro h
    have hsettled := h [.delivered firstMessage, .delivered secondMessage,
      .handled secondMessage "m-1", .recorded "m-1"] _ [] rfl () 2 rfl firstMessage (by simp) rfl
      (by decide)
    simp [Settled, firstMessage, secondMessage] at hsettled

end TrustlistCore.EventBus.EventConsumer
