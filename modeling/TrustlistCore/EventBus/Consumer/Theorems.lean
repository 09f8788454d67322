import TrustlistCore.EventBus.Consumer

namespace TrustlistCore.EventBus

-- The log is ordered, so the first message from a position on is the least one.
theorem Log.find_first {TopicPartition Bytes : Type} (log : Log TopicPartition Bytes)
    {partition : TopicPartition} {position : Nat} {message : Message TopicPartition Bytes}
    (h : (log.messages partition).find? (fun message => position ≤ message.offset) =
      some message) :
    message ∈ log.messages partition ∧ position ≤ message.offset ∧
      ∀ other ∈ log.messages partition, position ≤ other.offset →
        other = message ∨ message.offset < other.offset := by
  obtain ⟨hreached, before, after, hsplit, hbefore⟩ := List.find?_eq_some_iff_append.mp h
  refine ⟨by rw [hsplit]; simp, by simpa using hreached, ?_⟩
  intro other hother hpos
  have hordered := log.ordered partition
  rw [hsplit] at hother hordered
  rcases List.mem_append.mp hother with hb | hb
  · have hshort := hbefore other hb
    simp [hpos] at hshort
  · rcases List.mem_cons.mp hb with rfl | ha
    · exact .inl rfl
    · have htail := (List.pairwise_append.mp hordered).2.1
      exact .inr (List.rel_of_pairwise_cons htail ha)

namespace EventConsumer

open Library

variable {TopicPartition Bytes Envelope K σ : Type}

@[simp] theorem wp_act {Q : Except Failure Unit → ConsumerState TopicPartition Bytes K σ → Prop}
    (action : Action TopicPartition Bytes K) (state : ConsumerState TopicPartition Bytes K σ) :
    wp (act action) Q state ↔ Q (.ok ()) { state with journal := state.journal ++ [action] } :=
  Iff.rfl

@[simp] theorem wp_onDedup {α : Type}
    {Q : Except Failure α → ConsumerState TopicPartition Bytes K σ → Prop}
    (method : EStateM Failure σ α) (state : ConsumerState TopicPartition Bytes K σ) :
    wp (onDedup method) Q state ↔
      wp method (fun answer dedup => Q answer { state with dedup := dedup }) state.dedup := by
  unfold onDedup
  rw [wp_zoom]

variable [DecidableEq TopicPartition]

theorem wp_commit {Q : Except Failure Unit → ConsumerState TopicPartition Bytes K σ → Prop}
    (poll : Poll TopicPartition Envelope) (message : Message TopicPartition Bytes)
    (state : ConsumerState TopicPartition Bytes K σ) :
    wp (commit poll message) Q state ↔
      match poll.commitFailure with
      | some text => Q (.error (.eventBusError s!"failed to commit offset: {text}")) state
      | none => Q (.ok ()) { state with
          committed := Function.update state.committed message.partition (message.offset + 1)
          journal := state.journal ++ [.committed message.partition (message.offset + 1)] } := by
  unfold commit
  cases poll.commitFailure <;> rfl

theorem wp_nextMessage
    {Q : Except Failure (Option (Message TopicPartition Bytes)) →
      ConsumerState TopicPartition Bytes K σ → Prop}
    (self : EventConsumer TopicPartition Bytes Envelope K σ) (partition : TopicPartition)
    (state : ConsumerState TopicPartition Bytes K σ) :
    wp (self.nextMessage partition) Q state ↔
      match (self.log.messages partition).find? (fun message =>
        state.position partition ≤ message.offset) with
      | none => Q (.ok none) state
      | some message => Q (.ok (some message)) { state with
          position := Function.update state.position partition (message.offset + 1)
          journal := state.journal ++ [.delivered message] } := by
  unfold nextMessage
  simp only [wp_bind, wp_get]
  cases (self.log.messages partition).find? (fun message =>
    state.position partition ≤ message.offset) <;> rfl

theorem wp_step_pollOnce (self : EventConsumer TopicPartition Bytes Envelope K σ)
    (poll : Poll TopicPartition Envelope) (state : ConsumerState TopicPartition Bytes K σ)
    (Q : Except Failure Nat → ConsumerState TopicPartition Bytes K σ → Prop) :
    wp (self.pollOnce poll) (fun answer next => Q (answer.map fun envelope =>
        if envelope.isSome then 1 else 0) next) state ↔
      Q (self.step state (.pollOnce poll)).1 (self.step state (.pollOnce poll)).2 := by
  unfold wp step
  simp only
  cases (self.pollOnce poll).run state <;> rfl

theorem wp_step_run (self : EventConsumer TopicPartition Bytes Envelope K σ)
    (maxEvents : Option Nat) (polls : List (Poll TopicPartition Envelope))
    (state : ConsumerState TopicPartition Bytes K σ)
    (Q : Except Failure Nat → ConsumerState TopicPartition Bytes K σ → Prop) :
    wp (self.run maxEvents 0 polls) Q state ↔
      Q (self.step state (.run maxEvents polls)).1 (self.step state (.run maxEvents polls)).2 := by
  unfold wp step
  simp only
  cases (self.run maxEvents 0 polls).run state <;> rfl

end EventConsumer

end TrustlistCore.EventBus
