import TrustlistCore.EventBus.Producer
import TrustlistCore.EvidenceWriter.Admission
import TrustlistCore.EvidenceWriter.ExactlyOnce

namespace TrustlistCore.EvidenceWriter

open Library Unicode EventBus DataModel

open EventBus.Value (Readable Scalar Every Prints)

-- One call of `produce` by a collector.
structure Publication where
  producer : EventProducer
  producing : Producing
  topic : Text
  payload : Value
  arguments : ProduceArguments

namespace Publication

def produce (publication : Publication) (maxStrDigits : ℕ) :
    EStateM ProduceFailure (List ClientCall) EventEnvelope :=
  publication.producer.produce maxStrDigits publication.producing publication.topic
    publication.payload publication.arguments

-- What the call hands to `new_envelope`.
def given (publication : Publication) : Arguments where
  eventType := .str publication.arguments.eventType
  payload := publication.payload
  producerId := .str publication.producer.producerId
  idempotencyKey := .str publication.arguments.idempotencyKey
  provenance := publication.arguments.provenance
  traceContext := .dict (EventProducer.carrier publication.producing.injectTraceContext)
  eventVersion := EventProducer.versionOr publication.arguments.eventVersion

-- A call as it is typed: strings and any JSON value, fractions included. A surrogate pair is
-- the one character that it stands for.
structure Typed (publication : Publication) : Prop where
  arguments : publication.given.Typed Joined
  payload : Readable publication.payload

end Publication

-- The collectors' clients on the one side of the bus; on the other the consumer's registry
-- and the process that writes.
structure Pipeline (K Timestamp Jsonb : Type) [DecidableEq K] where
  calls : List ClientCall
  cache : ValidatorCache
  process : Process K Timestamp Jsonb

namespace Pipeline

-- What a call of the client appends to a topic.
def body (topic : Text) : ClientCall → Option (List UInt8)
  | .produce record => if record.topic = topic then some record.value else none
  | _ => none

-- The bodies of the messages of a topic, in the order in which the bus took them.
def records (topic : Text) (calls : List ClientCall) : List (List UInt8) :=
  calls.filterMap (body topic)

-- Any collector may publish at any time. The consumer may be handed any message of its topic,
-- also again; and its process takes its next step, or is stopped.
inductive Input
  | produce (publication : Publication)
  | poll (index : ℕ)
  | occurrence (occurrence : Occurrence)

variable {K Timestamp Jsonb : Type} [DecidableEq K] (server : Server Timestamp Jsonb)
  (maxStrDigits : ℕ) (str : Value → Text) (keyOf : Value → Except Failure K)
  (registry : SchemaRegistry) (topic : Text)

-- A message that is no envelope, or whose payload fails the check, does not reach the handler.
def poll (pipeline : Pipeline K Timestamp Jsonb) (raw : List UInt8) : Pipeline K Timestamp Jsonb :=
  match EventEnvelope.fromBytes maxStrDigits raw with
  | .error _ => pipeline
  | .ok envelope =>
      match (registry.validate envelope.eventType envelope.payload).run pipeline.cache with
      | .error _ cache => { pipeline with cache }
      | .ok _ cache =>
          { pipeline with
            cache
            process :=
              (Process.step server maxStrDigits str keyOf pipeline.process (.deliver envelope)).2 }

-- The answer is the envelope that `produce` returns.
def step (pipeline : Pipeline K Timestamp Jsonb) :
    Input → Option EventEnvelope × Pipeline K Timestamp Jsonb
  | .produce publication =>
      match (publication.produce maxStrDigits).run pipeline.calls with
      | .ok envelope calls => (some envelope, { pipeline with calls })
      | .error _ calls => (none, { pipeline with calls })
  | .poll index =>
      match (records topic pipeline.calls)[index]? with
      | none => (none, pipeline)
      | some raw => (none, pipeline.poll server maxStrDigits str keyOf registry raw)
  | .occurrence occurrence =>
      (none, { pipeline with
        process := (Process.step server maxStrDigits str keyOf pipeline.process occurrence).2 })

-- Events come to the process through the bus alone.
def Enabled (_ : Pipeline K Timestamp Jsonb) : Input → Prop
  | .produce publication => publication.Typed
  | .poll _ => True
  | .occurrence occurrence => ∀ envelope, occurrence ≠ .deliver envelope

abbrev Steps (start : Pipeline K Timestamp Jsonb) :=
  Run (step server maxStrDigits str keyOf registry topic) Enabled start

section Published

variable {maxStrDigits : ℕ} {str : Value → Text}

variable (maxStrDigits) in
-- What a call of `produce` leaves: the envelope of its arguments is in the record that it
-- hands over, or it raises and hands over nothing.
theorem wp_produce (publication : Publication) (calls : List ClientCall) :
    wp (publication.produce maxStrDigits) (fun answer after =>
      match answer with
      | .ok envelope => ∃ key value call,
          newEnvelope publication.producing.uuid4 publication.producing.now publication.given =
            .ok envelope ∧ envelope.toBytes maxStrDigits = .ok value ∧
          after = calls ++ [.produce { topic := publication.topic, key, value }] ++ [call] ∧
          ∀ record, call ≠ .produce record
      | .error _ => after = calls) calls := by
  unfold Publication.produce EventProducer.produce
  simp only [wp_bind, wp_ofExcept]
  split
  · split
    · rename_i envelope henvelope
      split
      · rename_i key _
        split
        · rename_i value hvalue
          cases publication.producing.refusal with
          | some refusal => rfl
          | none =>
              simp only [EventProducer.act, wp_modify, wp_bind, wp_pure]
              simp only [EventProducer.raising, Result.mapError_eq_ok] at henvelope hvalue
              refine ⟨key, value, _, henvelope, hvalue, rfl, ?_⟩
              intro record
              split <;> simp
        · trivial
      · trivial
    · trivial
  · trivial

-- What the writer and the decoder find in an envelope that a call has made.
structure Made (publication : Publication) (envelope : EventEnvelope) : Prop where
  payload : envelope.payload = publication.payload
  provenance : envelope.provenance = publication.arguments.provenance
  idempotencyKey : envelope.idempotencyKey = .str publication.arguments.idempotencyKey

theorem made_of_newEnvelope {publication : Publication} {envelope : EventEnvelope}
    (h : newEnvelope publication.producing.uuid4 publication.producing.now publication.given =
      .ok envelope) : Made publication envelope := by
  unfold newEnvelope at h
  simp only [Publication.given, Option.any_none, Bool.false_eq_true, if_false, bind,
    Result.bind_eq_ok] at h
  obtain ⟨_, _, h⟩ := h
  obtain rfl := Except.ok.inj h
  exact ⟨rfl, rfl, rfl⟩

-- The bytes of a typed call say the same to the consumer.
theorem decoded {publication : Publication} {envelope : EventEnvelope} {raw : List UInt8}
    (htyped : publication.Typed)
    (hnew : newEnvelope publication.producing.uuid4 publication.producing.now publication.given =
      .ok envelope) (hbytes : envelope.toBytes maxStrDigits = .ok raw) :
    EventEnvelope.fromBytes maxStrDigits raw = .ok envelope := by
  obtain ⟨⟨members, hfields⟩, hpayload⟩ := htyped.arguments.envelope hnew
  have hscalar (points : List CodePoint) (h : Scalar points) : Joined points := decode16_utf16 h
  have hreadablePayload : Readable envelope.payload := by
    rw [hpayload]
    exact htyped.payload
  have hreadable := hfields.readable hscalar (fun _ h => h) hreadablePayload
  obtain ⟨traceContext, hprints⟩ := prints_of_toBytes hbytes
  have hprinted : Every (Prints EventEnvelope.wire maxStrDigits) envelope.payload :=
    (Value.every_dict.mp hprints).2 (points "payload", envelope.payload)
      (by simp only [List.mem_cons, or_true, true_or])
  have hwhole := hfields.every_toDict hscalar (fun _ _ => trivial) trivial trivial trivial trivial hprinted
  obtain ⟨written, hwritten, hread⟩ :=
    EventEnvelope.fromBytes_of_readable hfields.carries hreadable hwhole
  rw [hbytes] at hwritten
  rwa [Except.ok.inj hwritten]

end Published

section Intact

variable {server : Server Timestamp Jsonb} {maxStrDigits : ℕ} {str : Value → Text}
  {keyOf : Value → Except Failure K} {registry : SchemaRegistry} {topic : Text}

-- An envelope that a call of `produce` has returned, for an event of the topic.
def Published (topic : Text) (trace : List (Input × Option EventEnvelope))
    (envelope : EventEnvelope) : Prop :=
  ∃ publication, (.produce publication, some envelope) ∈ trace ∧ publication.topic = topic ∧
    Made publication envelope

theorem Published.mono {trace more : List (Input × Option EventEnvelope)}
    {envelope : EventEnvelope} (h : Published topic trace envelope) :
    Published topic (trace ++ more) envelope := by
  obtain ⟨publication, hmem, htopic, hmade⟩ := h
  exact ⟨publication, List.mem_append_left _ hmem, htopic, hmade⟩

-- The events that the process has seen.
structure Received (topic : Text) (trace : List (Input × Option EventEnvelope))
    (process : Process K Timestamp Jsonb) : Prop where
  history : ∀ envelope ∈ process.history, Published topic trace envelope
  delivered : ∀ envelope, process.stage = .delivered envelope → Published topic trace envelope
  writing : ∀ envelope key transaction, process.stage = .writing envelope key transaction →
    Published topic trace envelope

theorem Received.mono {trace more : List (Input × Option EventEnvelope)}
    {process : Process K Timestamp Jsonb} (h : Received topic trace process) :
    Received topic (trace ++ more) process where
  history envelope henvelope := (h.history envelope henvelope).mono
  delivered envelope hstage := (h.delivered envelope hstage).mono
  writing envelope key transaction hstage := (h.writing envelope key transaction hstage).mono

theorem Received.of_stage {trace : List (Input × Option EventEnvelope)}
    {process next : Process K Timestamp Jsonb} (h : Received topic trace process)
    (hhistory : next.history = process.history)
    (hdelivered : ∀ envelope, next.stage ≠ .delivered envelope)
    (hwriting : ∀ envelope key transaction, next.stage ≠ .writing envelope key transaction) :
    Received topic trace next where
  history := by
    rw [hhistory]
    exact h.history
  delivered envelope hstage := absurd hstage (hdelivered envelope)
  writing envelope key transaction hstage := absurd hstage (hwriting envelope key transaction)

-- What the consumer hands over, the process has seen.
theorem Received.deliver {trace : List (Input × Option EventEnvelope)}
    {process : Process K Timestamp Jsonb} (h : Received topic trace process)
    {envelope : EventEnvelope} (henvelope : Published topic trace envelope) :
    Received topic trace
      (Process.step server maxStrDigits str keyOf process (.deliver envelope)).2 := by
  simp only [Process.step]
  split
  · refine ⟨h.history, ?_, by simp⟩
    intro other hstage
    obtain rfl := Stage.delivered.inj hstage
    exact henvelope
  · exact h

theorem Received.handle {trace : List (Input × Option EventEnvelope)}
    {process : Process K Timestamp Jsonb} (h : Received topic trace process)
    {envelope : EventEnvelope} (henvelope : Published topic trace envelope) :
    Received topic trace (process.handle str keyOf envelope) := by
  unfold Process.handle
  split
  · exact h.of_stage rfl (by simp) (by simp)
  split
  · exact h.of_stage rfl (by simp) (by simp)
  · exact h.of_stage rfl (by simp) (by simp)
  split
  · exact h.of_stage rfl (by simp) (by simp)
  · refine ⟨h.history, by simp, ?_⟩
    intro other key transaction hstage
    obtain ⟨rfl, -, -⟩ := Stage.writing.inj hstage
    exact henvelope

theorem Received.occurrence {trace : List (Input × Option EventEnvelope)}
    {process : Process K Timestamp Jsonb} (h : Received topic trace process)
    {occurrence : Occurrence} (hoccurrence : ∀ envelope, occurrence ≠ .deliver envelope) :
    Received topic trace (Process.step server maxStrDigits str keyOf process occurrence).2 := by
  unfold Process.step
  cases occurrence with
  | deliver envelope => exact absurd rfl (hoccurrence envelope)
  | seen =>
      simp only
      split
      · rename_i envelope hstage
        exact h.handle (h.delivered envelope hstage)
      · exact h
  | statement generated =>
      simp only
      split
      · rename_i envelope key transaction hstage
        split
        · refine ⟨h.history, by simp, ?_⟩
          intro other _ _ hwriting
          obtain ⟨rfl, -, -⟩ := Stage.writing.inj hwriting
          exact h.writing _ _ _ hstage
        · exact h.of_stage rfl (by simp) (by simp)
      · exact h
  | commitTransaction =>
      simp only
      split
      · rename_i envelope key sent result own hstage
        refine ⟨?_, by simp, by simp⟩
        intro other hother
        cases List.mem_append.mp hother with
        | inl hold => exact h.history other hold
        | inr hnew =>
            rw [List.mem_singleton.mp hnew]
            exact h.writing _ _ _ hstage
      · exact h
  | record =>
      simp only
      split
      · exact h.of_stage rfl (by simp) (by simp)
      · exact h
  | commitOffset =>
      simp only
      split
      · exact h.of_stage rfl (by simp) (by simp)
      · exact h
  | raise => exact h.of_stage rfl (by simp) (by simp)
  | crash => exact h.of_stage rfl (by simp) (by simp)
  | insertDomain row => exact ⟨h.history, h.delivered, h.writing⟩

variable (server maxStrDigits str) in
structure Inv (topic : Text) (trace : List (Input × Option EventEnvelope))
    (pipeline : Pipeline K Timestamp Jsonb) : Prop where
  bodies : ∀ raw ∈ records topic pipeline.calls, ∃ envelope,
    EventEnvelope.fromBytes maxStrDigits raw = .ok envelope ∧ Published topic trace envelope
  received : Received topic trace pipeline.process
  process : Process.Inv server maxStrDigits str pipeline.process

theorem Inv.mono {trace more : List (Input × Option EventEnvelope)}
    {pipeline : Pipeline K Timestamp Jsonb} (h : Inv server maxStrDigits str topic trace pipeline) :
    Inv server maxStrDigits str topic (trace ++ more) pipeline where
  bodies raw hraw := by
    obtain ⟨envelope, hread, hpublished⟩ := h.bodies raw hraw
    exact ⟨envelope, hread, hpublished.mono⟩
  received := h.received.mono
  process := h.process

theorem Inv.produce {trace : List (Input × Option EventEnvelope)}
    {pipeline : Pipeline K Timestamp Jsonb} (h : Inv server maxStrDigits str topic trace pipeline)
    {publication : Publication} (htyped : publication.Typed) :
    Inv server maxStrDigits str topic
      (trace ++ [(.produce publication, (step server maxStrDigits str keyOf registry topic pipeline
        (.produce publication)).1)])
      (step server maxStrDigits str keyOf registry topic pipeline (.produce publication)).2 := by
  have hproduce := wp_produce maxStrDigits publication pipeline.calls
  unfold wp at hproduce
  simp only [step]
  cases hrun : (publication.produce maxStrDigits).run pipeline.calls with
  | error failure calls =>
      rw [hrun] at hproduce
      simp only at hproduce ⊢
      subst hproduce
      exact h.mono
  | ok envelope calls =>
      rw [hrun] at hproduce
      simp only at hproduce ⊢
      obtain ⟨key, value, call, hnew, hbytes, rfl, hcall⟩ := hproduce
      refine ⟨?_, h.received.mono, h.process⟩
      intro raw hraw
      obtain ⟨made, hmade, hbody⟩ := List.mem_filterMap.mp hraw
      simp only [List.mem_append, List.mem_singleton] at hmade
      rcases hmade with (hold | rfl) | rfl
      · obtain ⟨other, hread, hpublished⟩ := h.bodies raw (List.mem_filterMap.mpr ⟨made, hold, hbody⟩)
        exact ⟨other, hread, hpublished.mono⟩
      · simp only [body, Option.ite_none_right_eq_some, Option.some.injEq] at hbody
        obtain ⟨htopic, rfl⟩ := hbody
        exact ⟨envelope, decoded htyped hnew hbytes, publication,
          List.mem_append_right _ (List.mem_singleton_self _), htopic, made_of_newEnvelope hnew⟩
      · cases made with
        | produce record => exact absurd rfl (hcall record)
        | flush => cases hbody
        | poll timeout => cases hbody

theorem Inv.poll {trace : List (Input × Option EventEnvelope)}
    {pipeline : Pipeline K Timestamp Jsonb} (h : Inv server maxStrDigits str topic trace pipeline)
    {raw : List UInt8} (hraw : raw ∈ records topic pipeline.calls) :
    Inv server maxStrDigits str topic trace
      (pipeline.poll server maxStrDigits str keyOf registry raw) := by
  obtain ⟨envelope, hread, hpublished⟩ := h.bodies raw hraw
  unfold Pipeline.poll
  simp only [hread]
  split
  · exact ⟨h.bodies, h.received, h.process⟩
  · exact ⟨h.bodies, h.received.deliver hpublished, h.process.step _⟩

theorem inv_of_run {start last : Pipeline K Timestamp Jsonb}
    {trace : List (Input × Option EventEnvelope)} (hcalls : start.calls = [])
    (hprocess : Process.Start start.process)
    (hrun : Steps server maxStrDigits str keyOf registry topic start trace last) :
    Inv server maxStrDigits str topic trace last := by
  induction hrun with
  | nil =>
      refine ⟨?_, ⟨?_, ?_, ?_⟩, hprocess.inv⟩
      · rw [hcalls]
        intro raw hraw
        cases hraw
      · rw [hprocess.history]
        intro envelope henvelope
        cases henvelope
      · intro envelope hstage
        rw [hprocess.stage] at hstage
        cases hstage
      · intro envelope key transaction hstage
        rw [hprocess.stage] at hstage
        cases hstage
  | @snoc trace pipeline input _ henabled ih =>
      cases input with
      | produce publication => exact ih.produce henabled
      | poll index =>
          simp only [step]
          cases hraw : (records topic pipeline.calls)[index]? with
          | none => exact ih.mono
          | some raw => exact (ih.poll (List.mem_of_getElem? hraw)).mono
      | occurrence occurrence =>
          simp only [step]
          refine Inv.mono ⟨ih.bodies, ih.received.occurrence henabled, ih.process.step _⟩

end Intact


section Signal

def score : Numeral where
  negative := false
  integer := ['1', '2']
  fraction := ['5']
  exponent := none

end Signal

end Pipeline

end TrustlistCore.EvidenceWriter
