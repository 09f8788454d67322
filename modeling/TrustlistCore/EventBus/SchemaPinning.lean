import TrustlistCore.EventBus.AtLeastOnce
import TrustlistCore.EventBus.DecodeErrors
import TrustlistCore.EventBus.EnvelopeRoundTrip

namespace TrustlistCore.EventBus

open Library Unicode

namespace SchemaRegistry

-- What the client answers for a subject's latest version may change from call to call.
def answering (registry : SchemaRegistry)
    (latest : List CodePoint → Except String (Option PayloadSchema)) : SchemaRegistry :=
  { registry with getLatestVersion := latest }

-- The schema that the client answers for an event type, unless it raises or answers none.
def fetched (registry : SchemaRegistry)
    (latest : List CodePoint → Except String (Option PayloadSchema)) (eventType : Value) :
    Option PayloadSchema :=
  match latest (subjectFor (registry.str eventType)) with
  | .ok schema => schema
  | .error _ => none

end SchemaRegistry

-- A call of the registry that two owners share: a poll of the consumer, the check of somebody
-- else, or a rebalance, which asks the registry nothing.
inductive RegistryCall (TopicPartition : Type)
  | poll (latest : List CodePoint → Except String (Option PayloadSchema))
      (answer : PollAnswer TopicPartition) (handler : EventEnvelope → Option Failure)
      (commitFailure : Option String)
  | validate (latest : List CodePoint → Except String (Option PayloadSchema))
      (eventType payload : Value)
  | reassign (partition : TopicPartition)

structure RegistryState (TopicPartition Bytes K σ : Type) where
  consumer : ConsumerState TopicPartition Bytes K σ
  validators : ValidatorCache

namespace RegistryCall

variable {TopicPartition Bytes K σ : Type} [DecidableEq TopicPartition]

-- The envelope whose payload a poll has checked: that of the message it is handed, where the
-- body can be decoded.
def decoded (self : EventConsumer TopicPartition Bytes EventEnvelope K σ)
    (state : ConsumerState TopicPartition Bytes K σ) :
    PollAnswer TopicPartition → Option EventEnvelope
  | .message partition =>
      ((self.log.messages partition).find? fun message =>
        state.position partition ≤ message.offset).bind fun message =>
          (self.decode message).toOption
  | _ => none

-- One call, and the event type that it asked the registry about.
def step (self : EventConsumer TopicPartition Bytes EventEnvelope K σ) (registry : SchemaRegistry)
    (state : RegistryState TopicPartition Bytes K σ) :
    RegistryCall TopicPartition → Option Value × RegistryState TopicPartition Bytes K σ
  | .poll latest answer handler commitFailure =>
      let poll := registryPoll (registry.answering latest) state.validators answer handler
        commitFailure
      let consumer := (self.step state.consumer (.pollOnce poll)).2
      match decoded self state.consumer answer with
      | none => (none, { state with consumer })
      | some envelope =>
          (some envelope.eventType,
            { consumer
              validators := final ((registry.answering latest).validate envelope.eventType
                envelope.payload) state.validators })
  | .validate latest eventType payload =>
      (some eventType,
        { state with
          validators := final ((registry.answering latest).validate eventType payload)
            state.validators })
  | .reassign partition =>
      (none, { state with consumer := (self.step state.consumer (.reassign partition)).2 })

def latest : RegistryCall TopicPartition →
    Option (List CodePoint → Except String (Option PayloadSchema))
  | .poll latest _ _ _ => some latest
  | .validate latest _ _ => some latest
  | .reassign _ => none

end RegistryCall

-- The schema that an entry of a trace brings for an event type.
def brought {TopicPartition : Type} (registry : SchemaRegistry) (typeKey : Value.Key)
    (entry : RegistryCall TopicPartition × Option Value) : Option PayloadSchema :=
  match entry.1.latest, entry.2 with
  | some latest, some eventType =>
      if eventType.key = some typeKey then registry.fetched latest eventType else none
  | _, _ => none

-- The first schema that any call was answered for an event type.
def pinned {TopicPartition : Type} (registry : SchemaRegistry)
    (trace : List (RegistryCall TopicPartition × Option Value)) (typeKey : Value.Key) :
    Option PayloadSchema :=
  trace.findSome? (brought registry typeKey)

section Calls

variable {registry : SchemaRegistry}
variable {latest : List CodePoint → Except String (Option PayloadSchema)}

-- What a check answers once it has the schema.
def decided (registry : SchemaRegistry) (schema : PayloadSchema) (eventType payload : Value) :
    Except Failure Unit :=
  match registry.validationError schema payload with
  | none => .ok ()
  | some message => .error (.schema
      s!"payload for event_type {registry.repr eventType} failed schema validation: {message}")

theorem decided_eq_ok_iff {schema : PayloadSchema} {eventType payload : Value} :
    decided registry schema eventType payload = .ok () ↔
      registry.validationError schema payload = none := by
  unfold decided
  cases registry.validationError schema payload with
  | none => simp only
  | some message => simp only [reduceCtorEq]

-- The three ways of a check: it has no use for the cache, it finds the schema there, or it
-- is answered by the client and keeps the answer.
inductive Checked (registry : SchemaRegistry)
    (latest : List CodePoint → Except String (Option PayloadSchema)) (eventType payload : Value)
    (cache : ValidatorCache) : Except Failure Unit → ValidatorCache → Prop
  | refused (failure : Failure)
      (hnone : ∀ typeKey, eventType.key = some typeKey →
        Members.find cache typeKey = none ∧ registry.fetched latest eventType = none) :
      Checked registry latest eventType payload cache (.error failure) cache
  | cached (typeKey : Value.Key) (schema : PayloadSchema) (hkey : eventType.key = some typeKey)
      (hfind : Members.find cache typeKey = some schema) :
      Checked registry latest eventType payload cache
        (decided registry schema eventType payload) cache
  | kept (typeKey : Value.Key) (schema : PayloadSchema) (hkey : eventType.key = some typeKey)
      (hfind : Members.find cache typeKey = none)
      (hfetched : registry.fetched latest eventType = some schema) :
      Checked registry latest eventType payload cache
        (decided registry schema eventType payload) (Members.insert cache typeKey schema)

variable {eventType payload : Value} {cache : ValidatorCache}

theorem wp_decided {Q : Except Failure Unit → ValidatorCache → Prop} (schema : PayloadSchema) :
    wp (match (registry.answering latest).validationError schema payload with
        | none => return ()
        | some message => throw (.schema s!"payload for event_type {(registry.answering latest).repr eventType} failed schema validation: {message}")
        : EStateM Failure ValidatorCache Unit) Q cache ↔
      Q (decided registry schema eventType payload) cache := by
  unfold decided SchemaRegistry.answering
  cases registry.validationError schema payload <;> rfl

theorem checked_validate (registry : SchemaRegistry)
    (latest : List CodePoint → Except String (Option PayloadSchema)) (eventType payload : Value)
    (cache : ValidatorCache) :
    wp ((registry.answering latest).validate eventType payload)
      (Checked registry latest eventType payload cache) cache := by
  simp only [SchemaRegistry.validate, SchemaRegistry.validator]
  cases hkey : eventType.key with
  | none =>
      simp only [wp_bind, wp_throw]
      refine .refused _ fun typeKey h => ?_
      rw [hkey] at h
      cases h
  | some typeKey =>
      simp only [wp_bind, wp_get]
      cases hfind : Members.find cache typeKey with
      | some schema =>
          simp only [wp_pure]
          exact (wp_decided schema).mpr (.cached typeKey schema hkey hfind)
      | none =>
          have hrefused : ∀ failure, registry.fetched latest eventType = none →
              Checked registry latest eventType payload cache (.error failure) cache := by
            intro failure hnone
            refine .refused failure fun other hother => ?_
            obtain rfl := Option.some.inj (hkey.symm.trans hother)
            exact ⟨hfind, hnone⟩
          have hfetched : registry.fetched latest eventType =
              match latest (subjectFor (registry.str eventType)) with
              | .ok schema => schema
              | .error _ => none := rfl
          simp only [SchemaRegistry.answering]
          cases hanswer : latest (subjectFor (registry.str eventType)) with
          | error text =>
              simp only [wp_throw]
              exact hrefused _ (by rw [hfetched, hanswer])
          | ok found =>
              cases found with
              | none =>
                  simp only [wp_throw]
                  exact hrefused _ (by rw [hfetched, hanswer])
              | some schema =>
                  simp only [wp_bind, wp_modify, wp_pure]
                  refine (wp_decided schema).mpr (.kept typeKey schema hkey hfind ?_)
                  rw [hfetched, hanswer]

-- A check looks the schema up, asks for it where it is not there, and forgets nothing.
theorem find_of_checked {answer : Except Failure Unit} {next : ValidatorCache}
    (h : Checked registry latest eventType payload cache answer next) (typeKey : Value.Key) :
    Members.find next typeKey = (Members.find cache typeKey).or
      (if eventType.key = some typeKey then registry.fetched latest eventType else none) := by
  cases h with
  | refused failure hnone =>
      by_cases hkey : eventType.key = some typeKey
      · rw [if_pos hkey, (hnone typeKey hkey).1, (hnone typeKey hkey).2, Option.or_none]
      · rw [if_neg hkey, Option.or_none]
  | cached other schema hother hfind =>
      by_cases hkey : eventType.key = some typeKey
      · obtain rfl := Option.some.inj (hother.symm.trans hkey)
        rw [hfind, Option.some_or]
      · rw [if_neg hkey, Option.or_none]
  | kept other schema hother hfind hfetched =>
      rw [Members.find_insert, hother]
      by_cases hkey : other = typeKey
      · subst hkey
        rw [if_pos rfl, if_pos rfl, hfind, Option.none_or, hfetched]
      · rw [if_neg hkey, if_neg fun h => hkey (Option.some.inj h), Option.or_none]

-- A check that passes has passed under the schema that is known from then on.
theorem conforms_of_checked {next : ValidatorCache}
    (h : Checked registry latest eventType payload cache (.ok ()) next) :
    ∃ typeKey schema, eventType.key = some typeKey ∧ Members.find next typeKey = some schema ∧
      registry.validationError schema payload = none := by
  generalize hanswer : (.ok () : Except Failure Unit) = answer at h
  cases h with
  | refused failure hnone => cases hanswer
  | cached typeKey schema hkey hfind =>
      exact ⟨typeKey, schema, hkey, hfind, decided_eq_ok_iff.mp hanswer.symm⟩
  | kept typeKey schema hkey hfind hfetched =>
      refine ⟨typeKey, schema, hkey, ?_, decided_eq_ok_iff.mp hanswer.symm⟩
      rw [Members.find_insert, if_pos rfl]

end Calls

section Handled

variable {TopicPartition Bytes Envelope K σ : Type} [DecidableEq TopicPartition]
variable (self : EventConsumer TopicPartition Bytes Envelope K σ)
variable (poll : Poll TopicPartition Envelope)

-- What a poll adds to the handled events: its own message, decoded and found valid.
def Adds (message : Message TopicPartition Bytes)
    (before after : ConsumerState TopicPartition Bytes K σ) : Prop :=
  ∀ other key, .handled other key ∈ after.journal → .handled other key ∈ before.journal ∨
    other = message ∧ ∃ envelope, self.decode message = .ok envelope ∧
      poll.validate envelope = none

omit [DecidableEq TopicPartition] in
theorem handled_of_progress {message other : Message TopicPartition Bytes} {key : K}
    {before after : List (Action TopicPartition Bytes K)} {answer : Except Failure Envelope}
    (h : EventConsumer.Progress message before answer after) (hmem : .handled other key ∈ after) :
    .handled other key ∈ before ∨ other = message := by
  have habout : ∀ {middle : List (Action TopicPartition Bytes K)},
      EventConsumer.About message middle → .handled other key ∈ middle → other = message := by
    intro middle hmiddle hin
    obtain ⟨name, heq | heq | heq⟩ := hmiddle _ hin <;> cases heq
    rfl
  cases h with
  | failed failure middle hmiddle => exact (List.mem_append.mp hmem).imp_right (habout hmiddle)
  | passed envelope middle hmiddle _ =>
      rcases List.mem_append.mp hmem with hin | hlast
      · exact (List.mem_append.mp hin).imp_right (habout hmiddle)
      · simp at hlast

theorem adds_process (message : Message TopicPartition Bytes)
    (state : ConsumerState TopicPartition Bytes K σ) :
    wp (self.process poll message) (fun _ next => Adds self poll message state next) state := by
  by_cases hvalid : ∃ envelope, self.decode message = .ok envelope ∧
      poll.validate envelope = none
  · refine wp_mono (self.progress_process poll message state) ?_
    intro answer next hprogress other key hmem
    exact (handled_of_progress hprogress hmem).imp_right fun h => ⟨h, hvalid⟩
  · -- the poll raises before it comes to the handler
    unfold EventConsumer.process
    simp only [wp_bind, wp_ofExcept]
    cases hdecode : self.decode message with
    | error failure => exact fun other key hmem => .inl hmem
    | ok envelope =>
        simp only
        cases hfailure : poll.validate envelope with
        | none => exact absurd ⟨envelope, hdecode, hfailure⟩ hvalid
        | some failure => exact fun other key hmem => .inl hmem

-- Whatever a poll adds to the handled events is the message that it is handed.
theorem adds_pollOnce (state : ConsumerState TopicPartition Bytes K σ)
    (other : Message TopicPartition Bytes) (key : K)
    (hmem : .handled other key ∈ (self.step state (.pollOnce poll)).2.journal) :
    .handled other key ∈ state.journal ∨ ∃ partition envelope,
      poll.answer = .message partition ∧
      (self.log.messages partition).find? (fun message =>
        state.position partition ≤ message.offset) = some other ∧
      self.decode other = .ok envelope ∧ poll.validate envelope = none := by
  revert hmem
  refine (self.wp_step_pollOnce poll state
    fun _ next => .handled other key ∈ next.journal → _).mp ?_
  unfold EventConsumer.pollOnce
  cases hanswer : poll.answer with
  | timeout => exact fun hmem => .inl hmem
  | partitionEof => exact fun hmem => .inl hmem
  | error text => exact fun hmem => .inl hmem
  | message partition =>
      simp only [wp_bind, EventConsumer.wp_nextMessage]
      cases hfind : (self.log.messages partition).find? (fun message =>
          state.position partition ≤ message.offset) with
      | none => exact fun hmem => .inl hmem
      | some message =>
          simp only [wp_map]
          refine wp_mono (adds_process self poll message _) ?_
          intro answer next hadds hmem
          rcases hadds other key hmem with hbefore | ⟨rfl, envelope, hdecode, hvalid⟩
          · refine .inl ((List.mem_append.mp hbefore).resolve_right ?_)
            simp
          · exact .inr ⟨partition, envelope, rfl, hfind, hdecode, hvalid⟩

end Handled

section Runs

variable {TopicPartition Bytes K σ : Type} [DecidableEq TopicPartition]
variable {self : EventConsumer TopicPartition Bytes EventEnvelope K σ} {registry : SchemaRegistry}
variable {trace : List (RegistryCall TopicPartition × Option Value)}
variable {state : RegistryState TopicPartition Bytes K σ}

omit [DecidableEq TopicPartition] in
theorem pinned_snoc (entry : RegistryCall TopicPartition × Option Value) (typeKey : Value.Key) :
    pinned registry (trace ++ [entry]) typeKey =
      (pinned registry trace typeKey).or (brought registry typeKey entry) := by
  simp only [pinned, List.findSome?_append, List.findSome?_singleton]

-- What a run keeps: the cache is what was pinned, and every event that was handled conforms
-- to the schema pinned for its type.
structure Pinned (consumer : EventConsumer TopicPartition Bytes EventEnvelope K σ)
    (registry : SchemaRegistry) (trace : List (RegistryCall TopicPartition × Option Value))
    (state : RegistryState TopicPartition Bytes K σ) : Prop where
  validators : ∀ typeKey, Members.find state.validators typeKey = pinned registry trace typeKey
  handled : ∀ message key, .handled message key ∈ state.consumer.journal →
    ∃ envelope typeKey schema, consumer.decode message = .ok envelope ∧
      envelope.eventType.key = some typeKey ∧ pinned registry trace typeKey = some schema ∧
      registry.validationError schema envelope.payload = none

omit [DecidableEq TopicPartition] in
theorem final_eq_outcome {ε τ α : Type} (method : EStateM ε τ α) (state : τ) :
    final method state = (outcome method state).2 := by
  unfold final outcome
  cases method.run state <;> rfl

omit [DecidableEq TopicPartition] in
-- What was pinned stays pinned.
theorem Pinned.handled_snoc (h : Pinned self registry trace state)
    (entry : RegistryCall TopicPartition × Option Value) {message : Message TopicPartition Bytes}
    {key : K} (hmem : .handled message key ∈ state.consumer.journal) :
    ∃ envelope typeKey schema, self.decode message = .ok envelope ∧
      envelope.eventType.key = some typeKey ∧
      pinned registry (trace ++ [entry]) typeKey = some schema ∧
      registry.validationError schema envelope.payload = none := by
  obtain ⟨envelope, typeKey, schema, hdecode, hkey, hpinned, hvalid⟩ :=
    h.handled message key hmem
  refine ⟨envelope, typeKey, schema, hdecode, hkey, ?_, hvalid⟩
  rw [pinned_snoc, hpinned, Option.some_or]

omit [DecidableEq TopicPartition] in
-- A check brings the cache and what is pinned forward alike.
theorem Pinned.checked (h : Pinned self registry trace state)
    {call : RegistryCall TopicPartition}
    {latest : List CodePoint → Except String (Option PayloadSchema)}
    (hcall : call.latest = some latest)
    (eventType payload : Value) (typeKey : Value.Key) :
    Members.find (final ((registry.answering latest).validate eventType payload)
        state.validators) typeKey =
      pinned registry (trace ++ [(call, some eventType)]) typeKey := by
  have hchecked := wp_iff_outcome.mp
    (checked_validate registry latest eventType payload state.validators)
  rw [final_eq_outcome, find_of_checked hchecked, h.validators, pinned_snoc]
  simp only [brought, hcall]

omit [DecidableEq TopicPartition] in
theorem ok_of_registryPoll {cache : ValidatorCache} {answer : PollAnswer TopicPartition}
    {handler : EventEnvelope → Option Failure} {commitFailure : Option String}
    {envelope : EventEnvelope}
    (h : (registryPoll registry cache answer handler commitFailure).validate envelope = none) :
    (outcome (registry.validate envelope.eventType envelope.payload) cache).1 = .ok () := by
  unfold registryPoll at h
  simp only at h
  cases hanswer : (outcome (registry.validate envelope.eventType envelope.payload) cache).1 with
  | ok value => rfl
  | error failure =>
      rw [hanswer] at h
      cases h

theorem pinned_step (h : Pinned self registry trace state) (call : RegistryCall TopicPartition) :
    Pinned self registry (trace ++ [(call, (RegistryCall.step self registry state call).1)])
      (RegistryCall.step self registry state call).2 := by
  cases call with
  | reassign partition =>
      constructor
      · intro typeKey
        rw [pinned_snoc, show brought registry typeKey _ = none from rfl, Option.or_none]
        exact h.validators typeKey
      · intro message key hmem
        exact h.handled_snoc _ hmem
  | validate latest eventType payload =>
      constructor
      · intro typeKey
        exact h.checked rfl eventType payload typeKey
      · intro message key hmem
        exact h.handled_snoc _ hmem
  | poll latest answer handler commitFailure =>
      have hadds := adds_pollOnce self
        (registryPoll (registry.answering latest) state.validators answer handler commitFailure)
        state.consumer
      cases hdecoded : RegistryCall.decoded self state.consumer answer with
      | none =>
          simp only [RegistryCall.step, hdecoded]
          constructor
          · intro typeKey
            rw [pinned_snoc, show brought registry typeKey _ = none from rfl, Option.or_none]
            exact h.validators typeKey
          · intro message key hmem
            rcases hadds message key hmem with
              hbefore | ⟨partition, envelope, hanswer, hfind, hdecode, -⟩
            · exact h.handled_snoc _ hbefore
            · obtain rfl : answer = .message partition := hanswer
              simp only [RegistryCall.decoded, hfind, Option.bind_some, hdecode] at hdecoded
              cases hdecoded
      | some envelope =>
          simp only [RegistryCall.step, hdecoded]
          constructor
          · intro typeKey
            exact h.checked rfl envelope.eventType envelope.payload typeKey
          · intro message key hmem
            rcases hadds message key hmem with
              hbefore | ⟨partition, other, hanswer, hfind, hdecode, hvalid⟩
            · exact h.handled_snoc _ hbefore
            · obtain rfl : answer = .message partition := hanswer
              simp only [RegistryCall.decoded, hfind, Option.bind_some, hdecode] at hdecoded
              obtain rfl : other = envelope := Option.some.inj hdecoded
              have hchecked := wp_iff_outcome.mp
                (checked_validate registry latest other.eventType other.payload state.validators)
              have hok := ok_of_registryPoll hvalid
              rw [hok] at hchecked
              obtain ⟨typeKey, schema, hkey, hschema, hconforms⟩ := conforms_of_checked hchecked
              refine ⟨other, typeKey, schema, hdecode, hkey, ?_, hconforms⟩
              rw [← final_eq_outcome] at hschema
              exact (h.checked rfl other.eventType other.payload typeKey).symm.trans hschema

-- The consumer's side of a call is a step of the consumer as it stands by itself.
theorem exists_plain (self : EventConsumer TopicPartition Bytes EventEnvelope K σ)
    (registry : SchemaRegistry) (state : RegistryState TopicPartition Bytes K σ)
    (call : RegistryCall TopicPartition) :
    (RegistryCall.step self registry state call).2.consumer = state.consumer ∨
      ∃ event, (RegistryCall.step self registry state call).2.consumer =
        (self.step state.consumer event).2 := by
  cases call with
  | reassign partition => exact .inr ⟨.reassign partition, rfl⟩
  | validate latest eventType payload => exact .inl rfl
  | poll latest answer handler commitFailure =>
      refine .inr ⟨.pollOnce (registryPoll (registry.answering latest) state.validators answer
        handler commitFailure), ?_⟩
      simp only [RegistryCall.step]
      cases RegistryCall.decoded self state.consumer answer <;> rfl

-- A consumer over a whole life, whatever the registry answers and when, and whoever else
-- uses the same cache, one call after the other: it goes through a run of the consumer, so all
-- that holds of those holds of it; the cache has for every event type the first schema that any
-- call was answered for it; and every event handled so far conforms to that one.
theorem handled_conforms {start last : RegistryState TopicPartition Bytes K σ}
    (hrun : Run (RegistryCall.step self registry) (fun _ _ => True) start trace last)
    (hvalidators : start.validators = []) (hjournal : start.consumer.journal = []) :
    (∃ events, Run self.step (fun _ _ => True) start.consumer events last.consumer) ∧
      (∀ typeKey, Members.find last.validators typeKey = pinned registry trace typeKey) ∧
      ∀ message key, .handled message key ∈ last.consumer.journal →
        ∃ envelope typeKey schema, self.decode message = .ok envelope ∧
          envelope.eventType.key = some typeKey ∧ pinned registry trace typeKey = some schema ∧
          registry.validationError schema envelope.payload = none := by
  have hboth : (∃ events, Run self.step (fun _ _ => True) start.consumer events last.consumer) ∧
      Pinned self registry trace last := by
    induction hrun with
    | nil =>
        refine ⟨⟨[], .nil⟩, ?_, ?_⟩
        · intro typeKey
          rw [hvalidators]
          rfl
        · intro message key hmem
          rw [hjournal] at hmem
          cases hmem
    | @snoc trace state call hprefix _ ih =>
        refine ⟨?_, pinned_step ih.2 call⟩
        rcases exists_plain self registry state call with hsame | ⟨event, hevent⟩
        · rw [hsame]
          exact ih.1
        · exact Run.exists_snoc ih.1 event trivial hevent.symm
  exact ⟨hboth.1, hboth.2.validators, hboth.2.handled⟩

end Runs

section Sample

def sampleEvent : EventEnvelope :=
  observedEnvelope (.dict [])

def sampleMessage (offset : ℕ) : Message Unit EventEnvelope where
  partition := ()
  offset
  value := some { sampleEvent with idempotencyKey := .int offset }

def sampleConsumer : EventConsumer Unit EventEnvelope EventEnvelope Value.Key
    (InMemoryDedupStore Value.Key) where
  log :=
    { messages := fun _ => [sampleMessage 0, sampleMessage 1]
      own := by simp [sampleMessage]
      ordered := by simp [sampleMessage] }
  fromBytes := .ok
  idempotencyKey envelope :=
    match envelope.idempotencyKey.key with
    | some key => .ok key
    | none => .error (.typeError "unhashable type")
  dedup := InMemoryDedupStore.store

def sampleRegistry : SchemaRegistry where
  getLatestVersion _ := .error "unreachable"
  validationError schema payload := if schema.admits payload then none else some "is not valid"
  str _ := points "domain.observed"
  repr _ := "'domain.observed'"

def lenient : PayloadSchema where
  required := []
  properties := []
  additionalProperties := true

def strict : PayloadSchema :=
  { lenient with required := ["domain_id"] }

theorem one_le_capacity : 1 ≤ 100000 := by
  decide

theorem length_nil_capacity : ([] : List Value.Key).length ≤ 100000 :=
  Nat.zero_le _

def unstarted : RegistryState Unit EventEnvelope Value.Key (InMemoryDedupStore Value.Key) where
  consumer :=
    { position := fun _ => 0
      committed := fun _ => 0
      dedup :=
        { capacity := 100000
          keys := []
          positive := one_le_capacity
          nodup := List.nodup_nil
          bounded := length_nil_capacity }
      journal := [] }
  validators := []

def pollUnder (schema : PayloadSchema) : RegistryCall Unit :=
  .poll (fun _ => .ok (some schema)) (.message ()) (fun _ => none) none

def afterBoth : RegistryState Unit EventEnvelope Value.Key (InMemoryDedupStore Value.Key) :=
  [pollUnder lenient, pollUnder strict].foldl
    (fun state call => (RegistryCall.step sampleConsumer sampleRegistry state call).2) unstarted

-- A stricter schema is registered between the two polls. The second event would not pass
-- under it, and is handled under the first.
theorem handled_conforms_pinned :
    (∃ key, .handled (sampleMessage 1) key ∈ afterBoth.consumer.journal) ∧
      sampleRegistry.validationError strict sampleEvent.payload = some "is not valid" ∧
      ∃ schema,
        Members.find afterBoth.validators (.str (points "domain.observed")) = some schema ∧
        sampleRegistry.validationError schema sampleEvent.payload = none := by
  obtain ⟨trace, hrun⟩ := Run.of_inputs (RegistryCall.step sampleConsumer sampleRegistry)
    unstarted [pollUnder lenient, pollUnder strict]
  obtain ⟨_, hvalidators, hhandled⟩ := handled_conforms hrun rfl rfl
  have hjournal : afterBoth.consumer.journal =
      [.delivered (sampleMessage 0), .handled (sampleMessage 0) (.number 0),
        .recorded (.number 0), .committed () 1, .delivered (sampleMessage 1),
        .handled (sampleMessage 1) (.number 1), .recorded (.number 1), .committed () 2] := rfl
  have hmem : .handled (sampleMessage 1) (.number 1) ∈ afterBoth.consumer.journal := by
    rw [hjournal]
    simp
  refine ⟨⟨_, hmem⟩, rfl, ?_⟩
  obtain ⟨envelope, typeKey, schema, hdecode, hkey, hpinned, hvalid⟩ := hhandled _ _ hmem
  obtain rfl := Except.ok.inj hdecode
  obtain rfl := Option.some.inj hkey
  exact ⟨schema, (hvalidators _).trans hpinned, hvalid⟩

end Sample

end TrustlistCore.EventBus
