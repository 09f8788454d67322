import TrustlistCore.EventBus.Consumer.Theorems
import TrustlistCore.EventBus.DedupWindow
import TrustlistCore.EventBus.Envelope.Theorems
import TrustlistCore.EventBus.Scanner.Theorems
import TrustlistCore.EventBus.SchemaRegistry

namespace TrustlistCore.EventBus

open Library Unicode
open Value (uuid fromIsoformat subscript)

-- How one step of reading a document ends: the exceptions that `_decode` turns into its own,
-- and those it does not.
inductive Reading
  | passes
  | refused
  | illTyped
  deriving DecidableEq

namespace Reading

def ofResult {A : Type} : Except Failure A → Reading
  | .ok _ => .passes
  | .error (.valueError _) => .refused
  | .error (.keyError _) => .refused
  | .error (.eventBusError _) => .refused
  | .error _ => .illTyped

-- The first step that does not pass decides.
def first (readings : List Reading) : Reading :=
  (readings.find? fun reading => reading ≠ .passes).getD .passes

theorem first_cons (reading : Reading) (readings : List Reading) :
    first (reading :: readings) = if reading = .passes then first readings else reading := by
  cases reading <;> rfl

theorem first_append (readings more : List Reading) :
    first (first readings :: more) = first (readings ++ more) := by
  induction readings with
  | nil => rfl
  | cons reading readings ih =>
      cases reading with
      | passes => exact ih
      | refused => rfl
      | illTyped => rfl

theorem ofResult_bind {A B : Type} {result : Except Failure A} {next : A → Except Failure B}
    {reading : Reading} {readings : List Reading} (hresult : ofResult result = reading)
    (hnext : ∀ a, result = .ok a → ofResult (next a) = first readings) :
    ofResult (result >>= next) = first (reading :: readings) := by
  rw [← hresult, first_cons]
  cases result with
  | ok a => exact hnext a rfl
  | error failure => cases failure <;> rfl

end Reading

open Reading (first ofResult)

section Document

def fieldReading (data : Value) (name : String) : Reading :=
  match data with
  | .dict members =>
      if (Members.find members (points name)).isSome then .passes else .refused
  | _ => .illTyped

-- A text that its reader takes or not, or no text.
def textReading {A : Type} (read : List CodePoint → Except String A) : Value → Reading
  | .str text =>
      match read text with
      | .ok _ => .passes
      | .error _ => .refused
  | _ => .illTyped

def carrierReading (value : Value) : Reading :=
  ofResult (EventEnvelope.carrierOf value)

-- The steps of `from_dict` in their order.
def readings (readers : Readers) (data : Value) : List Reading :=
  let field := Value.get data
  [fieldReading data "event_id", textReading readers.uuid (field "event_id"),
    fieldReading data "event_type", fieldReading data "event_version",
    fieldReading data "produced_at", textReading readers.fromisoformat (field "produced_at"),
    fieldReading data "producer_id",
    carrierReading (field "trace_context"), fieldReading data "idempotency_key",
    fieldReading data "provenance", fieldReading (field "provenance") "source",
    fieldReading (field "provenance") "method", fieldReading data "payload"]

def IsStr (value : Value) : Prop :=
  ∃ text, value = .str text

-- The types the fields of a document have in an envelope.
structure TypedDocument (readers : Readers) (data : Value) : Prop where
  texts : ∀ name ∈ ["event_type", "event_version", "producer_id", "idempotency_key"],
    IsStr (Value.get data name)
  provenance : ∀ name ∈ ["source", "method"], IsStr (Value.get (Value.get data "provenance") name)
  contributorIdentity : Value.get (Value.get data "provenance") "contributor_identity" = .none ∨
    IsStr (Value.get (Value.get data "provenance") "contributor_identity")
  traceContext : ∀ members, EventEnvelope.carrierOf (Value.get data "trace_context") = .ok members →
    ∀ member ∈ members, IsStr member.1 ∧ IsStr member.2
  payload : ∃ members, Value.get data "payload" = .dict members
  producedAt : ∀ time, fromIsoformat readers (Value.get data "produced_at") = .ok time →
    time.offset.isSome = true

-- The annotations of the dataclass, and an aware instant.
structure EventEnvelope.WellTyped (envelope : EventEnvelope) : Prop where
  eventType : IsStr envelope.eventType
  eventVersion : IsStr envelope.eventVersion
  producerId : IsStr envelope.producerId
  idempotencyKey : IsStr envelope.idempotencyKey
  source : IsStr envelope.provenance.source
  method : IsStr envelope.provenance.method
  contributorIdentity : envelope.provenance.contributorIdentity = .none ∨
    IsStr envelope.provenance.contributorIdentity
  traceContext : ∀ member ∈ envelope.traceContext, IsStr member.1 ∧ IsStr member.2
  payload : ∃ members, envelope.payload = .dict members
  producedAt : envelope.producedAt.offset.isSome = true

theorem ofResult_subscript (data : Value) (name : String) :
    ofResult (subscript data name) = fieldReading data name := by
  cases data with
  | dict members =>
      simp only [subscript, fieldReading]
      cases Members.find members (points name) <;> rfl
  | _ => rfl

theorem get_of_subscript {data value : Value} {name : String}
    (h : subscript data name = .ok value) : Value.get data name = value := by
  cases data with
  | dict members =>
      have hfind := Value.subscript_dict_eq_ok_iff.mp h
      simp only [Value.get, hfind, Option.getD_some]
  | _ => cases h

theorem ofResult_uuid (readers : Readers) (value : Value) :
    ofResult (uuid readers value) = textReading readers.uuid value := by
  cases value with
  | str text =>
      simp only [uuid, textReading]
      cases readers.uuid text <;> rfl
  | _ => rfl

theorem ofResult_fromIsoformat (readers : Readers) (value : Value) :
    ofResult (fromIsoformat readers value) = textReading readers.fromisoformat value := by
  cases value with
  | str text =>
      simp only [fromIsoformat, textReading]
      cases readers.fromisoformat text <;> rfl
  | _ => rfl

theorem ofResult_provenance (data : Value) : ofResult (Provenance.fromDict data) =
    first [fieldReading data "source", fieldReading data "method"] := by
  refine Reading.ofResult_bind (ofResult_subscript data "source") fun source _ => ?_
  refine Reading.ofResult_bind (ofResult_subscript data "method") fun method _ => ?_
  rfl

-- No step of `from_dict` depends on what an earlier one read.
theorem ofResult_fromDict (readers : Readers) (data : Value) :
    ofResult (EventEnvelope.fromDict data readers) = first (readings readers data) := by
  refine Reading.ofResult_bind (ofResult_subscript data "event_id") fun eventId heventId => ?_
  rw [get_of_subscript heventId]
  refine Reading.ofResult_bind (ofResult_uuid readers eventId) fun _ _ => ?_
  refine Reading.ofResult_bind (ofResult_subscript data "event_type") fun _ _ => ?_
  refine Reading.ofResult_bind (ofResult_subscript data "event_version") fun _ _ => ?_
  refine Reading.ofResult_bind (ofResult_subscript data "produced_at") fun producedAt hproduced => ?_
  rw [get_of_subscript hproduced]
  refine Reading.ofResult_bind (ofResult_fromIsoformat readers producedAt) fun _ _ => ?_
  refine Reading.ofResult_bind (ofResult_subscript data "producer_id") fun _ _ => ?_
  refine Reading.ofResult_bind rfl fun _ _ => ?_
  refine Reading.ofResult_bind (ofResult_subscript data "idempotency_key") fun _ _ => ?_
  refine Reading.ofResult_bind (ofResult_subscript data "provenance") fun provenance hprovenance => ?_
  rw [get_of_subscript hprovenance]
  have hrest := @Reading.first_append [fieldReading provenance "source",
    fieldReading provenance "method"] [fieldReading data "payload"]
  refine Eq.trans ?_ hrest
  refine Reading.ofResult_bind (ofResult_provenance provenance) fun _ _ => ?_
  refine Reading.ofResult_bind (ofResult_subscript data "payload") fun _ _ => ?_
  rfl

theorem wellTyped_iff {readers : Readers} {data : Value} {envelope : EventEnvelope}
    (h : EventEnvelope.fromDict data readers = .ok envelope) :
    envelope.WellTyped ↔ TypedDocument readers data := by
  have hdenotes := EventEnvelope.fromDict_eq_ok_iff.mp h
  obtain ⟨producedAt, hproduced, htime⟩ := hdenotes.producedAt
  obtain ⟨provenance, hprovenance, hfields⟩ := hdenotes.provenance
  have htype := get_of_subscript hdenotes.eventType
  have hversion := get_of_subscript hdenotes.eventVersion
  have hproducer := get_of_subscript hdenotes.producerId
  have hkey := get_of_subscript hdenotes.idempotencyKey
  have hpayload := get_of_subscript hdenotes.payload
  have hat := get_of_subscript hproduced
  have hdata := get_of_subscript hprovenance
  have hsource := get_of_subscript hfields.source
  have hmethod := get_of_subscript hfields.method
  constructor
  · intro htyped
    constructor
    · simp only [List.mem_cons, List.not_mem_nil, or_false, forall_eq_or_imp, forall_eq, htype,
        hversion, hproducer, hkey]
      exact ⟨htyped.eventType, htyped.eventVersion, htyped.producerId, htyped.idempotencyKey⟩
    · simp only [List.mem_cons, List.not_mem_nil, or_false, forall_eq_or_imp, forall_eq, hdata,
        hsource, hmethod]
      exact ⟨htyped.source, htyped.method⟩
    · rw [hdata, hfields.contributorIdentity]
      exact htyped.contributorIdentity
    · intro members hmembers
      rw [hdenotes.traceContext] at hmembers
      rw [← Except.ok.inj hmembers]
      exact htyped.traceContext
    · rw [hpayload]
      exact htyped.payload
    · intro time hread
      rw [hat, htime] at hread
      rw [← Except.ok.inj hread]
      exact htyped.producedAt
  · intro htyped
    have htexts := htyped.texts
    have hnamed := htyped.provenance
    simp only [List.mem_cons, List.not_mem_nil, or_false, forall_eq_or_imp, forall_eq, htype,
      hversion, hproducer, hkey] at htexts
    simp only [List.mem_cons, List.not_mem_nil, or_false, forall_eq_or_imp, forall_eq, hdata,
      hsource, hmethod] at hnamed
    have hcontributor := htyped.contributorIdentity
    rw [hdata, hfields.contributorIdentity] at hcontributor
    exact
      { eventType := htexts.1
        eventVersion := htexts.2.1
        producerId := htexts.2.2.1
        idempotencyKey := htexts.2.2.2
        source := hnamed.1
        method := hnamed.2
        contributorIdentity := hcontributor
        traceContext := htyped.traceContext _ hdenotes.traceContext
        payload := hpayload ▸ htyped.payload
        producedAt := htyped.producedAt _ (by rw [hat, htime]) }

end Document

-- `json.loads` with its recursion limit.
def EventEnvelope.fromBytesWithin (readers : Readers) (maxStrDigits depth : ℕ) (raw : List UInt8) :
    Except Failure EventEnvelope :=
  match Utf8.decode raw with
  | some text => do
      EventEnvelope.fromDict (← Scanner.loads maxStrDigits depth (text.map Json.charPoint)) readers
  | none => .error (.valueError "UnicodeDecodeError")

section Consumer

variable {TopicPartition : Type}

-- The consumer on the in-memory store, whose dict asks for the hash of a key.
def envelopeConsumer (readers : Readers) (maxStrDigits depth : ℕ) (log : Log TopicPartition (List UInt8)) :
    EventConsumer TopicPartition (List UInt8) EventEnvelope Value.Key
      (InMemoryDedupStore Value.Key) where
  log
  fromBytes := EventEnvelope.fromBytesWithin readers maxStrDigits depth
  idempotencyKey envelope :=
    match envelope.idempotencyKey.key with
    | some key => .ok key
    | none => .error (.typeError s!"unhashable type: '{envelope.idempotencyKey.className}'")
  dedup := InMemoryDedupStore.store

-- A poll whose schema check is that of the registry.
def registryPoll (registry : SchemaRegistry) (cache : ValidatorCache)
    (answer : PollAnswer TopicPartition) (handler : EventEnvelope → Option Failure)
    (commitFailure : Option String) : Poll TopicPartition EventEnvelope where
  answer
  validate envelope :=
    match (outcome (registry.validate envelope.eventType envelope.payload) cache).1 with
    | .ok _ => none
    | .error failure => some failure
  handler
  commitFailure

def Total (result : Except Failure EventEnvelope) : Prop :=
  match result with
  | .ok envelope => envelope.WellTyped
  | .error (.eventBusError _) => True
  | .error _ => False

-- What may leave `poll_once`: its own errors, those of the registry, and the handler's.
def Expected (handler : EventEnvelope → Option Failure) (failure : Failure) : Prop :=
  (∃ message, failure = .eventBusError message) ∨ (∃ message, failure = .schema message) ∨
    ∃ envelope, handler envelope = some failure

def FitDocument (readers : Readers) (data : Value) : Prop :=
  first (readings readers data) = .refused ∨
    first (readings readers data) = .passes ∧ TypedDocument readers data

-- The body nests no deeper than `json` can go, and what is read of it is in order or is first
-- found missing or malformed.
def Fit (readers : Readers) (maxStrDigits depth : ℕ) (body : Option (List UInt8)) : Prop :=
  ∀ raw text, body = some raw → Utf8.decode raw = some text →
    Scanner.loads maxStrDigits depth (text.map Json.charPoint) ≠ .error Scanner.tooDeep ∧
      ∀ data, Scanner.loads maxStrDigits depth (text.map Json.charPoint) = .ok data →
        FitDocument readers data

section Decode

variable {readers : Readers} {maxStrDigits depth : ℕ} {log : Log TopicPartition (List UInt8)}

theorem fitDocument_iff {data : Value} : FitDocument readers data ↔
    ofResult (EventEnvelope.fromDict data readers) = .refused ∨
      ∃ envelope, EventEnvelope.fromDict data readers = .ok envelope ∧ envelope.WellTyped := by
  have hfirst := ofResult_fromDict readers data
  unfold FitDocument
  rw [← hfirst]
  apply or_congr_right
  cases hresult : EventEnvelope.fromDict data readers with
  | ok envelope =>
      rw [← wellTyped_iff hresult]
      constructor
      · exact fun h => ⟨envelope, rfl, h.2⟩
      · rintro ⟨other, hother, htyped⟩
        obtain rfl := Except.ok.inj hother
        exact ⟨rfl, htyped⟩
  | error failure =>
      refine iff_of_false (fun h => ?_) (fun h => ?_)
      · cases failure <;> cases h.1
      · obtain ⟨envelope, hok, -⟩ := h
        cases hok

theorem total_decode_some {message : Message TopicPartition (List UInt8)} {raw : List UInt8}
    (h : message.value = some raw) :
    Total ((envelopeConsumer readers maxStrDigits depth log).decode message) ↔
      ofResult (EventEnvelope.fromBytesWithin readers maxStrDigits depth raw) = .refused ∨
        ∃ envelope, EventEnvelope.fromBytesWithin readers maxStrDigits depth raw = .ok envelope ∧
          envelope.WellTyped := by
  unfold EventConsumer.decode
  simp only [h, envelopeConsumer]
  cases EventEnvelope.fromBytesWithin readers maxStrDigits depth raw with
  | ok envelope =>
      simp [Total, ofResult]
  | error failure => cases failure <;> simp [Total, ofResult]

theorem total_decode_iff (message : Message TopicPartition (List UInt8)) :
    Total ((envelopeConsumer readers maxStrDigits depth log).decode message) ↔
      Fit readers maxStrDigits depth message.value := by
  cases hvalue : message.value with
  | none =>
      refine iff_of_true ?_ fun _ _ h => by cases h
      unfold EventConsumer.decode
      simp only [hvalue]
      trivial
  | some raw =>
      rw [total_decode_some hvalue]
      have hfit : Fit readers maxStrDigits depth (some raw) ↔ ∀ text, Utf8.decode raw = some text →
          Scanner.loads maxStrDigits depth (text.map Json.charPoint) ≠ .error Scanner.tooDeep ∧
            ∀ data, Scanner.loads maxStrDigits depth (text.map Json.charPoint) = .ok data →
              FitDocument readers data :=
        ⟨fun h text => h raw text rfl, fun h other text hraw => Option.some.inj hraw ▸ h text⟩
      rw [hfit, EventEnvelope.fromBytesWithin]
      cases Utf8.decode raw with
      | none => exact iff_of_true (.inl rfl) fun _ h => by cases h
      | some text =>
          simp only [Option.some.injEq, forall_eq']
          cases hloads : Scanner.loads maxStrDigits depth (text.map Json.charPoint) with
          | ok data =>
              simp only [bind, Except.bind, Except.ok.injEq, forall_eq', ne_eq, reduceCtorEq,
                not_false_eq_true, true_and]
              exact fitDocument_iff.symm
          | error failure =>
              simp only [bind, Except.bind, reduceCtorEq, false_and,
                IsEmpty.forall_iff, implies_true, and_true, ne_eq, Except.error.injEq]
              cases Scanner.raises_loads _ _ _ failure hloads with
              | inl hvalueError =>
                  obtain ⟨text, rfl⟩ := hvalueError
                  exact iff_of_true (.inl rfl) fun h => by cases h
              | inr hdeep =>
                  rw [hdeep]
                  refine iff_of_false (fun h => ?_) (not_not_intro rfl)
                  cases h with
                  | inl hrefused => cases hrefused
                  | inr hok => exact hok.choose_spec

end Decode

section Poll

variable [DecidableEq TopicPartition] {readers : Readers} {maxStrDigits depth : ℕ}
  {log : Log TopicPartition (List UInt8)} {registry : SchemaRegistry} {cache : ValidatorCache}

theorem schema_of_verdict (schema : PayloadSchema) (eventType payload : Value) (state : ValidatorCache) :
    wp (match registry.validationError schema payload with
        | none => return ()
        | some message => throw (.schema
            s!"payload for event_type {registry.repr eventType} failed schema validation: {message}")
        : EStateM Failure ValidatorCache Unit)
      (fun answer _ => ∀ failure, answer = .error failure → ∃ message, failure = .schema message)
      state := by
  cases registry.validationError schema payload with
  | none =>
      intro failure h
      cases h
  | some message =>
      intro failure h
      cases h
      exact ⟨_, rfl⟩

-- Of a type that is a string the registry's cache can be asked.
theorem schema_of_validate {eventType payload : Value} (htype : IsStr eventType) {failure : Failure}
    (h : (outcome (registry.validate eventType payload) cache).1 = .error failure) :
    ∃ message, failure = .schema message := by
  obtain ⟨text, rfl⟩ := htype
  have hwp : wp (registry.validate (.str text) payload)
      (fun answer _ => ∀ failure, answer = .error failure → ∃ message, failure = .schema message)
      cache := by
    simp only [SchemaRegistry.validate, SchemaRegistry.validator, Value.key, wp_bind, wp_get]
    cases Members.find cache (Value.Key.str text) with
    | some cached =>
        simp only [wp_pure]
        exact schema_of_verdict cached (.str text) payload cache
    | none =>
        simp only
        cases registry.getLatestVersion (subjectFor (registry.str (.str text))) with
        | error cause =>
            intro failure h
            cases h
            exact ⟨_, rfl⟩
        | ok found =>
            cases found with
            | none =>
                intro failure h
                cases h
                exact ⟨_, rfl⟩
            | some schema =>
                simp only [wp_bind, wp_modify, wp_pure]
                exact schema_of_verdict schema (.str text) payload _
  exact wp_iff_outcome.mp hwp failure h

-- With the fields of their types nothing else leaves `poll_once` than was to be expected.
theorem expected_process (poll : Poll TopicPartition EventEnvelope)
    (message : Message TopicPartition (List UInt8))
    (state : ConsumerState TopicPartition (List UInt8) Value.Key (InMemoryDedupStore Value.Key))
    (hvalidate : ∀ envelope failure, envelope.WellTyped → poll.validate envelope = some failure →
      ∃ message, failure = .schema message)
    (htotal : Total ((envelopeConsumer readers maxStrDigits depth log).decode message)) :
    wp ((envelopeConsumer readers maxStrDigits depth log).process poll message)
      (fun answer _ => ∀ failure, answer = .error failure → Expected poll.handler failure) state := by
  have hcommit : ∀ (state : ConsumerState TopicPartition (List UInt8) Value.Key
      (InMemoryDedupStore Value.Key)) (envelope : EventEnvelope),
      wp (EventConsumer.commit poll message)
        (fun answer between => match answer with
          | .ok _ => wp (pure envelope) (fun (answer : Except Failure EventEnvelope) _ =>
              ∀ failure, answer = .error failure → Expected poll.handler failure) between
          | .error failure => ∀ other, (.error failure : Except Failure EventEnvelope) = .error other →
              Expected poll.handler other) state := by
    intro state envelope
    rw [EventConsumer.wp_commit]
    cases poll.commitFailure with
    | none =>
        intro failure h
        cases h
    | some text =>
        intro failure h
        cases h
        exact .inl ⟨_, rfl⟩
  unfold EventConsumer.process
  simp only [wp_bind, wp_ofExcept]
  cases hdecode : (envelopeConsumer readers maxStrDigits depth log).decode message with
  | error failure =>
      rw [hdecode] at htotal
      intro other hother
      cases hother
      cases failure with
      | eventBusError message => exact .inl ⟨message, rfl⟩
      | _ => exact absurd htotal id
  | ok envelope =>
      rw [hdecode] at htotal
      simp only
      cases hchecked : poll.validate envelope with
      | some failure =>
          obtain ⟨message, rfl⟩ := hvalidate envelope failure htotal hchecked
          intro other hother
          cases hother
          exact .inr (.inl ⟨message, rfl⟩)
      | none =>
          obtain ⟨text, htext⟩ := htotal.idempotencyKey
          have hkey : (envelopeConsumer readers maxStrDigits depth log).idempotencyKey envelope =
              .ok (.str text) := by
            simp only [envelopeConsumer, htext, Value.key]
          simp only [EventConsumer.check, hkey, EventConsumer.wp_onDedup]
          apply InMemoryDedupStore.wp_seen
          · intro next _ _ _
            simp only [↓reduceIte, wp_bind, EventConsumer.wp_act]
            exact hcommit _ envelope
          · intro _
            simp only [Bool.false_eq_true, ↓reduceIte, wp_bind, wp_ofExcept]
            cases hhandled : poll.handler envelope with
            | some failure =>
                intro other hother
                cases hother
                exact .inr (.inr ⟨envelope, hhandled⟩)
            | none =>
                simp only [EventConsumer.wp_act, EventConsumer.wp_onDedup]
                apply InMemoryDedupStore.wp_record
                intro next _ _
                exact hcommit _ envelope

-- Decoding a message ends in an envelope of the declared types or an `EventBusError`, and no
-- poll that hands the message out fails over a field's type, for exactly the bodies that fit.
theorem total_and_expected_iff (readers : Readers) (maxStrDigits depth : ℕ)
    (log : Log TopicPartition (List UInt8)) (message : Message TopicPartition (List UInt8)) :
    (Total ((envelopeConsumer readers maxStrDigits depth log).decode message) ∧
      ∀ registry cache handler commitFailure
        (state : ConsumerState TopicPartition (List UInt8) Value.Key (InMemoryDedupStore Value.Key)),
        (log.messages message.partition).find?
            (fun other => state.position message.partition ≤ other.offset) = some message →
          wp ((envelopeConsumer readers maxStrDigits depth log).pollOnce
              (registryPoll registry cache (.message message.partition) handler commitFailure))
            (fun answer _ => ∀ failure, answer = .error failure → Expected handler failure) state) ↔
      Fit readers maxStrDigits depth message.value := by
  rw [total_decode_iff, and_iff_left_iff_imp]
  intro hfit registry cache handler commitFailure state hnext
  have htotal := (@total_decode_iff _ _ _ _ log message).mpr hfit
  have hfind : ((envelopeConsumer readers maxStrDigits depth log).log.messages message.partition).find?
      (fun other => state.position message.partition ≤ other.offset) = some message := hnext
  unfold EventConsumer.pollOnce
  simp only [registryPoll, wp_bind, EventConsumer.wp_nextMessage, hfind, wp_map]
  refine wp_mono (expected_process (registryPoll registry cache (.message message.partition) handler
    commitFailure) message _ ?_ htotal) ?_
  · intro envelope failure htyped hfailure
    simp only [registryPoll] at hfailure
    split at hfailure
    · cases hfailure
    · rename_i other hother
      obtain rfl := Option.some.inj hfailure
      exact schema_of_validate htyped.eventType hother
  · intro answer next hanswer failure hfailure
    cases answer with
    | ok envelope => cases hfailure
    | error other =>
        obtain rfl := Except.error.inj hfailure
        exact hanswer other rfl

end Poll

end Consumer

def noMessages : Log Unit (List UInt8) where
  messages _ := []
  own _ _ h := by cases h
  ordered _ := .nil

-- `[]` is a document and no object: its `TypeError` is not caught.
theorem not_total_array :
    ¬ Total ((envelopeConsumer .documented 4300 1000 noMessages).decode
      { partition := (), offset := 0, value := some (Utf8.encode ['[', ']']) }) := by
  rw [total_decode_iff]
  intro hfit
  have hloads : Scanner.loads 4300 1000 (['[', ']'].map Json.charPoint) = .ok (.list []) := rfl
  have hdocument := (hfit _ _ rfl (Utf8.decode_encode _)).2 _ hloads
  have hfirst : first (readings .documented (.list [])) = .illTyped := rfl
  unfold FitDocument at hdocument
  rw [hfirst] at hdocument
  cases hdocument with
  | inl hrefused => exact nomatch hrefused
  | inr hpasses => exact nomatch hpasses.1

end TrustlistCore.EventBus
