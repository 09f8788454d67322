import TrustlistCore.EventBus.Envelope
import TrustlistCore.EventBus.Value.Plain
import TrustlistCore.Library.IsoTime.Theorems
import TrustlistCore.Library.Result

namespace TrustlistCore.EventBus

open Library Unicode

namespace Value

theorem characters_charPoint (text : List Char) :
    characters (text.map Json.charPoint) = text := by
  unfold characters
  rw [List.map_map]
  conv_rhs => rw [← List.map_id text]
  exact List.map_congr_left fun c _ => Char.ofNat_toNat c

theorem uuid_ofChars (id : Uuid) : uuid .documented (ofChars id.text) = .ok id := by
  unfold uuid ofChars Readers.documented
  simp only [characters_charPoint, Uuid.read_text, Except.mapError]

theorem fromIsoformat_ofChars (time : DateTime) :
    fromIsoformat .documented (ofChars (IsoTime.isoformat time)) = .ok time := by
  unfold fromIsoformat ofChars Readers.documented
  simp only [characters_charPoint, IsoTime.fromIsoformat_isoformat, Except.mapError]

theorem scalar_charPoints (text : List Char) : Scalar (text.map Json.charPoint) := by
  have h := scalar_points (String.ofList text)
  unfold points at h
  rwa [String.toList_ofList] at h

theorem subscript_dict_eq_ok_iff {members : List (List CodePoint × Value)} {key : String}
    {value : Value} :
    subscript (.dict members) key = .ok value ↔ Members.find members (points key) = some value := by
  simp only [subscript]
  cases Members.find members (points key) with
  | none => exact iff_of_false (fun h => by cases h) fun h => by cases h
  | some found => rw [Except.ok.injEq, Option.some.injEq]

end Value

open Value

-- The fields a dict has for an envelope.
structure Provenance.Denotes (data : Value) (provenance : Provenance) : Prop where
  source : subscript data "source" = .ok provenance.source
  method : subscript data "method" = .ok provenance.method
  contributorIdentity : get data "contributor_identity" = provenance.contributorIdentity

theorem Provenance.fromDict_eq_ok_iff {data : Value} {provenance : Provenance} :
    Provenance.fromDict data = .ok provenance ↔ Provenance.Denotes data provenance := by
  simp only [Provenance.fromDict, bind, Result.bind_eq_ok, Except.ok.injEq]
  constructor
  · rintro ⟨source, hsource, method, hmethod, rfl⟩
    exact ⟨hsource, hmethod, rfl⟩
  · intro h
    refine ⟨_, h.source, _, h.method, ?_⟩
    rw [h.contributorIdentity]

namespace EventEnvelope

structure Denotes (data : Value) (envelope : EventEnvelope) (readers : Readers := .documented) :
    Prop where
  eventId : ∃ value, subscript data "event_id" = .ok value ∧
    uuid readers value = .ok envelope.eventId
  eventType : subscript data "event_type" = .ok envelope.eventType
  eventVersion : subscript data "event_version" = .ok envelope.eventVersion
  producedAt : ∃ value, subscript data "produced_at" = .ok value ∧
    fromIsoformat readers value = .ok envelope.producedAt
  producerId : subscript data "producer_id" = .ok envelope.producerId
  traceContext : carrierOf (get data "trace_context") = .ok envelope.traceContext
  idempotencyKey : subscript data "idempotency_key" = .ok envelope.idempotencyKey
  provenance : ∃ value, subscript data "provenance" = .ok value ∧
    Provenance.Denotes value envelope.provenance
  payload : subscript data "payload" = .ok envelope.payload

theorem fromDict_eq_ok_iff {data : Value} {envelope : EventEnvelope} {readers : Readers} :
    fromDict data readers = .ok envelope ↔ Denotes data envelope readers := by
  simp only [fromDict, bind, Result.bind_eq_ok, Except.ok.injEq, Provenance.fromDict_eq_ok_iff]
  constructor
  · rintro ⟨id, hid, eventId, huuid, eventType, htype, eventVersion, hversion, at', hat, producedAt,
      hread, producerId, hproducer, traceContext, htrace, idempotencyKey, hkey, value, hvalue,
      provenance, hprovenance, payload, hpayload, rfl⟩
    exact ⟨⟨id, hid, huuid⟩, htype, hversion, ⟨at', hat, hread⟩, hproducer, htrace, hkey,
      ⟨value, hvalue, hprovenance⟩, hpayload⟩
  · intro h
    obtain ⟨id, hid, huuid⟩ := h.eventId
    obtain ⟨at', hat, hread⟩ := h.producedAt
    obtain ⟨value, hvalue, hprovenance⟩ := h.provenance
    exact ⟨id, hid, _, huuid, _, h.eventType, _, h.eventVersion, at', hat, _, hread, _,
      h.producerId, _, h.traceContext, _, h.idempotencyKey, value, hvalue, _, hprovenance, _,
      h.payload, rfl⟩

-- A trace context whose keys are strings, as a dict.
def Carries (envelope : EventEnvelope) (members : List (List CodePoint × Value)) : Prop :=
  envelope.traceContext = members.map fun member => (.str member.1, member.2)

theorem carrierOf_dict (members : List (List CodePoint × Value)) :
    carrierOf (.dict members) = .ok (members.map fun member => (.str member.1, member.2)) := by
  cases members with
  | nil => rfl
  | cons member members => rfl

theorem carrier_of_carries {maxStrDigits : ℕ} {envelope : EventEnvelope}
    {members : List (List CodePoint × Value)} (h : envelope.Carries members) :
    envelope.carrier maxStrDigits = .ok (.dict members) := by
  have hnames : envelope.traceContext.map (fun member =>
      (keyText maxStrDigits member.1).map fun name => (name, member.2)) = members.map .ok := by
    rw [h, List.map_map]
    exact List.map_congr_left fun member _ => rfl
  unfold carrier
  rw [Members.gather_eq_ok.mpr hnames]
  rfl

theorem denotes_toDict {envelope : EventEnvelope} {members : List (List CodePoint × Value)}
    (h : envelope.Carries members) : Denotes (envelope.toDict (.dict members)) envelope where
  eventId := ⟨_, rfl, uuid_ofChars _⟩
  eventType := rfl
  eventVersion := rfl
  producedAt := ⟨_, rfl, fromIsoformat_ofChars _⟩
  producerId := rfl
  traceContext := by
    rw [h]
    exact carrierOf_dict members
  idempotencyKey := rfl
  provenance := ⟨_, rfl, rfl, rfl, rfl⟩
  payload := rfl

end EventEnvelope

section Typed

-- The strings that are admitted.
variable (S : List CodePoint → Prop)

def Text (value : Value) : Prop :=
  ∃ points, value = .str points ∧ S points

-- The types the signature of `new_envelope` gives its arguments, the payload apart.
structure Arguments.Typed (arguments : Arguments) : Prop where
  eventType : Text S arguments.eventType
  producerId : Text S arguments.producerId
  idempotencyKey : Text S arguments.idempotencyKey
  source : Text S arguments.provenance.source
  method : Text S arguments.provenance.method
  contributorIdentity : arguments.provenance.contributorIdentity = .none ∨
    Text S arguments.provenance.contributorIdentity
  traceContext : arguments.traceContext = .none ∨ ∃ members, arguments.traceContext = .dict members ∧
    (Members.keys members).Nodup ∧ (∀ key ∈ Members.keys members, S key) ∧
      ∀ member ∈ members, Text S member.2
  eventVersion : Text S arguments.eventVersion

-- The envelope of such a call, whose trace context is the dict of these members.
structure EventEnvelope.Typed (envelope : EventEnvelope)
    (members : List (List CodePoint × Value)) : Prop where
  eventType : Text S envelope.eventType
  producerId : Text S envelope.producerId
  idempotencyKey : Text S envelope.idempotencyKey
  source : Text S envelope.provenance.source
  method : Text S envelope.provenance.method
  contributorIdentity : envelope.provenance.contributorIdentity = .none ∨
    Text S envelope.provenance.contributorIdentity
  carries : envelope.Carries members
  nodup : (Members.keys members).Nodup
  keys : ∀ key ∈ Members.keys members, S key
  values : ∀ member ∈ members, Text S member.2
  eventVersion : Text S envelope.eventVersion

end Typed

section Every

variable {S : List CodePoint → Prop} {P : Value → Prop}

theorem Text.every (hstr : ∀ points, S points → P (.str points)) {value : Value}
    (h : Text S value) : Every P value := by
  obtain ⟨points, rfl, hpoints⟩ := h
  exact hstr points hpoints

end Every

theorem Text.mono {S T : List CodePoint → Prop} (hST : ∀ points, S points → T points)
    {value : Value} (h : Text S value) : Text T value := by
  obtain ⟨points, rfl, hpoints⟩ := h
  exact ⟨points, rfl, hST points hpoints⟩

theorem Arguments.Typed.mono {S T : List CodePoint → Prop} (hST : ∀ points, S points → T points)
    {arguments : Arguments} (h : arguments.Typed S) : arguments.Typed T where
  eventType := h.eventType.mono hST
  producerId := h.producerId.mono hST
  idempotencyKey := h.idempotencyKey.mono hST
  source := h.source.mono hST
  method := h.method.mono hST
  contributorIdentity := h.contributorIdentity.imp id fun htext => htext.mono hST
  traceContext := h.traceContext.imp id fun ⟨members, hdict, hnodup, hkeys, hvalues⟩ =>
    ⟨members, hdict, hnodup, fun key hkey => hST key (hkeys key hkey),
      fun member hm => (hvalues member hm).mono hST⟩
  eventVersion := h.eventVersion.mono hST

namespace EventEnvelope

theorem plainNode_named {members : List (List CodePoint × Value)} {names : List String}
    (hkeys : Members.keys members = names.map points) (hnodup : (names.map points).Nodup) :
    PlainNode (.dict members) := by
  refine ⟨by rwa [hkeys], fun key hkey => ?_⟩
  rw [hkeys] at hkey
  obtain ⟨name, -, rfl⟩ := List.mem_map.mp hkey
  exact scalar_points name

theorem plainNode_provenance (provenance : Provenance) : PlainNode provenance.toDict :=
  @plainNode_named _ ["source", "method", "contributor_identity"] rfl (by decide)

theorem plainNode_toDict (envelope : EventEnvelope) (traceContext : Value) :
    PlainNode (envelope.toDict traceContext) :=
  @plainNode_named _ ["event_id", "event_type", "event_version", "produced_at", "producer_id",
    "trace_context", "idempotency_key", "provenance", "payload"] rfl (by decide)

end EventEnvelope

open EventEnvelope

-- A payload of one field.
theorem readable_single {name : String} {value : Value} (h : Readable value) :
    Readable (.dict [(points name, value)]) := by
  refine every_dict.mpr ⟨(@plainNode_named _ [name] rfl (by simp)).readable, ?_⟩
  intro member hm
  obtain rfl := List.mem_singleton.mp hm
  exact h

theorem newEnvelope_idempotencyKey {uuid4 : Uuid} {now : DateTime} {arguments : Arguments}
    {envelope : EventEnvelope} (h : newEnvelope uuid4 now arguments = .ok envelope) :
    envelope.idempotencyKey = arguments.idempotencyKey := by
  unfold newEnvelope at h
  split at h
  · exact nomatch h
  simp only [bind, Result.bind_eq_ok, Except.ok.injEq] at h
  obtain ⟨traceContext, -, rfl⟩ := h
  rfl

theorem Arguments.Typed.envelope {S : List CodePoint → Prop} {uuid4 : Uuid} {now : DateTime}
    {arguments : Arguments} {envelope : EventEnvelope} (h : arguments.Typed S)
    (hnew : newEnvelope uuid4 now arguments = .ok envelope) :
    (∃ members, envelope.Typed S members) ∧ envelope.payload = arguments.payload := by
  unfold newEnvelope at hnew
  split at hnew
  · cases hnew
  simp only [bind, Result.bind_eq_ok, Except.ok.injEq] at hnew
  obtain ⟨traceContext, htrace, rfl⟩ := hnew
  refine ⟨?_, rfl⟩
  have htyped {members : List (List CodePoint × Value)}
      (hcarries : traceContext = members.map fun member => (.str member.1, member.2))
      (hnodup : (Members.keys members).Nodup) (hkeys : ∀ key ∈ Members.keys members, S key)
      (hvalues : ∀ member ∈ members, Text S member.2) :
      EventEnvelope.Typed S
        { eventType := arguments.eventType
          eventVersion := arguments.eventVersion
          producerId := arguments.producerId
          idempotencyKey := arguments.idempotencyKey
          provenance := arguments.provenance
          payload := arguments.payload
          traceContext
          eventId := arguments.eventId.getD uuid4
          producedAt := arguments.producedAt.getD now } members :=
    ⟨h.eventType, h.producerId, h.idempotencyKey, h.source, h.method, h.contributorIdentity,
      hcarries, hnodup, hkeys, hvalues, h.eventVersion⟩
  rcases h.traceContext with hnone | ⟨members, hdict, hnodup, hkeys, hvalues⟩
  · rw [hnone] at htrace
    exact ⟨[], htyped (Except.ok.inj htrace).symm List.nodup_nil (by simp [Members.keys])
      (by simp)⟩
  · rw [hdict, carrierOf_dict] at htrace
    exact ⟨members, htyped (Except.ok.inj htrace).symm hnodup hkeys hvalues⟩

namespace EventEnvelope

-- A property of strings, of `None`, of the payload and of the dicts is one of all that goes
-- on the wire.
theorem Typed.every_toDict {S : List CodePoint → Prop} {P : Value → Prop}
    {envelope : EventEnvelope} {members : List (List CodePoint × Value)}
    (h : envelope.Typed S members) (hscalar : ∀ points, Scalar points → S points)
    (hstr : ∀ points, S points → P (.str points)) (hnone : P .none)
    (hdict : P (envelope.toDict (.dict members))) (hprovenance : P envelope.provenance.toDict)
    (htrace : P (.dict members)) (hpayload : Every P envelope.payload) :
    Every P (envelope.toDict (.dict members)) := by
  have hchars (text : List Char) : Every P (ofChars text) := hstr _ (hscalar _ (scalar_charPoints text))
  have hidentity : Every P envelope.provenance.contributorIdentity := by
    rcases h.contributorIdentity with hnull | htext
    · rw [hnull]
      exact hnone
    · exact htext.every hstr
  have horigin : Every P envelope.provenance.toDict := by
    refine every_dict.mpr ⟨hprovenance, ?_⟩
    simp only [List.forall_mem_cons, List.not_mem_nil, false_implies, implies_true, and_true]
    exact ⟨h.source.every hstr, h.method.every hstr, hidentity⟩
  refine every_dict.mpr ⟨hdict, ?_⟩
  simp only [List.forall_mem_cons, List.not_mem_nil, false_implies, implies_true, and_true]
  exact ⟨hchars _, h.eventType.every hstr, h.eventVersion.every hstr, hchars _,
    h.producerId.every hstr,
    every_dict.mpr ⟨htrace, fun member hm => (h.values member hm).every hstr⟩,
    h.idempotencyKey.every hstr, horigin, hpayload⟩

theorem Typed.readable {S : List CodePoint → Prop} {envelope : EventEnvelope}
    {members : List (List CodePoint × Value)} (h : envelope.Typed S members)
    (hscalar : ∀ points, Scalar points → S points) (hjoined : ∀ points, S points → Joined points)
    (hpayload : Readable envelope.payload) : Readable (envelope.toDict (.dict members)) :=
  h.every_toDict hscalar hjoined trivial (plainNode_toDict _ _).readable
    (plainNode_provenance _).readable ⟨h.nodup, fun key hkey => hjoined key (h.keys key hkey)⟩
    hpayload

end EventEnvelope

end TrustlistCore.EventBus
