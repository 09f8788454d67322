import TrustlistCore.EventBus.Envelope.Theorems
import TrustlistCore.EventBus.TypeScript.Envelope
import TrustlistCore.EventBus.TypeScript.Value.Theorems
import TrustlistCore.Library.Double.Theorems

namespace TrustlistCore.EventBus

open Library Unicode

namespace Value

-- A value that no constant of `json.dumps` is needed for.
def FiniteNode : Value → Prop
  | .float (.infinity _) => False
  | .float .nan => False
  | _ => True

-- Outside the JSON grammar proper stand just the constants.
theorem standard_laidOut_iff {options : Options} {value : Value} :
    TypeScript.standard (laidOut options value) = true ↔ Every FiniteNode value := by
  induction value using induct with
  | float x =>
      cases x with
      | finite negative x => exact iff_of_true rfl trivial
      | infinity negative => exact iff_of_false Bool.false_ne_true id
      | nan => exact iff_of_false Bool.false_ne_true id
  | list items ih =>
      rw [laidOut, TypeScript.standard, TypeScript.JsonValue.standardItems_iff, laidOutItems_eq,
        List.forall_mem_map, every_list]
      constructor
      · exact fun h => ⟨trivial, fun item hi => (ih item hi).mp (h item hi)⟩
      · exact fun h item hi => (ih item hi).mpr (h.2 item hi)
  | dict members ih =>
      rw [laidOut, TypeScript.standard, TypeScript.JsonValue.standardMembers_iff,
        List.forall_mem_map, every_dict]
      simp only [mem_ordered, laidOutMembers_eq, List.forall_mem_map]
      constructor
      · exact fun h => ⟨trivial, fun member hm => (ih member hm).mp (h member hm)⟩
      · exact fun h member hm => (ih member hm).mpr (h.2 member hm)
  | _ => exact iff_of_true rfl trivial

end Value

namespace TypeScript.JsonValue

open EventBus.EventEnvelope (wire)
open Value (laidOut laidOutItems laidOutMembers laidOutItems_eq laidOutMembers_eq Readable
  ReadableNode)

-- What `JSON.parse` makes of what the Python SDK puts on the wire for a value.
def received (value : Value) : JsonValue :=
  ofTree (laidOut wire value)

theorem received_list (items : List Value) :
    received (.list items) = .array (items.map received) := by
  unfold received
  rw [laidOut, ofTree, ofItems_eq, laidOutItems_eq, List.map_map]
  rfl

theorem keys_utf16 {V W : Type} (f : V → W) (members : List (List CodePoint × V)) :
    Members.keys (members.map fun member => (utf16 member.1, f member.2)) =
      (Members.keys members).map utf16 :=
  Members.keys_map utf16 f members

theorem nodup_keys_utf16 {V W : Type} (f : V → W) {members : List (List CodePoint × V)}
    (hnodup : (Members.keys members).Nodup) (hjoined : ∀ key ∈ Members.keys members, Joined key) :
    (Members.keys (members.map fun member => (utf16 member.1, f member.2))).Nodup := by
  rw [keys_utf16]
  exact hnodup.map_on fun key hkey other ho h =>
    (hjoined key hkey).injective (hjoined other ho) h

theorem received_dict {members : List (List CodePoint × Value)}
    (h : ReadableNode (.dict members)) :
    received (.dict members) =
      .object (enumerated (members.map fun member => (utf16 member.1, received member.2))) := by
  have hordered : Value.ordered wire (laidOutMembers wire members) =
      laidOutMembers wire members := rfl
  unfold received
  rw [laidOut, hordered, ofTree, ofMembers_eq, laidOutMembers_eq, List.map_map, List.map_map]
  exact congrArg (fun members => JsonValue.object (enumerated members))
    (Members.ofPairs_of_nodup (nodup_keys_utf16 received h.1 h.2))

theorem exists_received_dict {members : List (List CodePoint × Value)}
    (h : ReadableNode (.dict members)) :
    ∃ others : List (List CodePoint × Value), others.Perm members ∧ received (.dict members) =
      .object (others.map fun member => (utf16 member.1, received member.2)) := by
  obtain ⟨others, hperm, heq⟩ :=
    exists_perm_enumerated (fun member : List CodePoint × Value =>
      (utf16 member.1, received member.2)) members
  exact ⟨others, hperm, by rw [received_dict h, heq]⟩

theorem isNullish_received {value : Value} (h : value ≠ .none) :
    isNullish (received value) = false := by
  cases value with
  | none => exact absurd rfl h
  | float x => cases x <;> rfl
  | list items => rw [received_list]; rfl
  | _ => rfl

-- The members of a received dict are those sent.
theorem received_perm {members : List (List CodePoint × Value)}
    (h : ReadableNode (.dict members)) {others : List (List CodeUnit × JsonValue)}
    (hreceived : received (.dict members) = .object others) :
    others.Perm (members.map fun member => (utf16 member.1, received member.2)) := by
  obtain ⟨list, hperm, heq⟩ := exists_received_dict h
  rw [heq, JsonValue.object.injEq] at hreceived
  rw [← hreceived]
  exact hperm.map _

theorem find_received {members : List (List CodePoint × Value)}
    (h : ReadableNode (.dict members)) {others : List (List CodeUnit × JsonValue)}
    (hreceived : received (.dict members) = .object others) {name : List CodePoint}
    (hname : Joined name) :
    Members.find others (utf16 name) = (Members.find members name).map received := by
  have hnodup := nodup_keys_utf16 received h.1 h.2
  have hkeys : ∀ key ∈ Members.keys members, utf16 key = utf16 name → key = name :=
    fun key hkey heq => (h.2 key hkey).injective hname heq
  rw [Members.find_perm hnodup (received_perm h hreceived), Members.find_map received hkeys]

-- A property of a received dict is what was received for the member of that name.
theorem property_received {members : List (List CodePoint × Value)}
    (h : ReadableNode (.dict members)) (name : String) :
    property (received (.dict members)) name =
      .ok (((Members.find members (points name)).map received).getD .undefined) := by
  have hreceived := received_dict h
  have hfind := find_received h hreceived (Value.joined_points name)
  rw [hreceived, property]
  exact congrArg (fun value => Except.ok (value.getD JsonValue.undefined)) hfind

theorem coalesce_received (value : Value) : coalesce (received value) .null = received value := by
  by_cases h : value = .none
  · rw [h]
    rfl
  · unfold coalesce
    rw [isNullish_received h, if_neg Bool.false_ne_true]

end TypeScript.JsonValue

namespace TypeScript.EventEnvelope

open JsonValue Value

-- The envelope TypeScript makes of what Python wrote.
def ofPython (envelope : EventBus.EventEnvelope) (traceContext : Value) : EventEnvelope where
  eventType := received envelope.eventType
  eventVersion := received envelope.eventVersion
  producerId := received envelope.producerId
  idempotencyKey := received envelope.idempotencyKey
  provenance :=
    { source := received envelope.provenance.source
      method := received envelope.provenance.method
      contributorIdentity := received envelope.provenance.contributorIdentity }
  payload := received envelope.payload
  traceContext := spread (coalesce (received traceContext) (.object []))
  eventId := received (ofChars envelope.eventId.text)
  producedAt := received (ofChars (IsoTime.isoformat envelope.producedAt))

theorem provenanceFromWire_received (provenance : EventBus.Provenance) :
    provenanceFromWire (received provenance.toDict) =
      .ok
        { source := received provenance.source
          method := received provenance.method
          contributorIdentity := received provenance.contributorIdentity } := by
  have hproperty := property_received
    (EventBus.EventEnvelope.plainNode_provenance provenance).readable
  have hsource : property (received provenance.toDict) "source" =
      .ok (received provenance.source) := hproperty "source"
  have hmethod : property (received provenance.toDict) "method" =
      .ok (received provenance.method) := hproperty "method"
  have hcontributor : property (received provenance.toDict) "contributor_identity" =
      .ok (received provenance.contributorIdentity) := hproperty "contributor_identity"
  unfold provenanceFromWire
  simp only [hsource, hmethod, hcontributor, bind, Except.bind, coalesce_received]

-- The required fields are those that `None` would be missing in.
structure Complete (envelope : EventBus.EventEnvelope) : Prop where
  eventType : envelope.eventType ≠ .none
  eventVersion : envelope.eventVersion ≠ .none
  producerId : envelope.producerId ≠ .none
  idempotencyKey : envelope.idempotencyKey ≠ .none
  payload : envelope.payload ≠ .none

theorem fromWire_received {envelope : EventBus.EventEnvelope} (h : Complete envelope)
    (traceContext : Value) :
    fromWire (received (envelope.toDict traceContext)) = .ok (ofPython envelope traceContext) := by
  have hproperty := property_received
    (EventBus.EventEnvelope.plainNode_toDict envelope traceContext).readable
  have hid : property (received (envelope.toDict traceContext)) "event_id" =
      .ok (received (ofChars envelope.eventId.text)) := hproperty "event_id"
  have htype : property (received (envelope.toDict traceContext)) "event_type" =
      .ok (received envelope.eventType) := hproperty "event_type"
  have hversion : property (received (envelope.toDict traceContext)) "event_version" =
      .ok (received envelope.eventVersion) := hproperty "event_version"
  have hat : property (received (envelope.toDict traceContext)) "produced_at" =
      .ok (received (ofChars (IsoTime.isoformat envelope.producedAt))) := hproperty "produced_at"
  have hproducer : property (received (envelope.toDict traceContext)) "producer_id" =
      .ok (received envelope.producerId) := hproperty "producer_id"
  have htrace : property (received (envelope.toDict traceContext)) "trace_context" =
      .ok (received traceContext) := hproperty "trace_context"
  have hkey : property (received (envelope.toDict traceContext)) "idempotency_key" =
      .ok (received envelope.idempotencyKey) := hproperty "idempotency_key"
  have hprovenance : property (received (envelope.toDict traceContext)) "provenance" =
      .ok (received envelope.provenance.toDict) := hproperty "provenance"
  have hpayload : property (received (envelope.toDict traceContext)) "payload" =
      .ok (received envelope.payload) := hproperty "payload"
  have hidText : isNullish (received (ofChars envelope.eventId.text)) = false := rfl
  have hatText : isNullish (received (ofChars (IsoTime.isoformat envelope.producedAt))) = false :=
    rfl
  have horigin : isNullish (received envelope.provenance.toDict) = false :=
    isNullish_received (by simp [Provenance.toDict])
  unfold fromWire
  simp only [required, checkRequired, hid, htype, hversion, hat, hproducer, htrace, hkey,
    hprovenance, hpayload, hidText, hatText, horigin, isNullish_received h.eventType,
    isNullish_received h.eventVersion, isNullish_received h.producerId,
    isNullish_received h.idempotencyKey, isNullish_received h.payload, bind, Except.bind,
    Bool.false_eq_true, if_false, provenanceFromWire_received]
  rfl

theorem parse_of_toBytes {maxStrDigits : ℕ} {envelope : EventBus.EventEnvelope}
    {traceContext : Value} {raw : List UInt8}
    (hcarrier : envelope.carrier maxStrDigits = .ok traceContext)
    (hraw : envelope.toBytes maxStrDigits = .ok raw) :
    JsonValue.parse (Utf8.decodeLossy raw) =
      if standard (laidOut EventBus.EventEnvelope.wire (envelope.toDict traceContext)) then
        .ok (received (envelope.toDict traceContext))
      else .error (.syntaxError "JSON.parse") := by
  simp only [EventBus.EventEnvelope.toBytes, hcarrier, bind, Except.bind, Result.map_eq_ok] at hraw
  obtain ⟨text, hdumps, rfl⟩ := hraw
  obtain ⟨-, rfl⟩ := dumps_eq_ok_iff.mp hdumps
  rw [Utf8.decodeLossy_encode, JsonValue.parse, Json.parse_render Json.faithful_quoteAscii]
  simp only [received]

theorem fromBytes_eq_fromWire {maxStrDigits : ℕ} {envelope : EventBus.EventEnvelope}
    {traceContext : Value} {raw : List UInt8}
    (hcarrier : envelope.carrier maxStrDigits = .ok traceContext)
    (hfinite : Every FiniteNode (envelope.toDict traceContext))
    (hraw : envelope.toBytes maxStrDigits = .ok raw) :
    fromBytes raw = fromWire (received (envelope.toDict traceContext)) := by
  unfold fromBytes
  rw [parse_of_toBytes hcarrier hraw, if_pos (standard_laidOut_iff.mpr hfinite)]
  simp only [bind, Except.bind]

-- A constant anywhere in the envelope makes the message unreadable.
theorem fromBytes_eq_error {maxStrDigits : ℕ} {envelope : EventBus.EventEnvelope}
    {traceContext : Value} {raw : List UInt8}
    (hcarrier : envelope.carrier maxStrDigits = .ok traceContext)
    (hfinite : ¬ Every FiniteNode (envelope.toDict traceContext))
    (hraw : envelope.toBytes maxStrDigits = .ok raw) :
    fromBytes raw = .error (.syntaxError "JSON.parse") := by
  unfold fromBytes
  rw [parse_of_toBytes hcarrier hraw, if_neg (mt standard_laidOut_iff.mp hfinite)]
  rfl

end TypeScript.EventEnvelope

theorem EventEnvelope.Typed.complete {S : List CodePoint → Prop} {envelope : EventEnvelope}
    {members : List (List CodePoint × Value)} (h : envelope.Typed S members)
    (hpayload : envelope.payload ≠ .none) : TypeScript.EventEnvelope.Complete envelope := by
  have hne {value : Value} (htext : Text S value) : value ≠ .none := by
    obtain ⟨points, rfl, -⟩ := htext
    exact fun hnone => nomatch hnone
  exact ⟨hne h.eventType, hne h.eventVersion, hne h.producerId, hne h.idempotencyKey, hpayload⟩

end TrustlistCore.EventBus
