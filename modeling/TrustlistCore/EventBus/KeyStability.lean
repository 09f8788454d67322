import TrustlistCore.EventBus.Datum.Arrived
import TrustlistCore.EventBus.EnvelopeRoundTrip

namespace TrustlistCore.EventBus.Datum

open Library Unicode
open Value (ofChars)
open Idempotency (canonical)
open EventEnvelope (wire)

variable {sorting : KeySorting} {maxStrDigits : ℕ}

section Derive

variable {eventType : List CodePoint} {payload others : List (List CodePoint × Datum)}
  {keyFields : List (List CodePoint)}

theorem mem_selected {name : List CodePoint} {value : Datum} :
    (name, value) ∈ selected payload keyFields ↔
      name ∈ keyFields ∧ Members.find payload name = some value :=
  Members.mem_ofPairs_find

theorem missing_eq_nil_iff :
    missing payload keyFields = [] ↔ ∀ name ∈ keyFields, name ∈ Members.keys payload := by
  simp [missing]

theorem exists_find (hpresent : ∀ name ∈ keyFields, name ∈ Members.keys payload)
    {name : List CodePoint} (hname : name ∈ keyFields) :
    ∃ value, Members.find payload name = some value :=
  Option.isSome_iff_exists.mp (Members.find_isSome.mpr (hpresent name hname))

theorem prints_identity_iff :
    Every (Prints canonical maxStrDigits) (identity eventType payload keyFields) ↔
      ∀ name ∈ keyFields, ∀ value, Members.find payload name = some value →
        Every (Prints canonical maxStrDigits) value := by
  unfold identity
  simp only [every_named, List.forall_mem_cons, List.not_mem_nil, false_implies, implies_true,
    and_true, prints_named, true_and]
  constructor
  · exact fun h name hname value hvalue => h.2 (name, value) (mem_selected.mpr ⟨hname, hvalue⟩)
  · intro h
    refine ⟨trivial, fun member hm => ?_⟩
    obtain ⟨hname, hvalue⟩ := mem_selected.mp hm
    exact h member.1 hname member.2 hvalue

def identityText (sorting : KeySorting) (eventType : List CodePoint)
    (payload : List (List CodePoint × Datum)) (keyFields : List (List CodePoint)) : List Char :=
  Json.render Json.quoteAscii (laidOut sorting canonical (identity eventType payload keyFields))

-- The bytes that are ever hashed.
def Hashed (sorting : KeySorting) (maxStrDigits : ℕ) (bytes : List UInt8) : Prop :=
  ∃ eventType payload keyFields text,
    canonicalJson sorting maxStrDigits (identity eventType payload keyFields) = .ok text ∧
      bytes = Utf8.encode text

theorem derive_eq_ok_iff {sha256 : List UInt8 → List Char} {key : List Char} :
    deriveIdempotencyKey sorting maxStrDigits sha256 eventType payload keyFields = .ok key ↔
      keyFields ≠ [] ∧ (∀ name ∈ keyFields, name ∈ Members.keys payload) ∧
        (∀ name ∈ keyFields, ∀ value, Members.find payload name = some value →
          Every (Prints canonical maxStrDigits) value) ∧
        key = sha256 (Utf8.encode (identityText sorting eventType payload keyFields)) := by
  unfold deriveIdempotencyKey canonicalJson identityText
  by_cases hempty : keyFields = []
  · simp [hempty]
  by_cases hmissing : missing payload keyFields = []
  · rw [if_neg hempty, if_neg (not_not.mpr hmissing), Result.map_eq_ok]
    simp only [dumps_eq_ok_iff, prints_identity_iff]
    constructor
    · rintro ⟨text, ⟨hprints, rfl⟩, rfl⟩
      exact ⟨hempty, missing_eq_nil_iff.mp hmissing, hprints, rfl⟩
    · rintro ⟨-, -, hprints, rfl⟩
      exact ⟨_, ⟨hprints, rfl⟩, rfl⟩
  · rw [if_neg hempty, if_pos hmissing]
    exact iff_of_false (fun h => by cases h) fun h => hmissing (missing_eq_nil_iff.mpr h.2.1)

theorem laidOut_identity :
    laidOut sorting canonical (identity eventType payload keyFields) =
      .object [(utf16 (points "event_type"), .string (utf16 eventType)),
        (utf16 (points "key_fields"),
          .object ((Members.sorted (selected payload keyFields)).map fun member =>
            (utf16 member.1, laidOut sorting canonical member.2)))] := by
  have hkeys : points "event_type" ≤ points "key_fields" := by decide
  have hnodup : (Members.keys [(points "event_type", Datum.str eventType),
      (points "key_fields", named (selected payload keyFields))]).Nodup :=
    (by decide : [points "event_type", points "key_fields"].Nodup)
  have hselected : (Members.keys (selected payload keyFields)).Nodup := Members.nodup_ofPairs _
  unfold identity
  rw [laidOut_named hnodup, Members.sorted_pair hkeys, List.map_cons, List.map_cons, List.map_nil,
    laidOut_named hselected]
  rfl

theorem mem_laidOut_selected {pair : List CodePoint × Json.Tree} :
    pair ∈ (selected payload keyFields).map (fun member =>
        (member.1, laidOut sorting canonical member.2)) ↔
      pair.1 ∈ keyFields ∧ ∃ value, Members.find payload pair.1 = some value ∧
        laidOut sorting canonical value = pair.2 := by
  rw [List.mem_map]
  constructor
  · rintro ⟨member, hm, rfl⟩
    obtain ⟨hname, hvalue⟩ := mem_selected.mp hm
    exact ⟨hname, member.2, hvalue, rfl⟩
  · rintro ⟨hname, value, hvalue, hlaid⟩
    exact ⟨(pair.1, value), mem_selected.mpr ⟨hname, hvalue⟩, Prod.ext rfl hlaid⟩

-- Two payloads are hashed as one document if each key field is the same in both.
theorem laidOut_identity_iff (hpresent : ∀ name ∈ keyFields, name ∈ Members.keys payload)
    (hothers : ∀ name ∈ keyFields, name ∈ Members.keys others)
    (hjoined : ∀ name ∈ keyFields, Joined name) :
    laidOut sorting canonical (identity eventType others keyFields) =
        laidOut sorting canonical (identity eventType payload keyFields) ↔
      ∀ name ∈ keyFields, ∀ value, Members.find payload name = some value →
        ∃ other, Members.find others name = some other ∧
          laidOut sorting canonical other = laidOut sorting canonical value := by
  rw [laidOut_identity, laidOut_identity, Json.Tree.object.injEq, List.cons.injEq, List.cons.injEq]
  simp only [Prod.mk.injEq, true_and, and_true, Json.Tree.object.injEq]
  constructor
  · intro h name hname value hvalue
    obtain ⟨other, hother⟩ := exists_find hothers hname
    have hmem : (utf16 name, laidOut sorting canonical other) ∈
        (Members.sorted (selected others keyFields)).map fun member =>
          (utf16 member.1, laidOut sorting canonical member.2) :=
      List.mem_map.mpr ⟨_, Members.mem_sorted.mpr (mem_selected.mpr ⟨hname, hother⟩), rfl⟩
    rw [h] at hmem
    obtain ⟨member, hm, heq⟩ := List.mem_map.mp hmem
    obtain ⟨hsent, hfound⟩ := mem_selected.mp (Members.mem_sorted.mp hm)
    have hsame : member.1 = name :=
      (hjoined member.1 hsent).injective (hjoined name hname) (Prod.mk.inj heq).1
    rw [hsame, hvalue, Option.some.injEq] at hfound
    exact ⟨other, hother, by rw [← (Prod.mk.inj heq).2, hfound]⟩
  · intro h
    have hkeys (payload : List (List CodePoint × Datum)) :
        (Members.keys ((selected payload keyFields).map fun member =>
          (member.1, laidOut sorting canonical member.2))).Nodup := by
      rw [Members.keys_mapValues]
      exact Members.nodup_ofPairs _
    have hsorted : Members.sorted ((selected others keyFields).map fun member =>
        (member.1, laidOut sorting canonical member.2)) =
          Members.sorted ((selected payload keyFields).map fun member =>
            (member.1, laidOut sorting canonical member.2)) := by
      rw [Members.sorted_eq_iff (hkeys others), Members.perm_iff (hkeys others) (hkeys payload)]
      intro pair
      rw [mem_laidOut_selected, mem_laidOut_selected]
      refine and_congr_right fun hname => ?_
      obtain ⟨value, hvalue⟩ := exists_find hpresent hname
      obtain ⟨other, hother, hsame⟩ := h pair.1 hname value hvalue
      simp only [hvalue, hother, Option.some.injEq, exists_eq_left', hsame]
    have hnames := congrArg (List.map fun member => (utf16 member.1, member.2)) hsorted
    rw [Members.sorted_mapValues, Members.sorted_mapValues, List.map_map, List.map_map] at hnames
    exact hnames

end Derive

section Read

-- Fields of plain names are read back under those names.
theorem arrived_fields {members : List (List CodePoint × Datum)} {names : List String}
    (hkeys : Members.keys members = names.map points) (hnodup : (names.map points).Nodup) :
    arrived (named members) = .dict (members.map fun member => (member.1, arrived member.2)) := by
  have hnames : (members.map fun member => (decode16 (utf16 member.1), arrived member.2)) =
      members.map fun member => (member.1, arrived member.2) := by
    refine List.map_congr_left fun member hm => ?_
    have hmem : member.1 ∈ names.map points := hkeys ▸ List.mem_map_of_mem hm
    obtain ⟨name, -, hname⟩ := List.mem_map.mp hmem
    rw [← hname, Value.joined_points name]
  rw [arrived_named, hnames, Members.ofPairs_of_nodup (by rwa [Members.keys_mapValues, hkeys])]

theorem arrived_ofChars (text : List Char) : arrived (ofValue (ofChars text)) = ofChars text :=
  congrArg Value.str (decode16_utf16 (Value.scalar_charPoints text))

-- The dict that is read, with the payload as it arrives.
theorem exists_fromDict (envelope : EventEnvelope) (context : List (List CodePoint × Value))
    (payload : Datum) :
    ∃ back, EventEnvelope.fromDict (arrived (toDict envelope (.dict context) payload)) = .ok back ∧
      back.payload = arrived payload := by
  have hfields := @arrived_fields
    [(points "event_id", ofValue (ofChars envelope.eventId.text)),
      (points "event_type", ofValue envelope.eventType),
      (points "event_version", ofValue envelope.eventVersion),
      (points "produced_at", ofValue (ofChars (IsoTime.isoformat envelope.producedAt))),
      (points "producer_id", ofValue envelope.producerId),
      (points "trace_context", ofValue (.dict context)),
      (points "idempotency_key", ofValue envelope.idempotencyKey),
      (points "provenance", ofValue envelope.provenance.toDict),
      (points "payload", payload)]
    ["event_id", "event_type", "event_version", "produced_at", "producer_id", "trace_context",
      "idempotency_key", "provenance", "payload"] rfl (by decide)
  have horigin := @arrived_fields
    [(points "source", ofValue envelope.provenance.source),
      (points "method", ofValue envelope.provenance.method),
      (points "contributor_identity", ofValue envelope.provenance.contributorIdentity)]
    ["source", "method", "contributor_identity"] rfl (by decide)
  have hcontext : ∃ others, arrived (ofValue (.dict context)) = .dict others := by
    rw [ofValue_dict, arrived_named]
    exact ⟨_, rfl⟩
  obtain ⟨others, hothers⟩ := hcontext
  refine ⟨⟨arrived (ofValue envelope.eventType), arrived (ofValue envelope.eventVersion),
    arrived (ofValue envelope.producerId), arrived (ofValue envelope.idempotencyKey),
    ⟨arrived (ofValue envelope.provenance.source), arrived (ofValue envelope.provenance.method),
      arrived (ofValue envelope.provenance.contributorIdentity)⟩, arrived payload,
    others.map fun member => (.str member.1, member.2), envelope.eventId, envelope.producedAt⟩,
    EventEnvelope.fromDict_eq_ok_iff.mpr ?_, rfl⟩
  unfold toDict
  rw [hfields, List.map_cons, List.map_cons, List.map_cons, List.map_cons, List.map_cons,
    List.map_cons, List.map_cons, List.map_cons, List.map_cons, List.map_nil, arrived_ofChars,
    arrived_ofChars, hothers]
  exact
    { eventId := ⟨_, rfl, Value.uuid_ofChars _⟩
      eventType := rfl
      eventVersion := rfl
      producedAt := ⟨_, rfl, Value.fromIsoformat_ofChars _⟩
      producerId := rfl
      traceContext := EventEnvelope.carrierOf_dict others
      idempotencyKey := rfl
      provenance := ⟨_, rfl, by
        unfold Provenance.toDict
        rw [ofValue_dict, List.map_cons, List.map_cons, List.map_cons, List.map_nil, horigin]
        exact ⟨rfl, rfl, rfl⟩⟩
      payload := rfl }

theorem exists_fromBytes {envelope : EventEnvelope} {context : List (List CodePoint × Value)}
    {payload : Datum} {raw : List UInt8} (hcarries : envelope.Carries context)
    (hraw : toBytes sorting maxStrDigits envelope payload = .ok raw) :
    Every (Prints wire maxStrDigits) payload ∧
      ∃ back, EventEnvelope.fromBytes maxStrDigits raw = .ok back ∧
        back.payload = arrived payload := by
  unfold toBytes at hraw
  rw [EventEnvelope.carrier_of_carries hcarries] at hraw
  simp only [bind, Except.bind, Result.map_eq_ok, dumps_eq_ok_iff] at hraw
  obtain ⟨text, ⟨hprints, rfl⟩, rfl⟩ := hraw
  refine ⟨(every_named.mp hprints).2 (points "payload", payload) (by simp), ?_⟩
  obtain ⟨back, hback, hpayload⟩ := exists_fromDict envelope context payload
  refine ⟨back, ?_, hpayload⟩
  unfold EventEnvelope.fromBytes Value.loads
  rw [Utf8.decode_encode]
  simp only [Json.parse_render Json.faithful_quoteAscii, ofTree_laidOut hprints, bind, Except.bind,
    hback]

end Read

section Stability

variable {payload : List (List CodePoint × Datum)} {keyFields : List (List CodePoint)}

-- The member that counts for a name on the far side: the last that is read back under it.
def lastNamed (payload : List (List CodePoint × Datum)) (name : List CodePoint) :
    Option (List CodePoint × Datum) :=
  payload.reverse.find? fun member => decode16 (utf16 member.1) = name

-- The payload that is read, among the values a caller could build.
def received (payload : List (List CodePoint × Datum)) : List (List CodePoint × Datum) :=
  (Members.ofPairs (payload.map fun member =>
    (decode16 (utf16 member.1), arrived member.2))).map fun member => (member.1, ofValue member.2)

theorem find_received (name : List CodePoint) :
    Members.find (received payload) name =
      (lastNamed payload name).map fun member => ofValue (arrived member.2) := by
  have hvalues (members : List (List CodePoint × Value)) :
      Members.find (members.map fun member => (member.1, ofValue member.2)) name =
        (Members.find members name).map ofValue :=
    @Members.find_map _ _ _ _ _ _ id ofValue members name fun _ _ h => h
  unfold received
  rw [hvalues, Members.find_ofPairs, ← List.map_reverse]
  unfold Members.find lastNamed
  rw [List.find?_map, Option.map_map, Option.map_map]
  rfl

theorem mem_keys_received {name : List CodePoint} :
    name ∈ Members.keys (received payload) ↔ ∃ member, lastNamed payload name = some member := by
  rw [← Members.find_isSome, find_received, Option.isSome_map, Option.isSome_iff_exists]

theorem joined_of_lastNamed {name : List CodePoint} {member : List CodePoint × Datum}
    (h : lastNamed payload name = some member) : Joined name ∧ member ∈ payload := by
  have hname := List.find?_some h
  rw [decide_eq_true_eq] at hname
  exact ⟨hname ▸ joined_decode16 _, List.mem_reverse.mp (List.mem_of_find?_eq_some h)⟩

theorem exists_lastNamed {name : List CodePoint} (hjoined : Joined name)
    (hname : name ∈ Members.keys payload) : ∃ member, lastNamed payload name = some member := by
  obtain ⟨value, hvalue⟩ := Members.mem_keys.mp hname
  have hread : decode16 (utf16 name) = name := hjoined
  refine Option.isSome_iff_exists.mp (List.find?_isSome.mpr ⟨_, List.mem_reverse.mpr hvalue, ?_⟩)
  exact decide_eq_true hread

-- A key field that is hashed alike on either side. Its name has no two halves of a surrogate
-- pair in a row, which are read back as one character; were such a name of another member to
-- take its place, that member must be hashed as the field was.
structure Preserved (sorting : KeySorting) (payload : List (List CodePoint × Datum))
    (name : List CodePoint) : Prop where
  joined : Joined name
  own : ∀ member, lastNamed payload name = some member → member.1 = name →
    Every (Settled sorting) member.2
  other : ∀ member, lastNamed payload name = some member → member.1 ≠ name →
    ∃ value, Members.find payload name = some value ∧
      Value.laidOut canonical (arrived member.2) = laidOut sorting canonical value

theorem preserved_iff (hnodup : (Members.keys payload).Nodup) {name : List CodePoint}
    (hname : name ∈ Members.keys payload) (hjoined : Joined name) :
    (∀ value, Members.find payload name = some value → ∃ other,
      Members.find (received payload) name = some other ∧
        laidOut sorting canonical other = laidOut sorting canonical value) ↔
      Preserved sorting payload name := by
  obtain ⟨value, hvalue⟩ := Members.mem_keys.mp hname
  obtain ⟨member, hlast⟩ := exists_lastNamed hjoined hname
  have hfind := (Members.find_eq_some_iff hnodup).mpr hvalue
  have hreceived : Members.find (received payload) name = some (ofValue (arrived member.2)) := by
    rw [find_received, hlast]
    rfl
  have hsame : (∀ value, Members.find payload name = some value → ∃ other,
      Members.find (received payload) name = some other ∧
        laidOut sorting canonical other = laidOut sorting canonical value) ↔
      Value.laidOut canonical (arrived member.2) = laidOut sorting canonical value := by
    simp only [hfind, hreceived, Option.some.injEq, forall_eq', exists_eq_left',
      laidOut_ofValue (keyed_arrived member.2)]
  rw [hsame]
  by_cases hown : member.1 = name
  · have hmember : member.2 = value := by
      refine Members.eq_of_mem hnodup (hown ▸ ?_) hvalue
      exact (joined_of_lastNamed hlast).2
    rw [← hmember, laidOut_arrived_iff]
    constructor
    · intro h
      refine ⟨hjoined, fun other ho _ => ?_, fun other ho hne => ?_⟩
      · exact Option.some.inj (hlast.symm.trans ho) ▸ h
      · exact absurd (Option.some.inj (hlast.symm.trans ho) ▸ hown) hne
    · exact fun h => h.own member hlast hown
  · constructor
    · intro h
      refine ⟨hjoined, fun other ho heq => ?_, fun other ho _ => ?_⟩
      · exact absurd (Option.some.inj (ho.symm.trans hlast) ▸ heq) hown
      · exact ⟨value, hfind, Option.some.inj (hlast.symm.trans ho) ▸ h⟩
    · intro h
      obtain ⟨found, hfound, hequal⟩ := h.other member hlast hown
      rw [hfind, Option.some.injEq] at hfound
      rw [hfound]
      exact hequal

theorem prints_received (hprints : Every (Prints wire maxStrDigits) (named payload))
    {name : List CodePoint} {value : Datum}
    (hvalue : Members.find (received payload) name = some value) :
    Every (Prints canonical maxStrDigits) value := by
  rw [find_received, Option.map_eq_some_iff] at hvalue
  obtain ⟨member, hlast, rfl⟩ := hvalue
  exact prints_arrived ((every_named.mp hprints).2 member (joined_of_lastNamed hlast).2)

-- The key derived of what is read from the bytes.
def Rederived (sorting : KeySorting) (maxStrDigits : ℕ) (sha256 : List UInt8 → List Char)
    (eventType : List CodePoint) (keyFields : List (List CodePoint)) (raw : List UInt8)
    (key : List Char) : Prop :=
  ∃ back members, EventEnvelope.fromBytes maxStrDigits raw = .ok back ∧
    back.payload = .dict members ∧
    deriveIdempotencyKey sorting maxStrDigits sha256 eventType
      (members.map fun member => (member.1, ofValue member.2)) keyFields = .ok key

theorem rederived_iff {sha256 : List UInt8 → List Char} {envelope : EventEnvelope}
    {context : List (List CodePoint × Value)} {eventType : List CodePoint} {key : List Char}
    {raw : List UInt8} (hcarries : envelope.Carries context)
    (hnodup : (Members.keys payload).Nodup)
    (hderive : deriveIdempotencyKey sorting maxStrDigits sha256 eventType payload keyFields =
      .ok key)
    (hraw : toBytes sorting maxStrDigits envelope (named payload) = .ok raw)
    (hsha : ∀ bytes, Hashed sorting maxStrDigits bytes → sha256 bytes = key →
      bytes = Utf8.encode (identityText sorting eventType payload keyFields)) :
    Rederived sorting maxStrDigits sha256 eventType keyFields raw key ↔
      ∀ name ∈ keyFields, Preserved sorting payload name := by
  obtain ⟨hne, hpresent, -, hkey⟩ := derive_eq_ok_iff.mp hderive
  obtain ⟨hprints, back, hback, hpayload⟩ := exists_fromBytes hcarries hraw
  rw [arrived_named] at hpayload
  have hrederived : Rederived sorting maxStrDigits sha256 eventType keyFields raw key ↔
      deriveIdempotencyKey sorting maxStrDigits sha256 eventType (received payload) keyFields =
        .ok key := by
    constructor
    · rintro ⟨back', members, hback', hmembers, hderived⟩
      obtain rfl : back = back' := Except.ok.inj (hback.symm.trans hback')
      rw [hpayload, Value.dict.injEq] at hmembers
      rw [← hmembers] at hderived
      exact hderived
    · exact fun hderived => ⟨back, _, hback, hpayload, hderived⟩
  have htext (hothers : ∀ name ∈ keyFields, name ∈ Members.keys (received payload))
      (hjoined : ∀ name ∈ keyFields, Joined name) :
      identityText sorting eventType (received payload) keyFields =
          identityText sorting eventType payload keyFields ↔
        ∀ name ∈ keyFields, Preserved sorting payload name := by
    unfold identityText
    rw [Json.render_inj Json.faithful_quoteAscii,
      laidOut_identity_iff hpresent hothers hjoined]
    exact forall₂_congr fun name hname =>
      preserved_iff hnodup (hpresent name hname) (hjoined name hname)
  rw [hrederived, derive_eq_ok_iff]
  constructor
  · rintro ⟨-, hothers, hvalues, hdigest⟩
    have hjoined : ∀ name ∈ keyFields, Joined name := by
      intro name hname
      obtain ⟨member, hlast⟩ := mem_keys_received.mp (hothers name hname)
      exact (joined_of_lastNamed hlast).1
    have hhashed : Hashed sorting maxStrDigits
        (Utf8.encode (identityText sorting eventType (received payload) keyFields)) :=
      ⟨_, _, _, _, dumps_eq_ok_iff.mpr ⟨prints_identity_iff.mpr hvalues, rfl⟩, rfl⟩
    exact (htext hothers hjoined).mp (Utf8.encode_injective (hsha _ hhashed hdigest.symm))
  · intro h
    have hothers : ∀ name ∈ keyFields, name ∈ Members.keys (received payload) :=
      fun name hname => mem_keys_received.mpr
        (exists_lastNamed (h name hname).joined (hpresent name hname))
    refine ⟨hne, hothers, fun name _ value hvalue => prints_received hprints hvalue, ?_⟩
    rw [(htext hothers fun name hname => (h name hname).joined).mpr h, hkey]

end Stability

section Signal

open Idempotency (signalDigest digestAt_injective)

theorem carries_observed (payload : Value) :
    (observedEnvelope payload).Carries [(points "traceparent", .str (points "00"))] := rfl

-- `{7: [1, None], 9: "b"}`
def ratings : List (List CodePoint × Datum) :=
  [(points "score", .dict [(.int 7, .list [.int 1, .none]), (.int 9, .str (points "b"))])]

theorem rederived_ratings :
    ∃ key raw,
      deriveIdempotencyKey Sorting.insertion 4300 signalDigest (points "signal") ratings
        [points "score"] = .ok key ∧
      toBytes Sorting.insertion 4300 (observedEnvelope .none) (named ratings) = .ok raw ∧
      (Rederived Sorting.insertion 4300 signalDigest (points "signal") [points "score"] raw key ↔
        ∀ name ∈ [points "score"], Preserved Sorting.insertion ratings name) := by
  have hraw : ∃ raw, toBytes Sorting.insertion 4300 (observedEnvelope .none) (named ratings) =
      .ok raw := ⟨_, rfl⟩
  have hderive : ∃ key, deriveIdempotencyKey Sorting.insertion 4300 signalDigest (points "signal")
      ratings [points "score"] = .ok key := ⟨_, rfl⟩
  obtain ⟨raw, hraw⟩ := hraw
  obtain ⟨key, hderive⟩ := hderive
  refine ⟨key, raw, hderive, hraw, rederived_iff (carries_observed .none) (by decide) hderive hraw
    fun _ _ h => ?_⟩
  obtain ⟨-, -, -, hkey⟩ := derive_eq_ok_iff.mp hderive
  exact digestAt_injective (by decide) (h.trans hkey)

-- `{9: "a", 10: "b"}`
def scores : List (List CodePoint × Datum) :=
  [(points "score", .dict [(.int 9, .str (points "a")), (.int 10, .str (points "b"))])]

-- Hashed with 9 before 10, they are read back as "9" and "10", and "10" is the lesser.
theorem not_rederived_scores :
    ∃ key raw,
      deriveIdempotencyKey Sorting.insertion 4300 signalDigest (points "signal") scores
        [points "score"] = .ok key ∧
      toBytes Sorting.insertion 4300 (observedEnvelope .none) (named scores) = .ok raw ∧
      ¬ Rederived Sorting.insertion 4300 signalDigest (points "signal") [points "score"] raw key := by
  have hraw : ∃ raw, toBytes Sorting.insertion 4300 (observedEnvelope .none) (named scores) =
      .ok raw := ⟨_, rfl⟩
  have hderive : ∃ key, deriveIdempotencyKey Sorting.insertion 4300 signalDigest (points "signal")
      scores [points "score"] = .ok key := ⟨_, rfl⟩
  obtain ⟨raw, hraw⟩ := hraw
  obtain ⟨key, hderive⟩ := hderive
  refine ⟨key, raw, hderive, hraw, ?_⟩
  rintro ⟨back, members, hback, hmembers, hderived⟩
  obtain ⟨-, back', hback', hpayload⟩ := exists_fromBytes (carries_observed .none) hraw
  have hsame : back = back' := Except.ok.inj (hback.symm.trans hback')
  rw [hsame, hpayload] at hmembers
  have hreceived : members = [(points "score", Value.dict
      [(points "9", .str (points "a")), (points "10", .str (points "b"))])] := by
    have h : arrived (named scores) = .dict [(points "score", Value.dict
      [(points "9", .str (points "a")), (points "10", .str (points "b"))])] := by rfl
    rw [h] at hmembers
    exact (Value.dict.inj hmembers).symm
  obtain ⟨-, -, -, hkey⟩ := derive_eq_ok_iff.mp hderive
  obtain ⟨-, -, -, hkey'⟩ := derive_eq_ok_iff.mp hderived
  have htext := Utf8.encode_injective
    (digestAt_injective (by decide) (hkey.symm.trans hkey'))
  rw [hreceived] at htext
  exact absurd htext (by decide +kernel)

end Signal

end TrustlistCore.EventBus.Datum
