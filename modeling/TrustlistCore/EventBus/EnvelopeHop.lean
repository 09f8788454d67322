import TrustlistCore.EventBus.EnvelopeRoundTrip
import TrustlistCore.EventBus.TypeScript.Received

namespace TrustlistCore.EventBus

open Library Unicode Value

namespace Value

-- Whole numbers that a double holds, and no other number.
def SafeNode : Value → Prop
  | .int value => value.natAbs ≤ 2 ^ 53 - 1
  | .float _ => False
  | _ => True

end Value

namespace TypeScript.JsonValue

open EventBus.EventEnvelope (wire)

section Echo

variable {maxStrDigits : ℕ}

variable (maxStrDigits) in
-- What Python reads of what TypeScript writes.
def Echoes (value : JsonValue) (echo : Value) : Prop :=
  ∃ tree, document value = .ok (some tree) ∧ Value.ofTree maxStrDigits tree = .ok echo

theorem echoes_string {points : List CodePoint} (h : Joined points) :
    Echoes maxStrDigits (received (.str points)) (.str points) :=
  ⟨.string (utf16 points), rfl, congrArg (fun points => Except.ok (Value.str points)) h⟩

theorem echoes_array {A : Type} {items : List A} {f : A → JsonValue} {g : A → Value}
    (h : ∀ item ∈ items, Echoes maxStrDigits (f item) (g item)) :
    Echoes maxStrDigits (.array (items.map f)) (.list (items.map g)) := by
  have : Nonempty Json.Tree := ⟨.null⟩
  choose! tree hdocument hread using h
  refine ⟨.array (items.map tree), document_array ?_, ?_⟩
  · rw [List.map_map, List.map_map]
    exact List.map_congr_left hdocument
  · have hitems : Value.ofItems maxStrDigits (items.map tree) = (items.map g).map .ok := by
      rw [Value.ofItems_eq, List.map_map, List.map_map]
      exact List.map_congr_left hread
    rw [Value.ofTree, Members.gather_eq_ok.mpr hitems]
    rfl

theorem echoes_object {A : Type} {l : List A} {k : A → List CodePoint} {f : A → JsonValue}
    {g : A → Value} (hnodup : (l.map k).Nodup) (hjoined : ∀ member ∈ l, Joined (k member))
    (h : ∀ member ∈ l, Echoes maxStrDigits (f member) (g member)) :
    Echoes maxStrDigits (.object (l.map fun member => (utf16 (k member), f member)))
      (.dict (l.map fun member => (k member, g member))) := by
  have : Nonempty Json.Tree := ⟨.null⟩
  choose! tree hdocument hread using h
  refine ⟨.object (l.map fun member => (utf16 (k member), tree member)), document_object ?_, ?_⟩
  · rw [List.map_map, List.map_map]
    exact List.map_congr_left fun member hm => congrArg (Prod.mk _) (hdocument member hm)
  · have hmembers : Value.ofMembers maxStrDigits
        (l.map fun member => (utf16 (k member), tree member)) =
          (l.map fun member => (k member, g member)).map fun member =>
            (member.1, .ok member.2) := by
      rw [Value.ofMembers_eq, List.map_map, List.map_map]
      refine List.map_congr_left fun member hm => ?_
      have hkey : decode16 (utf16 (k member)) = k member := hjoined member hm
      simp only [Function.comp_apply, hkey, hread member hm]
    have hkeys : (Members.keys (l.map fun member => (k member, g member))).Nodup := by
      rw [Members.keys, List.map_map]
      exact hnodup
    rw [Value.ofTree, Members.collect_eq_ok.mpr hmembers, Except.map,
      Members.ofPairs_of_nodup hkeys]

theorem numberTree_ofInt {n : ℤ} (h : n.natAbs ≤ 2 ^ 53 - 1) :
    numberTree (.ofNumber (.ofInt n)) = .number (.ofInt n) := by
  have hrep : binary64.Representable ((n.natAbs : ℕ) : ℚ) :=
    Double.representable_natCast (by omega)
  have hnearest := Format.nearest_of_representable hrep
  have hdouble : Double.ofNumber (.ofInt n) = .finite (decide (n < 0)) ⟨_, hrep⟩ := by
    unfold Double.ofNumber
    rw [Number.magnitude_ofInt, hnearest]
    rfl
  rw [hdouble]
  exact congrArg Json.Tree.number (Double.display_ofInt_of_small hnearest (by omega))

-- Sixteen digits are within whatever limit there can be.
theorem not_exceeds {n : ℤ} (hlimit : maxStrDigits = 0 ∨ 640 ≤ maxStrDigits)
    (h : n.natAbs ≤ 2 ^ 53 - 1) : exceeds maxStrDigits (Nat.toDigits 10 n.natAbs) = false := by
  have hlength : (Nat.toDigits 10 n.natAbs).length ≤ 16 :=
    (Nat.length_toDigits_le_iff (by decide) (by decide)).mpr (by omega)
  rw [exceeds, decide_eq_false_iff_not]
  omega

-- On the way through TypeScript a value keeps everything but the order of the members.
theorem exists_echo (hlimit : maxStrDigits = 0 ∨ 640 ≤ maxStrDigits) {value : Value}
    (h : Readable value) (hsafe : Value.Every SafeNode value) :
    ∃ echo, Echoes maxStrDigits (received value) echo ∧ sameJson value echo := by
  have : Nonempty Value := ⟨.none⟩
  induction value using Value.induct with
  | none => exact ⟨.none, ⟨.null, rfl, rfl⟩, trivial⟩
  | bool b => exact ⟨.bool b, ⟨.bool b, rfl, rfl⟩, rfl⟩
  | int n =>
      have hnumber := numberTree_ofInt hsafe.self
      have hread := readNumber_ofInt (not_exceeds hlimit hsafe.self)
      exact ⟨.int n, ⟨_, congrArg (fun tree => Except.ok (some tree)) hnumber, hread⟩, rfl⟩
  | float x => exact absurd hsafe.self id
  | str s => exact ⟨.str s, echoes_string h.self, rfl⟩
  | list items ih =>
      have hitems : ∀ item ∈ items, ∃ echo,
          Echoes maxStrDigits (received item) echo ∧ sameJson item echo := fun item hi =>
        ih item hi ((Value.every_list.mp h).2 item hi) ((Value.every_list.mp hsafe).2 item hi)
      choose! echo hecho hsame using hitems
      refine ⟨.list (items.map echo), ?_, ?_⟩
      · rw [received_list]
        exact echoes_array hecho
      · exact sameItems_map hsame
  | dict members ih =>
      have hmembers : ∀ member ∈ members, ∃ echo,
          Echoes maxStrDigits (received member.2) echo ∧ sameJson member.2 echo := fun member hm =>
        ih member hm ((Value.every_dict.mp h).2 member hm) ((Value.every_dict.mp hsafe).2 member hm)
      choose! echo hecho hsame using hmembers
      obtain ⟨others, hperm, hreceived⟩ := exists_received_dict h.self
      have hkeys : (Members.keys others).Perm (Members.keys members) := hperm.map Prod.fst
      refine ⟨.dict (others.map fun member => (member.1, echo member)), ?_, ?_⟩
      · rw [hreceived]
        exact echoes_object (hkeys.nodup_iff.mpr h.self.1)
          (fun member hm => h.self.2 _ (hkeys.mem_iff.mp (List.mem_map_of_mem hm)))
          fun member hm => hecho member (hperm.mem_iff.mp hm)
      · rw [sameJson, sameMembers_iff]
        refine ⟨fun key => ?_, fun member hm => ⟨echo member, ?_, hsame member hm⟩⟩
        · rw [Members.keys, Members.keys, List.map_map]
          exact hkeys.mem_iff.symm
        · exact List.mem_map_of_mem (hperm.mem_iff.mpr hm)
  | object kind text => exact absurd h.self id

theorem echoes_text {value : Value} (h : Text Joined value) :
    Echoes maxStrDigits (received value) value := by
  obtain ⟨points, rfl, hjoined⟩ := h
  exact echoes_string hjoined

-- A dict of strings comes back with the same members.
theorem exists_echo_carrier {members : List (List CodePoint × Value)}
    (hnodup : (Members.keys members).Nodup) (hkeys : ∀ key ∈ Members.keys members, Joined key)
    (htext : ∀ member ∈ members, Text Joined member.2) :
    ∃ others : List (List CodePoint × Value), others.Perm members ∧
      Echoes maxStrDigits (received (.dict members)) (.dict others) := by
  obtain ⟨others, hperm, hreceived⟩ := exists_received_dict ⟨hnodup, hkeys⟩
  have hperm' : (Members.keys others).Perm (Members.keys members) := hperm.map Prod.fst
  refine ⟨others, hperm, ?_⟩
  have hechoes : ∀ member ∈ others, Echoes maxStrDigits (received member.2) member.2 :=
    fun member hm => echoes_text (htext member (hperm.mem_iff.mp hm))
  have hobject := echoes_object (hperm'.nodup_iff.mpr hnodup)
    (fun member hm => hkeys _ (hperm'.mem_iff.mp (List.mem_map_of_mem hm))) hechoes
  rw [hreceived]
  rwa [show others.map (fun member => (member.1, member.2)) = others from List.map_id others]
    at hobject

end Echo

end TypeScript.JsonValue

namespace EventEnvelope

-- Equal in all nine fields, the dicts taken as maps.
structure Same (envelope other : EventEnvelope) : Prop where
  eventType : other.eventType = envelope.eventType
  eventVersion : other.eventVersion = envelope.eventVersion
  producerId : other.producerId = envelope.producerId
  idempotencyKey : other.idempotencyKey = envelope.idempotencyKey
  provenance : other.provenance = envelope.provenance
  payload : sameJson envelope.payload other.payload
  traceContext : other.traceContext.Perm envelope.traceContext
  eventId : other.eventId = envelope.eventId
  producedAt : other.producedAt = envelope.producedAt

end EventEnvelope

namespace TypeScript.EventEnvelope

open JsonValue

variable {maxStrDigits : ℕ}

theorem echoes_provenance {envelope : EventBus.EventEnvelope}
    {members : List (List CodePoint × Value)} (h : envelope.Typed Joined members) :
    Echoes maxStrDigits (provenanceToWire (ofPython envelope (.dict members)).provenance)
      envelope.provenance.toDict := by
  have hidentity : Echoes maxStrDigits (received envelope.provenance.contributorIdentity)
      envelope.provenance.contributorIdentity := by
    rcases h.contributorIdentity with hnull | htext
    · rw [hnull]
      exact ⟨.null, rfl, rfl⟩
    · exact echoes_text htext
  have hnode := (EventBus.EventEnvelope.plainNode_provenance envelope.provenance).readable
  refine echoes_object (k := Prod.fst) (f := fun field => received field.2) (g := Prod.snd)
    (l := [(points "source", envelope.provenance.source),
      (points "method", envelope.provenance.method),
      (points "contributor_identity", envelope.provenance.contributorIdentity)]) hnode.1
    (fun field hf => hnode.2 _ (List.mem_map_of_mem hf)) ?_
  simp only [List.forall_mem_cons, List.not_mem_nil, false_implies, implies_true, and_true]
  exact ⟨echoes_text h.source, echoes_text h.method, hidentity⟩

-- The trace context is spread into a new object twice over.
theorem object_spread {members : List (List CodePoint × Value)}
    (h : ReadableNode (.dict members)) :
    JsonValue.object (spread (.object (spread (coalesce (received (.dict members)) (.object []))))) =
      received (.dict members) := by
  rw [received_dict h]
  rfl

-- The envelope comes back with the payload and the trace context it was given.
theorem echoes_toWire {envelope : EventBus.EventEnvelope}
    {members others : List (List CodePoint × Value)} {payload : Value}
    {traceContext : List (Value × Value)} (h : envelope.Typed Joined members)
    (htrace : Echoes maxStrDigits (received (.dict members)) (.dict others))
    (hpayload : Echoes maxStrDigits (received envelope.payload) payload) :
    Echoes maxStrDigits (ofPython envelope (.dict members)).toWire
      (EventBus.EventEnvelope.toDict { envelope with payload, traceContext } (.dict others)) := by
  have hchars (text : List Char) : Echoes maxStrDigits (received (ofChars text)) (ofChars text) :=
    echoes_string (decode16_utf16 (scalar_charPoints text))
  have hnodes := (EventBus.EventEnvelope.plainNode_toDict { envelope with payload, traceContext }
    (.dict others)).readable
  refine echoes_object (k := Prod.fst) (f := fun field => field.2.1) (g := fun field => field.2.2)
    (l := [(points "event_id", received (ofChars envelope.eventId.text),
        ofChars envelope.eventId.text),
      (points "event_type", received envelope.eventType, envelope.eventType),
      (points "event_version", received envelope.eventVersion, envelope.eventVersion),
      (points "produced_at", received (ofChars (IsoTime.isoformat envelope.producedAt)),
        ofChars (IsoTime.isoformat envelope.producedAt)),
      (points "producer_id", received envelope.producerId, envelope.producerId),
      (points "trace_context", .object (spread (.object
        (ofPython envelope (.dict members)).traceContext)), .dict others),
      (points "idempotency_key", received envelope.idempotencyKey, envelope.idempotencyKey),
      (points "provenance", provenanceToWire (ofPython envelope (.dict members)).provenance,
        envelope.provenance.toDict),
      (points "payload", received envelope.payload, payload)]) hnodes.1 ?_ ?_
  · exact fun field hf => hnodes.2 _ (List.mem_map_of_mem (f := Prod.fst) hf)
  · simp only [List.forall_mem_cons, List.not_mem_nil, false_implies, implies_true, and_true]
    have hspread := @object_spread members ⟨h.nodup, h.keys⟩
    refine ⟨hchars _, echoes_text h.eventType, echoes_text h.eventVersion, hchars _,
      echoes_text h.producerId, ?_, echoes_text h.idempotencyKey, echoes_provenance h, hpayload⟩
    unfold ofPython
    rw [hspread]
    exact htrace

end TypeScript.EventEnvelope

open TypeScript.EventEnvelope (Complete ofPython fromWire_received fromBytes_eq_fromWire
  echoes_provenance echoes_toWire)

open TypeScript.JsonValue (Echoes exists_echo exists_echo_carrier not_exceeds)

-- What TypeScript writes of an envelope with an echo is read as that echo.
theorem fromBytes_of_echoes {maxStrDigits : ℕ} {hop : TypeScript.EventEnvelope}
    {other : EventEnvelope} {others : List (List CodePoint × Value)}
    (hcarries : other.Carries others)
    (h : Echoes maxStrDigits hop.toWire (other.toDict (.dict others))) :
    ∃ raw, hop.toBytes = .ok raw ∧ EventEnvelope.fromBytes maxStrDigits raw = .ok other := by
  obtain ⟨tree, hdocument, hread⟩ := h
  have hdenotes := EventEnvelope.fromDict_eq_ok_iff.mpr (EventEnvelope.denotes_toDict hcarries)
  refine ⟨Utf8.encode (Json.render Json.quoteLiteral tree), ?_, ?_⟩
  · unfold TypeScript.EventEnvelope.toBytes TypeScript.JsonValue.stringify
    rw [hdocument]
    rfl
  · unfold EventEnvelope.fromBytes loads
    rw [Utf8.decode_encode]
    simp only [Json.parse_render Json.faithful_quoteLiteral, hread, bind, Except.bind, hdenotes]

theorem EventEnvelope.Typed.exists_hop {maxStrDigits : ℕ}
    (hlimit : maxStrDigits = 0 ∨ 640 ≤ maxStrDigits) {envelope : EventEnvelope}
    {members : List (List CodePoint × Value)} (hfields : envelope.Typed Joined members)
    (hreadable : Readable envelope.payload) (hsafe : Every SafeNode envelope.payload)
    (hnonnull : envelope.payload ≠ .none) :
    ∃ raw hop raw' other, envelope.toBytes maxStrDigits = .ok raw ∧
      TypeScript.EventEnvelope.fromBytes raw = .ok hop ∧ hop.toBytes = .ok raw' ∧
      EventEnvelope.fromBytes maxStrDigits raw' = .ok other ∧ envelope.Same other := by
  have hscalar (points : List CodePoint) (h : Scalar points) : Joined points := decode16_utf16 h
  have hfinite : Every FiniteNode (envelope.toDict (.dict members)) :=
    hfields.every_toDict hscalar (fun _ _ => trivial) trivial trivial trivial trivial
      (hsafe.mono fun value h => by
        cases value with
        | float x => exact absurd h id
        | _ => trivial)
  have hprints : Every (Prints EventEnvelope.wire maxStrDigits)
      (envelope.toDict (.dict members)) :=
    hfields.every_toDict hscalar (fun _ _ => trivial) trivial trivial trivial trivial
      ((hreadable.and hsafe).mono fun value h => by
        cases value with
        | int n => exact not_exceeds hlimit h.2
        | object kind text => exact absurd h.1 id
        | _ => trivial)
  obtain ⟨raw, hraw, -⟩ := EventEnvelope.fromBytes_of_readable hfields.carries
    (hfields.readable hscalar (fun _ h => h) hreadable) hprints
  have hhop : TypeScript.EventEnvelope.fromBytes raw = .ok (ofPython envelope (.dict members)) := by
    rw [fromBytes_eq_fromWire (EventEnvelope.carrier_of_carries hfields.carries) hfinite hraw,
      fromWire_received (hfields.complete hnonnull)]
  obtain ⟨payload, hpayload, hsame⟩ := exists_echo hlimit hreadable hsafe
  obtain ⟨others, hperm, htrace⟩ := @exists_echo_carrier maxStrDigits members hfields.nodup
    hfields.keys hfields.values
  let traceContext := others.map fun member => (Value.str member.1, member.2)
  have hcarries : EventEnvelope.Carries { envelope with payload, traceContext } others := rfl
  obtain ⟨raw', hraw', hother⟩ :=
    fromBytes_of_echoes hcarries (echoes_toWire hfields htrace hpayload)
  refine ⟨raw, _, raw', _, hraw, hhop, hraw', hother, ⟨rfl, rfl, rfl, rfl, rfl, hsame, ?_, rfl, rfl⟩⟩
  rw [hfields.carries]
  exact hperm.map _

-- Through TypeScript and back to Python.
theorem hop_same {maxStrDigits : ℕ} (hlimit : maxStrDigits = 0 ∨ 640 ≤ maxStrDigits)
    {uuid4 : Uuid} {now : DateTime} {arguments : Arguments} {envelope : EventEnvelope}
    (htyped : arguments.Typed Joined) (hreadable : Readable arguments.payload)
    (hsafe : Every SafeNode arguments.payload) (hnonnull : arguments.payload ≠ .none)
    (hnew : newEnvelope uuid4 now arguments = .ok envelope) :
    ∃ raw hop raw' other, envelope.toBytes maxStrDigits = .ok raw ∧
      TypeScript.EventEnvelope.fromBytes raw = .ok hop ∧ hop.toBytes = .ok raw' ∧
      EventEnvelope.fromBytes maxStrDigits raw' = .ok other ∧ envelope.Same other := by
  obtain ⟨⟨members, hfields⟩, hbody⟩ := htyped.envelope hnew
  rw [← hbody] at hreadable hsafe hnonnull
  exact hfields.exists_hop hlimit hreadable hsafe hnonnull

theorem text_joined (text : String) : Text Joined (.str (points text)) :=
  (text_points text).mono fun _ h => decode16_utf16 h

def named (eventType : List CodePoint) (payload : Value) : Arguments :=
  { observed payload with eventType := .str eventType }

def namedEnvelope (eventType : List CodePoint) (payload : Value) : EventEnvelope :=
  { observedEnvelope payload with eventType := .str eventType }

theorem newEnvelope_named (eventType : List CodePoint) (payload : Value) :
    newEnvelope sampleId sampleTime (named eventType payload) =
      .ok (namedEnvelope eventType payload) := rfl

theorem typed_named {eventType : List CodePoint} (h : Joined eventType) (payload : Value) :
    (named eventType payload).Typed Joined where
  eventType := ⟨_, rfl, h⟩
  producerId := text_joined _
  idempotencyKey := text_joined _
  source := text_joined _
  method := text_joined _
  contributorIdentity := Or.inr ⟨[], rfl, rfl⟩
  traceContext := Or.inr ⟨_, rfl, by decide, by simp [Members.keys, joined_points], by
    simp [text_joined]⟩
  eventVersion := text_joined _

-- Members that JavaScript enumerates in another order, the largest safe integer and half of
-- a surrogate pair.
def reordered : Value :=
  .dict
    [(points "b", .str [0xD83D]), (points "10", .int (2 ^ 53 - 1)), (points "2", .list [.none])]

theorem readable_reordered : Readable reordered := by
  refine every_dict.mpr ⟨?_, ?_⟩
  · exact (@EventEnvelope.plainNode_named _ ["b", "10", "2"] rfl (by decide)).readable
  · simp only [List.forall_mem_cons, List.not_mem_nil, false_implies, implies_true, and_true]
    exact ⟨rfl, trivial, trivial, trivial, trivial⟩

theorem safe_reordered : Every SafeNode reordered := by
  refine every_dict.mpr ⟨trivial, ?_⟩
  simp only [List.forall_mem_cons, List.not_mem_nil, false_implies, implies_true, and_true]
  exact ⟨trivial, le_refl (2 ^ 53 - 1), trivial, trivial, trivial⟩

theorem hop_same_reordered :
    ∃ raw hop raw' other,
      (namedEnvelope (points "signal") reordered).toBytes 4300 = .ok raw ∧
      TypeScript.EventEnvelope.fromBytes raw = .ok hop ∧ hop.toBytes = .ok raw' ∧
      EventEnvelope.fromBytes 4300 raw' = .ok other ∧
      (namedEnvelope (points "signal") reordered).Same other :=
  hop_same (by decide) (typed_named (joined_points _) _) readable_reordered safe_reordered
    (fun h => nomatch h) (newEnvelope_named _ _)

theorem toBytes_congr {maxStrDigits : ℕ} {s t : List CodePoint} (h : utf16 s = utf16 t)
    (payload : Value) :
    (namedEnvelope s payload).toBytes maxStrDigits =
      (namedEnvelope t payload).toBytes maxStrDigits := by
  simp only [EventEnvelope.toBytes, EventEnvelope.carrier, EventEnvelope.toDict, namedEnvelope,
    observedEnvelope, dumps, Value.document, documentMembers, h]

-- A string with both halves of a pair as two characters leaves as the one character.
theorem hop_not_same_pair :
    newEnvelope sampleId sampleTime (named [0xD83D, 0xDE00] reordered) =
        .ok (namedEnvelope [0xD83D, 0xDE00] reordered) ∧
      ¬ ∃ raw hop raw' other,
        (namedEnvelope [0xD83D, 0xDE00] reordered).toBytes 4300 = .ok raw ∧
        TypeScript.EventEnvelope.fromBytes raw = .ok hop ∧ hop.toBytes = .ok raw' ∧
        EventEnvelope.fromBytes 4300 raw' = .ok other ∧
        (namedEnvelope [0xD83D, 0xDE00] reordered).Same other := by
  refine ⟨newEnvelope_named _ _, ?_⟩
  rintro ⟨raw, hop, raw', other, hraw, hhop, hraw', hother, hsame⟩
  have htyped := typed_named (show Joined [0x1F600] from rfl) reordered
  obtain ⟨⟨members, hfields⟩, -⟩ := htyped.envelope (newEnvelope_named _ _)
  obtain ⟨joinedRaw, joinedHop, joinedRaw', joinedOther, h1, h2, h3, h4, hjoinedSame⟩ :=
    @EventEnvelope.Typed.exists_hop 4300 (by decide) _ _ hfields readable_reordered
      safe_reordered (fun h => nomatch h)
  have hcongr : (namedEnvelope [0xD83D, 0xDE00] reordered).toBytes 4300 =
      (namedEnvelope [0x1F600] reordered).toBytes 4300 := toBytes_congr (by decide) reordered
  rw [hcongr, h1, Except.ok.injEq] at hraw
  rw [← hraw, h2, Except.ok.injEq] at hhop
  rw [← hhop, h3, Except.ok.injEq] at hraw'
  rw [← hraw', h4, Except.ok.injEq] at hother
  have htype := hsame.eventType.symm.trans (hother ▸ hjoinedSame.eventType)
  exact absurd htype (by simp [namedEnvelope])

end TrustlistCore.EventBus
