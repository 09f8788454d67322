import TrustlistCore.EventBus.KeyDivergence
import TrustlistCore.EventBus.TypeScript.Envelope.Theorems
import TrustlistCore.EventBus.TypeScript.Value.Carried

namespace TrustlistCore.EventBus.TypeScript

open Library Unicode JsonValue

namespace Idempotency

section Derive

variable {sha256 : List UInt8 → List Char} {eventType : List CodeUnit}
  {payload other : List (List CodeUnit × JsonValue)} {keyFields : List (List CodeUnit)}

theorem mem_laidOut_selected {pair : List CodeUnit × Json.Tree} :
    pair ∈ (enumerated (selected payload keyFields).members).map
        (fun member => (member.1, laidOut member.2)) ↔
      Kept payload keyFields pair.1 ∧ laidOut (field payload pair.1) = pair.2 := by
  have hholds := holds_selected payload keyFields
  rw [List.mem_map]
  simp only [(enumerated_perm _).mem_iff]
  constructor
  · rintro ⟨member, hm, rfl⟩
    rw [← hholds.keys, hholds.values member hm]
    exact ⟨List.mem_map_of_mem hm, rfl⟩
  · rintro ⟨hkept, hlaid⟩
    obtain ⟨value, hvalue⟩ := Members.mem_keys.mp ((hholds.keys pair.1).mpr hkept)
    have hfield : value = field payload pair.1 := hholds.values _ hvalue
    exact ⟨_, hvalue, Prod.ext rfl (by rw [← hlaid, ← hfield])⟩

-- Two payloads are hashed as one document if the same fields are kept and are the same.
theorem laidOut_document_eq_iff :
    laidOut (document eventType other keyFields) =
        laidOut (document eventType payload keyFields) ↔
      (∀ name, Kept other keyFields name ↔ Kept payload keyFields name) ∧
        ∀ name, Kept payload keyFields name →
          laidOut (field other name) = laidOut (field payload name) := by
  have hnodup (payload : List (List CodeUnit × JsonValue)) :
      (Members.keys (enumerated (selected payload keyFields).members)).Nodup :=
    ((enumerated_perm _).map Prod.fst).nodup_iff.mpr (holds_selected payload keyFields).nodup
  have hkeys (payload : List (List CodeUnit × JsonValue)) :
      (Members.keys ((enumerated (selected payload keyFields).members).map fun member =>
        (member.1, laidOut member.2))).Nodup := by
    rw [Members.keys_mapValues]
    exact hnodup payload
  rw [EventBus.Idempotency.laidOut_document_received,
    EventBus.Idempotency.laidOut_document_received, Json.Tree.object.injEq, List.cons.injEq,
    List.cons.injEq]
  simp only [Prod.mk.injEq, true_and, and_true]
  rw [laidOut_object_eq_iff (hnodup payload), Members.perm_iff (hkeys other) (hkeys payload)]
  simp only [mem_laidOut_selected]
  constructor
  · intro h
    refine ⟨fun name => ⟨fun hkept => ?_, fun hkept => ?_⟩, fun name hkept => ?_⟩
    · exact ((h (name, laidOut (field other name))).mp ⟨hkept, rfl⟩).1
    · exact ((h (name, laidOut (field payload name))).mpr ⟨hkept, rfl⟩).1
    · exact ((h (name, laidOut (field payload name))).mpr ⟨hkept, rfl⟩).2
  · rintro ⟨hkept, hlaid⟩ pair
    rw [hkept]
    exact and_congr_right fun h => by rw [hlaid pair.1 h]

end Derive

section Carried

variable {payload others : List (List CodeUnit × JsonValue)} {keyFields : List (List CodeUnit)}

theorem field_of_mem (hnodup : (Members.keys payload).Nodup) {name : List CodeUnit}
    {value : JsonValue} (h : (name, value) ∈ payload) : field payload name = value := by
  unfold field
  rw [(Members.find_eq_some_iff hnodup).mpr h]
  rfl

theorem mem_of_isDefined {name : List CodeUnit} (h : isDefined (field payload name) = true) :
    (name, field payload name) ∈ payload := by
  cases hfind : Members.find payload name with
  | none => simp [field, hfind, isDefined] at h
  | some value =>
      have hfield : field payload name = value := by simp [field, hfind]
      rw [hfield]
      exact Members.mem_of_find hfind

-- A field arrives unless it is `undefined`.
theorem find_carried (hbigint : Every NoBigint (.object payload))
    (hdeclared : Every Declared (.object payload))
    (hcarried : carried (.object payload) = .object others) (name : List CodeUnit) :
    Members.find others name =
      if isDefined (field payload name) = true then some (carried (field payload name))
      else none := by
  have hnodup : (Members.keys payload).Nodup := (every_object.mp hdeclared).1
  obtain ⟨members, hmembers, hperm⟩ :=
    exists_carried_object (every_object.mp hbigint).2 hdeclared
  obtain rfl : members = others := JsonValue.object.inj (hmembers.symm.trans hcarried)
  have hkeys : (Members.keys members).Nodup := by
    refine ((hperm.map Prod.fst).nodup_iff).mpr ?_
    rw [← Members.keys, Members.keys_mapValues]
    exact hnodup.sublist (List.filter_sublist.map Prod.fst)
  by_cases hdefined : isDefined (field payload name) = true
  · rw [if_pos hdefined, Members.find_eq_some_iff hkeys, hperm.mem_iff]
    exact List.mem_map_of_mem (f := fun member : List CodeUnit × JsonValue =>
      (member.1, carried member.2)) (List.mem_filter.mpr ⟨mem_of_isDefined hdefined, hdefined⟩)
  · rw [if_neg hdefined, Members.find_eq_none]
    intro hkey
    obtain ⟨value, hvalue⟩ := Members.mem_keys.mp hkey
    obtain ⟨member, hm, heq⟩ := List.mem_map.mp (hperm.mem_iff.mp hvalue)
    obtain ⟨hmem, hpresent⟩ := List.mem_filter.mp hm
    have hname : member.1 = name := congrArg Prod.fst heq
    rw [← hname, field_of_mem hnodup hmem] at hdefined
    exact hdefined hpresent

theorem mem_keys_carried (hbigint : Every NoBigint (.object payload))
    (hdeclared : Every Declared (.object payload))
    (hcarried : carried (.object payload) = .object others) {name : List CodeUnit} :
    name ∈ Members.keys others ↔ isDefined (field payload name) = true := by
  rw [← Members.find_isSome, find_carried hbigint hdeclared hcarried]
  by_cases hdefined : isDefined (field payload name) = true <;> simp [hdefined]

theorem field_carried (hbigint : Every NoBigint (.object payload))
    (hdeclared : Every Declared (.object payload))
    (hcarried : carried (.object payload) = .object others) {name : List CodeUnit}
    (hdefined : isDefined (field payload name) = true) :
    field others name = carried (field payload name) := by
  unfold field at hdefined ⊢
  rw [find_carried hbigint hdeclared hcarried, field, if_pos hdefined]
  rfl

-- A number that is written as null.
def NonFinite : JsonValue → Prop
  | .number (.infinity _) => True
  | .number .nan => True
  | _ => False

theorem keepsAccessor_nonFinite {value : JsonValue} (h : NonFinite value) :
    keepsAccessor value = true ∧ keepsAccessor (carried value) = false := by
  cases value with
  | number x =>
      cases x with
      | finite negative x => exact absurd h id
      | infinity negative => exact ⟨rfl, rfl⟩
      | nan => exact ⟨rfl, rfl⟩
  | _ => exact absurd h id

-- As a prototype, too, a value is what it was.
theorem keepsAccessor_carried {value : JsonValue} (hbigint : Every NoBigint value)
    (hdeclared : Every Declared value) (hdefined : isDefined value = true)
    (hfinite : ¬ NonFinite value) (hfilled : keepsAccessor value = false → Filled value) :
    keepsAccessor (carried value) = keepsAccessor value := by
  cases value with
  | undefined => exact absurd hdefined Bool.false_ne_true
  | bigint n => exact absurd hbigint.self id
  | number x =>
      cases x with
      | finite negative x => rw [carried_finite]; rfl
      | infinity negative => exact absurd trivial hfinite
      | nan => exact absurd trivial hfinite
  | array items => rw [carried_array (every_array.mp hbigint).2]; rfl
  | object members =>
      obtain ⟨others, hcarried, -⟩ :=
        exists_carried_object (every_object.mp hbigint).2 hdeclared
      have hkeys : proto ∈ Members.keys others ↔ proto ∈ Members.keys members := by
        rw [mem_keys_carried hbigint hdeclared hcarried]
        constructor
        · exact fun h => List.mem_map_of_mem (mem_of_isDefined h)
        · intro hkey
          obtain ⟨value, hvalue⟩ := Members.mem_keys.mp hkey
          have hloses : keepsAccessor (.object members) = false := by
            simp [keepsAccessor, hkey]
          rw [field_of_mem (every_object.mp hdeclared).1 hvalue]
          exact hfilled hloses _ hvalue
      rw [hcarried]
      simp [keepsAccessor, hkeys]
  | other text => exact absurd hdeclared.self id
  | hole => exact absurd hdefined Bool.false_ne_true
  | _ => rfl

-- A key field that is hashed alike on either side of the wire. One of the name `__proto__`
-- that is listed twice must not turn into null.
structure Preserved (payload : List (List CodeUnit × JsonValue))
    (keyFields : List (List CodeUnit)) (name : List CodeUnit) : Prop where
  defined : isDefined (field payload name) = true
  filled : Kept payload keyFields name → Every Filled (field payload name)
  solid : Kept payload keyFields name → Every Solid (field payload name)
  accessor : name = proto → 2 ≤ keyFields.count proto → ¬ NonFinite (field payload name)

theorem every_field {P : JsonValue → Prop} (h : Every P (.object payload)) {name : List CodeUnit}
    (hdefined : isDefined (field payload name) = true) : Every P (field payload name) :=
  (every_object.mp h).2 _ (mem_of_isDefined hdefined)

theorem kept_carried_iff (hbigint : Every NoBigint (.object payload))
    (hdeclared : Every Declared (.object payload))
    (hcarried : carried (.object payload) = .object others)
    (h : ∀ name ∈ keyFields, Preserved payload keyFields name) (name : List CodeUnit) :
    Kept others keyFields name ↔ Kept payload keyFields name := by
  unfold Kept
  refine and_congr_right fun hname => forall_congr' fun hproto => and_congr_left fun hcount => ?_
  subst hproto
  have hfield := h proto hname
  rw [field_carried hbigint hdeclared hcarried hfield.defined,
    keepsAccessor_carried (every_field hbigint hfield.defined)
      (every_field hdeclared hfield.defined) hfield.defined (hfield.accessor rfl hcount)]
  exact fun hloses => (hfield.filled ⟨hname, fun _ => ⟨hloses, hcount⟩⟩).self

variable {eventType : List CodeUnit}

-- What has arrived has no hole, so that its text is that of a document.
theorem written_carried (hcarried : carried (.object payload) = .object others)
    (haccepts : Every Accepts (document eventType others keyFields)) :
    written (document eventType others keyFields) =
      rendered (document eventType others keyFields) :=
  written_of_solid haccepts (solid_document (hcarried ▸ solid_ofTree _) eventType)

theorem laidOut_field_carried_iff (hbigint : Every NoBigint (.object payload))
    (hdeclared : Every Declared (.object payload))
    (hcarried : carried (.object payload) = .object others) {name : List CodeUnit}
    (hdefined : isDefined (field payload name) = true) (hwhole : Every Whole (field payload name)) :
    laidOut (field others name) = laidOut (field payload name) ↔
      Every Filled (field payload name) ∧ Every Solid (field payload name) := by
  rw [field_carried hbigint hdeclared hcarried hdefined]
  exact laidOut_carried_iff (every_field hbigint hdefined) (every_field hdeclared hdefined) hwhole
    (isHole_of_isDefined hdefined)

theorem whole_of_solid {value : JsonValue} (h : Every Solid value) : Every Whole value := by
  induction value using induct with
  | array items ih =>
      obtain ⟨-, hitems⟩ := every_array.mp h
      exact every_array.mpr ⟨Or.inr fun item hi => (hitems item hi).self.isHole,
        fun item hi => ih item hi (hitems item hi)⟩
  | object members ih =>
      obtain ⟨-, hmembers⟩ := every_object.mp h
      exact every_object.mpr ⟨fun member hm => (hmembers member hm).self.isHole,
        fun member hm => ih member hm (hmembers member hm)⟩
  | _ => exact trivial

theorem accepts_document_carried (hbigint : Every NoBigint (.object payload))
    (hdeclared : Every Declared (.object payload))
    (hcarried : carried (.object payload) = .object others)
    (h : ∀ name ∈ keyFields, Preserved payload keyFields name)
    (haccepts : Every Accepts (document eventType payload keyFields)) :
    Every Accepts (document eventType others keyFields) := by
  rw [accepts_document_iff] at haccepts ⊢
  intro name hkept
  have hdefined := (h name hkept.1).defined
  rw [field_carried hbigint hdeclared hcarried hdefined]
  exact accepts_carried (every_field hbigint hdefined) (every_field hdeclared hdefined)
    (haccepts name ((kept_carried_iff hbigint hdeclared hcarried h name).mp hkept))

-- Both texts are one just where every key field is preserved.
theorem written_carried_iff (hbigint : Every NoBigint (.object payload))
    (hdeclared : Every Declared (.object payload))
    (hcarried : carried (.object payload) = .object others)
    (hdefined : ∀ name ∈ keyFields, isDefined (field payload name) = true)
    (haccepts : Every Accepts (document eventType payload keyFields))
    (hothers : Every Accepts (document eventType others keyFields)) :
    written (document eventType others keyFields) =
        written (document eventType payload keyFields) ↔
      ∀ name ∈ keyFields, Preserved payload keyFields name := by
  rw [written_carried hcarried hothers]
  constructor
  · intro h
    obtain ⟨⟨-, hwhole⟩, hlaid⟩ :=
      (denotes_written haccepts).of_render Json.faithful_quoteAscii h.symm
    obtain ⟨hkept, hvalues⟩ := laidOut_document_eq_iff.mp hlaid.symm
    have hfield {name : List CodeUnit} (hkeeps : Kept payload keyFields name) :
        Every Filled (field payload name) ∧ Every Solid (field payload name) :=
      (laidOut_field_carried_iff hbigint hdeclared hcarried (hdefined name hkeeps.1)
        (every_kept_of_document hwhole hkeeps)).mp (hvalues name hkeeps)
    intro name hname
    refine ⟨hdefined name hname, fun hkeeps => (hfield hkeeps).1,
      fun hkeeps => (hfield hkeeps).2, ?_⟩
    rintro rfl hcount hnonfinite
    obtain ⟨hkeeps, hloses⟩ := keepsAccessor_nonFinite hnonfinite
    rw [← field_carried hbigint hdeclared hcarried (hdefined proto hname)] at hloses
    have hsame := ((hkept proto).mp ⟨hname, fun _ => ⟨hloses, hcount⟩⟩).2 rfl
    exact Bool.false_ne_true (hsame.1.symm.trans hkeeps)
  · intro h
    have hsolid : Every Solid (document eventType payload keyFields) :=
      (every_document_iff (fun _ => trivial) fun _ => trivial).mpr
        fun name hkept => (h name hkept.1).solid hkept
    rw [written_of_solid haccepts hsolid]
    refine congrArg (Json.render Json.quoteAscii) (laidOut_document_eq_iff.mpr
      ⟨kept_carried_iff hbigint hdeclared hcarried h, fun name hkept => ?_⟩)
    have hpreserved := h name hkept.1
    exact (laidOut_field_carried_iff hbigint hdeclared hcarried hpreserved.defined
      (whole_of_solid (hpreserved.solid hkept))).mpr
        ⟨hpreserved.filled hkept, hpreserved.solid hkept⟩

end Carried

end Idempotency

namespace JsonValue

def IsText (value : JsonValue) : Prop :=
  ∃ units, value = .string units

theorem IsText.every {P : JsonValue → Prop} (hstring : ∀ units, P (.string units))
    {value : JsonValue} (h : IsText value) : Every P value := by
  obtain ⟨units, rfl⟩ := h
  exact hstring units

theorem IsText.carried {value : JsonValue} (h : IsText value) : carried value = value := by
  obtain ⟨units, rfl⟩ := h
  rfl

theorem IsText.defined {value : JsonValue} (h : IsText value) : isDefined value = true := by
  obtain ⟨units, rfl⟩ := h
  rfl

theorem IsText.not_nullish {value : JsonValue} (h : IsText value) : isNullish value = false := by
  obtain ⟨units, rfl⟩ := h
  rfl

theorem carried_object_not_nullish {members : List (List CodeUnit × JsonValue)}
    (h : ∀ member ∈ members, Every NoBigint member.2) :
    isNullish (JsonValue.carried (.object members)) = false := by
  unfold JsonValue.carried
  rw [sent_object h]
  rfl

theorem property_carried {members : List (List CodeUnit × JsonValue)}
    (hbigint : Every NoBigint (.object members)) (hdeclared : Every Declared (.object members))
    {name : String} {value : JsonValue} (hvalue : Idempotency.field members (units name) = value)
    (hdefined : isDefined value = true) :
    property (carried (.object members)) name = .ok (carried value) := by
  obtain ⟨others, hcarried, -⟩ := exists_carried_object (every_object.mp hbigint).2 hdeclared
  subst hvalue
  rw [hcarried, property, ← Idempotency.field_carried hbigint hdeclared hcarried hdefined]
  rfl

end JsonValue

namespace EventEnvelope

-- An envelope as its type declares it, but for the payload.
structure Typed (envelope : EventEnvelope) : Prop where
  eventType : IsText envelope.eventType
  eventVersion : IsText envelope.eventVersion
  producerId : IsText envelope.producerId
  idempotencyKey : IsText envelope.idempotencyKey
  source : IsText envelope.provenance.source
  method : IsText envelope.provenance.method
  contributorIdentity : envelope.provenance.contributorIdentity = .null ∨
    IsText envelope.provenance.contributorIdentity
  nodup : (Members.keys envelope.traceContext).Nodup
  traceContext : ∀ member ∈ envelope.traceContext, IsText member.2
  eventId : IsText envelope.eventId
  producedAt : IsText envelope.producedAt

variable {envelope : EventEnvelope}

theorem nodup_wire : [units "event_id", units "event_type", units "event_version",
    units "produced_at", units "producer_id", units "trace_context", units "idempotency_key",
    units "provenance", units "payload"].Nodup := by
  decide

theorem nodup_provenance :
    [units "source", units "method", units "contributor_identity"].Nodup := by
  decide

theorem Typed.every_provenance {P : JsonValue → Prop} (h : envelope.Typed) (hnull : P .null)
    (hstring : ∀ units, P (.string units))
    (hobject : ∀ members, (Members.keys members).Nodup → P (.object members)) :
    Every P (provenanceToWire envelope.provenance) := by
  have hidentity : Every P envelope.provenance.contributorIdentity := by
    rcases h.contributorIdentity with hnone | htext
    · rw [hnone]
      exact hnull
    · exact htext.every hstring
  refine every_object.mpr ⟨hobject _ nodup_provenance, ?_⟩
  simp only [List.forall_mem_cons, List.not_mem_nil, false_implies, implies_true, and_true]
  exact ⟨h.source.every hstring, h.method.every hstring, hidentity⟩

theorem Typed.every_toWire {P : JsonValue → Prop} (h : envelope.Typed) (hnull : P .null)
    (hstring : ∀ units, P (.string units))
    (hobject : ∀ members, (Members.keys members).Nodup → P (.object members))
    (hpayload : Every P envelope.payload) : Every P envelope.toWire := by
  have htrace : Every P (.object envelope.traceContext) :=
    every_object.mpr ⟨hobject _ h.nodup, fun member hm => (h.traceContext member hm).every hstring⟩
  refine every_object.mpr ⟨hobject _ nodup_wire, ?_⟩
  simp only [List.forall_mem_cons, List.not_mem_nil, false_implies, implies_true, and_true]
  exact ⟨h.eventId.every hstring, h.eventType.every hstring, h.eventVersion.every hstring,
    h.producedAt.every hstring, h.producerId.every hstring, htrace,
    h.idempotencyKey.every hstring, h.every_provenance hnull hstring hobject, hpayload⟩

theorem exists_provenance (h : envelope.Typed) :
    ∃ provenance, Provenance.Denotes (carried (provenanceToWire envelope.provenance)) provenance := by
  have hbigint : Every NoBigint (provenanceToWire envelope.provenance) :=
    h.every_provenance trivial (fun _ => trivial) fun _ _ => trivial
  have hdeclared : Every Declared (provenanceToWire envelope.provenance) :=
    h.every_provenance trivial (fun _ => trivial) fun _ hnodup => hnodup
  have hidentity : isDefined envelope.provenance.contributorIdentity = true := by
    rcases h.contributorIdentity with hnone | htext
    · rw [hnone]
      rfl
    · exact htext.defined
  exact ⟨⟨_, _, _⟩, property_carried hbigint hdeclared rfl h.source.defined,
    property_carried hbigint hdeclared rfl h.method.defined,
    _, property_carried hbigint hdeclared rfl hidentity, rfl⟩

theorem toBytes_eq_ok (hbigint : Every NoBigint envelope.toWire) :
    envelope.toBytes =
      .ok (Utf8.encode (Json.render Json.quoteLiteral (orNull (sent envelope.toWire)))) := by
  have hsent : sent envelope.toWire = some (orNull (sent envelope.toWire)) := by
    have hmembers := (every_object.mp hbigint).2
    unfold toWire
    rw [sent_object hmembers]
    rfl
  unfold toBytes stringify
  rw [document_eq_sent hbigint, Except.map, hsent]
  rfl

-- What is written of an envelope is read with the payload as it arrives.
theorem exists_fromBytes (h : envelope.Typed) {payload : List (List CodeUnit × JsonValue)}
    (hbody : envelope.payload = .object payload) (hbigint : Every NoBigint (.object payload))
    (hdeclared : Every Declared (.object payload)) :
    ∃ raw back, envelope.toBytes = .ok raw ∧ fromBytes raw = .ok back ∧
      back.payload = carried (.object payload) := by
  have hwire : Every NoBigint envelope.toWire :=
    h.every_toWire trivial (fun _ => trivial) (fun _ _ => trivial) (hbody ▸ hbigint)
  have hobjects : Every Declared envelope.toWire :=
    h.every_toWire trivial (fun _ => trivial) (fun _ hnodup => hnodup) (hbody ▸ hdeclared)
  have hparse : JsonValue.parse (Json.render Json.quoteLiteral (orNull (sent envelope.toWire))) =
      .ok (carried envelope.toWire) := by
    unfold JsonValue.parse
    rw [Json.parse_render Json.faithful_quoteLiteral]
    simp only [standard_sent hwire, if_true, carried]
  have hread {name : String} {value : JsonValue}
      (hvalue : Idempotency.field
        [(units "event_id", envelope.eventId), (units "event_type", envelope.eventType),
          (units "event_version", envelope.eventVersion),
          (units "produced_at", envelope.producedAt), (units "producer_id", envelope.producerId),
          (units "trace_context", .object (spread (.object envelope.traceContext))),
          (units "idempotency_key", envelope.idempotencyKey),
          (units "provenance", provenanceToWire envelope.provenance),
          (units "payload", envelope.payload)] (units name) = value)
      (hdefined : isDefined value = true) :
      property (carried envelope.toWire) name = .ok (carried value) :=
    property_carried hwire hobjects hvalue hdefined
  have htext {name : String} {value : JsonValue}
      (hproperty : isDefined value = true →
        property (carried envelope.toWire) name = .ok (carried value)) (ht : IsText value) :
      property (carried envelope.toWire) name = .ok value := by
    rw [hproperty ht.defined, ht.carried]
  have hid : property (carried envelope.toWire) "event_id" = .ok envelope.eventId :=
    htext (hread rfl) h.eventId
  have htype : property (carried envelope.toWire) "event_type" = .ok envelope.eventType :=
    htext (hread rfl) h.eventType
  have hversion : property (carried envelope.toWire) "event_version" = .ok envelope.eventVersion :=
    htext (hread rfl) h.eventVersion
  have hat : property (carried envelope.toWire) "produced_at" = .ok envelope.producedAt :=
    htext (hread rfl) h.producedAt
  have hproducer : property (carried envelope.toWire) "producer_id" = .ok envelope.producerId :=
    htext (hread rfl) h.producerId
  have hkey : property (carried envelope.toWire) "idempotency_key" = .ok envelope.idempotencyKey :=
    htext (hread rfl) h.idempotencyKey
  have htrace : property (carried envelope.toWire) "trace_context" =
      .ok (carried (.object (spread (.object envelope.traceContext)))) := hread rfl rfl
  have horigin : property (carried envelope.toWire) "provenance" =
      .ok (carried (provenanceToWire envelope.provenance)) := hread rfl rfl
  have hpayload : property (carried envelope.toWire) "payload" = .ok (carried envelope.payload) :=
    hread rfl (hbody ▸ rfl)
  obtain ⟨provenance, hprovenance⟩ := exists_provenance h
  refine ⟨_, { envelope with
      provenance
      payload := carried (.object payload)
      traceContext := spread (coalesce (carried (.object (spread (.object envelope.traceContext))))
        (.object [])) }, toBytes_eq_ok hwire, ?_, rfl⟩
  unfold fromBytes
  rw [Utf8.decodeLossy_encode, hparse]
  refine fromWire_eq_ok_iff.mpr
    { required := ?_, eventId := hid, eventType := htype, eventVersion := hversion
      producedAt := hat, producerId := hproducer, traceContext := ⟨_, htrace, rfl⟩
      idempotencyKey := hkey, provenance := ⟨_, horigin, hprovenance⟩
      payload := hbody ▸ hpayload }
  simp only [required, List.forall_mem_cons, List.not_mem_nil, false_implies, implies_true,
    and_true]
  have hbodyNullish : isNullish (carried envelope.payload) = false := by
    rw [hbody]
    exact carried_object_not_nullish (every_object.mp hbigint).2
  exact ⟨⟨_, hid, h.eventId.not_nullish⟩, ⟨_, htype, h.eventType.not_nullish⟩,
    ⟨_, hversion, h.eventVersion.not_nullish⟩, ⟨_, hat, h.producedAt.not_nullish⟩,
    ⟨_, hproducer, h.producerId.not_nullish⟩, ⟨_, hkey, h.idempotencyKey.not_nullish⟩,
    ⟨_, horigin, carried_object_not_nullish (every_object.mp (h.every_provenance trivial
      (fun _ => trivial) fun _ _ => trivial)).2⟩, ⟨_, hpayload, hbodyNullish⟩⟩

theorem noBigint_of_toBytes {raw : List UInt8} (h : envelope.toBytes = .ok raw) :
    Every NoBigint envelope.payload := by
  have hdocument : ∃ tree, envelope.toWire.document = .ok tree := by
    unfold toBytes stringify at h
    simp only [bind, Result.bind_eq_ok, Result.map_eq_ok] at h
    obtain ⟨-, ⟨tree, htree, -⟩, -⟩ := h
    exact ⟨tree, htree⟩
  obtain ⟨tree, htree⟩ := hdocument
  have hwire := noBigint_of_document htree
  exact (every_object.mp hwire).2 (units "payload", envelope.payload) (by simp)

end EventEnvelope

namespace Idempotency

-- The key derived on the far side of the wire is the one derived before it.
def Stable (sha256 : List UInt8 → List Char) (envelope : EventEnvelope)
    (eventType : List CodeUnit) (keyFields : List (List CodeUnit)) (key : List Char) : Prop :=
  ∃ raw back payload, envelope.toBytes = .ok raw ∧ EventEnvelope.fromBytes raw = .ok back ∧
    back.payload = .object payload ∧
    deriveIdempotencyKey sha256 eventType payload keyFields = .ok key

theorem key_stable_iff {sha256 : List UInt8 → List Char} {envelope : EventEnvelope}
    {eventType : List CodeUnit} {payload : List (List CodeUnit × JsonValue)}
    {keyFields : List (List CodeUnit)} {key : List Char} (htyped : envelope.Typed)
    (hbody : envelope.payload = .object payload) (hdeclared : Every Declared (.object payload))
    (hderive : deriveIdempotencyKey sha256 eventType payload keyFields = .ok key)
    (hsha : ∀ bytes, Hashed bytes → sha256 bytes = key → ∃ text,
      canonicalJson (document eventType payload keyFields) = .ok text ∧
        bytes = Utf8.encode text) :
    Stable sha256 envelope eventType keyFields key ↔
      Every NoBigint (.object payload) ∧ ∀ name ∈ keyFields, Preserved payload keyFields name := by
  obtain ⟨hne, -, haccepts, hkey⟩ := derive_eq_ok_iff.mp hderive
  constructor
  · rintro ⟨raw, back, others, hraw, hback, hothers, hrederive⟩
    have hbigint := EventEnvelope.noBigint_of_toBytes hraw
    rw [hbody] at hbigint
    obtain ⟨raw', back', hraw', hback', hpayload⟩ :=
      EventEnvelope.exists_fromBytes htyped hbody hbigint hdeclared
    obtain rfl : raw = raw' := Except.ok.inj (hraw.symm.trans hraw')
    obtain rfl : back = back' := Except.ok.inj (hback.symm.trans hback')
    have hcarried : carried (.object payload) = .object others := hpayload.symm.trans hothers
    obtain ⟨-, hpresent, hrefuses, hrekey⟩ := derive_eq_ok_iff.mp hrederive
    have hdefined : ∀ name ∈ keyFields, isDefined (field payload name) = true :=
      fun name hname => (mem_keys_carried hbigint hdeclared hcarried).mp (hpresent name hname)
    obtain ⟨text, htext, hbytes⟩ :=
      hsha _ ⟨_, _, _, _, encode_of_accepts hrefuses, rfl⟩ hrekey.symm
    obtain ⟨-, rfl⟩ := encode_eq_ok_iff.mp htext
    exact ⟨hbigint, (written_carried_iff hbigint hdeclared hcarried hdefined haccepts hrefuses).mp
      (Utf8.encode_injective hbytes)⟩
  · rintro ⟨hbigint, hpreserved⟩
    obtain ⟨raw, back, hraw, hback, hpayload⟩ :=
      EventEnvelope.exists_fromBytes htyped hbody hbigint hdeclared
    obtain ⟨others, hcarried, -⟩ :=
      exists_carried_object (every_object.mp hbigint).2 hdeclared
    have hdefined : ∀ name ∈ keyFields, isDefined (field payload name) = true :=
      fun name hname => (hpreserved name hname).defined
    have hothers := accepts_document_carried hbigint hdeclared hcarried hpreserved haccepts
    have hwritten := (written_carried_iff hbigint hdeclared hcarried hdefined haccepts hothers).mpr
      hpreserved
    refine ⟨raw, back, others, hraw, hback, hpayload.trans hcarried, derive_eq_ok_iff.mpr
      ⟨hne, fun name hname => ?_, hothers, by rw [hwritten, hkey]⟩⟩
    exact (mem_keys_carried hbigint hdeclared hcarried).mpr (hdefined name hname)

end Idempotency

def sampleEnvelope (payload : JsonValue) : EventEnvelope :=
  newEnvelope (units "9f1c2a44-8a5e-4c55-9a0e-6f5d0c5f1a77") (units "2026-05-18T12:00:00.000Z")
    { eventType := .string (units "signal")
      payload
      producerId := .string (units "scanner-1")
      idempotencyKey := .string (units "key")
      provenance := provenance (.string (units "system")) (.string (units "dns-lookup")) }

theorem typed_sampleEnvelope (payload : JsonValue) : (sampleEnvelope payload).Typed where
  eventType := ⟨_, rfl⟩
  eventVersion := ⟨_, rfl⟩
  producerId := ⟨_, rfl⟩
  idempotencyKey := ⟨_, rfl⟩
  source := ⟨_, rfl⟩
  method := ⟨_, rfl⟩
  contributorIdentity := Or.inl rfl
  nodup := List.nodup_nil
  traceContext := fun _ h => absurd h List.not_mem_nil
  eventId := ⟨_, rfl⟩
  producedAt := ⟨_, rfl⟩

namespace Idempotency

open EventBus.Idempotency (signalDigest)

-- A hole outside of the key fields does no harm.
def taggedPayload : List (List CodeUnit × JsonValue) :=
  [(units "domain_id", .number EventBus.one), (units "tags", .array [.hole, .null])]

theorem key_stable_signal :
    ∃ key, deriveIdempotencyKey signalDigest (units "signal") taggedPayload [units "domain_id"] =
        .ok key ∧
      (Stable signalDigest (sampleEnvelope (.object taggedPayload)) (units "signal")
          [units "domain_id"] key ↔
        Every NoBigint (.object taggedPayload) ∧
          ∀ name ∈ [units "domain_id"], Preserved taggedPayload [units "domain_id"] name) := by
  have haccepts : Every Accepts (document (units "signal") taggedPayload [units "domain_id"]) :=
    accepts_document_iff.mpr fun name hkept => by
      rw [List.mem_singleton.mp hkept.1]
      exact Double.isInteger_whole 1 (by decide)
  have hderive := (@derive_eq_ok_iff signalDigest (units "signal") taggedPayload
    [units "domain_id"] _).mpr ⟨by decide, by decide, haccepts, rfl⟩
  have hnodup : (Members.keys taggedPayload).Nodup := by
    decide
  have hdeclared : Every Declared (.object taggedPayload) :=
    every_object.mpr ⟨hnodup, by simp [taggedPayload, Every, EveryItem, Declared]⟩
  exact ⟨_, hderive, key_stable_iff (typed_sampleEnvelope _) rfl hdeclared hderive
    fun _ _ h => ⟨_, encode_of_accepts haccepts,
      EventBus.Idempotency.digestAt_injective (by decide) h⟩⟩

-- A key is made of a bigint that no envelope can be written with.
theorem not_key_stable_bigint :
    deriveIdempotencyKey signalDigest (units "signal") [(units "domain_id", .bigint 1)]
        [units "domain_id"] =
      .ok "5dc9e76c6e22d16c07c72bfec433817fdc6ecb70ed479344e72246cb620a64b2".toList ∧
    ¬ Stable signalDigest (sampleEnvelope (.object [(units "domain_id", .bigint 1)]))
      (units "signal") [units "domain_id"]
      "5dc9e76c6e22d16c07c72bfec433817fdc6ecb70ed479344e72246cb620a64b2".toList := by
  refine ⟨by decide +kernel, ?_⟩
  rintro ⟨raw, back, others, hraw, -⟩
  have hbigint := EventEnvelope.noBigint_of_toBytes hraw
  exact absurd ((every_object.mp hbigint).2 _ List.mem_cons_self).self id

end Idempotency

end TrustlistCore.EventBus.TypeScript
