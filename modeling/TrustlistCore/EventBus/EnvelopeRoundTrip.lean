import TrustlistCore.EventBus.Envelope.Theorems

namespace TrustlistCore.EventBus

open Library Unicode Value

namespace EventEnvelope

-- What is written is read back, for any values that JSON text can hold.
theorem fromBytes_of_readable {maxStrDigits : ℕ} {envelope : EventEnvelope}
    {members : List (List CodePoint × Value)} (hcarries : envelope.Carries members)
    (hreadable : Readable (envelope.toDict (.dict members)))
    (hprints : Every (Prints wire maxStrDigits) (envelope.toDict (.dict members))) :
    ∃ raw, envelope.toBytes maxStrDigits = .ok raw ∧ fromBytes maxStrDigits raw = .ok envelope := by
  obtain ⟨text, hdumps⟩ : ∃ text, dumps wire maxStrDigits (envelope.toDict (.dict members)) =
      .ok text := ⟨_, dumps_eq_ok_iff.mpr ⟨hprints, rfl⟩⟩
  have hloads := loads_dumps rfl hreadable hdumps
  have hread := fromDict_eq_ok_iff.mpr (denotes_toDict hcarries)
  refine ⟨Utf8.encode text, ?_, ?_⟩
  · unfold toBytes
    rw [carrier_of_carries hcarries]
    simp only [bind, Except.bind, hdumps]
    rfl
  · unfold fromBytes
    rw [Utf8.decode_encode]
    simp only [hloads, bind, Except.bind, hread]

end EventEnvelope

open EventEnvelope

-- Of all a typed call takes, only an integer past the limit on digits is not written.
theorem fromBytes_toBytes {maxStrDigits : ℕ} {uuid4 : Uuid} {now : DateTime}
    {arguments : Arguments} {envelope : EventEnvelope} (htyped : arguments.Typed Scalar)
    (hplain : Plain arguments.payload) (hfits : Every (Prints wire maxStrDigits) arguments.payload)
    (hnew : newEnvelope uuid4 now arguments = .ok envelope) :
    ∃ raw, envelope.toBytes maxStrDigits = .ok raw ∧ fromBytes maxStrDigits raw = .ok envelope := by
  obtain ⟨⟨members, hfields⟩, hpayload⟩ := htyped.envelope hnew
  apply fromBytes_of_readable hfields.carries
  · apply hfields.readable (fun _ h => h) (fun _ h => decode16_utf16 h)
    rw [hpayload]
    exact hplain.readable
  · apply hfields.every_toDict (fun _ h => h) (fun _ _ => trivial) trivial trivial trivial trivial
    rw [hpayload]
    exact hfits

theorem text_points (text : String) : Text Scalar (.str (points text)) :=
  ⟨_, rfl, scalar_points text⟩

-- An offset with seconds and a fraction, on the western side.
def sampleTime : DateTime where
  year := 2026
  month := 2
  day := 28
  hour := 23
  minute := 59
  second := 5
  microsecond := 7
  offset := some (-19800000001)
  valid := by decide

def sampleId : Uuid :=
  ⟨0x0123456789abcdef0123456789abcdef⟩

def observed (payload : Value) : Arguments where
  eventType := .str (points "domain.observed")
  payload
  producerId := .str (points "collector-1")
  idempotencyKey := .str (points "key")
  provenance :=
    { source := .str (points "human"), method := .str (points "probe"),
      contributorIdentity := .str [] }
  traceContext := .dict [(points "traceparent", .str (points "00"))]
  eventId := some sampleId
  producedAt := some sampleTime

def observedEnvelope (payload : Value) : EventEnvelope where
  eventType := .str (points "domain.observed")
  eventVersion := ENVELOPE_VERSION
  producerId := .str (points "collector-1")
  idempotencyKey := .str (points "key")
  provenance :=
    { source := .str (points "human"), method := .str (points "probe"),
      contributorIdentity := .str [] }
  payload
  traceContext := [(.str (points "traceparent"), .str (points "00"))]
  eventId := sampleId
  producedAt := sampleTime

theorem newEnvelope_observed (payload : Value) :
    newEnvelope sampleId sampleTime (observed payload) = .ok (observedEnvelope payload) := rfl

theorem typed_observed (payload : Value) : (observed payload).Typed Scalar where
  eventType := text_points _
  producerId := text_points _
  idempotencyKey := text_points _
  source := text_points _
  method := text_points _
  contributorIdentity := Or.inr ⟨[], rfl, by simp [Scalar]⟩
  traceContext := Or.inr ⟨_, rfl, by decide, by simp [Members.keys, scalar_points], by
    simp [text_points]⟩
  eventVersion := text_points _

-- A character past the basic plane, and nesting.
def nestedPayload : Value :=
  .dict [(points "tags", .list [.str [0x1F600], .none, .bool true]), (points "count", .int 1)]

theorem fromBytes_toBytes_observed :
    ∃ raw, (observedEnvelope nestedPayload).toBytes 4300 = .ok raw ∧
      fromBytes 4300 raw = .ok (observedEnvelope nestedPayload) := by
  refine fromBytes_toBytes (typed_observed _) ?_ ?_ (newEnvelope_observed _)
  · refine every_dict.mpr ⟨@plainNode_named _ ["tags", "count"] rfl (by decide), ?_⟩
    simp [Every, EveryItem, PlainNode, Scalar, isScalar]
  · have hone : exceeds 4300 (Nat.toDigits 10 1) = false := by decide
    simpa [observed, nestedPayload, Every, EveryItem, EveryMember, Prints] using hone

theorem prints_of_toBytes {maxStrDigits : ℕ} {envelope : EventEnvelope} {raw : List UInt8}
    (h : envelope.toBytes maxStrDigits = .ok raw) :
    ∃ traceContext, Every (Prints wire maxStrDigits) (envelope.toDict traceContext) := by
  simp only [toBytes, bind, Result.bind_eq_ok, Result.map_eq_ok] at h
  obtain ⟨traceContext, -, text, hdumps, -⟩ := h
  exact ⟨traceContext, (dumps_eq_ok_iff.mp hdumps).1⟩

def oversized : Value :=
  .dict [(points "count", .int (10 ^ 4300))]

-- A typed call with an integer past the limit is never written at all.
theorem toBytes_past_limit :
    (observed oversized).Typed Scalar ∧ Plain oversized ∧
      newEnvelope sampleId sampleTime (observed oversized) = .ok (observedEnvelope oversized) ∧
      ¬ ∃ raw, (observedEnvelope oversized).toBytes 4300 = .ok raw ∧
        fromBytes 4300 raw = .ok (observedEnvelope oversized) := by
  have hplain : Plain oversized :=
    every_dict.mpr ⟨@plainNode_named _ ["count"] rfl (by decide), fun member hm => by
      obtain rfl := List.mem_singleton.mp hm
      trivial⟩
  refine ⟨typed_observed _, hplain, newEnvelope_observed _, ?_⟩
  rintro ⟨raw, hraw, -⟩
  obtain ⟨traceContext, hprints⟩ := prints_of_toBytes hraw
  have hpayload : Every (Prints wire 4300) oversized :=
    (every_dict.mp hprints).2 (points "payload", oversized)
      (by simp only [List.mem_cons, observedEnvelope, or_true, true_or])
  have hfits : exceeds 4300 (Nat.toDigits 10 ((10 ^ 4300 : ℤ).natAbs)) = false :=
    (every_dict.mp hpayload).2 (points "count", .int (10 ^ 4300)) (List.mem_singleton.mpr rfl)
  rw [exceeds_pow (by decide)] at hfits
  exact absurd hfits (by decide)

end TrustlistCore.EventBus
