import TrustlistCore.EventBus.TypeScript.Envelope
import TrustlistCore.Library.Result

namespace TrustlistCore.EventBus.TypeScript

open Library JsonValue

-- What `provenanceFromWire` reads of a wire object.
structure Provenance.Denotes (data : JsonValue) (provenance : Provenance) : Prop where
  source : property data "source" = .ok provenance.source
  method : property data "method" = .ok provenance.method
  contributorIdentity : ∃ value, property data "contributor_identity" = .ok value ∧
    coalesce value .null = provenance.contributorIdentity

theorem provenanceFromWire_eq_ok_iff {data : JsonValue} {provenance : Provenance} :
    provenanceFromWire data = .ok provenance ↔ Provenance.Denotes data provenance := by
  simp only [provenanceFromWire, bind, Result.bind_eq_ok, Except.ok.injEq]
  constructor
  · rintro ⟨source, hsource, method, hmethod, value, hvalue, rfl⟩
    exact ⟨hsource, hmethod, value, hvalue, rfl⟩
  · intro h
    obtain ⟨value, hvalue, hidentity⟩ := h.contributorIdentity
    refine ⟨_, h.source, _, h.method, value, hvalue, ?_⟩
    rw [hidentity]

namespace EventEnvelope

theorem checkRequired_eq_ok_iff {data : JsonValue} {fields : List String} :
    checkRequired data fields = .ok () ↔
      ∀ field ∈ fields, ∃ value, property data field = .ok value ∧ isNullish value = false := by
  induction fields with
  | nil => simp [checkRequired]
  | cons field fields ih =>
      simp only [checkRequired, bind, Result.bind_eq_ok, List.forall_mem_cons]
      constructor
      · rintro ⟨value, hvalue, hrest⟩
        split at hrest
        · exact nomatch hrest
        · rename_i hpresent
          rw [Bool.not_eq_true] at hpresent
          exact ⟨⟨value, hvalue, hpresent⟩, ih.mp hrest⟩
      · rintro ⟨⟨value, hvalue, hpresent⟩, hrest⟩
        refine ⟨value, hvalue, ?_⟩
        rw [hpresent, if_neg Bool.false_ne_true]
        exact ih.mpr hrest

structure Denotes (data : JsonValue) (envelope : EventEnvelope) : Prop where
  required : ∀ field ∈ required, ∃ value, property data field = .ok value ∧ isNullish value = false
  eventId : property data "event_id" = .ok envelope.eventId
  eventType : property data "event_type" = .ok envelope.eventType
  eventVersion : property data "event_version" = .ok envelope.eventVersion
  producedAt : property data "produced_at" = .ok envelope.producedAt
  producerId : property data "producer_id" = .ok envelope.producerId
  traceContext : ∃ value, property data "trace_context" = .ok value ∧
    spread (coalesce value (.object [])) = envelope.traceContext
  idempotencyKey : property data "idempotency_key" = .ok envelope.idempotencyKey
  provenance : ∃ value, property data "provenance" = .ok value ∧
    Provenance.Denotes value envelope.provenance
  payload : property data "payload" = .ok envelope.payload

theorem fromWire_eq_ok_iff {data : JsonValue} {envelope : EventEnvelope} :
    fromWire data = .ok envelope ↔ Denotes data envelope := by
  simp only [fromWire, bind, Result.bind_eq_ok, Except.ok.injEq, provenanceFromWire_eq_ok_iff]
  constructor
  · rintro ⟨_, hrequired, eventId, hid, eventType, htype, eventVersion, hversion, producedAt, hat,
      producerId, hproducer, traceContext, htrace, idempotencyKey, hkey, value, hvalue, provenance,
      hprovenance, payload, hpayload, rfl⟩
    exact ⟨checkRequired_eq_ok_iff.mp hrequired, hid, htype, hversion, hat, hproducer,
      ⟨traceContext, htrace, rfl⟩, hkey, ⟨value, hvalue, hprovenance⟩, hpayload⟩
  · intro h
    obtain ⟨traceContext, htrace, hspread⟩ := h.traceContext
    obtain ⟨value, hvalue, hprovenance⟩ := h.provenance
    refine ⟨(), checkRequired_eq_ok_iff.mpr h.required, _, h.eventId, _, h.eventType, _,
      h.eventVersion, _, h.producedAt, _, h.producerId, traceContext, htrace, _, h.idempotencyKey,
      value, hvalue, _, hprovenance, _, h.payload, ?_⟩
    rw [hspread]

end EventEnvelope

end TrustlistCore.EventBus.TypeScript
