import TrustlistCore.DataModel.Theorems
import TrustlistCore.EventBus.EnvelopeHop
import TrustlistCore.EventBus.SchemaRegistry
import TrustlistCore.EvidenceWriter.Commits

namespace TrustlistCore.EvidenceWriter

open Library Unicode EventBus DataModel

def exampleEventType : Text :=
  points "signal.tier-one.example-collector"

-- A message that the consumer hands to its handler: it decodes, and its payload passes the
-- check against the committed schema.
structure Admits (readers : Readers) (registry : SchemaRegistry) (maxStrDigits : ℕ)
    (raw : List UInt8) (envelope : EventEnvelope) : Prop where
  decoded : EventEnvelope.fromBytes maxStrDigits raw readers = .ok envelope
  eventType : envelope.eventType = .str exampleEventType
  validated : ∃ cache cache', registry.Serves cache exampleEventType exampleCollector ∧
    (registry.validate envelope.eventType envelope.payload).run cache = .ok () cache'

section Constraints

variable {Timestamp Jsonb : Type} (server : Server Timestamp Jsonb) (str : Value → Text)
  (maxStrDigits : ℕ) (committed : Tables Timestamp Jsonb)

-- What neither the decoder nor the schema asks of a signal.
structure WellFormed (envelope : EventEnvelope) : Prop where
  domain : ∃ text domainId, Value.subscript envelope.payload "domain_id" = .ok (.str text) ∧
    uuidInput text = some domainId ∧
      ((∃ row ∈ committed.domain, row.domainId = domainId) ∨
        (∀ point ∈ text, isUpper point = false) ∧
          ∀ row ∈ committed.domain, row.normalisedUrl ≠ text ++ points ".smoke.trustlist.test")
  signalClass : ∃ text, Value.subscript envelope.payload "signal_class" = .ok (.str text) ∧
    server.accepts text = true
  sourceUrl : server.accepts (str (sourceUrl envelope.payload)) = true
  observedAt : ∃ text, Value.subscript envelope.payload "observed_at" = .ok (.str text) ∧
    (server.timestamptz text).isSome = true
  observedValue : ∃ value tree, Value.subscript envelope.payload "observed_value" = .ok value ∧
    Value.document { sortKeys := false, defaultStr := false } maxStrDigits value = .ok tree ∧
      (server.jsonb tree).isSome = true
  source : ∃ label ∈ ["system", "human", "contributor", "cti_partner"],
    envelope.provenance.source = .str (points label)
  method : Takes server envelope.provenance.method
  contributorIdentity : envelope.provenance.contributorIdentity = .none ∨
    Takes server envelope.provenance.contributorIdentity

end Constraints

section Theorems

variable {Timestamp Jsonb : Type} {server : Server Timestamp Jsonb}

end Theorems

section Admitted

variable {Timestamp Jsonb : Type} (server : Server Timestamp Jsonb) (readers : Readers)
  (registry : SchemaRegistry) (str : Value → Text) (maxStrDigits : ℕ)

end Admitted

section Example

end Example

end TrustlistCore.EvidenceWriter
