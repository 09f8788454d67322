import TrustlistCore.EventBus.Envelope
import TrustlistCore.Library.Frame

namespace TrustlistCore.EventBus

open Library Unicode

inductive JsonType
  | string
  | object
  deriving DecidableEq, Repr

-- The keywords of the committed schema files that say something of an instance.
structure PropertySchema where
  name : String
  type : JsonType
  minLength : ℕ := 0
  format : Option String := none

structure PayloadSchema where
  required : List String
  properties : List PropertySchema
  additionalProperties : Bool

namespace PropertySchema

-- `format` annotates and asserts nothing.
def admits (property : PropertySchema) : Value → Bool
  | .str text => property.type = .string ∧ property.minLength ≤ text.length
  | .dict _ => property.type = .object
  | _ => false

end PropertySchema

namespace PayloadSchema

-- The dialect's semantics of an object schema.
def admits (schema : PayloadSchema) : Value → Bool
  | .dict members =>
      (schema.required.all fun name => (Members.find members (points name)).isSome) &&
      (schema.additionalProperties || members.all fun member =>
        schema.properties.any fun property => points property.name = member.1) &&
      schema.properties.all fun property =>
        match Members.find members (points property.name) with
        | some value => property.admits value
        | none => true
  | _ => false

end PayloadSchema

-- `event-schema/signal.tier-one.example-collector.schema.json`
def exampleCollector : PayloadSchema where
  required := ["domain_id", "signal_class", "observed_at", "observed_value"]
  properties :=
    [{ name := "domain_id", type := .string, format := some "uuid" },
      { name := "signal_class", type := .string, minLength := 1 },
      { name := "source_url", type := .string },
      { name := "observed_at", type := .string, format := some "date-time" },
      { name := "observed_value", type := .object }]
  additionalProperties := false

def subjectFor (eventType : List CodePoint) : List CodePoint :=
  eventType ++ points "-value"

-- What the registry's client and `jsonschema` answer: the body of a subject's latest schema or
-- the text of an error, and the message of the error that a payload raises.
structure SchemaRegistry where
  getLatestVersion : List CodePoint → Except String (Option PayloadSchema)
  validationError : PayloadSchema → Value → Option String
  str : Value → List CodePoint
  repr : Value → String

abbrev ValidatorCache :=
  List (Value.Key × PayloadSchema)

namespace SchemaRegistry

def validator (registry : SchemaRegistry) (eventType : Value) :
    EStateM Failure ValidatorCache PayloadSchema := do
  match eventType.key with
  | none => throw (.typeError s!"unhashable type: '{eventType.className}'")
  | some key =>
      match Members.find (← get) key with
      | some cached => return cached
      | none =>
          let subject := subjectFor (registry.str eventType)
          match registry.getLatestVersion subject with
          | .error text =>
              throw (.schema
                s!"no schema registered for event_type {registry.repr eventType} (subject {registry.repr (.str subject)}): {text}")
          | .ok none =>
              throw (.schema
                s!"registry returned an empty schema body for event_type {registry.repr eventType}.")
          | .ok (some schema) =>
              modify fun cache => Members.insert cache key schema
              return schema

def validate (registry : SchemaRegistry) (eventType payload : Value) :
    EStateM Failure ValidatorCache Unit := do
  let schema ← registry.validator eventType
  match registry.validationError schema payload with
  | none => return ()
  | some message =>
      throw (.schema
        s!"payload for event_type {registry.repr eventType} failed schema validation: {message}")

-- The registry, and what is cached of it, has the committed schema for an event type.
structure Serves (registry : SchemaRegistry) (cache : ValidatorCache) (eventType : List CodePoint)
    (schema : PayloadSchema) : Prop where
  text : registry.str (.str eventType) = eventType
  latest : registry.getLatestVersion (subjectFor eventType) = .ok (some schema)
  cached : ∀ cached, Members.find cache (Value.Key.str eventType) = some cached → cached = schema

theorem validator_of_serves {registry : SchemaRegistry} {cache : ValidatorCache}
    {eventType : List CodePoint} {schema : PayloadSchema}
    (h : registry.Serves cache eventType schema) :
    ∃ cache', (registry.validator (.str eventType)).run cache = .ok schema cache' := by
  rw [exists_run_eq_ok_iff]
  simp only [validator, Value.key, wp_bind, wp_get]
  cases hcached : Members.find cache (Value.Key.str eventType) with
  | some cached =>
      obtain rfl := h.cached cached hcached
      simp only [wp_pure]
  | none => simp only [h.text, h.latest, wp_bind, wp_modify, wp_pure]

theorem validate_eq_ok_iff {registry : SchemaRegistry} {cache : ValidatorCache}
    {eventType : List CodePoint} {schema : PayloadSchema}
    (h : registry.Serves cache eventType schema) {payload : Value} :
    (∃ cache', (registry.validate (.str eventType) payload).run cache = .ok () cache') ↔
      registry.validationError schema payload = none := by
  obtain ⟨cache', hrun⟩ := validator_of_serves h
  rw [exists_run_eq_ok_iff]
  simp only [validate, wp_bind, wp_of_run_ok hrun]
  cases registry.validationError schema payload with
  | none => simp only [wp_pure]
  | some message => simp only [wp_throw, reduceCtorEq]

end SchemaRegistry

end TrustlistCore.EventBus
