import Mathlib.Data.List.DropRight
import TrustlistCore.EventBus.SchemaRegistry
import TrustlistCore.EventBus.TypeScript.Consumer
import TrustlistCore.EventBus.TypeScript.Envelope

namespace TrustlistCore.EventBus.TypeScript

open Library Unicode

-- What `validate` throws, and the rejection of `response.json()`.
inductive ValidateFailure
  | schemaRegistryError (message : List CodeUnit)
  | schemaValidationError (message : List CodeUnit)
  | syntaxError (message : List CodeUnit)

structure ErrorObject where
  instancePath : List CodeUnit
  message : Option (List CodeUnit)

-- A compiled schema: nothing for a payload that conforms, else `validator.errors`.
abbrev ValidateFunction :=
  JsonValue → Option (List ErrorObject)

-- How the request for a subject's latest version comes back.
inductive Answer
  | rejected (cause : List CodeUnit)
  | notOk (status : ℕ) (body : List CodeUnit)
  | unreadable (cause : List CodeUnit)
  | body (schema : List Char)

def subjectFor (eventType : List CodeUnit) : List CodeUnit :=
  eventType ++ units "-value"

-- The white space and the line terminators of the language.
def isWhiteSpace (unit : CodeUnit) : Bool :=
  (0x09 ≤ unit.val ∧ unit.val ≤ 0x0D) ∨ (0x2000 ≤ unit.val ∧ unit.val ≤ 0x200A) ∨
    unit.val ∈ [0x20, 0xA0, 0x1680, 0x2028, 0x2029, 0x202F, 0x205F, 0x3000, 0xFEFF]

def trim (text : List CodeUnit) : List CodeUnit :=
  (text.dropWhile isWhiteSpace).rdropWhile isWhiteSpace

def describe (error : ErrorObject) : List CodeUnit :=
  trim ((if error.instancePath = [] then units "/" else error.instancePath) ++ units " " ++
    error.message.getD [])

def detail (errors : List ErrorObject) : List CodeUnit :=
  (units "; ").intercalate (errors.map describe)

-- The keywords of the committed schema files as Ajv has them with `ajv-formats` added; `formats`
-- stands for the checks of the latter.
section Keywords

variable (formats : String → List CodeUnit → Bool)

def isPresent : Option JsonValue → Bool
  | none => false
  | some .undefined => false
  | some _ => true

def propertyConforms (property : PropertySchema) : JsonValue → Bool
  | .string text =>
      property.type = .string ∧ property.minLength ≤ (decode16 text).length ∧
        property.format.all fun format => formats format text
  | .object _ => property.type = .object
  | _ => false

def conforms (schema : PayloadSchema) : JsonValue → Bool
  | .object members =>
      (schema.required.all fun name => isPresent (Members.find members (units name))) &&
      (schema.additionalProperties || members.all fun member =>
        schema.properties.any fun property => units property.name = member.1) &&
      schema.properties.all fun property =>
        match Members.find members (units property.name) with
        | some .undefined => true
        | some value => propertyConforms formats property value
        | none => true
  | _ => false

end Keywords

namespace SchemaRegistry

-- Where a call of `validate` stands between two of its awaits.
inductive Call
  | idle
  | fetching (eventType : List CodeUnit) (payload : JsonValue)
  | fetched (eventType : List CodeUnit) (payload : JsonValue) (schema : List Char)
  | checking (eventType : List CodeUnit) (payload : JsonValue) (validator : ValidateFunction)
  | settled (eventType : List CodeUnit) (payload : JsonValue) (verdict : Except ValidateFailure Unit)

-- One instance: the names its Ajv has in use, its cache, and the calls made of it.
structure State (T : Type) where
  refs : List (List CodeUnit)
  validatorCache : List (List CodeUnit × ValidateFunction)
  calls : T → Call

-- What the event loop runs next, up to the next await of that call.
inductive Input (T : Type)
  | validate (call : T) (eventType : List CodeUnit) (payload : JsonValue)
  | answer (call : T) (answer : Answer)
  | compile (call : T)
  | check (call : T)

def schemaId : JsonValue → List CodeUnit
  | .object members =>
      match Members.find members (units "$id") with
      | some (.string id) => id
      | _ => []
  | _ => []

def fresh (T : Type) : State T where
  refs := []
  validatorCache := []
  calls _ := .idle

def verdict (validator : ValidateFunction) (eventType : List CodeUnit) (payload : JsonValue) :
    Except ValidateFailure Unit :=
  match validator payload with
  | none => .ok ()
  | some errors =>
      .error (.schemaValidationError (units "payload for event_type '" ++ eventType ++
        units "' failed schema validation: " ++
        (if detail errors = [] then units "payload did not conform to the registered schema"
          else detail errors)))

section Machine

variable {T : Type} [DecidableEq T]

def State.set (state : State T) (call : T) (next : Call) : State T :=
  { state with calls := Function.update state.calls call next }

theorem State.calls_set (state : State T) (call : T) (next : Call) (other : T) :
    (state.set call next).calls other = if other = call then next else state.calls other := by
  simp only [State.set, Function.update_apply]

-- `compile` stands for what Ajv makes of a schema on an instance that has no other.
variable (compile : JsonValue → Except (List CodeUnit) ValidateFunction)

-- `this.ajv.compile(schemaDoc)`. Every parse makes an object of its own, so a name in use is
-- that of another one.
def ajvCompile (refs : List (List CodeUnit)) (schemaDoc : JsonValue) :
    Except (List CodeUnit) ValidateFunction × List (List CodeUnit) :=
  let id := schemaId schemaDoc
  if id = [] then (compile schemaDoc, refs)
  else if refs.contains id then
    (.error (units "schema with key or id \"" ++ id ++ units "\" already exists"), refs)
  else (compile schemaDoc, refs ++ [id])

def unreachable (eventType cause : List CodeUnit) : ValidateFailure :=
  .schemaRegistryError (units "failed to reach the schema registry for event_type '" ++ eventType ++
    units "' (subject '" ++ subjectFor eventType ++ units "'): " ++ cause)

def unregistered (eventType : List CodeUnit) (status : ℕ) (body : List CodeUnit) : ValidateFailure :=
  .schemaRegistryError (units "no schema registered for event_type '" ++ eventType ++
    units "' (subject '" ++ subjectFor eventType ++ units "'): registry responded " ++
    units (toString status) ++ units " " ++ body)

def malformed (eventType cause : List CodeUnit) : ValidateFailure :=
  .schemaRegistryError (units "registry returned a malformed schema body for event_type '" ++
    eventType ++ units "': " ++ cause)

def uncompiled (eventType cause : List CodeUnit) : ValidateFailure :=
  .schemaRegistryError (units "registered schema for event_type '" ++ eventType ++
    units "' did not compile: " ++ cause)

def step (state : State T) : Input T → Unit × State T
  | .validate call eventType payload =>
      match Members.find state.validatorCache eventType with
      | some cached => ((), state.set call (.checking eventType payload cached))
      | none => ((), state.set call (.fetching eventType payload))
  | .answer call answer =>
      match state.calls call with
      | .fetching eventType payload =>
          match answer with
          | .rejected cause =>
              ((), state.set call (.settled eventType payload (.error (unreachable eventType cause))))
          | .notOk status body =>
              ((), state.set call
                (.settled eventType payload (.error (unregistered eventType status body))))
          | .unreadable cause =>
              ((), state.set call (.settled eventType payload (.error (.syntaxError cause))))
          | .body schema => ((), state.set call (.fetched eventType payload schema))
      | _ => ((), state)
  | .compile call =>
      match state.calls call with
      | .fetched eventType payload schema =>
          match JsonValue.parse schema with
          | .error cause =>
              ((), state.set call (.settled eventType payload
                (.error (malformed eventType (units (EventConsumer.causeMessage cause))))))
          | .ok schemaDoc =>
              match ajvCompile compile state.refs schemaDoc with
              | (.error cause, refs) =>
                  ((), { state.set call (.settled eventType payload
                      (.error (uncompiled eventType cause))) with refs := refs })
              | (.ok validator, refs) =>
                  ((), { state.set call (.checking eventType payload validator) with
                    refs := refs
                    validatorCache := Members.insert state.validatorCache eventType validator })
      | _ => ((), state)
  | .check call =>
      match state.calls call with
      | .checking eventType payload validator =>
          ((), state.set call (.settled eventType payload (verdict validator eventType payload)))
      | _ => ((), state)

end Machine

end SchemaRegistry

end TrustlistCore.EventBus.TypeScript
