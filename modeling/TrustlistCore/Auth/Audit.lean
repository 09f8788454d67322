import TrustlistCore.Auth.RoleStore
import Mathlib.Data.String.Basic

namespace TrustlistCore.Auth

def FORBIDDEN_DETAIL_KEYS : List String :=
  ["password", "plaintext", "new_password", "old_password", "totp_secret", "secret",
    "password_hash", "code", "totp_code"]

-- The connection of the unit of work together with what the sink has been handed.
structure AuditState (Uuid : Type) [DecidableEq Uuid] where
  database : Database Uuid
  mirrored : List AuditEvent

namespace AuditTrail

variable {Salt Hash Uuid : Type} [DecidableEq Uuid]

-- The forbidden names among the detail keys, compared without regard to case. Only
-- the top level of the object is looked at.
def forbiddenKeys (rt : Runtime Salt Hash Uuid) (details : List (String × Detail)) :
    List String :=
  FORBIDDEN_DETAIL_KEYS.filter (fun key => key ∈ details.map (fun member => rt.lower member.1))

def insertRow (rt : Runtime Salt Hash Uuid) (event : AuditEvent) :
    EStateM Failure (AuditState Uuid) Unit := do
  let state ← get
  match state.database.insertAuditEvent rt.uuid rt.admits event with
  | .ok database => set { state with database := database }
  | .error failure => throw failure

def emit (rt : Runtime Salt Hash Uuid) (event : AuditEvent) :
    EStateM Failure (AuditState Uuid) Unit := do
  let state ← get
  set { state with mirrored := state.mirrored ++ [event] }
  match rt.emit state.mirrored event with
  | none => return ()
  | some failure => throw failure

def record (rt : Runtime Salt Hash Uuid) (eventType : AuthEventType)
    (userId ipAddressObserved userAgentObserved : Option String)
    (eventDetails : List (String × Detail)) (eventId : String) (now : Instant) :
    EStateM Failure (AuditState Uuid) AuditEvent := do
  let forbidden := forbiddenKeys rt eventDetails
  if forbidden ≠ [] then
    let offending := ", ".intercalate (forbidden.mergeSort (fun a b => decide (a ≤ b)))
    throw (.valueError
      s!"audit event_details must never carry credential material; forbidden key(s): {offending}")
  let event : AuditEvent :=
    { eventId := eventId
      eventType := eventType
      occurredAt := now
      userId := userId
      ipAddressObserved := ipAddressObserved
      userAgentObserved := userAgentObserved
      eventDetails := eventDetails }
  insertRow rt event
  emit rt event
  return event

end AuditTrail

end TrustlistCore.Auth
