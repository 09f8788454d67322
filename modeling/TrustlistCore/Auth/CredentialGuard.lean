import TrustlistCore.Auth.Audit.Theorems

namespace TrustlistCore.Auth

open Library

namespace Detail

mutual

-- The keys of every dict inside a value.
def keys : Detail → List String
  | .list items => itemKeys items
  | .dict members => memberKeys members
  | _ => []

def itemKeys : List Detail → List String
  | [] => []
  | item :: items => keys item ++ itemKeys items

def memberKeys : List (String × Detail) → List String
  | [] => []
  | (key, value) :: members => key :: (keys value ++ memberKeys members)

end

end Detail

namespace AuditTrail

variable {Salt Hash Uuid : Type} [DecidableEq Uuid]

-- Some key, at whatever depth, is a forbidden one in all but its case.
def CarriesCredential (rt : Runtime Salt Hash Uuid) (details : List (String × Detail)) : Prop :=
  ∃ key ∈ Detail.memberKeys details, rt.lower key ∈ FORBIDDEN_DETAIL_KEYS

-- The guard's answer: a `ValueError`, no row and nothing for the sink.
def Refused (before : AuditState Uuid) (answer : Except Failure AuditEvent)
    (after : AuditState Uuid) : Prop :=
  (∃ message, answer = .error (.valueError message)) ∧ after = before

-- What reaches the table and the sink carries the given details, and something does
-- wherever the table takes the row.
def CarriedWhole (rt : Runtime Salt Hash Uuid) (event : AuditEvent)
    (details : List (String × Detail)) (before after : AuditState Uuid) : Prop :=
  ∃ events, after.database.authAuditEvent = before.database.authAuditEvent ++ events ∧
    after.mirrored = before.mirrored ++ events ∧
    (∀ row ∈ events, row.eventDetails = details) ∧
    ((∃ next, before.database.insertAuditEvent rt.uuid rt.admits event = .ok next) → events ≠ [])

-- The promise about one call of `record`.
def Guarded (rt : Runtime Salt Hash Uuid) (g : Generated Salt) (eventType : AuthEventType)
    (userId ipAddress userAgent : Option String) (details : List (String × Detail))
    (state : AuditState Uuid) : Prop :=
  (CarriesCredential rt details →
    wp (record rt eventType userId ipAddress userAgent details g.eventId g.auditNow)
      (Refused state) state) ∧
  (¬ CarriesCredential rt details →
    wp (record rt eventType userId ipAddress userAgent details g.eventId g.auditNow)
      (fun _ after => CarriedWhole rt
        (entry g eventType userId ipAddress userAgent details) details state after) state)

section Guard

variable (rt : Runtime Salt Hash Uuid) (g : Generated Salt) (eventType : AuthEventType)
  (userId ipAddress userAgent : Option String) {details : List (String × Detail)}
  (state : AuditState Uuid)

end Guard

end AuditTrail

end TrustlistCore.Auth
