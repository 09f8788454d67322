import TrustlistCore.Auth.Audit.Theorems
import TrustlistCore.Auth.CredentialStore

namespace TrustlistCore.Auth

open Library

variable {Salt Hash Uuid : Type} [DecidableEq Uuid]

-- Two events that differ at most in their generated id and in the clock reading.
structure AuditEvent.SameEntry (event other : AuditEvent) : Prop where
  eventType : event.eventType = other.eventType
  userId : event.userId = other.userId
  ipAddress : event.ipAddressObserved = other.ipAddressObserved
  userAgent : event.userAgentObserved = other.userAgentObserved
  details : event.eventDetails = other.eventDetails

namespace AuthService

-- The same events are appended to the table and handed to the sink.
def Recorded (before after : ServiceState Hash Uuid) (events : List AuditEvent) : Prop :=
  after.audit.database.authAuditEvent = before.audit.database.authAuditEvent ++ events ∧
    after.audit.mirrored = before.audit.mirrored ++ events

def loginFailure (g : Generated Salt) (archetype : Archetype) (email : Text)
    (ipAddress userAgent : Option String) : AuditEvent :=
  AuditTrail.entry g .LOGIN_FAILURE none ipAddress userAgent
    [("archetype", .text archetype.value), ("email", .str email)]

section Unmatched

variable (rt : Runtime Salt Hash Uuid) (hsink : ∀ mirrored event, rt.emit mirrored event = none)
  (g : Generated Salt) (state : ServiceState Hash Uuid) (archetype : Archetype)
  (email : Text) (password : String) (ipAddress userAgent : Option String)

end Unmatched

end AuthService

end TrustlistCore.Auth
