import TrustlistCore.Auth.Service.Theorems

namespace TrustlistCore.Auth

open Library

variable {Salt Hash Uuid : Type} [DecidableEq Uuid]

namespace AuditTrail

-- The event that a method of the service records.
def entry (g : Generated Salt) (eventType : AuthEventType)
    (userId ipAddress userAgent : Option String) (details : List (String × Detail)) : AuditEvent where
  eventId := g.eventId
  eventType := eventType
  occurredAt := g.auditNow
  userId := userId
  ipAddressObserved := ipAddress
  userAgentObserved := userAgent
  eventDetails := details

-- What `record` makes of an event: the tables with the new row, or why there is none.
def insertion (rt : Runtime Salt Hash Uuid) (database : Database Uuid) (event : AuditEvent) :
    Except Failure (Database Uuid) :=
  if forbiddenKeys rt event.eventDetails ≠ [] then
    let offending :=
      ", ".intercalate ((forbiddenKeys rt event.eventDetails).mergeSort (fun a b => decide (a ≤ b)))
    .error (.valueError
      s!"audit event_details must never carry credential material; forbidden key(s): {offending}")
  else database.insertAuditEvent rt.uuid rt.admits event

theorem insertion_eq_ok {rt : Runtime Salt Hash Uuid} {database next : Database Uuid}
    {event : AuditEvent} (h : insertion rt database event = .ok next) :
    next.authAuditEvent = database.authAuditEvent ++ [event] := by
  unfold insertion at h
  split_ifs at h
  exact (Database.insertAuditEvent_eq_ok _ _ _ _ _ h).2.2

theorem wp_record_iff (rt : Runtime Salt Hash Uuid) (g : Generated Salt)
    {Q : Except Failure AuditEvent → AuditState Uuid → Prop} (eventType : AuthEventType)
    (userId ipAddress userAgent : Option String) (details : List (String × Detail))
    (state : AuditState Uuid) :
    wp (record rt eventType userId ipAddress userAgent details g.eventId g.auditNow) Q state ↔
      let event := entry g eventType userId ipAddress userAgent details
      match insertion rt state.database event with
      | .error failure => Q (.error failure) state
      | .ok next =>
          match rt.emit state.mirrored event with
          | none => Q (.ok event) { database := next, mirrored := state.mirrored ++ [event] }
          | some failure =>
              Q (.error failure) { database := next, mirrored := state.mirrored ++ [event] } := by
  unfold record insertion entry
  by_cases hforbidden : forbiddenKeys rt details = []
  · simp only [hforbidden, ne_eq, not_true_eq_false, ↓reduceIte, wp_bind, insertRow, emit, wp_get]
    cases hi : state.database.insertAuditEvent rt.uuid rt.admits _ with
    | error failure => rfl
    | ok next =>
        simp only [wp_set]
        cases rt.emit state.mirrored _ <;> rfl
  · simp only [ne_eq, hforbidden, not_false_eq_true, ↓reduceIte]
    rfl

end AuditTrail

namespace AuthService

-- A sink that keeps to its contract leaves two ways for a record to end.
theorem wp_record_iff (rt : Runtime Salt Hash Uuid)
    (hsink : ∀ mirrored event, rt.emit mirrored event = none) (g : Generated Salt)
    {Q : Except Failure Unit → ServiceState Hash Uuid → Prop} (eventType : AuthEventType)
    (userId ipAddress userAgent : Option String) (details : List (String × Detail))
    (state : ServiceState Hash Uuid) :
    wp (record rt g eventType userId ipAddress userAgent details) Q state ↔
      let event := AuditTrail.entry g eventType userId ipAddress userAgent details
      match AuditTrail.insertion rt state.audit.database event with
      | .error failure => Q (.error failure) state
      | .ok next => Q (.ok ()) { state with
          audit := { database := next, mirrored := state.audit.mirrored ++ [event] } } := by
  unfold record onAudit
  rw [bind_pure_comp, wp_map, wp_zoom, AuditTrail.wp_record_iff]
  simp only [hsink]
  cases AuditTrail.insertion rt state.audit.database _ <;> rfl

end AuthService

end TrustlistCore.Auth
