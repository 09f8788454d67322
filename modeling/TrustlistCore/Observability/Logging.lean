import TrustlistCore.EventBus.Envelope
import TrustlistCore.EventBus.Value.Arranged
import TrustlistCore.Library.IsoTime
import TrustlistCore.Library.Json.Spaced
import TrustlistCore.Library.Lines

namespace TrustlistCore.Observability

open Library Unicode EventBus
open EventBus.Value (truthy Prints Every Writable arranged)
open EventBus.Idempotency (canonical)

abbrev Fields := List (List CodePoint × Value)

-- The levels of `logging` that the wrapper has a method for.
inductive Level
  | debug
  | info
  | warning
  | error
  | critical
  deriving DecidableEq, Repr

def Level.number : Level → ℤ
  | .debug => 10
  | .info => 20
  | .warning => 30
  | .error => 40
  | .critical => 50

def Level.name : Level → String
  | .debug => "DEBUG"
  | .info => "INFO"
  | .warning => "WARNING"
  | .error => "ERROR"
  | .critical => "CRITICAL"

def Level.method : Level → String
  | .debug => "debug"
  | .info => "info"
  | .warning => "warning"
  | .error => "error"
  | .critical => "critical"

def RESERVED_FIELDS : List (List CodePoint) :=
  ["timestamp", "level", "component", "trace_id", "span_id", "message"].map points

-- `format(n, "0<width>x")`
def hex (width n : ℕ) : List Char :=
  List.replicate (width - (Nat.toDigits 16 n).length) '0' ++ Nat.toDigits 16 n

def formatTraceId (traceId : ℕ) : Value :=
  if traceId = 0 then .none else .str ((hex 32 traceId).map Json.charPoint)

def formatSpanId (spanId : ℕ) : Value :=
  if spanId = 0 then .none else .str ((hex 16 spanId).map Json.charPoint)

-- `isoformat(timespec="milliseconds")` in UTC.
def milliseconds (created : DateTime) : List Char :=
  IsoTime.dateText created.toReading ++ 'T' :: IsoTime.two created.hour ++
    ':' :: IsoTime.two created.minute ++ ':' :: IsoTime.two created.second ++
      '.' :: Fixed.write 10 3 (created.microsecond / 1000) ++ ['+', '0', '0', ':', '0', '0']

-- What the process is at when it logs: the clock, the active span, and what
-- `formatException` makes of an `exc_info`; it raises for one that is no triple of an exception.
structure Moment where
  created : DateTime
  traceId : ℕ
  spanId : ℕ
  formatException : Value → Except Failure (List CodePoint)

structure LogRecord where
  component : List CodePoint
  moment : Moment
  level : Level
  message : List CodePoint
  fields : Fields
  excInfo : Value

namespace JsonFormatter

def header (record : LogRecord) : Fields :=
  [(points "timestamp", .str ((milliseconds record.moment.created).map Json.charPoint)),
    (points "level", .str (points record.level.name)),
    (points "component", .str record.component),
    (points "trace_id", formatTraceId record.moment.traceId),
    (points "span_id", formatSpanId record.moment.spanId),
    (points "message", .str record.message)]

-- `entry.update(fields)`
def updated (record : LogRecord) : Fields :=
  record.fields.foldl (fun entry field => Members.insert entry field.1 field.2) (header record)

def entry (record : LogRecord) : Except Failure Fields :=
  if truthy record.excInfo then
    (record.moment.formatException record.excInfo).map fun text =>
      Members.insert (updated record) (points "exception") (.str text)
  else .ok (updated record)

-- The separators are the default ones.
def format (maxStrDigits : ℕ) (record : LogRecord) : Except Failure (List Char) :=
  (entry record).bind fun entry =>
    (Value.document canonical maxStrDigits (.dict entry)).map (Json.spaced Json.quoteAscii)

end JsonFormatter

-- A logger of `logging`, with the number of its stderr handlers.
structure Underlying where
  level : ℤ
  propagate : Bool
  handlers : ℕ
  deriving DecidableEq

structure Logging where
  loggers : List CodePoint → Underlying
  stderr : List Char

def Logging.initial : Logging where
  loggers _ := { level := 0, propagate := true, handlers := 0 }
  stderr := []

def loggerName (component : List CodePoint) : List CodePoint :=
  points "trustlist." ++ component

inductive Call
  | getLogger (component : List CodePoint) (level : ℤ)
  | log (component : List CodePoint) (moment : Moment) (level : Level)
      (message : List CodePoint) (fields : Fields)

def configured (loggers : List CodePoint → Underlying) (component : List CodePoint) (level : ℤ) :
    List CodePoint → Underlying :=
  let name := loggerName component
  let alreadyWired := (loggers name).handlers ≠ 0
  Function.update loggers name
    { level
      propagate := false
      handlers := if alreadyWired then (loggers name).handlers else 1 }

def collisions (fields : Fields) : List (List CodePoint) :=
  RESERVED_FIELDS.filter fun name => (Members.find fields name).isSome

-- A keyword of the name of a positional argument does not bind.
def bind (level : Level) (fields : Fields) : Except Failure Unit :=
  match (Members.keys fields).find? fun name => name = points "self" ∨ name = points "message" with
  | some name =>
      .error (.typeError (s!"StructuredLogger.{level.method}() got multiple values for " ++
        s!"argument '{shown name}'"))
  | none => .ok ()

def refused (level : Level) (fields : Fields) : Except Failure Unit := do
  bind level fields
  if collisions fields ≠ [] then
    throw (.valueError ("event-specific log fields may not use the reserved §7f field names: " ++
      ", ".intercalate (((collisions fields).insertionSort (· ≤ ·)).map shown) ++ "."))

-- `fields.pop("exc_info", None)`
def popExcInfo (fields : Fields) : Value × Fields :=
  ((Members.find fields (points "exc_info")).getD .none,
    fields.filter fun field => field.1 ≠ points "exc_info")

def logRecord (component : List CodePoint) (moment : Moment) (level : Level)
    (message : List CodePoint) (fields : Fields) : LogRecord :=
  let (excInfo, fields) := popExcInfo fields
  { component, moment, level, message, fields, excInfo }

section Step

-- `above` is the parents that `logging` gives a logger, the nearest first; `report` is the
-- lines that `handleError` prints.
variable (maxStrDigits : ℕ)
  (above : (List CodePoint → Underlying) → List CodePoint → List Underlying)
  (report : LogRecord → Failure → List (List Char))

-- `getEffectiveLevel`
def effectiveLevel (loggers : List CodePoint → Underlying) (name : List CodePoint) : ℤ :=
  match (loggers name :: above loggers name).find? (·.level ≠ 0) with
  | some logger => logger.level
  | none => 0

-- `callHandlers` goes up as far as loggers propagate.
def callHandlers : List Underlying → ℕ
  | [] => 0
  | logger :: parents => logger.handlers + if logger.propagate then callHandlers parents else 0

-- What one handler writes: `emit` reports a failure of the formatter and raises none.
def emit (record : LogRecord) : List (List Char) :=
  match JsonFormatter.format maxStrDigits record with
  | .ok text => [text]
  | .error failure => report record failure

def Logging.handle (self : Logging) (record : LogRecord) : Logging :=
  let name := loggerName record.component
  let found := callHandlers (self.loggers name :: above self.loggers name)
  { self with
    stderr := self.stderr ++
      (List.replicate found (Lines.stream (emit maxStrDigits report record))).flatten }

def step (self : Logging) : Call → Except Failure Unit × Logging
  | .getLogger component level =>
      (.ok (), { self with loggers := configured self.loggers component level })
  | .log component moment level message fields =>
      match refused level fields with
      | .error failure => (.error failure, self)
      | .ok () =>
          if effectiveLevel above self.loggers (loggerName component) ≤ level.number then
            (.ok (), self.handle maxStrDigits above report
              (logRecord component moment level message fields))
          else (.ok (), self)

def run (calls : List Call) (self : Logging) : Logging :=
  calls.foldl (fun self call => (step maxStrDigits above report self call).2) self

end Step

-- A logger is had from `get_logger`.
def Held : List (List CodePoint) → List Call → Prop
  | _, [] => True
  | had, .getLogger component _ :: calls => Held (component :: had) calls
  | had, .log component _ _ _ _ :: calls => component ∈ had ∧ Held had calls

-- What JSON keeps apart: texts without the halves of a surrogate pair side by side, and
-- keyword arguments of different names.
def Call.Legible : Call → Prop
  | .getLogger _ _ => True
  | .log component moment _ message fields =>
      Joined component ∧ Joined message ∧ Writable (.dict fields) ∧
        ∀ excInfo text, moment.formatException excInfo = .ok text → Joined text

-- What a call asks to be written down.
structure Logged where
  component : List CodePoint
  moment : Moment
  level : Level
  message : List CodePoint
  fields : Fields

section Journal

variable (above : (List CodePoint → Underlying) → List CodePoint → List Underlying)

-- The calls that are no lower than the level last set, and that no check refuses.
def journal : (List CodePoint → Underlying) → List Call → List Logged
  | _, [] => []
  | loggers, .getLogger component level :: calls =>
      journal (configured loggers component level) calls
  | loggers, .log component moment level message fields :: calls =>
      if refused level fields = .ok () ∧
          effectiveLevel above loggers (loggerName component) ≤ level.number then
        { component, moment, level, message, fields } :: journal loggers calls
      else journal loggers calls

end Journal

-- The members of a line, as a reader of the log wants them.
structure Tells (members : Fields) (logged : Logged) : Prop where
  timestamp : Members.find members (points "timestamp") =
    some (.str ((milliseconds logged.moment.created).map Json.charPoint))
  level : Members.find members (points "level") = some (.str (points logged.level.name))
  component : Members.find members (points "component") = some (.str logged.component)
  traceId : Members.find members (points "trace_id") = some (formatTraceId logged.moment.traceId)
  spanId : Members.find members (points "span_id") = some (formatSpanId logged.moment.spanId)
  message : Members.find members (points "message") = some (.str logged.message)
  excInfo : Members.find members (points "exc_info") = none
  exception : if truthy (popExcInfo logged.fields).1 then
      ∃ text, logged.moment.formatException (popExcInfo logged.fields).1 = .ok text ∧
        Members.find members (points "exception") = some (.str text)
    else Members.find members (points "exception") =
      (Members.find logged.fields (points "exception")).map arranged
  event : ∀ key ∉ RESERVED_FIELDS, key ≠ points "exc_info" → key ≠ points "exception" →
    Members.find members key = (Members.find logged.fields key).map arranged

-- One line that reads back, or the report where an integer has more digits than Python writes
-- or there is no traceback to be made.
inductive Shows (maxStrDigits : ℕ) (report : LogRecord → Failure → List (List Char))
    (logged : Logged) : List (List Char) → Prop
  | line (text : List Char) (members : Fields)
      (hread : Value.loads maxStrDigits text = .ok (.dict members)) (htells : Tells members logged) :
      Shows maxStrDigits report logged [text]
  | reported (record : LogRecord) (failure : Failure)
      (hfails : ¬ Every (Prints canonical maxStrDigits) (.dict (popExcInfo logged.fields).2) ∨
        truthy (popExcInfo logged.fields).1 = true ∧
          logged.moment.formatException (popExcInfo logged.fields).1 = .error failure) :
      Shows maxStrDigits report logged (report record failure)

end TrustlistCore.Observability
