import TrustlistCore.Observability.Logging

namespace TrustlistCore.Observability

open Library Unicode EventBus
open EventBus.Value (truthy Prints Every Writable WritableNode arranged)
open EventBus.Idempotency (canonical)

section Entry

variable {component message : List CodePoint} {moment : Moment} {level : Level} {fields : Fields}

theorem keys_header (record : LogRecord) :
    Members.keys (JsonFormatter.header record) = RESERVED_FIELDS := rfl

theorem nodup_reserved : RESERVED_FIELDS.Nodup := by
  decide +kernel

theorem exception_not_reserved : points "exception" ∉ RESERVED_FIELDS := by
  decide +kernel

theorem excInfo_not_reserved : points "exc_info" ∉ RESERVED_FIELDS := by
  decide +kernel

theorem not_mem_of_accepted (h : refused level fields = .ok ()) {key : List CodePoint}
    (hkey : key ∈ RESERVED_FIELDS) : key ∉ Members.keys fields := by
  intro hmem
  have hcollision : key ∈ collisions fields :=
    List.mem_filter.mpr ⟨hkey, Members.find_isSome.mpr hmem⟩
  obtain ⟨⟨⟩, -, hrest⟩ := Result.bind_eq_ok.mp h
  rw [if_pos (List.ne_nil_of_mem hcollision)] at hrest
  cases hrest

-- As no field has a reserved name, `update` only appends.
theorem updated_eq (h : refused level fields = .ok ()) (hnodup : (Members.keys fields).Nodup) :
    (popExcInfo fields).2.foldl (fun entry field => Members.insert entry field.1 field.2)
        (JsonFormatter.header (logRecord component moment level message fields)) =
      JsonFormatter.header (logRecord component moment level message fields) ++
        (popExcInfo fields).2 := by
  refine Members.foldl_insert_of_nodup ?_
  have hsublist : (Members.keys (popExcInfo fields).2).Sublist (Members.keys fields) :=
    List.filter_sublist.map Prod.fst
  have hkeys : Members.keys (JsonFormatter.header
      (logRecord component moment level message fields) ++ (popExcInfo fields).2) =
        RESERVED_FIELDS ++ Members.keys (popExcInfo fields).2 := List.map_append
  rw [hkeys]
  refine List.nodup_append.mpr ⟨nodup_reserved, hsublist.nodup hnodup, ?_⟩
  intro key hkey other hother heq
  exact not_mem_of_accepted h hkey (heq ▸ hsublist.subset hother)

-- The entry of a record, with a traceback if there is an `exc_info`.
theorem entry_cases {record : LogRecord} {entry : Fields}
    (h : JsonFormatter.entry record = .ok entry) :
    (truthy record.excInfo = true ∧ ∃ text,
      record.moment.formatException record.excInfo = .ok text ∧
        entry = Members.insert (JsonFormatter.updated record) (points "exception") (.str text)) ∨
    (truthy record.excInfo = false ∧ entry = JsonFormatter.updated record) := by
  unfold JsonFormatter.entry at h
  split at h
  · rename_i htruthy
    obtain ⟨text, htext, rfl⟩ := Result.map_eq_ok.mp h
    exact .inl ⟨htruthy, text, htext, rfl⟩
  · rename_i hfalsy
    exact .inr ⟨Bool.eq_false_of_not_eq_true hfalsy, (Except.ok.inj h).symm⟩

theorem nodup_entry {record : LogRecord} {entry : Fields}
    (h : JsonFormatter.entry record = .ok entry) : (Members.keys entry).Nodup := by
  have hupdated : (Members.keys (JsonFormatter.updated record)).Nodup :=
    Members.foldl_insert_nodup ((keys_header record).symm ▸ nodup_reserved) record.fields
  rcases entry_cases h with ⟨-, text, -, rfl⟩ | ⟨-, rfl⟩
  · exact Members.nodup_insert hupdated _ _
  · exact hupdated

theorem find_updated (h : refused level fields = .ok ()) (hnodup : (Members.keys fields).Nodup)
    (key : List CodePoint) :
    Members.find (JsonFormatter.updated (logRecord component moment level message fields)) key =
      (Members.find (JsonFormatter.header (logRecord component moment level message fields))
        key).or (if key = points "exc_info" then none else Members.find fields key) := by
  have hupdated : JsonFormatter.updated (logRecord component moment level message fields) =
      JsonFormatter.header (logRecord component moment level message fields) ++
        (popExcInfo fields).2 := updated_eq h hnodup
  rw [hupdated, Members.find_append]
  exact congrArg _ (Members.find_filter_ne _ _ _)

theorem find_entry (h : refused level fields = .ok ()) (hnodup : (Members.keys fields).Nodup)
    {entry : Fields}
    (hentry : JsonFormatter.entry (logRecord component moment level message fields) = .ok entry)
    {key : List CodePoint} (hkey : key ≠ points "exception") :
    Members.find entry key =
      (Members.find (JsonFormatter.header (logRecord component moment level message fields))
        key).or (if key = points "exc_info" then none else Members.find fields key) := by
  rw [← find_updated h hnodup]
  rcases entry_cases hentry with ⟨-, text, -, rfl⟩ | ⟨-, rfl⟩
  · rw [Members.find_insert, if_neg hkey.symm]
  · rfl

-- A property of the parts of an entry is one of the values of its fields.
theorem every_entry {P : Value → Prop} {record : LogRecord} {entry : Fields}
    (hentry : JsonFormatter.entry record = .ok entry)
    (hheader : ∀ field ∈ JsonFormatter.header record, Every P field.2)
    (hfields : ∀ field ∈ record.fields, Every P field.2)
    (hexception : ∀ text, record.moment.formatException record.excInfo = .ok text → P (.str text))
    {member : List CodePoint × Value} (h : member ∈ entry) : Every P member.2 := by
  have hupdated : ∀ member ∈ JsonFormatter.updated record, Every P member.2 := by
    intro member hmember
    rcases Members.mem_foldl_insert hmember with hmember | hmember
    · exact hheader member hmember
    · exact hfields member hmember
  rcases entry_cases hentry with ⟨-, text, htext, rfl⟩ | ⟨-, rfl⟩
  · rcases Members.mem_insert h with h | rfl
    · exact hupdated member h
    · exact hexception text htext
  · exact hupdated member h

theorem mem_fields_of_pop {field : List CodePoint × Value} (h : field ∈ (popExcInfo fields).2) :
    field ∈ fields :=
  List.mem_of_mem_filter h

end Entry

section Tells

variable {component message : List CodePoint} {moment : Moment} {level : Level} {fields : Fields}

theorem arranged_formatTraceId (traceId : ℕ) :
    arranged (formatTraceId traceId) = formatTraceId traceId := by
  unfold formatTraceId
  split <;> rfl

theorem arranged_formatSpanId (spanId : ℕ) :
    arranged (formatSpanId spanId) = formatSpanId spanId := by
  unfold formatSpanId
  split <;> rfl

theorem ne_of_mem_reserved {key other : List CodePoint} (hkey : key ∈ RESERVED_FIELDS)
    (hother : other ∉ RESERVED_FIELDS) : key ≠ other :=
  fun heq => hother (heq ▸ hkey)

variable {entry : Fields}

-- The reserved names keep what the formatter itself puts there.
theorem find_reserved (h : refused level fields = .ok ()) (hnodup : (Members.keys fields).Nodup)
    (hentry : JsonFormatter.entry (logRecord component moment level message fields) = .ok entry)
    {key : List CodePoint} {value : Value} (hkey : key ∈ RESERVED_FIELDS)
    (hvalue : Members.find
      (JsonFormatter.header (logRecord component moment level message fields)) key = some value) :
    Members.find entry key = some value := by
  rw [find_entry h hnodup hentry (ne_of_mem_reserved hkey exception_not_reserved), hvalue,
    Option.some_or]

theorem find_event (h : refused level fields = .ok ()) (hnodup : (Members.keys fields).Nodup)
    (hentry : JsonFormatter.entry (logRecord component moment level message fields) = .ok entry)
    {key : List CodePoint} (hkey : key ∉ RESERVED_FIELDS) (hexception : key ≠ points "exception") :
    Members.find entry key = if key = points "exc_info" then none else Members.find fields key := by
  have hheader : Members.find
      (JsonFormatter.header (logRecord component moment level message fields)) key = none :=
    Members.find_eq_none.mpr hkey
  rw [find_entry h hnodup hentry hexception, hheader, Option.none_or]

-- The traceback takes the place of a field of its name.
theorem find_exception (h : refused level fields = .ok ())
    (hnodup : (Members.keys fields).Nodup)
    (hentry : JsonFormatter.entry (logRecord component moment level message fields) = .ok entry) :
    if truthy (popExcInfo fields).1 then
      ∃ text, moment.formatException (popExcInfo fields).1 = .ok text ∧
        Members.find entry (points "exception") = some (.str text)
    else Members.find entry (points "exception") =
      Members.find fields (points "exception") := by
  rcases entry_cases hentry with ⟨htruthy, text, htext, rfl⟩ | ⟨hfalsy, rfl⟩
  · have hpopped : truthy (popExcInfo fields).1 = true := htruthy
    rw [if_pos hpopped]
    exact ⟨text, htext, by rw [Members.find_insert, if_pos rfl]⟩
  · have hpopped : truthy (popExcInfo fields).1 = false := hfalsy
    have hheader : Members.find (JsonFormatter.header
        (logRecord component moment level message fields)) (points "exception") = none :=
      Members.find_eq_none.mpr exception_not_reserved
    have hexcInfo : points "exception" ≠ points "exc_info" := by
      decide +kernel
    rw [hpopped, if_neg Bool.false_ne_true, find_updated h hnodup, hheader, Option.none_or,
      if_neg hexcInfo]

theorem tells (h : refused level fields = .ok ()) (hnodup : (Members.keys fields).Nodup)
    (hentry : JsonFormatter.entry (logRecord component moment level message fields) = .ok entry) :
    Tells (Members.sorted (Value.arrangedMembers entry))
      { component, moment, level, message, fields } := by
  have hfind := Value.find_arrangedMembers (nodup_entry hentry)
  have hreserved : ∀ {key value}, key ∈ RESERVED_FIELDS → Members.find
      (JsonFormatter.header (logRecord component moment level message fields)) key = some value →
        arranged value = value → Members.find
          (Members.sorted (Value.arrangedMembers entry)) key = some value := by
    intro key value hkey hvalue harranged
    rw [hfind, find_reserved h hnodup hentry hkey hvalue, Option.map_some, harranged]
  constructor
  · exact hreserved (by decide +kernel) rfl rfl
  · exact hreserved (by decide +kernel) rfl rfl
  · exact hreserved (by decide +kernel) rfl rfl
  · exact hreserved (by decide +kernel) rfl (arranged_formatTraceId _)
  · exact hreserved (by decide +kernel) rfl (arranged_formatSpanId _)
  · exact hreserved (by decide +kernel) rfl rfl
  · have hexception : points "exc_info" ≠ points "exception" := by
      decide +kernel
    rw [hfind, find_event h hnodup hentry excInfo_not_reserved hexception, if_pos rfl,
      Option.map_none]
  · have hexception := find_exception h hnodup hentry
    simp only [hfind]
    split at hexception
    · rename_i htruthy
      obtain ⟨text, htext, hfound⟩ := hexception
      rw [if_pos htruthy]
      exact ⟨text, htext, by rw [hfound]; rfl⟩
    · rename_i hfalsy
      rw [if_neg hfalsy, hexception]
  · intro key hkey hexcInfo hexception
    rw [hfind, find_event h hnodup hentry hkey hexception, if_neg hexcInfo]

end Tells

section Emit

variable {maxStrDigits : ℕ} {report : LogRecord → Failure → List (List Char)}

-- The header holds None and texts, of which only two are not the formatter's own.
theorem every_header {P : Value → Prop} {record : LogRecord} (hnone : P .none)
    (hown : ∀ text : List Char, P (.str (text.map Json.charPoint)))
    (hcomponent : P (.str record.component)) (hmessage : P (.str record.message)) :
    ∀ field ∈ JsonFormatter.header record, Every P field.2 := by
  have htraceId : Every P (formatTraceId record.moment.traceId) := by
    unfold formatTraceId
    split
    · exact hnone
    · exact hown _
  have hspanId : Every P (formatSpanId record.moment.spanId) := by
    unfold formatSpanId
    split
    · exact hnone
    · exact hown _
  simp only [JsonFormatter.header, List.forall_mem_cons, List.not_mem_nil, false_implies,
    implies_true, and_true]
  exact ⟨hown _, hown _, hcomponent, htraceId, hspanId, hmessage⟩

theorem joined_characters (text : List Char) : Joined (text.map Json.charPoint) := by
  have hpoints := Value.joined_points (String.ofList text)
  rwa [points, String.toList_ofList] at hpoints

theorem joined_names (names : List String) : ∀ key ∈ names.map points, Joined key := by
  intro key hkey
  obtain ⟨name, -, rfl⟩ := List.mem_map.mp hkey
  exact Value.joined_points name

theorem writable_entry {record : LogRecord} {entry : Fields}
    (hentry : JsonFormatter.entry record = .ok entry) (hcomponent : Joined record.component)
    (hmessage : Joined record.message) (hfields : Writable (.dict record.fields))
    (hexception : ∀ text, record.moment.formatException record.excInfo = .ok text → Joined text) :
    Writable (.dict entry) := by
  obtain ⟨⟨-, hkeys⟩, hvalues⟩ := Value.every_dict.mp hfields
  refine Value.every_dict.mpr ⟨⟨nodup_entry hentry, ?_⟩, fun member hmember =>
    every_entry hentry (every_header trivial joined_characters hcomponent hmessage) hvalues
      hexception hmember⟩
  have hupdated : ∀ key ∈ Members.keys (JsonFormatter.updated record), Joined key := by
    intro key hkey
    rcases Members.mem_keys_foldl_insert.mp hkey with hkey | hkey
    · rw [keys_header] at hkey
      exact joined_names _ key hkey
    · exact hkeys key hkey
  intro key hkey
  rcases entry_cases hentry with ⟨-, text, -, rfl⟩ | ⟨-, rfl⟩
  · rcases Members.mem_keys_insert.mp hkey with hkey | rfl
    · exact hupdated key hkey
    · exact Value.joined_points "exception"
  · exact hupdated key hkey

theorem writable_pop {fields : Fields} (h : Writable (.dict fields)) :
    Writable (.dict (popExcInfo fields).2) := by
  obtain ⟨⟨hnodup, hkeys⟩, hvalues⟩ := Value.every_dict.mp h
  have hsublist : (Members.keys (popExcInfo fields).2).Sublist (Members.keys fields) :=
    List.filter_sublist.map Prod.fst
  exact Value.every_dict.mpr ⟨⟨hsublist.nodup hnodup, fun key hkey =>
    hkeys key (hsublist.subset hkey)⟩, fun member hmember =>
      hvalues member (mem_fields_of_pop hmember)⟩

variable {component message : List CodePoint} {moment : Moment} {level : Level} {fields : Fields}

theorem shows_emit (h : refused level fields = .ok ())
    (hlegible : (Call.log component moment level message fields).Legible) :
    Shows maxStrDigits report { component, moment, level, message, fields }
      (emit maxStrDigits report (logRecord component moment level message fields)) := by
  obtain ⟨hcomponent, hmessage, hfields, hexception⟩ := hlegible
  obtain ⟨⟨hnodup, -⟩, hvalues⟩ := Value.every_dict.mp hfields
  unfold emit
  cases hformat : JsonFormatter.format maxStrDigits
      (logRecord component moment level message fields) with
  | ok text =>
      obtain ⟨entry, hentry, hwritten⟩ := Result.bind_eq_ok.mp hformat
      obtain ⟨tree, hdocument, rfl⟩ := Result.map_eq_ok.mp hwritten
      obtain ⟨hprints, rfl⟩ := Value.document_eq_ok_iff.mp hdocument
      have hwritable : Writable (.dict entry) :=
        writable_entry hentry hcomponent hmessage (writable_pop hfields) (hexception _)
      refine Shows.line _ _ ?_ (tells h hnodup hentry)
      unfold Value.loads
      rw [Json.parse_spaced Json.faithful_quoteAscii]
      exact Value.ofTree_canonical hwritable hprints
  | error failure =>
      refine Shows.reported _ _ ?_
      cases hentry : JsonFormatter.entry (logRecord component moment level message fields) with
      | error raised =>
          right
          rw [JsonFormatter.format, hentry] at hformat
          obtain rfl := Except.error.inj hformat
          unfold JsonFormatter.entry at hentry
          split at hentry
          · rename_i htruthy
            refine ⟨htruthy, ?_⟩
            exact Result.map_eq_error.mp hentry
          · cases hentry
      | ok entry =>
          left
          intro hdigits
          have hprints : Every (Prints canonical maxStrDigits) (.dict entry) :=
            Value.every_dict.mpr ⟨trivial, fun member hmember => every_entry hentry
              (every_header trivial (fun _ => trivial) trivial trivial)
              (Value.every_dict.mp hdigits).2 (fun _ _ => trivial) hmember⟩
          have hdocument := Value.document_eq_ok_iff.mpr ⟨hprints, rfl⟩
          rw [JsonFormatter.format, hentry] at hformat
          simp only [Except.bind, hdocument] at hformat
          cases hformat

theorem newline_emit (hreport : ∀ record failure, ∀ line ∈ report record failure, '\n' ∉ line)
    (record : LogRecord) : ∀ line ∈ emit maxStrDigits report record, '\n' ∉ line := by
  intro line hline
  unfold emit at hline
  split at hline
  · rename_i text hformat
    obtain ⟨entry, -, hwritten⟩ := Result.bind_eq_ok.mp hformat
    obtain ⟨tree, -, rfl⟩ := Result.map_eq_ok.mp hwritten
    rw [List.mem_singleton.mp hline]
    exact (Json.printable_spaced tree).newline
  · exact hreport record _ line hline

end Emit

section Run

variable {maxStrDigits : ℕ}
  {above : (List CodePoint → Underlying) → List CodePoint → List Underlying}
  {report : LogRecord → Failure → List (List Char)}

-- A logger that `get_logger` returned has one handler and passes nothing on.
def Wired (loggers : List CodePoint → Underlying) (component : List CodePoint) : Prop :=
  (loggers (loggerName component)).handlers = 1 ∧
    (loggers (loggerName component)).propagate = false

def Single (loggers : List CodePoint → Underlying) : Prop :=
  ∀ name, (loggers name).handlers ≤ 1

theorem single_initial : Single Logging.initial.loggers :=
  fun _ => Nat.zero_le _

theorem single_configured {loggers : List CodePoint → Underlying} (h : Single loggers)
    (component : List CodePoint) (level : ℤ) : Single (configured loggers component level) := by
  intro name
  by_cases hname : name = loggerName component
  · have hone := h (loggerName component)
    rw [hname, configured, Function.update_self]
    dsimp only
    split
    · exact hone
    · exact le_refl 1
  · rw [configured, Function.update_of_ne hname]
    exact h name

theorem wired_configured {loggers : List CodePoint → Underlying} (hsingle : Single loggers)
    (component : List CodePoint) (level : ℤ) :
    Wired (configured loggers component level) component := by
  have hone := hsingle (loggerName component)
  unfold Wired configured
  rw [Function.update_self]
  refine ⟨?_, rfl⟩
  dsimp only
  split
  · rename_i hsome
    omega
  · rfl

theorem Wired.configured {loggers : List CodePoint → Underlying} (hsingle : Single loggers)
    {component : List CodePoint} (h : Wired loggers component) (other : List CodePoint)
    (level : ℤ) : Wired (configured loggers other level) component := by
  by_cases hname : loggerName component = loggerName other
  · have hother := wired_configured hsingle other level
    unfold Wired at hother ⊢
    rwa [hname]
  · unfold Wired Observability.configured
    rwa [Function.update_of_ne hname]

theorem callHandlers_of_wired {loggers : List CodePoint → Underlying} {component : List CodePoint}
    (h : Wired loggers component) (parents : List Underlying) :
    callHandlers (loggers (loggerName component) :: parents) = 1 := by
  rw [callHandlers, h.1, h.2]
  rfl

variable (maxStrDigits above report) in
theorem handle_of_wired {self : Logging} {record : LogRecord}
    (h : Wired self.loggers record.component) :
    self.handle maxStrDigits above report record =
      { self with stderr := self.stderr ++ Lines.stream (emit maxStrDigits report record) } := by
  unfold Logging.handle
  simp [callHandlers_of_wired h]

variable (maxStrDigits above) in
-- The lines of the calls one after another, each written when its call is made.
theorem run_shows (hreport : ∀ record failure, ∀ line ∈ report record failure, '\n' ∉ line)
    {calls : List Call} {had : List (List CodePoint)} {self : Logging} (hheld : Held had calls)
    (hwired : ∀ component ∈ had, Wired self.loggers component) (hsingle : Single self.loggers)
    (hlegible : ∀ call ∈ calls, call.Legible) :
    ∃ chunks, (run maxStrDigits above report calls self).stderr =
        self.stderr ++ Lines.stream chunks.flatten ∧
      (∀ line ∈ chunks.flatten, '\n' ∉ line) ∧
      List.Forall₂ (Shows maxStrDigits report) (journal above self.loggers calls) chunks := by
  induction calls generalizing had self with
  | nil => exact ⟨[], (List.append_nil _).symm, by simp, .nil⟩
  | cons call calls ih =>
      have hfirst := hlegible call List.mem_cons_self
      have hrest : ∀ call ∈ calls, call.Legible :=
        fun later hlater => hlegible later (List.mem_cons_of_mem _ hlater)
      cases call with
      | getLogger component level =>
          refine @ih (component :: had)
            { self with loggers := configured self.loggers component level } hheld ?_
            (single_configured hsingle component level) hrest
          intro other hother
          rcases List.mem_cons.mp hother with rfl | hother
          · exact wired_configured hsingle other level
          · exact (hwired other hother).configured hsingle component level
      | log component moment level message fields =>
          obtain ⟨hhad, hheld⟩ := hheld
          rw [run, List.foldl_cons, step]
          cases hrefused : refused level fields with
          | error failure =>
              obtain ⟨chunks, hstderr, hlines, hshows⟩ := ih hheld hwired hsingle hrest
              refine ⟨chunks, hstderr, hlines, ?_⟩
              rw [journal, if_neg fun hboth => absurd (hrefused.symm.trans hboth.1) (by simp)]
              exact hshows
          | ok accepted =>
              by_cases hlevel :
                  effectiveLevel above self.loggers (loggerName component) ≤ level.number
              · obtain ⟨chunks, hstderr, hlines, hshows⟩ :=
                  @ih had (self.handle maxStrDigits above report
                    (logRecord component moment level message fields))
                    hheld hwired hsingle hrest
                have hhandle : self.handle maxStrDigits above report
                    (logRecord component moment level message fields) =
                      { self with stderr := self.stderr ++ Lines.stream (emit maxStrDigits report
                          (logRecord component moment level message fields)) } :=
                  handle_of_wired maxStrDigits above report (hwired component hhad)
                refine ⟨emit maxStrDigits report
                  (logRecord component moment level message fields) :: chunks, ?_, ?_, ?_⟩
                · rw [run, hhandle] at hstderr
                  simp only [if_pos hlevel, List.flatten_cons, Lines.stream_append]
                  rw [hhandle, hstderr, List.append_assoc]
                · intro line hline
                  rcases List.mem_append.mp hline with hline | hline
                  · exact newline_emit hreport _ line hline
                  · exact hlines line hline
                · rw [journal, if_pos ⟨hrefused, hlevel⟩]
                  exact .cons (shows_emit hrefused hfirst) hshows
              · obtain ⟨chunks, hstderr, hlines, hshows⟩ := ih hheld hwired hsingle hrest
                refine ⟨chunks, ?_, hlines, ?_⟩
                · simp only [if_neg hlevel]
                  exact hstderr
                · rw [journal, if_neg fun hboth => hlevel hboth.2]
                  exact hshows

-- Whoever splits what a process wrote into lines has one line for each call that no check and no
-- level held back, in their order, and reads in it what the call was given.
theorem stderr_reads_back
    (hreport : ∀ record failure, ∀ line ∈ report record failure, '\n' ∉ line)
    {calls : List Call} (hheld : Held [] calls) (hlegible : ∀ call ∈ calls, call.Legible) :
    ∃ chunks, Lines.split (run maxStrDigits above report calls .initial).stderr =
        (chunks.flatten, []) ∧
      List.Forall₂ (Shows maxStrDigits report)
        (journal above Logging.initial.loggers calls) chunks := by
  have hnone : ∀ component ∈ ([] : List (List CodePoint)),
      Wired Logging.initial.loggers component := fun _ h => absurd h List.not_mem_nil
  obtain ⟨chunks, hstderr, hlines, hshows⟩ :=
    run_shows maxStrDigits above hreport hheld hnone single_initial hlegible
  refine ⟨chunks, ?_, hshows⟩
  rw [hstderr]
  exact Lines.split_stream hlines

end Run

section Observed

def observedMoment : Moment where
  created :=
    { year := 2026, month := 3, day := 1, hour := 9, minute := 30, second := 0
      microsecond := 250000, offset := some 0, valid := by decide }
  traceId := 0xabc
  spanId := 0
  formatException _ := .ok (points "NoneType: None")

-- A second `get_logger` puts the first handle's level up; a reserved name is refused.
def observedCalls : List Call :=
  [.getLogger (points "auth") 20,
    .log (points "auth") observedMoment .info (points "auth audit event")
      [(points "audit_topic", .str (points "auth.audit")), (points "exc_info", .bool true)],
    .log (points "auth") observedMoment .error (points "two") [(points "level", .int 1)],
    .getLogger (points "auth") 30,
    .log (points "auth") observedMoment .info (points "held back") []]

def rootLogger : Underlying where
  level := 30
  propagate := true
  handlers := 0

theorem legible_log {message : List CodePoint} {level : Level} {fields : Fields}
    (hmessage : Joined message) (hfields : Writable (.dict fields)) :
    (Call.log (points "auth") observedMoment level message fields).Legible :=
  ⟨Value.joined_points _, hmessage, hfields, fun _ _ htext =>
    Except.ok.inj htext ▸ Value.joined_points _⟩

theorem legible_observedCalls : ∀ call ∈ observedCalls, call.Legible := by
  have hevent : Writable (.dict [(points "audit_topic", .str (points "auth.audit")),
      (points "exc_info", .bool true)]) :=
    ⟨⟨by decide +kernel, joined_names ["audit_topic", "exc_info"]⟩, Value.joined_points _, trivial,
      trivial⟩
  have hlevel : Writable (.dict [(points "level", .int 1)]) :=
    ⟨⟨by decide +kernel, joined_names ["level"]⟩, trivial, trivial⟩
  have hnone : Writable (.dict []) :=
    ⟨⟨by decide +kernel, joined_names []⟩, trivial⟩
  simp only [observedCalls, List.forall_mem_cons, List.not_mem_nil, false_implies, implies_true,
    and_true]
  exact ⟨trivial, legible_log (Value.joined_points _) hevent,
    legible_log (Value.joined_points _) hlevel, trivial, legible_log (Value.joined_points _) hnone⟩

theorem stderr_reads_back_observed :
    ∃ chunks, Lines.split (run 4300 (fun _ _ => [rootLogger]) (fun _ _ => []) observedCalls
          .initial).stderr = (chunks.flatten, []) ∧
      List.Forall₂ (Shows 4300 fun _ _ => [])
        (journal (fun _ _ => [rootLogger]) Logging.initial.loggers observedCalls) chunks :=
  stderr_reads_back (fun _ _ _ hline => absurd hline List.not_mem_nil)
    ⟨List.mem_cons_self, List.mem_cons_self, List.mem_cons_self, trivial⟩ legible_observedCalls

end Observed

end TrustlistCore.Observability
