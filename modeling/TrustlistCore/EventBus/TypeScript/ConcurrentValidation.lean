import TrustlistCore.EventBus.TypeScript.SchemaRegistry
import TrustlistCore.Library.Json.Theorems
import TrustlistCore.Library.Run

namespace TrustlistCore.EventBus.TypeScript.SchemaRegistry

open Library Unicode

section Validation

variable {T : Type} [DecidableEq T] (compile : JsonValue → Except (List CodeUnit) ValidateFunction)
  (latest : List CodeUnit → List Char)

-- The text the registry has for an event type compiles.
def Served (eventType : List CodeUnit) (validator : ValidateFunction) : Prop :=
  ∃ schemaDoc, JsonValue.parse (latest eventType) = .ok schemaDoc ∧ compile schemaDoc = .ok validator

-- The steps of calls for event types whose text never changes and compiles.
def Admissible (state : State T) : Input T → Prop
  | .validate call eventType _ =>
      state.calls call = .idle ∧ ∃ validator, Served compile latest eventType validator
  | .answer call answer => ∃ eventType payload,
      state.calls call = .fetching eventType payload ∧ answer = .body (latest eventType)
  | .compile call => ∃ eventType payload schema,
      state.calls call = .fetched eventType payload schema
  | .check call => ∃ eventType payload validator,
      state.calls call = .checking eventType payload validator

-- What a call is given that has an instance to itself.
def alone (eventType : List CodeUnit) (payload : JsonValue) : Call :=
  let inputs : List (Input Unit) := [.validate () eventType payload,
    .answer () (.body (latest eventType)), .compile (), .check ()]
  (inputs.foldl (fun state input => (step compile state input).2) (fresh Unit)).calls ()

def Call.Safe : Call → Prop
  | .settled eventType payload verdict =>
      alone compile latest eventType payload = .settled eventType payload verdict ∧
        ∀ message, verdict ≠ .error (.schemaRegistryError message)
  | _ => True

-- Whatever has been answered is what a lone call is answered, and no registry error.
def Safe (state : State T) : Prop :=
  ∀ call, (state.calls call).Safe compile latest

def idOf (schema : List Char) : List CodeUnit :=
  match JsonValue.parse schema with
  | .ok schemaDoc => schemaId schemaDoc
  | .error _ => []

-- What is compiled next has no name, or one that nothing before it had.
def Unused (state : State T) (entry : Input T × Unit) : Prop :=
  ∀ call eventType payload schema, entry.1 = .compile call →
    state.calls call = .fetched eventType payload schema →
      idOf schema = [] ∨ idOf schema ∉ state.refs

def Call.Sound : Call → Prop
  | .fetching eventType _ => ∃ validator, Served compile latest eventType validator
  | .fetched eventType _ schema =>
      schema = latest eventType ∧ ∃ validator, Served compile latest eventType validator
  | .checking eventType _ validator => Served compile latest eventType validator
  | _ => True

-- Every validator at hand is the one of its event type.
structure Sound (state : State T) : Prop where
  cached : ∀ member ∈ state.validatorCache, Served compile latest member.1 member.2
  calls : ∀ call, (state.calls call).Sound compile latest

end Validation

section Steps

variable {T : Type} [DecidableEq T] {compile : JsonValue → Except (List CodeUnit) ValidateFunction}
  {latest : List CodeUnit → List Char} {state : State T}

theorem forall_set {P : Call → Prop} {call : T} (next : Call) (h : P (state.calls call)) :
    (∀ other, P ((state.set call next).calls other)) ↔ P next ∧ ∀ other, P (state.calls other) := by
  constructor
  · intro hall
    have hnext := hall call
    rw [State.calls_set, if_pos rfl] at hnext
    refine ⟨hnext, fun other => ?_⟩
    by_cases hother : other = call
    · rwa [hother]
    · have := hall other
      rwa [State.calls_set, if_neg hother] at this
  · rintro ⟨hnext, hall⟩ other
    rw [State.calls_set]
    by_cases hother : other = call
    · rwa [if_pos hother]
    · rw [if_neg hother]
      exact hall other

theorem ajvCompile_unused {refs : List (List CodeUnit)} {schemaDoc : JsonValue}
    (hid : schemaId schemaDoc ≠ []) (hunused : schemaId schemaDoc ∉ refs) :
    ajvCompile compile refs schemaDoc = (compile schemaDoc, refs ++ [schemaId schemaDoc]) := by
  have hcontains : ¬ refs.contains (schemaId schemaDoc) = true :=
    fun h => hunused (List.contains_iff_mem.mp h)
  rw [ajvCompile, if_neg hid, if_neg hcontains]

theorem alone_of_served {eventType : List CodeUnit} {validator : ValidateFunction}
    (h : Served compile latest eventType validator) (payload : JsonValue) :
    alone compile latest eventType payload =
      .settled eventType payload (verdict validator eventType payload) := by
  obtain ⟨schemaDoc, hparse, hcompile⟩ := h
  have hajv : (ajvCompile compile [] schemaDoc).1 = .ok validator := by
    by_cases hid : schemaId schemaDoc = []
    · rw [ajvCompile, if_pos hid]
      exact hcompile
    · rw [ajvCompile_unused hid List.not_mem_nil]
      exact hcompile
  obtain ⟨refs, hajv⟩ : ∃ refs, ajvCompile compile [] schemaDoc = (.ok validator, refs) :=
    ⟨_, Prod.ext hajv rfl⟩
  have hfind : Members.find ([] : List (List CodeUnit × ValidateFunction)) eventType = none := rfl
  simp only [alone, List.foldl_cons, List.foldl_nil, step, fresh, hfind, State.set,
    Function.update_self, hparse, hajv]

theorem verdict_ne (validator : ValidateFunction) (eventType : List CodeUnit) (payload : JsonValue)
    (message : List CodeUnit) :
    verdict validator eventType payload ≠ .error (.schemaRegistryError message) := by
  unfold verdict
  split
  · simp
  · simp

omit [DecidableEq T] in
theorem unused_of_ne {entry : Input T × Unit} (h : ∀ call, entry.1 ≠ .compile call) :
    Unused state entry := by
  intro call _ _ _ hentry
  exact absurd hentry (h call)

-- A step that changes one call, which was not settled, and neither the names nor the cache.
theorem sound_set (hsound : Sound compile latest state) {call : T} {next : Call}
    (hnext : next.Sound compile latest) : Sound compile latest (state.set call next) where
  cached := hsound.cached
  calls := (forall_set next (hsound.calls call)).mpr ⟨hnext, hsound.calls⟩

theorem safe_set {call : T} {next : Call} (hcall : (state.calls call).Safe compile latest) :
    Safe compile latest (state.set call next) ↔
      next.Safe compile latest ∧ Safe compile latest state :=
  forall_set next hcall

theorem step_validate_miss {call : T} {eventType : List CodeUnit} {payload : JsonValue}
    (h : Members.find state.validatorCache eventType = none) :
    (step compile state (.validate call eventType payload)).2 =
      state.set call (.fetching eventType payload) := by
  simp only [step, h]

theorem step_answer_body {call : T} {eventType : List CodeUnit} {payload : JsonValue}
    {schema : List Char} (h : state.calls call = .fetching eventType payload) :
    (step compile state (.answer call (.body schema))).2 =
      state.set call (.fetched eventType payload schema) := by
  simp only [step, h]

-- The name is in use already: the call ends in an error.
theorem step_compile_used {call : T} {eventType : List CodeUnit} {payload : JsonValue}
    {schema : List Char} {schemaDoc : JsonValue}
    (hcall : state.calls call = .fetched eventType payload schema)
    (hparse : JsonValue.parse schema = .ok schemaDoc) (hid : schemaId schemaDoc ≠ [])
    (hused : schemaId schemaDoc ∈ state.refs) :
    ∃ message, (step compile state (.compile call)).2 =
      state.set call (.settled eventType payload (.error (.schemaRegistryError message))) := by
  have hajv : ajvCompile compile state.refs schemaDoc = (.error (units "schema with key or id \"" ++
      schemaId schemaDoc ++ units "\" already exists"), state.refs) := by
    rw [ajvCompile, if_neg hid, if_pos (List.contains_iff_mem.mpr hused)]
  simp only [step, hcall, hparse, hajv]
  exact ⟨_, rfl⟩

-- Otherwise it goes on with the validator of its event type, which is then in the cache.
theorem step_compile_unused {call : T} {eventType : List CodeUnit} {payload : JsonValue}
    {schema : List Char} {schemaDoc : JsonValue} {validator : ValidateFunction}
    (hcall : state.calls call = .fetched eventType payload schema)
    (hparse : JsonValue.parse schema = .ok schemaDoc) (hcompile : compile schemaDoc = .ok validator)
    (h : schemaId schemaDoc = [] ∨ schemaId schemaDoc ∉ state.refs) :
    (step compile state (.compile call)).2 =
      { state.set call (.checking eventType payload validator) with
        refs := (ajvCompile compile state.refs schemaDoc).2
        validatorCache := Members.insert state.validatorCache eventType validator } := by
  have hajv : (ajvCompile compile state.refs schemaDoc).1 = .ok validator := by
    by_cases hid : schemaId schemaDoc = []
    · rw [ajvCompile, if_pos hid, hcompile]
    · rw [ajvCompile_unused hid (h.resolve_left hid), hcompile]
  have hpair : ajvCompile compile state.refs schemaDoc =
      (.ok validator, (ajvCompile compile state.refs schemaDoc).2) := Prod.ext hajv rfl
  generalize (ajvCompile compile state.refs schemaDoc).2 = refs at hpair ⊢
  simp only [step, hcall, hparse, hpair]

theorem step_compile_spec (hsound : Sound compile latest state) {call : T}
    {eventType : List CodeUnit} {payload : JsonValue} {schema : List Char}
    (hcall : state.calls call = .fetched eventType payload schema) :
    Sound compile latest (step compile state (.compile call)).2 ∧
      (Safe compile latest (step compile state (.compile call)).2 ↔
        Safe compile latest state ∧ Unused state (.compile call, ())) := by
  have hfetched := hsound.calls call
  rw [hcall] at hfetched
  obtain ⟨rfl, validator, schemaDoc, hparse, hcompile⟩ := hfetched
  have hidOf : idOf (latest eventType) = schemaId schemaDoc := by rw [idOf, hparse]
  have hsafe : (state.calls call).Safe compile latest := by
    rw [hcall]
    trivial
  have hunused : Unused state (.compile call, ()) ↔
      schemaId schemaDoc = [] ∨ schemaId schemaDoc ∉ state.refs := by
    rw [← hidOf]
    constructor
    · exact fun h => h call eventType payload _ rfl hcall
    · intro h other eventType' payload' schema' hentry hother
      obtain rfl := Input.compile.inj hentry
      rw [hcall] at hother
      obtain ⟨-, -, rfl⟩ := Call.fetched.inj hother
      exact h
  rw [hunused]
  by_cases h : schemaId schemaDoc = [] ∨ schemaId schemaDoc ∉ state.refs
  · have hstep := step_compile_unused hcall hparse hcompile h
    have hserved : Served compile latest eventType validator := ⟨schemaDoc, hparse, hcompile⟩
    rw [hstep]
    constructor
    · have hnext : (Call.checking eventType payload validator).Sound compile latest := hserved
      refine ⟨fun member hmember => ?_, (sound_set hsound hnext).calls⟩
      cases Members.mem_insert hmember with
      | inl hold => exact hsound.cached member hold
      | inr hnew =>
          rw [hnew]
          exact hserved
    · refine (safe_set hsafe).trans ?_
      simp only [Call.Safe, h, true_and, and_true]
  · have hused : schemaId schemaDoc ≠ [] ∧ schemaId schemaDoc ∈ state.refs := by
      rwa [not_or, not_not] at h
    obtain ⟨message, hstep⟩ := @step_compile_used _ _ compile _ _ _ _ _ _ hcall hparse hused.1 hused.2
    rw [hstep]
    refine ⟨sound_set hsound trivial, (safe_set hsafe).trans (iff_of_false ?_ ?_)⟩
    · rintro ⟨⟨-, hne⟩, -⟩
      exact hne message rfl
    · exact fun hother => h hother.2

theorem step_spec (hsound : Sound compile latest state) {input : Input T}
    (hinput : Admissible compile latest state input) :
    Sound compile latest (step compile state input).2 ∧
      (Safe compile latest (step compile state input).2 ↔
        Safe compile latest state ∧ Unused state (input, ())) := by
  cases input with
  | validate call eventType payload =>
      obtain ⟨hidle, hserved⟩ := hinput
      have hsafe : (state.calls call).Safe compile latest := by
        rw [hidle]
        trivial
      have hunused : Unused state (.validate call eventType payload, ()) :=
        unused_of_ne fun _ h => by cases h
      cases hfind : Members.find state.validatorCache eventType with
      | some cached =>
          simp only [step, hfind]
          refine ⟨sound_set hsound (hsound.cached _ (Members.mem_of_find hfind)), (safe_set hsafe).trans ?_⟩
          simp only [Call.Safe, hunused, true_and, and_true]
      | none =>
          simp only [step, hfind]
          refine ⟨sound_set hsound hserved, (safe_set hsafe).trans ?_⟩
          simp only [Call.Safe, hunused, true_and, and_true]
  | answer call answer =>
      obtain ⟨eventType, payload, hcall, rfl⟩ := hinput
      have hfetching := hsound.calls call
      rw [hcall] at hfetching
      have hsafe : (state.calls call).Safe compile latest := by
        rw [hcall]
        trivial
      have hunused : Unused state (.answer call (.body (latest eventType)), ()) :=
        unused_of_ne fun _ h => by cases h
      simp only [step, hcall]
      refine ⟨sound_set hsound ⟨rfl, hfetching⟩, (safe_set hsafe).trans ?_⟩
      simp only [Call.Safe, hunused, true_and, and_true]
  | compile call =>
      obtain ⟨eventType, payload, schema, hcall⟩ := hinput
      exact step_compile_spec hsound hcall
  | check call =>
      obtain ⟨eventType, payload, validator, hcall⟩ := hinput
      have hchecking := hsound.calls call
      rw [hcall] at hchecking
      have hsafe : (state.calls call).Safe compile latest := by
        rw [hcall]
        trivial
      have hunused : Unused state (.check call, ()) := unused_of_ne fun _ h => by cases h
      simp only [step, hcall]
      refine ⟨sound_set hsound trivial, (safe_set hsafe).trans ?_⟩
      have hsettled : (Call.settled eventType payload
          (verdict validator eventType payload)).Safe compile latest :=
        ⟨alone_of_served hchecking payload, verdict_ne validator eventType payload⟩
      simp only [hsettled, hunused, true_and, and_true]

omit [DecidableEq T] in
theorem sound_fresh : Sound compile latest (fresh T) where
  cached _ h := by cases h
  calls _ := trivial

omit [DecidableEq T] in
theorem safe_fresh : Safe compile latest (fresh T) :=
  fun _ => trivial

end Steps

section Overlap

variable {T : Type} [DecidableEq T] {compile : JsonValue → Except (List CodeUnit) ValidateFunction}
  {latest : List CodeUnit → List Char}

-- Two calls that both look the type up before either has stored it both fetch the schema.
theorem exists_run_of_lookups {first second : T} (hne : first ≠ second)
    {eventType : List CodeUnit} {validator : ValidateFunction}
    (hserved : Served compile latest eventType validator) (payload : JsonValue) :
    ∃ state : State T, (∃ trace, Run (step compile) (Admissible compile latest) (fresh T) trace state) ∧
      state.calls first = .fetched eventType payload (latest eventType) ∧
      state.calls second = .fetched eventType payload (latest eventType) ∧ state.refs = [] := by
  have hstart : ∃ trace, Run (step compile) (Admissible compile latest) (fresh T) trace (fresh T) :=
    ⟨[], .nil⟩
  have hfirst := Run.exists_snoc hstart (.validate first eventType payload)
    ⟨rfl, validator, hserved⟩ (step_validate_miss rfl)
  have hsecond := Run.exists_snoc hfirst (.validate second eventType payload)
    ⟨by rw [State.calls_set, if_neg hne.symm]; rfl, validator, hserved⟩ (step_validate_miss rfl)
  generalize hlooked : ((fresh T).set first (.fetching eventType payload)).set second
    (.fetching eventType payload) = looked at hsecond
  have hlooks : looked.calls first = .fetching eventType payload ∧
      looked.calls second = .fetching eventType payload := by
    simp only [← hlooked, State.calls_set, hne, ↓reduceIte, and_self]
  have hwaits : (looked.set first (.fetched eventType payload (latest eventType))).calls second =
      .fetching eventType payload := by
    rw [State.calls_set, if_neg hne.symm, hlooks.2]
  have hthird := Run.exists_snoc hsecond (.answer first (.body (latest eventType)))
    ⟨eventType, payload, hlooks.1, rfl⟩ (step_answer_body hlooks.1)
  have hfourth := Run.exists_snoc hthird (.answer second (.body (latest eventType)))
    ⟨eventType, payload, hwaits, rfl⟩ (step_answer_body hwaits)
  refine ⟨_, hfourth, ?_, ?_, ?_⟩
  · rw [State.calls_set, if_neg hne, State.calls_set, if_pos rfl]
  · rw [State.calls_set, if_pos rfl]
  · rw [← hlooked]
    rfl

-- Where the schema has a name, the second of them to compile it is refused.
theorem exists_run_of_overlap {first second : T} (hne : first ≠ second)
    {eventType : List CodeUnit} {validator : ValidateFunction}
    (hserved : Served compile latest eventType validator) (hid : idOf (latest eventType) ≠ [])
    (payload : JsonValue) :
    ∃ trace last, Run (step compile) (Admissible compile latest) (fresh T) trace last ∧
      ∃ message, last.calls second =
        .settled eventType payload (.error (.schemaRegistryError message)) := by
  obtain ⟨state, hrun, hfirst, hsecond, hrefs⟩ := exists_run_of_lookups hne hserved payload
  obtain ⟨schemaDoc, hparse, hcompile⟩ := hserved
  rw [idOf, hparse] at hid
  have hunused : schemaId schemaDoc = [] ∨ schemaId schemaDoc ∉ state.refs := by
    rw [hrefs]
    exact .inr List.not_mem_nil
  have hnames : (ajvCompile compile state.refs schemaDoc).2 = [schemaId schemaDoc] := by
    rw [hrefs, ajvCompile_unused hid List.not_mem_nil]
    rfl
  have hcompiled := Run.exists_snoc hrun (.compile first) ⟨eventType, payload, _, hfirst⟩
    (step_compile_unused hfirst hparse hcompile hunused)
  rw [hnames] at hcompiled
  generalize hnext : ({ state.set first (.checking eventType payload validator) with
    refs := [schemaId schemaDoc]
    validatorCache := Members.insert state.validatorCache eventType validator } : State T) =
      next at hcompiled
  have hlast : next.calls second = .fetched eventType payload (latest eventType) := by
    rw [← hnext]
    change (state.set first (.checking eventType payload validator)).calls second = _
    rw [State.calls_set, if_neg hne.symm, hsecond]
  have hused : schemaId schemaDoc ∈ next.refs := by
    rw [← hnext]
    exact List.mem_singleton_self _
  obtain ⟨message, hrefused⟩ := @step_compile_used _ _ compile _ _ _ _ _ _ hlast hparse hid hused
  obtain ⟨trace, hrun⟩ := Run.exists_snoc hcompiled (.compile second)
    ⟨eventType, payload, _, hlast⟩ hrefused
  exact ⟨trace, _, hrun, message, by rw [State.calls_set, if_pos rfl]⟩

end Overlap

section Runs

variable {T : Type} [DecidableEq T] (compile : JsonValue → Except (List CodeUnit) ValidateFunction)
  (latest : List CodeUnit → List Char)

-- In every run, the answers so far are those of lone calls for exactly as long as nothing has
-- been compiled under a name in use.
theorem safe_iff_each_unused {trace : List (Input T × Unit)} {last : State T}
    (hrun : Run (step compile) (Admissible compile latest) (fresh T) trace last) :
    Safe compile latest last ↔
      Run.Each Unused (step compile) (Admissible compile latest) (fresh T) trace := by
  induction hrun with
  | nil => exact iff_of_true safe_fresh (Run.each_nil _ _)
  | @snoc trace state input hrun hinput ih =>
      have hsound : Sound compile latest state :=
        Run.invariant (P := Sound compile latest)
          (fun _ _ hsound hinput => (step_spec hsound hinput).1) hrun sound_fresh
      rw [Run.each_snoc hrun, ← ih]
      exact (step_spec hsound hinput).2

end Runs

-- What two objects with the committed `$id` have in common, and all that they ask for.
def sampleTree : Json.Tree :=
  .object [(units "$id", .string
      (units "https://schema.trustlist.org/event/signal.tier-one.example-collector/1.0.0")),
    (units "type", .string (units "object"))]

def sampleText (_ : List CodeUnit) : List Char :=
  Json.render Json.quoteAscii sampleTree

def sampleValidator : ValidateFunction
  | .object _ => none
  | _ => some [{ instancePath := [], message := some (units "must be object") }]

def sampleCompile (_ : JsonValue) : Except (List CodeUnit) ValidateFunction :=
  .ok sampleValidator

def sampleType : List CodeUnit :=
  units "signal.tier-one.example-collector"

theorem parse_sampleText :
    JsonValue.parse (sampleText sampleType) = .ok (JsonValue.ofTree sampleTree) := by
  rw [JsonValue.parse, sampleText, Json.parse_render Json.faithful_quoteAscii]
  rfl

theorem served_sampleText : Served sampleCompile sampleText sampleType sampleValidator :=
  ⟨_, parse_sampleText, rfl⟩

theorem idOf_sampleText : idOf (sampleText sampleType) =
    units "https://schema.trustlist.org/event/signal.tier-one.example-collector/1.0.0" := by
  rw [idOf, parse_sampleText]
  rfl

def samplePayload : JsonValue :=
  .object []

-- The first two calls of a new instance.
theorem exists_run_sample :
    ∃ trace last, Run (step sampleCompile) (Admissible sampleCompile sampleText) (fresh ℕ) trace
        last ∧
      ∃ message, last.calls 1 =
        .settled sampleType samplePayload (.error (.schemaRegistryError message)) := by
  have hne : (0 : ℕ) ≠ 1 := by decide
  have hid : idOf (sampleText sampleType) ≠ [] := by
    rw [idOf_sampleText]
    decide
  exact exists_run_of_overlap hne served_sampleText hid samplePayload

-- In their run a name is used twice.
theorem not_each_unused_sample :
    ∃ trace, ¬ Run.Each Unused (step sampleCompile) (Admissible sampleCompile sampleText) (fresh ℕ)
      trace := by
  obtain ⟨trace, last, hrun, message, hcall⟩ := exists_run_sample
  refine ⟨trace, fun heach => ?_⟩
  have hsafe := (safe_iff_each_unused sampleCompile sampleText hrun).mpr heach 1
  rw [hcall] at hsafe
  exact hsafe.2 message rfl

-- Alone the second would have been accepted.
theorem registryError_at_once :
    alone sampleCompile sampleText sampleType samplePayload =
        .settled sampleType samplePayload (.ok ()) ∧
      ∃ trace last, Run (step sampleCompile) (Admissible sampleCompile sampleText) (fresh ℕ) trace
          last ∧
        ∃ message, last.calls 1 =
          .settled sampleType samplePayload (.error (.schemaRegistryError message)) :=
  ⟨alone_of_served served_sampleText samplePayload, exists_run_sample⟩

end TrustlistCore.EventBus.TypeScript.SchemaRegistry
