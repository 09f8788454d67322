import TrustlistCore.EventBus.EnvelopeRoundTrip
import TrustlistCore.EventBus.TypeScript.Envelope.Theorems
import TrustlistCore.EventBus.TypeScript.Received
import TrustlistCore.Library.Json.Quoting

namespace TrustlistCore.EventBus

open Library Unicode Value

def DenotesInt (n : ℤ) : Double → Prop
  | .finite negative x => (n : ℚ) = if negative then -x.val else x.val
  | _ => False

-- One JSON value in both languages; the order of the members is no part of it.
mutual

def Agrees : Value → TypeScript.JsonValue → Prop
  | .none, .null => True
  | .bool a, .boolean b => a = b
  | .int n, .number x => DenotesInt n x
  | .float x, .number y => x = y
  | .str points, .string units => points = decode16 units
  | .list xs, .array ys => AgreesItems xs ys
  | .dict xs, .object ys =>
      (∀ name ∈ Members.keys ys, decode16 name ∈ Members.keys xs) ∧ AgreesMembers xs ys
  | _, _ => False

def AgreesItems : List Value → List TypeScript.JsonValue → Prop
  | [], [] => True
  | x :: xs, y :: ys => Agrees x y ∧ AgreesItems xs ys
  | _, _ => False

def AgreesMembers :
    List (List CodePoint × Value) → List (List CodeUnit × TypeScript.JsonValue) → Prop
  | [], _ => True
  | (key, value) :: xs, ys =>
      (∃ other, Members.find ys (utf16 key) = some other ∧ Agrees value other) ∧
        AgreesMembers xs ys

end

section Portable

variable (maxStrDigits : ℕ)

-- A document without constants, whose integers Python can read and a double can hold.
mutual

def Portable : Json.Tree → Prop
  | .number number => number.isInteger = true →
      exceeds maxStrDigits number.integer = false ∧
        binary64.Representable (number.toInt.natAbs : ℚ)
  | .constant _ => False
  | .array items => PortableItem items
  | .object members => PortableMember members
  | _ => True

def PortableItem : List Json.Tree → Prop
  | [] => True
  | item :: items => Portable item ∧ PortableItem items

def PortableMember : List (List CodeUnit × Json.Tree) → Prop
  | [] => True
  | (_, tree) :: members => Portable tree ∧ PortableMember members

end

end Portable

section Read

variable {maxStrDigits : ℕ}

theorem portableItem_iff {items : List Json.Tree} :
    PortableItem maxStrDigits items ↔ ∀ item ∈ items, Portable maxStrDigits item := by
  induction items with
  | nil => simp [PortableItem]
  | cons item items ih => simp [PortableItem, ih]

theorem portableMember_iff {members : List (List CodeUnit × Json.Tree)} :
    PortableMember maxStrDigits members ↔
      ∀ member ∈ members, Portable maxStrDigits member.2 := by
  induction members with
  | nil => simp [PortableMember]
  | cons member members ih => simp [PortableMember, ih]

theorem agreesItems_map {A : Type} {items : List A} {f : A → Value}
    {g : A → TypeScript.JsonValue} (h : ∀ item ∈ items, Agrees (f item) (g item)) :
    AgreesItems (items.map f) (items.map g) := by
  induction items with
  | nil => trivial
  | cons item items ih =>
      exact ⟨h item List.mem_cons_self, ih fun other ho => h other (List.mem_cons_of_mem _ ho)⟩

theorem agreesMembers_iff {xs : List (List CodePoint × Value)}
    {ys : List (List CodeUnit × TypeScript.JsonValue)} :
    AgreesMembers xs ys ↔ ∀ member ∈ xs, ∃ other,
      Members.find ys (utf16 member.1) = some other ∧ Agrees member.2 other := by
  induction xs with
  | nil => simp [AgreesMembers]
  | cons member xs ih => simp [AgreesMembers, ih]

-- An integer that a double can hold is the same number in both languages.
theorem denotesInt_ofNumber {number : Number} (h : number.isInteger = true)
    (hrep : binary64.Representable (number.toInt.natAbs : ℚ)) :
    DenotesInt number.toInt (.ofNumber number) := by
  have hnearest := Format.nearest_of_representable hrep
  unfold Double.ofNumber
  rw [Number.magnitude_of_isInteger h, hnearest]
  change (number.toInt : ℚ) = if number.negative = true then -(number.toInt.natAbs : ℚ)
    else number.toInt.natAbs
  unfold Number.toInt
  split <;> simp

theorem exists_agrees_number {number : Number} (h : Portable maxStrDigits (.number number)) :
    ∃ value, readNumber maxStrDigits number = .ok value ∧
      Agrees value (.number (.ofNumber number)) := by
  unfold readNumber
  by_cases hint : number.isInteger = true
  · obtain ⟨hlimit, hrep⟩ := h hint
    rw [if_pos hint, hlimit, if_neg Bool.false_ne_true]
    exact ⟨_, rfl, denotesInt_ofNumber hint hrep⟩
  · rw [if_neg hint]
    exact ⟨_, rfl, rfl⟩

theorem standard_of_portable {tree : Json.Tree} (h : Portable maxStrDigits tree) :
    TypeScript.standard tree = true := by
  induction tree using Json.Tree.induct with
  | constant c => exact absurd h id
  | array items ih =>
      have hitems := portableItem_iff.mp h
      rw [TypeScript.standard, TypeScript.JsonValue.standardItems_iff]
      exact fun item hi => ih item hi (hitems item hi)
  | object members ih =>
      have hmembers := portableMember_iff.mp h
      rw [TypeScript.standard, TypeScript.JsonValue.standardMembers_iff]
      exact fun member hm => ih member hm (hmembers member hm)
  | _ => rfl

theorem decode16_injective : Function.Injective decode16 :=
  Function.LeftInverse.injective utf16_decode16

-- The objects the two languages make of one document, whose last member of a name counts.
theorem readings_of_object {members : List (List CodeUnit × Json.Tree)} {value : Json.Tree → Value}
    (hread : ∀ member ∈ members, ofTree maxStrDigits member.2 = .ok (value member.2)) :
    ofTree maxStrDigits (.object members) = .ok (.dict ((Members.ofPairs members).map fun member =>
        (decode16 member.1, value member.2))) ∧
      ∃ others, TypeScript.JsonValue.ofTree (.object members) = .object others ∧
        others.Perm ((Members.ofPairs members).map fun member =>
          (member.1, TypeScript.JsonValue.ofTree member.2)) := by
  have hmembers : ofMembers maxStrDigits members =
      (members.map fun member => (decode16 member.1, value member.2)).map fun member =>
        (member.1, .ok member.2) := by
    rw [ofMembers_eq, List.map_map]
    exact List.map_congr_left fun member hm => congrArg (Prod.mk _) (hread member hm)
  constructor
  · rw [ofTree, Members.collect_eq_ok.mpr hmembers, Except.map,
      Members.ofPairs_map decode16_injective]
  · refine ⟨_, rfl, (TypeScript.JsonValue.enumerated_perm _).trans ?_⟩
    rw [TypeScript.JsonValue.ofMembers_eq]
    exact (Members.ofPairs_map Function.injective_id TypeScript.JsonValue.ofTree members) ▸
      List.Perm.refl _

theorem exists_agrees_object {members : List (List CodeUnit × Json.Tree)}
    (h : ∀ member ∈ members, ∃ value, ofTree maxStrDigits member.2 = .ok value ∧
      Agrees value (.ofTree member.2)) :
    ∃ value, ofTree maxStrDigits (.object members) = .ok value ∧
      Agrees value (.ofTree (.object members)) := by
  have : Nonempty Value := ⟨.none⟩
  have htree : ∀ tree, (∃ key, (key, tree) ∈ members) → ∃ value,
      ofTree maxStrDigits tree = .ok value ∧ Agrees value (.ofTree tree) :=
    fun tree ⟨key, hm⟩ => h (key, tree) hm
  choose! value hread hagrees using htree
  obtain ⟨hobject, others, hwire, hperm⟩ := @readings_of_object maxStrDigits members
    value fun member hm => hread member.2 ⟨member.1, hm⟩
  have hnodup : (Members.keys ((Members.ofPairs members).map fun member =>
      (member.1, TypeScript.JsonValue.ofTree member.2))).Nodup := by
    rw [Members.keys_mapValues]
    exact Members.nodup_ofPairs members
  refine ⟨_, hobject, ?_⟩
  rw [hwire, Agrees, agreesMembers_iff]
  constructor
  · intro name hname
    have hkey := (hperm.map Prod.fst).mem_iff.mp hname
    rw [Members.keys_map]
    rw [← Members.keys, Members.keys_mapValues] at hkey
    exact List.mem_map_of_mem hkey
  · intro pair hpair
    obtain ⟨member, hm, rfl⟩ := List.mem_map.mp hpair
    have hsent : member ∈ members :=
      (Members.mem_foldl_insert hm).resolve_left List.not_mem_nil
    refine ⟨.ofTree member.2, ?_, hagrees member.2 ⟨member.1, hsent⟩⟩
    rw [utf16_decode16, Members.find_perm hnodup hperm, Members.find_eq_some_iff hnodup]
    exact List.mem_map_of_mem hm

-- What is portable is read in both languages, and as the same value.
theorem exists_agrees {tree : Json.Tree} (h : Portable maxStrDigits tree) :
    ∃ value, ofTree maxStrDigits tree = .ok value ∧ Agrees value (.ofTree tree) := by
  induction tree using Json.Tree.induct with
  | null => exact ⟨.none, rfl, trivial⟩
  | bool b => exact ⟨.bool b, rfl, rfl⟩
  | number number => exact exists_agrees_number h
  | constant c => exact absurd h id
  | string units => exact ⟨.str (decode16 units), rfl, rfl⟩
  | array items ih =>
      have hitems : ∀ item ∈ items, ∃ value, ofTree maxStrDigits item = .ok value ∧
          Agrees value (.ofTree item) :=
        fun item hi => ih item hi (portableItem_iff.mp h item hi)
      have : Nonempty Value := ⟨.none⟩
      choose! value hread hagrees using hitems
      have hgather : ofItems maxStrDigits items = (items.map value).map .ok := by
        rw [ofItems_eq, List.map_map]
        exact List.map_congr_left hread
      refine ⟨.list (items.map value), ?_, ?_⟩
      · rw [ofTree, Members.gather_eq_ok.mpr hgather]
        rfl
      · rw [TypeScript.JsonValue.ofTree, TypeScript.JsonValue.ofItems_eq]
        exact agreesItems_map hagrees
  | object members ih =>
      exact exists_agrees_object fun member hm => ih member hm (portableMember_iff.mp h member hm)

end Read

open TypeScript.JsonValue (property isNullish coalesce spread)

section Fields

theorem isNullish_of_agrees {value : Value} {other : TypeScript.JsonValue} (h : Agrees value other) :
    isNullish other = true ↔ value = .none := by
  cases value <;> cases other <;>
    first | exact absurd h id | exact iff_of_true rfl rfl | simp [isNullish]

theorem property_of_subscript {data value : Value} {wire : TypeScript.JsonValue} {name : String}
    (h : Agrees data wire) (hvalue : subscript data name = .ok value) :
    ∃ other, property wire name = .ok other ∧ Agrees value other := by
  cases data with
  | dict members =>
      cases wire with
      | object others =>
          have hfind := subscript_dict_eq_ok_iff.mp hvalue
          obtain ⟨other, hother, hagrees⟩ :=
            agreesMembers_iff.mp h.2 _ (Members.mem_of_find hfind)
          refine ⟨other, ?_, hagrees⟩
          have hname : Members.find others (TypeScript.units name) = some other := hother
          rw [property, hname]
          rfl
      | _ => exact absurd h id
  | _ => cases hvalue

theorem subscript_of_property {data : Value} {wire other : TypeScript.JsonValue} {name : String}
    (h : Agrees data wire) (hother : property wire name = .ok other)
    (hpresent : isNullish other = false) :
    ∃ value, subscript data name = .ok value ∧ value ≠ .none ∧ Agrees value other := by
  cases wire with
  | object others =>
      cases data with
      | dict members =>
          have hkey : TypeScript.units name ∈ Members.keys others := by
            rw [← Members.find_isSome]
            by_contra hnone
            rw [Option.not_isSome_iff_eq_none] at hnone
            rw [property, hnone] at hother
            rw [← Except.ok.inj hother] at hpresent
            cases hpresent
          have hname : points name ∈ Members.keys members := by
            have hdecoded := h.1 _ hkey
            rwa [TypeScript.units, ← points, joined_points] at hdecoded
          obtain ⟨value, hvalue⟩ := Option.isSome_iff_exists.mp (Members.find_isSome.mpr hname)
          have hsubscript := subscript_dict_eq_ok_iff.mpr hvalue
          obtain ⟨other', hother', hagrees⟩ := property_of_subscript h hsubscript
          obtain rfl : other' = other := Except.ok.inj (hother'.symm.trans hother)
          refine ⟨value, hsubscript, fun hnone => ?_, hagrees⟩
          rw [(isNullish_of_agrees hagrees).mpr hnone] at hpresent
          cases hpresent
      | _ => exact absurd h id
  | undefined => cases hother
  | null => cases hother
  | _ =>
      rw [← Except.ok.inj hother] at hpresent
      cases hpresent

theorem coalesce_of_agrees {value : Value} {other : TypeScript.JsonValue} (h : Agrees value other) :
    coalesce other .null = other := by
  unfold coalesce
  split
  · rename_i hnullish
    rw [(isNullish_of_agrees h).mp hnullish] at h
    cases other <;> first | rfl | exact absurd h id
  · rfl

-- An optional field that is absent is the same as one that is null.
theorem agrees_get {members : List (List CodePoint × Value)} {wire : TypeScript.JsonValue}
    (h : Agrees (.dict members) wire) (name : String) :
    ∃ other, property wire name = .ok other ∧
      Agrees (get (.dict members) name) (coalesce other .null) := by
  cases hfind : Members.find members (points name) with
  | some value =>
      have hsubscript := subscript_dict_eq_ok_iff.mpr hfind
      obtain ⟨other, hother, hagrees⟩ := property_of_subscript h hsubscript
      refine ⟨other, hother, ?_⟩
      unfold Value.get
      simp only [coalesce_of_agrees hagrees, hfind]
      exact hagrees
  | none =>
      cases wire with
      | object others =>
          have hnone : Members.find others (TypeScript.units name) = Option.none := by
            rw [Members.find_eq_none] at hfind ⊢
            intro hkey
            have hdecoded := h.1 _ hkey
            rw [TypeScript.units, ← points, joined_points] at hdecoded
            exact hfind hdecoded
          refine ⟨.undefined, ?_, ?_⟩
          · rw [property, hnone]
            rfl
          · unfold Value.get
            simp only [hfind]
            exact trivial
      | _ => exact absurd h id

end Fields

-- A message in which no field is there that just one of the SDKs looks into.
structure Regular (readers : Readers) (data : Value) : Prop where
  required : ∀ name ∈ ["event_type", "event_version", "producer_id", "idempotency_key", "payload"],
    subscript data name ≠ .ok .none
  eventId : ∀ value, subscript data "event_id" = .ok value → value ≠ .none →
    ∃ id, uuid readers value = .ok id
  producedAt : ∀ value, subscript data "produced_at" = .ok value → value ≠ .none →
    ∃ time, fromIsoformat readers value = .ok time
  traceContext : truthy (get data "trace_context") = true →
    ∃ members, get data "trace_context" = .dict members
  provenance : ∀ value, subscript data "provenance" = .ok value → value ≠ .none →
    ∃ source method, subscript value "source" = .ok source ∧ subscript value "method" = .ok method

-- The fields of one message in both languages. The id and the time are text in TypeScript.
structure EventEnvelope.Corresponds (readers : Readers) (envelope : EventEnvelope)
    (other : TypeScript.EventEnvelope) : Prop where
  eventType : Agrees envelope.eventType other.eventType
  eventVersion : Agrees envelope.eventVersion other.eventVersion
  producerId : Agrees envelope.producerId other.producerId
  idempotencyKey : Agrees envelope.idempotencyKey other.idempotencyKey
  source : Agrees envelope.provenance.source other.provenance.source
  method : Agrees envelope.provenance.method other.provenance.method
  contributorIdentity :
    Agrees envelope.provenance.contributorIdentity other.provenance.contributorIdentity
  payload : Agrees envelope.payload other.payload
  traceContext : ∃ members, envelope.Carries members ∧
    Agrees (.dict members) (.object other.traceContext)
  eventId : ∃ value, Agrees value other.eventId ∧ uuid readers value = .ok envelope.eventId
  producedAt : ∃ value, Agrees value other.producedAt ∧
    fromIsoformat readers value = .ok envelope.producedAt

section Envelope

-- What is falsy in Python spreads to nothing in JavaScript.
theorem spread_of_falsy {value : Value} {other : TypeScript.JsonValue} (h : Agrees value other)
    (hfalsy : truthy value = false) : spread other = [] := by
  cases value with
  | none => cases other <;> first | rfl | exact absurd h id
  | bool b => cases other <;> first | rfl | exact absurd h id
  | int n => cases other <;> first | rfl | exact absurd h id
  | float x => cases other <;> first | rfl | exact absurd h id
  | str s =>
      cases other with
      | string units =>
          have hempty : s = [] := by simpa [truthy] using hfalsy
          have hunits : utf16 (decode16 units) = utf16 [] := by rw [← hempty]; exact congrArg utf16 h.symm
          rw [utf16_decode16] at hunits
          rw [hunits]
          rfl
      | _ => exact absurd h id
  | list items =>
      cases other with
      | array others =>
          have hempty : items = [] := by simpa [truthy] using hfalsy
          cases others with
          | nil => rfl
          | cons first rest =>
              rw [hempty] at h
              exact absurd h id
      | _ => exact absurd h id
  | dict members =>
      cases other with
      | object others =>
          have hempty : members = [] := by simpa [truthy] using hfalsy
          cases others with
          | nil => rfl
          | cons first rest =>
              have hname := h.1 first.1 List.mem_cons_self
              rw [hempty] at hname
              exact absurd hname List.not_mem_nil
      | _ => exact absurd h id
  | object kind text => exact absurd hfalsy Bool.true_eq_false.mp

theorem agrees_carrier {value : Value} {other : TypeScript.JsonValue}
    (h : Agrees value (coalesce other .null))
    (hdict : truthy value = true → ∃ members, value = .dict members) :
    ∃ members, EventEnvelope.carrierOf value =
        .ok (members.map fun member => (.str member.1, member.2)) ∧
      Agrees (.dict members) (.object (spread (coalesce other (.object [])))) := by
  by_cases hnullish : isNullish other = true
  · have hnull : coalesce other .null = .null := if_pos hnullish
    have hempty : coalesce other (.object []) = .object [] := if_pos hnullish
    rw [hnull] at h
    rw [hempty, (isNullish_of_agrees h).mp rfl]
    exact ⟨[], rfl, fun name hname => absurd hname List.not_mem_nil, trivial⟩
  have hother (value : TypeScript.JsonValue) : coalesce other value = other := if_neg hnullish
  rw [hother] at h ⊢
  cases htruthy : truthy value with
  | true =>
      obtain ⟨members, rfl⟩ := hdict htruthy
      cases other with
      | object others => exact ⟨members, EventEnvelope.carrierOf_dict members, h⟩
      | _ => exact absurd h id
  | false =>
      refine ⟨[], ?_, ?_⟩
      · unfold EventEnvelope.carrierOf
        rw [htruthy, if_neg Bool.false_ne_true]
        rfl
      · rw [spread_of_falsy h htruthy]
        exact ⟨fun name hname => absurd hname List.not_mem_nil, trivial⟩

-- Only of a dict anything is there.
theorem exists_dict_of_subscript {data value : Value} {name : String}
    (h : subscript data name = .ok value) : ∃ members, data = .dict members := by
  cases data with
  | dict members => exact ⟨members, rfl⟩
  | _ => exact nomatch h

theorem exists_wire_provenance {data : Value} {wire : TypeScript.JsonValue}
    {provenance : Provenance} (h : Agrees data wire) (hdenotes : Provenance.Denotes data provenance) :
    ∃ other, TypeScript.Provenance.Denotes wire other ∧ Agrees provenance.source other.source ∧
      Agrees provenance.method other.method ∧
      Agrees provenance.contributorIdentity other.contributorIdentity := by
  obtain ⟨source, hsource, hsources⟩ := property_of_subscript h hdenotes.source
  obtain ⟨method, hmethod, hmethods⟩ := property_of_subscript h hdenotes.method
  obtain ⟨members, rfl⟩ := exists_dict_of_subscript hdenotes.source
  obtain ⟨identity, hidentity, hidentities⟩ := agrees_get h "contributor_identity"
  rw [hdenotes.contributorIdentity] at hidentities
  exact ⟨⟨source, method, coalesce identity .null⟩, ⟨hsource, hmethod, identity, hidentity, rfl⟩,
    hsources, hmethods, hidentities⟩

-- Whatever Python decodes TypeScript decodes too, to the same fields.
theorem exists_wire_of_denotes {data : Value} {wire : TypeScript.JsonValue}
    {envelope : EventEnvelope} {readers : Readers} (h : Agrees data wire)
    (hregular : Regular readers data) (hdenotes : EventEnvelope.Denotes data envelope readers) :
    ∃ other, TypeScript.EventEnvelope.Denotes wire other ∧
      envelope.Corresponds readers other := by
  obtain ⟨id, hid, huuid⟩ := hdenotes.eventId
  obtain ⟨time, htime, hiso⟩ := hdenotes.producedAt
  obtain ⟨origin, horigin, hfields⟩ := hdenotes.provenance
  obtain ⟨wid, hwid, hids⟩ := property_of_subscript h hid
  obtain ⟨wtype, hwtype, htypes⟩ := property_of_subscript h hdenotes.eventType
  obtain ⟨wversion, hwversion, hversions⟩ := property_of_subscript h hdenotes.eventVersion
  obtain ⟨wtime, hwtime, htimes⟩ := property_of_subscript h htime
  obtain ⟨wproducer, hwproducer, hproducers⟩ := property_of_subscript h hdenotes.producerId
  obtain ⟨wkey, hwkey, hkeys⟩ := property_of_subscript h hdenotes.idempotencyKey
  obtain ⟨worigin, hworigin, horigins⟩ := property_of_subscript h horigin
  obtain ⟨wpayload, hwpayload, hpayloads⟩ := property_of_subscript h hdenotes.payload
  obtain ⟨members, rfl⟩ := exists_dict_of_subscript hid
  obtain ⟨wtrace, hwtrace, htraces⟩ := agrees_get h "trace_context"
  obtain ⟨context, hcarrier, hcontexts⟩ := agrees_carrier htraces hregular.traceContext
  obtain ⟨wprovenance, hwprovenance, hsource, hmethod, hidentity⟩ :=
    exists_wire_provenance horigins hfields
  have hpresent {value : Value} {other : TypeScript.JsonValue} (hagrees : Agrees value other)
      (hne : value ≠ .none) : isNullish other = false := by
    rw [← Bool.not_eq_true, isNullish_of_agrees hagrees]
    exact hne
  have hrequired : ∀ name ∈ ["event_type", "event_version", "producer_id", "idempotency_key",
      "payload"], ∀ value, subscript (.dict members) name = .ok value → value ≠ .none :=
    fun name hname value hvalue hnone => hregular.required name hname (hnone ▸ hvalue)
  simp only [List.forall_mem_cons, List.not_mem_nil, false_implies, implies_true, and_true]
    at hrequired
  obtain ⟨htype, hversion, hproducer, hkey, hpayload⟩ := hrequired
  have hidNe : id ≠ .none := fun hnone => nomatch (hnone ▸ huuid)
  have htimeNe : time ≠ .none := fun hnone => nomatch (hnone ▸ hiso)
  have horiginNe : origin ≠ .none := fun hnone => nomatch (hnone ▸ hfields.source)
  refine ⟨⟨wtype, wversion, wproducer, wkey, wprovenance, wpayload,
    spread (coalesce wtrace (.object [])), wid, wtime⟩, ⟨?_, hwid, hwtype, hwversion, hwtime,
    hwproducer, ⟨wtrace, hwtrace, rfl⟩, hwkey, ⟨worigin, hworigin, hwprovenance⟩, hwpayload⟩,
    ⟨htypes, hversions, hproducers, hkeys, hsource, hmethod, hidentity, hpayloads,
    ⟨context, ?_, hcontexts⟩, ⟨id, hids, huuid⟩, ⟨time, htimes, hiso⟩⟩⟩
  · simp only [TypeScript.EventEnvelope.required, List.forall_mem_cons, List.not_mem_nil,
      false_implies, implies_true, and_true]
    exact ⟨⟨wid, hwid, hpresent hids hidNe⟩,
      ⟨wtype, hwtype, hpresent htypes (htype _ hdenotes.eventType)⟩,
      ⟨wversion, hwversion, hpresent hversions (hversion _ hdenotes.eventVersion)⟩,
      ⟨wtime, hwtime, hpresent htimes htimeNe⟩,
      ⟨wproducer, hwproducer, hpresent hproducers (hproducer _ hdenotes.producerId)⟩,
      ⟨wkey, hwkey, hpresent hkeys (hkey _ hdenotes.idempotencyKey)⟩,
      ⟨worigin, hworigin, hpresent horigins horiginNe⟩,
      ⟨wpayload, hwpayload, hpresent hpayloads (hpayload _ hdenotes.payload)⟩⟩
  · exact Except.ok.inj (hdenotes.traceContext.symm.trans hcarrier)

-- Whatever TypeScript decodes Python decodes too.
theorem exists_denotes_of_wire {data : Value} {wire : TypeScript.JsonValue}
    {other : TypeScript.EventEnvelope} {readers : Readers} (h : Agrees data wire)
    (hregular : Regular readers data) (hdenotes : TypeScript.EventEnvelope.Denotes wire other) :
    ∃ envelope, EventEnvelope.Denotes data envelope readers := by
  have hfield : ∀ name ∈ TypeScript.EventEnvelope.required,
      ∃ value, subscript data name = .ok value ∧ value ≠ .none := by
    intro name hname
    obtain ⟨other, hother, hpresent⟩ := hdenotes.required name hname
    obtain ⟨value, hvalue, hne, -⟩ := subscript_of_property h hother hpresent
    exact ⟨value, hvalue, hne⟩
  simp only [TypeScript.EventEnvelope.required, List.forall_mem_cons, List.not_mem_nil,
    false_implies, implies_true, and_true] at hfield
  obtain ⟨⟨id, hid, hidNe⟩, ⟨type, htype, -⟩, ⟨version, hversion, -⟩, ⟨time, htime, htimeNe⟩,
    ⟨producer, hproducer, -⟩, ⟨key, hkey, -⟩, ⟨origin, horigin, horiginNe⟩,
    ⟨payload, hpayload, -⟩⟩ := hfield
  obtain ⟨uuid, huuid⟩ := hregular.eventId id hid hidNe
  obtain ⟨instant, hinstant⟩ := hregular.producedAt time htime htimeNe
  obtain ⟨source, method, hsource, hmethod⟩ := hregular.provenance origin horigin horiginNe
  obtain ⟨members, rfl⟩ := exists_dict_of_subscript hid
  obtain ⟨wtrace, -, htraces⟩ := agrees_get h "trace_context"
  obtain ⟨context, hcarrier, -⟩ := agrees_carrier htraces hregular.traceContext
  exact ⟨⟨type, version, producer, key, ⟨source, method, get origin "contributor_identity"⟩, payload,
    context.map fun member => (.str member.1, member.2), uuid, instant⟩,
    ⟨⟨id, hid, huuid⟩, htype, hversion, ⟨time, htime, hinstant⟩, hproducer, hcarrier, hkey,
      ⟨origin, horigin, hsource, hmethod, rfl⟩, hpayload⟩⟩

end Envelope

theorem loads_of_parse {maxStrDigits : ℕ} {text : List Char} {tree : Json.Tree} {data : Value}
    (hparse : Json.parse text = some tree) (hread : ofTree maxStrDigits tree = .ok data) :
    loads maxStrDigits text = .ok data := by
  simp only [loads, hparse, hread]

theorem fromBytes_of_loads {maxStrDigits : ℕ} {text : List Char} {data : Value}
    (hloads : loads maxStrDigits text = .ok data) :
    EventEnvelope.fromBytes maxStrDigits (Utf8.encode text) = EventEnvelope.fromDict data := by
  unfold EventEnvelope.fromBytes
  rw [Utf8.decode_encode]
  simp only [hloads, bind, Except.bind]

theorem parse_of_standard {text : List Char} {tree : Json.Tree}
    (hparse : Json.parse text = some tree) (hstandard : TypeScript.standard tree = true) :
    TypeScript.JsonValue.parse text = .ok (.ofTree tree) := by
  simp only [TypeScript.JsonValue.parse, hparse, hstandard, if_true]

theorem fromBytes_of_parse {text : List Char} {data : TypeScript.JsonValue}
    (hparsed : TypeScript.JsonValue.parse text = .ok data) :
    TypeScript.EventEnvelope.fromBytes (Utf8.encode text) =
      TypeScript.EventEnvelope.fromWire data := by
  unfold TypeScript.EventEnvelope.fromBytes
  simp only [Utf8.decodeLossy_encode, hparsed, bind, Except.bind]

-- Of messages that hold nothing only one side looks into, both decode the same ones, and
-- each to the same envelope.
theorem decoders_agree {readers : Readers} {maxStrDigits : ℕ} {raw : List UInt8} {text : List Char}
    (htext : Utf8.decode raw = some text)
    (hportable : ∀ tree, Json.parse text = some tree → Portable maxStrDigits tree)
    (hregular : ∀ data, loads maxStrDigits text = .ok data → Regular readers data) :
    ((∃ envelope, EventEnvelope.fromBytes maxStrDigits raw readers = .ok envelope) ↔
        ∃ other, TypeScript.EventEnvelope.fromBytes raw = .ok other) ∧
      ∀ envelope other, EventEnvelope.fromBytes maxStrDigits raw readers = .ok envelope →
        TypeScript.EventEnvelope.fromBytes raw = .ok other → envelope.Corresponds readers other := by
  have hpython : EventEnvelope.fromBytes maxStrDigits raw readers =
      (loads maxStrDigits text).bind fun data => EventEnvelope.fromDict data readers := by
    unfold EventEnvelope.fromBytes
    rw [htext]
    rfl
  have hscript : TypeScript.EventEnvelope.fromBytes raw =
      (TypeScript.JsonValue.parse text).bind TypeScript.EventEnvelope.fromWire := by
    unfold TypeScript.EventEnvelope.fromBytes
    rw [Utf8.decodeLossy_of_decode htext]
    rfl
  rw [hpython, hscript]
  cases hparse : Json.parse text with
  | none =>
      have hloads : ∀ envelope, ((loads maxStrDigits text).bind fun data =>
          EventEnvelope.fromDict data readers) ≠ .ok envelope := by
        intro envelope h
        simp only [loads, hparse] at h
        cases h
      have hparsed : ∀ other, (TypeScript.JsonValue.parse text).bind
          TypeScript.EventEnvelope.fromWire ≠ .ok other := by
        intro other h
        simp only [TypeScript.JsonValue.parse, hparse] at h
        cases h
      exact ⟨iff_of_false (not_exists.mpr hloads) (not_exists.mpr hparsed),
        fun envelope _ h => absurd h (hloads envelope)⟩
  | some tree =>
      have htree := hportable tree hparse
      obtain ⟨data, hdata, hagrees⟩ := exists_agrees htree
      have hloads := loads_of_parse hparse hdata
      have hparsed := parse_of_standard hparse (standard_of_portable htree)
      have hall := hregular data hloads
      simp only [hloads, hparsed, Except.bind, EventEnvelope.fromDict_eq_ok_iff,
        TypeScript.EventEnvelope.fromWire_eq_ok_iff]
      refine ⟨⟨?_, ?_⟩, ?_⟩
      · rintro ⟨envelope, henvelope⟩
        obtain ⟨other, hother, -⟩ := exists_wire_of_denotes hagrees hall henvelope
        exact ⟨other, hother⟩
      · rintro ⟨other, hother⟩
        exact exists_denotes_of_wire hagrees hall hother
      · intro envelope other henvelope hother
        obtain ⟨other', hother', hcorresponds⟩ := exists_wire_of_denotes hagrees hall henvelope
        rw [← TypeScript.EventEnvelope.fromWire_eq_ok_iff] at hother hother'
        rwa [Except.ok.inj (hother.symm.trans hother')]

def word (text : String) : Json.Tree :=
  .string (TypeScript.units text)

def message (eventType : Json.Tree) : Json.Tree :=
  .object
    [(TypeScript.units "event_id", word "01234567-89ab-cdef-0123-456789abcdef"),
      (TypeScript.units "event_type", eventType), (TypeScript.units "event_version", word "1.0.0"),
      (TypeScript.units "produced_at", word "2026-02-28T23:59:05+00:00"),
      (TypeScript.units "producer_id", word "collector-1"),
      (TypeScript.units "idempotency_key", word "key"),
      (TypeScript.units "provenance", .object
        [(TypeScript.units "source", word "human"), (TypeScript.units "method", word "probe")]),
      (TypeScript.units "payload", .object [(TypeScript.units "count", .number (.ofInt 1))])]

def messageText (eventType : Json.Tree) : List Char :=
  Json.render Json.quoteAscii (message eventType)

theorem parse_messageText (eventType : Json.Tree) :
    Json.parse (messageText eventType) = some (message eventType) :=
  Json.parse_render Json.faithful_quoteAscii (message eventType)

def messageData (eventType : Value) : Value :=
  .dict
    [(points "event_id", .str (points "01234567-89ab-cdef-0123-456789abcdef")),
      (points "event_type", eventType), (points "event_version", .str (points "1.0.0")),
      (points "produced_at", .str (points "2026-02-28T23:59:05+00:00")),
      (points "producer_id", .str (points "collector-1")),
      (points "idempotency_key", .str (points "key")),
      (points "provenance", .dict
        [(points "source", .str (points "human")), (points "method", .str (points "probe"))]),
      (points "payload", .dict [(points "count", .int 1)])]

theorem regular_messageData (eventType : String) :
    Regular .documented (messageData (.str (points eventType))) where
  required name hname hnone := by
    simp only [List.mem_cons, List.not_mem_nil, or_false] at hname
    rcases hname with rfl | rfl | rfl | rfl | rfl <;> exact nomatch hnone
  eventId value hvalue _ := by
    rw [← Except.ok.inj hvalue]
    exact ⟨_, rfl⟩
  producedAt value hvalue _ := by
    rw [← Except.ok.inj hvalue]
    exact ⟨_, rfl⟩
  traceContext h := absurd h Bool.false_ne_true
  provenance value hvalue _ := by
    rw [← Except.ok.inj hvalue]
    exact ⟨_, _, rfl, rfl⟩

theorem portable_message : Portable 4300 (message (word "signal")) := by
  have hone : binary64.Representable ((1 : ℤ).natAbs : ℚ) :=
    Double.representable_natCast (show 1 ≤ 2 ^ 53 by decide)
  have hlimit : exceeds 4300 (Number.ofInt 1).integer = false := by decide
  have hnumber : Portable 4300 (.number (.ofInt 1)) := fun _ => ⟨hlimit, hone⟩
  simp only [message, word, Portable, PortableMember, and_true, true_and]
  exact hnumber

theorem decoders_agree_signal :
    ((∃ envelope, EventEnvelope.fromBytes 4300 (Utf8.encode (messageText (word "signal"))) =
          .ok envelope) ↔
        ∃ other, TypeScript.EventEnvelope.fromBytes
          (Utf8.encode (messageText (word "signal"))) = .ok other) ∧
      ∀ envelope other,
        EventEnvelope.fromBytes 4300 (Utf8.encode (messageText (word "signal"))) = .ok envelope →
        TypeScript.EventEnvelope.fromBytes (Utf8.encode (messageText (word "signal"))) =
          .ok other → envelope.Corresponds .documented other := by
  refine decoders_agree (Utf8.decode_encode _) (fun tree htree => ?_) fun data hdata => ?_
  · rw [parse_messageText, Option.some.injEq] at htree
    rw [← htree]
    exact portable_message
  · have hread : ofTree 4300 (message (word "signal")) =
        .ok (messageData (.str (points "signal"))) := rfl
    rw [loads_of_parse (parse_messageText _) hread] at hdata
    rw [← Except.ok.inj hdata]
    exact regular_messageData "signal"

-- A field that is null is there for Python and missing for TypeScript.
theorem decoders_differ_null :
    ¬ ((∃ envelope, EventEnvelope.fromBytes 4300 (Utf8.encode (messageText .null)) = .ok envelope) ↔
        ∃ other, TypeScript.EventEnvelope.fromBytes (Utf8.encode (messageText .null)) =
          .ok other) := by
  have hpython : ∃ envelope,
      EventEnvelope.fromBytes 4300 (Utf8.encode (messageText .null)) = .ok envelope := by
    have hread : ofTree 4300 (message .null) = .ok (messageData .none) := rfl
    have hdata : ∃ envelope, EventEnvelope.fromDict (messageData .none) = .ok envelope := ⟨_, rfl⟩
    rw [fromBytes_of_loads (loads_of_parse (parse_messageText _) hread)]
    exact hdata
  have hscript : TypeScript.EventEnvelope.fromBytes (Utf8.encode (messageText .null)) =
      TypeScript.EventEnvelope.fromWire (.ofTree (message .null)) := by
    have hstandard : TypeScript.standard (message .null) = true := rfl
    exact fromBytes_of_parse (parse_of_standard (parse_messageText _) hstandard)
  have hrejected : ∃ e, TypeScript.EventEnvelope.fromWire (.ofTree (message .null)) = .error e :=
    ⟨_, rfl⟩
  intro h
  obtain ⟨other, hother⟩ := h.mp hpython
  obtain ⟨e, he⟩ := hrejected
  rw [hscript, he] at hother
  exact nomatch hother

end TrustlistCore.EventBus
