import TrustlistCore.EventBus.EnvelopeRoundTrip
import TrustlistCore.EventBus.TypeScript.Received
import TrustlistCore.Library.Json.Quoting

namespace TrustlistCore.EventBus

open Library Unicode Value

open EventBus.EventEnvelope (wire)

-- One value in both languages, its members in one order. An integer is a number or a bigint
-- in TypeScript.
mutual

def Given : Value → TypeScript.JsonValue → Prop
  | .none, .null => True
  | .bool a, .boolean b => a = b
  | .int n, .number x => x = .ofNumber (.ofInt n)
  | .int n, .bigint m => n = m
  | .float x, .number y => x = y
  | .str points, .string units => units = utf16 points
  | .list xs, .array ys => GivenItems xs ys
  | .dict xs, .object ys => GivenMembers xs ys
  | _, _ => False

def GivenItems : List Value → List TypeScript.JsonValue → Prop
  | [], [] => True
  | x :: xs, y :: ys => Given x y ∧ GivenItems xs ys
  | _, _ => False

def GivenMembers :
    List (List CodePoint × Value) → List (List CodeUnit × TypeScript.JsonValue) → Prop
  | [], [] => True
  | (key, x) :: xs, (name, y) :: ys => name = utf16 key ∧ Given x y ∧ GivenMembers xs ys
  | _, _ => False

end

-- The content of one envelope, given to both SDKs.
structure GivenEnvelope (envelope : EventEnvelope) (members : List (List CodePoint × Value))
    (other : TypeScript.EventEnvelope) : Prop where
  eventType : Given envelope.eventType other.eventType
  eventVersion : Given envelope.eventVersion other.eventVersion
  producerId : Given envelope.producerId other.producerId
  idempotencyKey : Given envelope.idempotencyKey other.idempotencyKey
  source : Given envelope.provenance.source other.provenance.source
  method : Given envelope.provenance.method other.provenance.method
  contributorIdentity :
    Given envelope.provenance.contributorIdentity other.provenance.contributorIdentity
  payload : Given envelope.payload other.payload
  carries : envelope.Carries members
  traceContext : GivenMembers members other.traceContext
  eventId : other.eventId = .string (utf16 (envelope.eventId.text.map Json.charPoint))
  producedAt : other.producedAt =
    .string (utf16 ((IsoTime.isoformat envelope.producedAt).map Json.charPoint))

def NoBigint : TypeScript.JsonValue → Prop
  | .bigint _ => False
  | _ => True

-- The texts of an integer agree as long as its shortest decimal is the integer itself.
def AlikeInt (maxStrDigits : ℕ) (n : ℤ) : Prop :=
  exceeds maxStrDigits (Nat.toDigits 10 n.natAbs) = false ∧ n.natAbs < 10 ^ 21 ∧
    ∃ x, binary64.nearest (n.natAbs : ℚ) = some x ∧ Double.decimal x = n.natAbs

-- Those of a float agree unless just one of them has an exponent, shows `.0` or pads the
-- exponent to two digits.
def AlikeFloat : Double → Prop
  | .finite _ x =>
      x.val ≠ 0 ∧ ((10 : ℚ) ^ (21 : ℤ) ≤ Double.decimal x ∨
        ((10 : ℚ) ^ (-4 : ℤ) ≤ Double.decimal x ∧ ¬ ∃ n : ℕ, x.val = n) ∨
        Double.decimal x < (10 : ℚ) ^ (-9 : ℤ))
  | _ => False

def AlikeText (points : List CodePoint) : Prop :=
  ∀ point ∈ decode16 (utf16 points), Json.Shared point

def AlikeNode (maxStrDigits : ℕ) : Value → Prop
  | .int n => AlikeInt maxStrDigits n
  | .float x => AlikeFloat x
  | .str points => AlikeText points
  | .dict members => ∀ key ∈ Members.keys members, AlikeText key
  | .object _ _ => False
  | _ => True

namespace Value

-- The document TypeScript writes of a value that was given to both.
mutual

def scripted : Value → Json.Tree
  | .none => .null
  | .bool value => .bool value
  | .int n => TypeScript.JsonValue.numberTree (.ofNumber (.ofInt n))
  | .float x => TypeScript.JsonValue.numberTree x
  | .str points => .string (utf16 points)
  | .list items => .array (scriptedItems items)
  | .dict members => .object (scriptedMembers members)
  | .object _ text => .string (utf16 text)

def scriptedItems : List Value → List Json.Tree
  | [] => []
  | item :: items => scripted item :: scriptedItems items

def scriptedMembers : List (List CodePoint × Value) → List (List CodeUnit × Json.Tree)
  | [] => []
  | (key, value) :: members => (utf16 key, scripted value) :: scriptedMembers members

end

theorem scriptedItems_eq (items : List Value) : scriptedItems items = items.map scripted := by
  induction items with
  | nil => rfl
  | cons item items ih => rw [scriptedItems, ih, List.map_cons]

theorem scriptedMembers_eq (members : List (List CodePoint × Value)) :
    scriptedMembers members = members.map fun member => (utf16 member.1, scripted member.2) := by
  induction members with
  | nil => rfl
  | cons member members ih => rw [scriptedMembers, ih, List.map_cons]

end Value

section Given

theorem givenItems_iff {xs : List Value} {ys : List TypeScript.JsonValue} :
    GivenItems xs ys ↔ List.Forall₂ Given xs ys := by
  induction xs generalizing ys with
  | nil => cases ys <;> simp [GivenItems]
  | cons x xs ih =>
      cases ys with
      | nil => simp [GivenItems]
      | cons y ys => rw [GivenItems, ih, List.forall₂_cons]

theorem givenMembers_iff {xs : List (List CodePoint × Value)}
    {ys : List (List CodeUnit × TypeScript.JsonValue)} :
    GivenMembers xs ys ↔
      List.Forall₂ (fun x y => y.1 = utf16 x.1 ∧ Given x.2 y.2) xs ys := by
  induction xs generalizing ys with
  | nil => cases ys <;> simp [GivenMembers]
  | cons x xs ih =>
      cases ys with
      | nil => simp [GivenMembers]
      | cons y ys => rw [GivenMembers, ih, List.forall₂_cons, and_assoc]

theorem document_of_given {value : Value} {other : TypeScript.JsonValue}
    (h : Given value other) (hbigint : other.Every NoBigint) :
    other.document = .ok (some (scripted value)) := by
  induction value using Value.induct generalizing other with
  | none => cases other <;> first | rfl | exact absurd h id
  | bool b =>
      cases other with
      | boolean c =>
          obtain rfl : b = c := h
          rfl
      | _ => exact absurd h id
  | int n =>
      cases other with
      | number x =>
          obtain rfl : x = .ofNumber (.ofInt n) := h
          rfl
      | bigint m => exact absurd hbigint.self id
      | _ => exact absurd h id
  | float x =>
      cases other with
      | number y =>
          obtain rfl : x = y := h
          rfl
      | _ => exact absurd h id
  | str points =>
      cases other with
      | string units =>
          obtain rfl : units = utf16 points := h
          rfl
      | _ => exact absurd h id
  | list xs ih =>
      cases other with
      | array ys =>
          have hitems := givenItems_iff.mp h
          have hall := (TypeScript.JsonValue.every_array.mp hbigint).2
          rw [scripted, scriptedItems_eq]
          refine TypeScript.JsonValue.document_array ?_
          clear h hbigint
          induction hitems with
          | nil => rfl
          | @cons x y xs ys hxy _ step =>
              simp only [List.map_cons, List.cons.injEq]
              exact ⟨ih x List.mem_cons_self hxy (hall y List.mem_cons_self),
                step (fun x hx => ih x (List.mem_cons_of_mem _ hx))
                  fun y hy => hall y (List.mem_cons_of_mem _ hy)⟩
      | _ => exact absurd h id
  | dict xs ih =>
      cases other with
      | object ys =>
          have hmembers := givenMembers_iff.mp h
          have hall := (TypeScript.JsonValue.every_object.mp hbigint).2
          rw [scripted, scriptedMembers_eq]
          refine TypeScript.JsonValue.document_object ?_
          clear h hbigint
          induction hmembers with
          | nil => rfl
          | @cons x y xs ys hxy _ step =>
              have hy := ih x List.mem_cons_self hxy.2 (hall y List.mem_cons_self)
              simp only [List.map_cons, List.cons.injEq, hxy.1, hy, true_and]
              exact step (fun x hx => ih x (List.mem_cons_of_mem _ hx))
                fun y hy => hall y (List.mem_cons_of_mem _ hy)
      | _ => exact absurd h id
  | object kind text => cases other <;> exact absurd h id

theorem noBigint_of_document {other : TypeScript.JsonValue} {tree : Option Json.Tree}
    (h : other.document = .ok tree) : other.Every NoBigint := by
  induction other using TypeScript.JsonValue.induct generalizing tree with
  | bigint n => exact nomatch h
  | array items ih =>
      rw [TypeScript.JsonValue.document, Result.map_eq_ok] at h
      obtain ⟨trees, hitems, -⟩ := h
      refine TypeScript.JsonValue.every_array.mpr ⟨trivial, fun item hi => ?_⟩
      rw [TypeScript.JsonValue.documentItems_eq] at hitems
      obtain ⟨tree, htree⟩ := Members.exists_of_gather hitems (List.mem_map_of_mem hi)
      exact ih item hi htree
  | object members ih =>
      rw [TypeScript.JsonValue.document, Result.map_eq_ok] at h
      obtain ⟨trees, hmembers, -⟩ := h
      refine TypeScript.JsonValue.every_object.mpr ⟨trivial, fun member hm => ?_⟩
      rw [TypeScript.JsonValue.documentMembers_eq] at hmembers
      obtain ⟨tree, htree⟩ := Members.exists_of_collect hmembers (List.mem_map_of_mem hm)
      exact ih member hm htree
  | _ => trivial

end Given

namespace Value

theorem laidOut_wire_list (items : List Value) :
    laidOut wire (.list items) = .array (items.map (laidOut wire)) := by
  rw [laidOut, laidOutItems_eq]

theorem laidOut_wire_dict (members : List (List CodePoint × Value)) :
    laidOut wire (.dict members) =
      .object (members.map fun member => (utf16 member.1, laidOut wire member.2)) := by
  have hordered : ordered wire (laidOutMembers wire members) = laidOutMembers wire members := rfl
  rw [laidOut, hordered, laidOutMembers_eq, List.map_map]
  rfl

def AlikeNumber : Value → Prop
  | .int n => n.natAbs < 10 ^ 21 ∧
      ∃ x, binary64.nearest (n.natAbs : ℚ) = some x ∧ Double.decimal x = n.natAbs
  | .float x => AlikeFloat x
  | _ => True

def AlikeString : Value → Prop
  | .str points => AlikeText points
  | .dict members => ∀ key ∈ Members.keys members, AlikeText key
  | .object _ text => AlikeText text
  | _ => True

theorem alikeInt_iff (n : ℤ) :
    laidOut wire (.int n) = scripted (.int n) ↔ AlikeNumber (.int n) := by
  have hnegative : (Number.ofInt n).negative = decide (n < 0) := rfl
  rw [laidOut, scripted, Double.ofNumber, Number.magnitude_ofInt, hnegative]
  cases hnearest : binary64.nearest (n.natAbs : ℚ) with
  | none =>
      refine iff_of_false (fun h => by cases h) ?_
      rintro ⟨-, x, hx, -⟩
      rw [hnearest] at hx
      cases hx
  | some x =>
      have hdisplay := Double.display_eq_ofInt_iff hnearest
      simp only [TypeScript.JsonValue.numberTree, Json.Tree.number.injEq]
      rw [eq_comm, hdisplay]
      constructor
      · exact fun h => ⟨h.2, x, hnearest, h.1⟩
      · rintro ⟨hlt, y, hy, hdecimal⟩
        rw [hnearest, Option.some.injEq] at hy
        rw [← hy] at hdecimal
        exact ⟨hdecimal, hlt⟩

theorem alikeFloat_iff (x : Double) :
    laidOut wire (.float x) = scripted (.float x) ↔ AlikeNumber (.float x) := by
  cases x with
  | finite negative x =>
      rw [laidOut, scripted, floatTree]
      simp only [TypeScript.JsonValue.numberTree, Json.Tree.number.injEq]
      rw [eq_comm, Double.display_eq_repr_iff]
      rfl
  | infinity negative => exact iff_of_false (fun h => by cases h) id
  | nan => exact iff_of_false (fun h => by cases h) id

-- The two documents are one just where all numbers are spelled alike.
theorem laidOut_eq_scripted_iff (value : Value) :
    laidOut wire value = scripted value ↔ Every AlikeNumber value := by
  induction value using Value.induct with
  | int n => exact alikeInt_iff n
  | float x => exact alikeFloat_iff x
  | list items ih =>
      rw [laidOut_wire_list, scripted, scriptedItems_eq, Json.Tree.array.injEq, List.map_inj_left,
        every_list]
      constructor
      · exact fun h => ⟨trivial, fun item hi => (ih item hi).mp (h item hi)⟩
      · exact fun h item hi => (ih item hi).mpr (h.2 item hi)
  | dict members ih =>
      rw [laidOut_wire_dict, scripted, scriptedMembers_eq, Json.Tree.object.injEq,
        List.map_inj_left, every_dict]
      simp only [Prod.mk.injEq, true_and]
      constructor
      · exact fun h => ⟨trivial, fun member hm => (ih member hm).mp (h member hm)⟩
      · exact fun h member hm => (ih member hm).mpr (h.2 member hm)
  | _ => exact iff_of_true rfl trivial

theorem everyString_laidOut_iff (value : Value) :
    Json.EveryString (fun units => ∀ point ∈ decode16 units, Json.Shared point)
      (laidOut wire value) ↔ Every AlikeString value := by
  induction value using Value.induct with
  | float x => cases x <;> exact iff_of_true trivial trivial
  | list items ih =>
      rw [laidOut_wire_list, Json.EveryString, Json.everyStringItem_iff, List.forall_mem_map,
        every_list]
      constructor
      · exact fun h => ⟨trivial, fun item hi => (ih item hi).mp (h item hi)⟩
      · exact fun h item hi => (ih item hi).mpr (h.2 item hi)
  | dict members ih =>
      rw [laidOut_wire_dict, Json.EveryString, Json.everyStringMember_iff, List.forall_mem_map,
        every_dict]
      constructor
      · intro h
        refine ⟨fun key hkey => ?_, fun member hm => (ih member hm).mp (h member hm).2⟩
        obtain ⟨member, hm, rfl⟩ := List.mem_map.mp hkey
        exact (h member hm).1
      · exact fun h member hm =>
          ⟨h.1 member.1 (List.mem_map_of_mem hm), (ih member hm).mpr (h.2 member hm)⟩
  | _ => exact Iff.rfl

theorem every_alikeNode_iff {maxStrDigits : ℕ} {value : Value} :
    Every (AlikeNode maxStrDigits) value ↔
      Every (Prints wire maxStrDigits) value ∧ Every AlikeNumber value ∧
        Every AlikeString value := by
  constructor
  · intro h
    refine ⟨h.mono fun value hnode => ?_, h.mono fun value hnode => ?_,
      h.mono fun value hnode => ?_⟩
    · cases value with
      | int n => exact hnode.1
      | object kind text => exact absurd hnode id
      | _ => trivial
    · cases value with
      | int n => exact hnode.2
      | float x => exact hnode
      | _ => trivial
    · cases value with
      | str points => exact hnode
      | dict members => exact hnode
      | object kind text => exact absurd hnode id
      | _ => trivial
  · rintro ⟨hprints, hnumber, hstring⟩
    refine (hprints.and (hnumber.and hstring)).mono fun value hnode => ?_
    cases value with
    | int n => exact ⟨hnode.1, hnode.2.1⟩
    | float x => exact hnode.2.1
    | str points => exact hnode.2.2
    | dict members => exact hnode.2.2
    | object kind text => exact absurd hnode.1 Bool.false_ne_true
    | _ => trivial

end Value

theorem given_toWire {envelope : EventEnvelope} {members : List (List CodePoint × Value)}
    {other : TypeScript.EventEnvelope} (h : GivenEnvelope envelope members other) :
    Given (envelope.toDict (.dict members)) other.toWire := by
  refine ⟨rfl, ?_, rfl, h.eventType, rfl, h.eventVersion, rfl, ?_, rfl, h.producerId, rfl,
    h.traceContext, rfl, h.idempotencyKey, rfl,
    ⟨rfl, h.source, rfl, h.method, rfl, h.contributorIdentity, trivial⟩, rfl, h.payload, trivial⟩
  · rw [h.eventId]
    exact rfl
  · rw [h.producedAt]
    exact rfl

theorem EventEnvelope.toBytes_eq_ok_iff {maxStrDigits : ℕ} {envelope : EventEnvelope}
    {members : List (List CodePoint × Value)} (h : envelope.Carries members) {raw : List UInt8} :
    envelope.toBytes maxStrDigits = .ok raw ↔
      Every (Prints wire maxStrDigits) (envelope.toDict (.dict members)) ∧
        raw = Utf8.encode
          (Json.render Json.quoteAscii (laidOut wire (envelope.toDict (.dict members)))) := by
  unfold EventEnvelope.toBytes
  rw [EventEnvelope.carrier_of_carries h]
  simp only [bind, Except.bind, Result.map_eq_ok, dumps_eq_ok_iff]
  constructor
  · rintro ⟨text, ⟨hprints, rfl⟩, rfl⟩
    exact ⟨hprints, rfl⟩
  · rintro ⟨hprints, rfl⟩
    exact ⟨_, ⟨hprints, rfl⟩, rfl⟩

theorem TypeScript.EventEnvelope.toBytes_eq_ok_iff {value : Value}
    {other : TypeScript.EventEnvelope} (h : Given value other.toWire) {raw : List UInt8} :
    other.toBytes = .ok raw ↔
      other.toWire.Every NoBigint ∧
        raw = Utf8.encode (Json.render Json.quoteLiteral (scripted value)) := by
  unfold TypeScript.EventEnvelope.toBytes TypeScript.JsonValue.stringify
  constructor
  · intro hbytes
    cases hdocument : other.toWire.document with
    | error e =>
        rw [hdocument] at hbytes
        exact nomatch hbytes
    | ok tree =>
        have hbigint := noBigint_of_document hdocument
        have htree := document_of_given h hbigint
        rw [htree] at hbytes
        exact ⟨hbigint, (Except.ok.inj hbytes).symm⟩
  · rintro ⟨hbigint, rfl⟩
    rw [document_of_given h hbigint]
    rfl

-- By unique readability one text is one document, quoted alike throughout.
theorem render_eq_iff_alike (value : Value) :
    Json.render Json.quoteAscii (laidOut wire value) =
        Json.render Json.quoteLiteral (scripted value) ↔
      Every AlikeNumber value ∧ Every AlikeString value := by
  rw [← laidOut_eq_scripted_iff, ← everyString_laidOut_iff, ← Json.render_quoteLiteral_eq_iff]
  constructor
  · intro h
    have hascii := Json.parse_render Json.faithful_quoteAscii (laidOut wire value)
    have hliteral := Json.parse_render Json.faithful_quoteLiteral (scripted value)
    rw [h, hliteral, Option.some.injEq] at hascii
    exact ⟨hascii.symm, by rw [h, hascii]⟩
  · rintro ⟨htree, hquote⟩
    rw [← hquote, htree]

-- The bytes agree just where every number is spelled alike, every character is quoted alike
-- and nothing is a bigint.
theorem toBytes_eq_iff {maxStrDigits : ℕ} {envelope : EventEnvelope}
    {members : List (List CodePoint × Value)} {other : TypeScript.EventEnvelope}
    (h : GivenEnvelope envelope members other) :
    (∃ raw, envelope.toBytes maxStrDigits = .ok raw ∧ other.toBytes = .ok raw) ↔
      Every (AlikeNode maxStrDigits) (envelope.toDict (.dict members)) ∧
        other.toWire.Every NoBigint := by
  have hgiven := given_toWire h
  rw [Value.every_alikeNode_iff, ← render_eq_iff_alike]
  constructor
  · rintro ⟨raw, hpython, hscript⟩
    obtain ⟨hprints, hraw⟩ := (EventEnvelope.toBytes_eq_ok_iff h.carries).mp hpython
    obtain ⟨hbigint, hother⟩ := (TypeScript.EventEnvelope.toBytes_eq_ok_iff hgiven).mp hscript
    exact ⟨⟨hprints, Utf8.encode_injective (hraw.symm.trans hother)⟩, hbigint⟩
  · rintro ⟨⟨hprints, htext⟩, hbigint⟩
    refine ⟨_, (EventEnvelope.toBytes_eq_ok_iff h.carries).mpr ⟨hprints, rfl⟩, ?_⟩
    exact (TypeScript.EventEnvelope.toBytes_eq_ok_iff hgiven).mpr ⟨hbigint, by rw [htext]⟩

def scriptEnvelope (payload : TypeScript.JsonValue) : TypeScript.EventEnvelope where
  eventType := .string (TypeScript.units "domain.observed")
  eventVersion := TypeScript.ENVELOPE_VERSION
  producerId := .string (TypeScript.units "collector-1")
  idempotencyKey := .string (TypeScript.units "key")
  provenance :=
    { source := .string (TypeScript.units "human"), method := .string (TypeScript.units "probe"),
      contributorIdentity := .string [] }
  payload
  traceContext := [(TypeScript.units "traceparent", .string (TypeScript.units "00"))]
  eventId := .string (utf16 (sampleId.text.map Json.charPoint))
  producedAt := .string (utf16 ((IsoTime.isoformat sampleTime).map Json.charPoint))

theorem given_observed {payload : Value} {other : TypeScript.JsonValue} (h : Given payload other) :
    GivenEnvelope (observedEnvelope payload) [(points "traceparent", .str (points "00"))]
      (scriptEnvelope other) where
  eventType := rfl
  eventVersion := rfl
  producerId := rfl
  idempotencyKey := rfl
  source := rfl
  method := rfl
  contributorIdentity := rfl
  payload := h
  carries := rfl
  traceContext := ⟨rfl, rfl, trivial⟩
  eventId := rfl
  producedAt := rfl

theorem alikeText_chars {text : List Char} (h : ∀ c ∈ text, c.toNat < 0x7F) :
    AlikeText (text.map Json.charPoint) := by
  have hjoined : Joined (text.map Json.charPoint) := decode16_utf16 (scalar_charPoints text)
  unfold AlikeText
  rw [hjoined]
  intro point hp
  obtain ⟨c, hc, rfl⟩ := List.mem_map.mp hp
  exact Or.inl (h c hc)

theorem alikeInt_one : AlikeInt 4300 1 := by
  have hrep : binary64.Representable ((1 : ℕ) : ℚ) := Double.representable_natCast (by decide)
  refine ⟨by decide, by decide, ⟨1, by exact_mod_cast hrep⟩, ?_, ?_⟩
  · exact Format.nearest_of_representable (by exact_mod_cast hrep)
  · exact Double.decimal_of_lt (by norm_num) (by norm_num)

def counted : Value :=
  .dict [(points "count", .int 1)]

def scriptCounted : TypeScript.JsonValue :=
  .object [(TypeScript.units "count", .number (.ofNumber (.ofInt 1)))]

theorem given_counted : Given counted scriptCounted :=
  ⟨rfl, rfl, trivial⟩

theorem alikeNode_named {members : List (List CodePoint × Value)} {names : List String}
    (hkeys : Members.keys members = names.map points)
    (hnames : names.all (fun name => name.toList.all fun c => c.toNat < 0x7F) = true) :
    AlikeNode 4300 (.dict members) := by
  intro key hkey
  rw [hkeys] at hkey
  obtain ⟨name, hname, rfl⟩ := List.mem_map.mp hkey
  refine alikeText_chars fun c hc => ?_
  simpa using List.all_eq_true.mp (List.all_eq_true.mp hnames name hname) c hc

theorem alike_counted : Every (AlikeNode 4300)
    ((observedEnvelope counted).toDict
      (.dict [(points "traceparent", .str (points "00"))])) := by
  have htext {text : List Char} (h : text.all (fun c => c.toNat < 0x7F) = true) :
      Every (AlikeNode 4300) (ofChars text) :=
    alikeText_chars fun c hc => by simpa using List.all_eq_true.mp h c hc
  have hempty : Every (AlikeNode 4300) (.str []) := fun point hp => absurd hp List.not_mem_nil
  have hprovenance : Every (AlikeNode 4300) (observedEnvelope counted).provenance.toDict := by
    refine every_dict.mpr
      ⟨@alikeNode_named _ ["source", "method", "contributor_identity"] rfl (by decide), ?_⟩
    simp only [List.forall_mem_cons, List.not_mem_nil, false_implies, implies_true, and_true]
    exact ⟨htext (by decide), htext (by decide), hempty⟩
  have htrace : Every (AlikeNode 4300) (.dict [(points "traceparent", .str (points "00"))]) := by
    refine every_dict.mpr ⟨@alikeNode_named _ ["traceparent"] rfl (by decide), ?_⟩
    simp only [List.forall_mem_cons, List.not_mem_nil, false_implies, implies_true, and_true]
    exact htext (by decide)
  have hpayload : Every (AlikeNode 4300) counted := by
    refine every_dict.mpr ⟨@alikeNode_named _ ["count"] rfl (by decide), ?_⟩
    simp only [List.forall_mem_cons, List.not_mem_nil, false_implies, implies_true, and_true]
    exact alikeInt_one
  refine every_dict.mpr ⟨@alikeNode_named _ ["event_id", "event_type", "event_version",
    "produced_at", "producer_id", "trace_context", "idempotency_key", "provenance", "payload"] rfl
    (by decide), ?_⟩
  simp only [List.forall_mem_cons, List.not_mem_nil, false_implies, implies_true, and_true]
  exact ⟨htext (by decide), htext (by decide), htext (by decide), htext (by decide),
    htext (by decide), htrace, htext (by decide), hprovenance, hpayload⟩

theorem toBytes_eq_counted :
    ∃ raw, (observedEnvelope counted).toBytes 4300 = .ok raw ∧
      (scriptEnvelope scriptCounted).toBytes = .ok raw :=
  (toBytes_eq_iff (given_observed given_counted)).mpr
    ⟨alike_counted, by
      simp [TypeScript.JsonValue.Every, TypeScript.JsonValue.EveryMember, NoBigint,
        TypeScript.EventEnvelope.toWire, TypeScript.provenanceToWire, TypeScript.JsonValue.spread,
        TypeScript.ENVELOPE_VERSION, scriptEnvelope, scriptCounted]⟩

-- Python escapes what TypeScript writes as it is.
def accented : Value :=
  .dict [(points "name", .str [0xE9])]

def scriptAccented : TypeScript.JsonValue :=
  .object [(TypeScript.units "name", .string [0xE9])]

theorem given_accented : Given accented scriptAccented :=
  ⟨rfl, rfl, trivial⟩

theorem toBytes_ne_accented :
    GivenEnvelope (observedEnvelope accented) [(points "traceparent", .str (points "00"))]
        (scriptEnvelope scriptAccented) ∧
      ¬ ∃ raw, (observedEnvelope accented).toBytes 4300 = .ok raw ∧
        (scriptEnvelope scriptAccented).toBytes = .ok raw := by
  have h := given_observed given_accented
  refine ⟨h, ?_⟩
  rintro ⟨raw, hpython, hscript⟩
  obtain ⟨-, hraw⟩ := (EventEnvelope.toBytes_eq_ok_iff h.carries).mp hpython
  obtain ⟨-, hother⟩ := (TypeScript.EventEnvelope.toBytes_eq_ok_iff (given_toWire h)).mp hscript
  obtain ⟨-, hstring⟩ :=
    (render_eq_iff_alike _).mp (Utf8.encode_injective (hraw.symm.trans hother))
  have hpayload : Every AlikeString accented :=
    (every_dict.mp hstring).2 (points "payload", accented)
      (by simp only [List.mem_cons, observedEnvelope, or_true, true_or])
  have htext : AlikeText [0xE9] :=
    (every_dict.mp hpayload).2 (points "name", .str [0xE9]) (List.mem_singleton.mpr rfl)
  have hshared : Json.Shared 0xE9 := htext 0xE9 List.mem_cons_self
  rcases hshared with hsmall | hsurrogate
  · exact absurd hsmall (by decide)
  · exact absurd hsurrogate.1 (by decide)

end TrustlistCore.EventBus
