import TrustlistCore.EventBus.CanonicalKey
import TrustlistCore.EventBus.EnvelopeParity
import TrustlistCore.EventBus.TypeScript.Idempotency.Theorems

namespace TrustlistCore.EventBus

open Library Unicode Value

open EventBus.EventEnvelope (wire)

namespace Value

-- Both orders of strings put these keys in one order.
def Ordered (keys : List (List CodePoint)) : Prop :=
  ∀ a ∈ keys, ∀ b ∈ keys, a ≤ b ↔ utf16 a ≤ utf16 b

-- One node that has the same canonical text on either side of the wire.
def StableNode : Value → Prop
  | .dict members => Ordered (Members.keys members)
  | value => AlikeNumber value

-- A number that the TypeScript SDK makes a key of.
def AcceptedNode : Value → Prop
  | .int n => ∃ x, binary64.nearest (n.natAbs : ℚ) = some x
  | .float x => Double.isInteger x = true
  | _ => True

open TypeScript.JsonValue (received)

theorem accepts_received_iff {value : Value} (h : Readable value) :
    (received value).Every TypeScript.Idempotency.Accepts ↔ Every AcceptedNode value := by
  induction value using Value.induct with
  | int n =>
      have hreceived : received (.int n) = .number (.ofNumber (.ofInt n)) := rfl
      rw [hreceived]
      change Double.isInteger (.ofNumber (.ofInt n)) = true ↔ ∃ x, binary64.nearest _ = some x
      rw [Double.ofNumber, Number.magnitude_ofInt]
      cases hnearest : binary64.nearest (n.natAbs : ℚ) with
      | none =>
          refine iff_of_false Bool.false_ne_true fun h => ?_
          obtain ⟨x, hx⟩ := h
          cases hx
      | some x =>
          have hwhole := Double.integral_of_nearest hnearest
          exact iff_of_true ((Double.isInteger_iff _ x).mpr hwhole) ⟨x, rfl⟩
  | float x =>
      have hreceived : received (.float x) = .number x := by
        cases x with
        | finite negative x => exact congrArg _ (Double.ofNumber_repr negative x)
        | infinity negative => rfl
        | nan => rfl
      rw [hreceived]
      exact Iff.rfl
  | list items ih =>
      rw [TypeScript.JsonValue.received_list, TypeScript.JsonValue.every_array,
        List.forall_mem_map, every_list]
      have hitems := (every_list.mp h).2
      constructor
      · exact fun hall => ⟨trivial, fun item hi => (ih item hi (hitems item hi)).mp (hall.2 item hi)⟩
      · exact fun hall => ⟨trivial, fun item hi => (ih item hi (hitems item hi)).mpr (hall.2 item hi)⟩
  | dict members ih =>
      obtain ⟨others, hperm, hreceived⟩ := TypeScript.JsonValue.exists_received_dict h.self
      have hmembers := (every_dict.mp h).2
      rw [hreceived, TypeScript.JsonValue.every_object, List.forall_mem_map, every_dict]
      constructor
      · exact fun hall => ⟨trivial, fun member hm =>
          (ih member hm (hmembers member hm)).mp (hall.2 member (hperm.mem_iff.mpr hm))⟩
      · exact fun hall => ⟨trivial, fun member hm =>
          (ih member (hperm.mem_iff.mp hm) (hmembers member (hperm.mem_iff.mp hm))).mpr
            (hall.2 member (hperm.mem_iff.mp hm))⟩
  | object kind text => exact absurd h.self id
  | _ => exact iff_of_true trivial trivial

-- The text TypeScript hashes of an object sorts away how its members were enumerated.
theorem laidOut_object_of_perm {members : List (List CodePoint × Value)}
    (h : ReadableNode (.dict members)) {others : List (List CodeUnit × TypeScript.JsonValue)}
    (hperm : others.Perm (members.map fun member => (utf16 member.1, received member.2))) :
    TypeScript.Idempotency.laidOut (.object others) =
      .object (Members.sorted (members.map fun member =>
        (utf16 member.1, TypeScript.Idempotency.laidOut (received member.2)))) := by
  have hnodup := TypeScript.JsonValue.nodup_keys_utf16 received h.1 h.2
  rw [(TypeScript.Idempotency.laidOut_object_eq_iff hnodup).mpr (hperm.map _),
    TypeScript.Idempotency.laidOut, TypeScript.Idempotency.laidOutMembers_eq, List.map_map]
  rfl

theorem laidOut_dict_eq_object_iff {members : List (List CodePoint × Value)}
    (h : ReadableNode (.dict members)) {others : List (List CodeUnit × TypeScript.JsonValue)}
    (hperm : others.Perm (members.map fun member => (utf16 member.1, received member.2))) :
    laidOut Idempotency.canonical (.dict members) =
        TypeScript.Idempotency.laidOut (.object others) ↔
      Ordered (Members.keys members) ∧ ∀ member ∈ members,
        laidOut Idempotency.canonical member.2 =
          TypeScript.Idempotency.laidOut (received member.2) := by
  have hiff := @Members.map_sorted_eq_iff _ _ _ _ _ _ utf16 members (laidOut Idempotency.canonical)
    (fun value => TypeScript.Idempotency.laidOut (received value)) h.1
    fun a ha b hb => (h.2 a ha).injective (h.2 b hb)
  rw [laidOut_dict, laidOut_object_of_perm h hperm, Members.sorted_mapValues, List.map_map,
    Json.Tree.object.injEq]
  exact hiff

-- Both SDKs make one canonical document of a value just where every node is stable.
theorem laidOut_eq_received_iff {value : Value} (h : Readable value) :
    laidOut Idempotency.canonical value = TypeScript.Idempotency.laidOut (received value) ↔
      Every StableNode value := by
  induction value using Value.induct with
  | int n => exact alikeInt_iff n
  | float x =>
      have hreceived : TypeScript.Idempotency.laidOut (received (.float x)) =
          scripted (.float x) := by
        cases x with
        | finite negative x =>
            exact congrArg TypeScript.JsonValue.numberTree (Double.ofNumber_repr negative x)
        | infinity negative => rfl
        | nan => rfl
      rw [hreceived]
      exact alikeFloat_iff x
  | list items ih =>
      have hitems := (every_list.mp h).2
      have hlone : TypeScript.Idempotency.lone (items.map received) = false := by
        refine TypeScript.Idempotency.lone_of_solid (List.forall_mem_map.mpr fun item _ => ?_)
        exact (TypeScript.JsonValue.solid_ofTree _).self
      rw [TypeScript.JsonValue.received_list, laidOut, laidOutItems_eq,
        TypeScript.Idempotency.laidOut_array hlone, Json.Tree.array.injEq, List.map_map,
        List.map_inj_left, every_list]
      constructor
      · exact fun hall => ⟨trivial, fun item hi => (ih item hi (hitems item hi)).mp (hall item hi)⟩
      · exact fun hall item hi => (ih item hi (hitems item hi)).mpr (hall.2 item hi)
  | dict members ih =>
      obtain ⟨others, hperm, hreceived⟩ := TypeScript.JsonValue.exists_received_dict h.self
      have hmembers := (every_dict.mp h).2
      rw [hreceived, laidOut_dict_eq_object_iff h.self (hperm.map _), every_dict]
      refine and_congr_right fun _ => ?_
      constructor
      · exact fun hall member hm => (ih member hm (hmembers member hm)).mp (hall member hm)
      · exact fun hall member hm => (ih member hm (hmembers member hm)).mpr (hall member hm)
  | object kind text => exact absurd h.self id
  | _ => exact iff_of_true rfl trivial

def proto : List CodePoint :=
  points "__proto__"

-- As the prototype, null or an object with such a member hides the accessor.
def HidesAccessor : Value → Prop
  | .none => True
  | .dict members => proto ∈ Members.keys members
  | _ => False

theorem keepsAccessor_received {value : Value} (h : Readable value) :
    TypeScript.Idempotency.keepsAccessor (received value) = false ↔ HidesAccessor value := by
  cases value with
  | none => exact iff_of_true rfl trivial
  | float x => cases x <;> exact iff_of_false Bool.true_eq_false.mp id
  | list items =>
      rw [TypeScript.JsonValue.received_list]
      exact iff_of_false Bool.true_eq_false.mp id
  | dict members =>
      have hreceived := TypeScript.JsonValue.received_dict h.self
      have hfind := TypeScript.JsonValue.find_received h.self hreceived (joined_points "__proto__")
      have hkey : utf16 proto ∈ Members.keys (TypeScript.JsonValue.enumerated
          (members.map fun member => (utf16 member.1, received member.2))) ↔
            proto ∈ Members.keys members := by
        rw [← Members.find_isSome, ← Members.find_isSome, proto, hfind, Option.isSome_map]
      rw [hreceived, TypeScript.Idempotency.keepsAccessor, decide_eq_false_iff_not, not_not]
      exact hkey
  | _ => exact iff_of_false Bool.true_eq_false.mp id

end Value

namespace Idempotency

open TypeScript.JsonValue (received find_received received_dict)

-- A key field that is a member of the object TypeScript hashes. One of the name `__proto__`
-- is one only if it is listed again after its value hid the accessor.
def Kept (payload : List (List CodePoint × Value)) (keyFields : List (List CodePoint))
    (name : List CodePoint) : Prop :=
  name = proto → 2 ≤ keyFields.count proto ∧
    ∃ value, Members.find payload proto = some value ∧ HidesAccessor value

-- Both SDKs hash one document.
def Agreed (payload : List (List CodePoint × Value)) (keyFields : List (List CodePoint)) : Prop :=
  (∀ name ∈ keyFields, Kept payload keyFields name) ∧ Ordered keyFields ∧
    ∀ name ∈ keyFields, ∀ value, Members.find payload name = some value → Every StableNode value

-- TypeScript refuses a number among the kept fields.
def Refused (payload : List (List CodePoint × Value)) (keyFields : List (List CodePoint)) : Prop :=
  ∃ name ∈ keyFields, Kept payload keyFields name ∧ ∃ value,
    Members.find payload name = some value ∧ ¬ Every AcceptedNode value

section Received

variable {payload : List (List CodePoint × Value)}
  {others : List (List CodeUnit × TypeScript.JsonValue)} {keyFields : List (List CodePoint)}

theorem joined_of_present (hpayload : Readable (.dict payload))
    (hpresent : ∀ name ∈ keyFields, name ∈ Members.keys payload) :
    ∀ name ∈ keyFields, Joined name :=
  fun name hname => hpayload.self.2 name (hpresent name hname)

theorem field_received (hpayload : Readable (.dict payload))
    (hreceived : received (.dict payload) = .object others) {name : List CodePoint}
    {value : Value} (hvalue : Members.find payload name = some value) :
    TypeScript.Idempotency.field others (utf16 name) = received value := by
  have hname := hpayload.self.2 name (List.mem_map_of_mem (Members.mem_of_find hvalue))
  unfold TypeScript.Idempotency.field
  rw [find_received hpayload.self hreceived hname, hvalue]
  rfl

theorem readable_find (hpayload : Readable (.dict payload)) {name : List CodePoint}
    {value : Value} (hvalue : Members.find payload name = some value) : Readable value :=
  (every_dict.mp hpayload).2 _ (Members.mem_of_find hvalue)

theorem count_utf16 (hjoined : ∀ name ∈ keyFields, Joined name) :
    (keyFields.map utf16).count TypeScript.Idempotency.proto = keyFields.count proto := by
  induction keyFields with
  | nil => rfl
  | cons name names ih =>
      have hproto : TypeScript.Idempotency.proto = utf16 proto := rfl
      have hiff : utf16 name = TypeScript.Idempotency.proto ↔ name = proto :=
        ⟨fun heq => (hjoined name List.mem_cons_self).injective (joined_points "__proto__") heq,
          fun heq => heq ▸ hproto.symm⟩
      rw [List.map_cons, List.count_cons, List.count_cons,
        ih fun other ho => hjoined other (List.mem_cons_of_mem _ ho)]
      simp only [beq_iff_eq, hiff]

theorem kept_received_iff (hpayload : Readable (.dict payload))
    (hreceived : received (.dict payload) = .object others)
    (hpresent : ∀ name ∈ keyFields, name ∈ Members.keys payload) {name : List CodePoint}
    (hname : name ∈ keyFields) :
    TypeScript.Idempotency.Kept others (keyFields.map utf16) (utf16 name) ↔
      Kept payload keyFields name := by
  have hjoined := joined_of_present hpayload hpresent
  have hproto : utf16 name = TypeScript.Idempotency.proto ↔ name = proto :=
    ⟨fun heq => (hjoined name hname).injective (joined_points "__proto__") heq,
      fun heq => heq ▸ rfl⟩
  unfold TypeScript.Idempotency.Kept Kept
  rw [and_iff_right (List.mem_map_of_mem hname), hproto, count_utf16 hjoined, and_comm]
  refine forall_congr' fun heq => and_congr_right fun _ => ?_
  obtain ⟨value, hvalue⟩ := Option.isSome_iff_exists.mp
    (Members.find_isSome.mpr (hpresent name hname))
  rw [heq] at hvalue
  have hfield : TypeScript.Idempotency.field others TypeScript.Idempotency.proto =
      received value := field_received hpayload hreceived hvalue
  rw [hfield, keepsAccessor_received (readable_find hpayload hvalue)]
  constructor
  · exact fun hhides => ⟨value, hvalue, hhides⟩
  · rintro ⟨other, hother, hhides⟩
    rw [hvalue, Option.some.injEq] at hother
    rwa [hother]

theorem laidOut_document (eventType : List CodePoint) :
    laidOut canonical (document eventType payload keyFields) =
      .object [(utf16 (points "event_type"), .string (utf16 eventType)),
        (utf16 (points "key_fields"), laidOut canonical (.dict (selected payload keyFields)))] := by
  have hkeys : points "event_type" ≤ points "key_fields" := by decide
  unfold document
  rw [laidOut_dict]
  simp only [List.map_cons, List.map_nil, Members.sorted_pair hkeys]
  rfl

theorem laidOut_document_received (eventType : List CodeUnit) (names : List (List CodeUnit)) :
    TypeScript.Idempotency.laidOut (TypeScript.Idempotency.document eventType others names) =
      .object [(utf16 (points "event_type"), .string eventType),
        (utf16 (points "key_fields"), TypeScript.Idempotency.laidOut (.object
          (TypeScript.JsonValue.enumerated
            (TypeScript.Idempotency.selected others names).members)))] := by
  have hkeys : TypeScript.units "event_type" ≤ TypeScript.units "key_fields" := by decide
  unfold TypeScript.Idempotency.document
  rw [TypeScript.Idempotency.laidOut, TypeScript.Idempotency.laidOutMembers_eq]
  simp only [List.map_cons, List.map_nil, Members.sorted_pair hkeys]
  rfl

-- What TypeScript selects is what Python selects of the kept names.
theorem mem_selected_received (hpayload : Readable (.dict payload))
    (hreceived : received (.dict payload) = .object others)
    (hpresent : ∀ name ∈ keyFields, name ∈ Members.keys payload)
    {member : List CodeUnit × TypeScript.JsonValue} :
    member ∈ (TypeScript.Idempotency.selected others (keyFields.map utf16)).members ↔
      ∃ name value, name ∈ keyFields ∧ Kept payload keyFields name ∧
        Members.find payload name = some value ∧ member = (utf16 name, received value) := by
  have hholds := TypeScript.Idempotency.holds_selected others (keyFields.map utf16)
  constructor
  · intro hm
    have hkept := (hholds.keys member.1).mp (List.mem_map_of_mem hm)
    obtain ⟨name, hname, hutf16⟩ := List.mem_map.mp hkept.1
    obtain ⟨value, hvalue⟩ := Option.isSome_iff_exists.mp
      (Members.find_isSome.mpr (hpresent name hname))
    rw [← hutf16, kept_received_iff hpayload hreceived hpresent hname] at hkept
    have hfield := field_received hpayload hreceived hvalue
    rw [hutf16, ← hholds.values member hm] at hfield
    exact ⟨name, value, hname, hkept, hvalue, Prod.ext hutf16.symm hfield⟩
  · rintro ⟨name, value, hname, hkept, hvalue, rfl⟩
    have hkey := (hholds.keys (utf16 name)).mpr
      ((kept_received_iff hpayload hreceived hpresent hname).mpr hkept)
    obtain ⟨other, hother⟩ := Members.mem_keys.mp hkey
    have hfield := field_received hpayload hreceived hvalue
    have hsame : other = TypeScript.Idempotency.field others (utf16 name) :=
      hholds.values _ hother
    rw [hsame, hfield] at hother
    exact hother

theorem accepts_document_iff (hpayload : Readable (.dict payload))
    (hreceived : received (.dict payload) = .object others)
    (hpresent : ∀ name ∈ keyFields, name ∈ Members.keys payload) (eventType : List CodeUnit) :
    (TypeScript.Idempotency.document eventType others (keyFields.map utf16)).Every
        TypeScript.Idempotency.Accepts ↔ ¬ Refused payload keyFields := by
  unfold TypeScript.Idempotency.document
  simp only [TypeScript.JsonValue.every_object, List.forall_mem_cons, List.not_mem_nil,
    false_implies, implies_true, and_true,
    (TypeScript.JsonValue.enumerated_perm _).mem_iff,
    mem_selected_received hpayload hreceived hpresent]
  constructor
  · rintro h ⟨name, hname, hkept, value, hvalue, hrefused⟩
    exact hrefused ((accepts_received_iff (readable_find hpayload hvalue)).mp
      (h.2.2.2 _ ⟨name, value, hname, hkept, hvalue, rfl⟩))
  · intro h
    refine ⟨trivial, trivial, trivial, ?_⟩
    rintro member ⟨name, value, hname, hkept, hvalue, rfl⟩
    rw [accepts_received_iff (readable_find hpayload hvalue)]
    by_contra hrefused
    exact h ⟨name, hname, hkept, value, hvalue, hrefused⟩

theorem readableNode_selected (hpayload : Readable (.dict payload))
    (hpresent : ∀ name ∈ keyFields, name ∈ Members.keys payload) :
    ReadableNode (.dict (selected payload keyFields)) :=
  ⟨Members.nodup_ofPairs _, fun name hname =>
    joined_of_present hpayload hpresent name ((mem_keys_selected hpresent).mp hname)⟩

theorem kept_of_laidOut_eq (hpayload : Readable (.dict payload))
    (hreceived : received (.dict payload) = .object others)
    (hpresent : ∀ name ∈ keyFields, name ∈ Members.keys payload)
    (h : laidOut canonical (.dict (selected payload keyFields)) =
      TypeScript.Idempotency.laidOut (.object (TypeScript.JsonValue.enumerated
        (TypeScript.Idempotency.selected others (keyFields.map utf16)).members)))
    {name : List CodePoint} (hname : name ∈ keyFields) : Kept payload keyFields name := by
  have hjoined := joined_of_present hpayload hpresent
  rw [laidOut_dict, TypeScript.Idempotency.laidOut, TypeScript.Idempotency.laidOutMembers_eq,
    Json.Tree.object.injEq] at h
  obtain ⟨value, hvalue⟩ := Members.mem_keys.mp ((mem_keys_selected hpresent).mpr hname)
  have hmem : (utf16 name, laidOut canonical value) ∈ (Members.sorted
      ((selected payload keyFields).map fun member =>
        (member.1, laidOut canonical member.2))).map fun member => (utf16 member.1, member.2) :=
    List.mem_map.mpr ⟨_, Members.mem_sorted.mpr (List.mem_map_of_mem hvalue), rfl⟩
  rw [h, Members.mem_sorted, List.mem_map] at hmem
  obtain ⟨member, hm, hkey⟩ := hmem
  rw [(TypeScript.JsonValue.enumerated_perm _).mem_iff,
    mem_selected_received hpayload hreceived hpresent] at hm
  obtain ⟨other, value', hother, hkept, -, rfl⟩ := hm
  have hsame := (hjoined other hother).injective (hjoined name hname) (Prod.mk.inj hkey).1
  rwa [← hsame]

theorem laidOut_selected_iff (hpayload : Readable (.dict payload))
    (hreceived : received (.dict payload) = .object others)
    (hpresent : ∀ name ∈ keyFields, name ∈ Members.keys payload) :
    laidOut canonical (.dict (selected payload keyFields)) =
        TypeScript.Idempotency.laidOut (.object (TypeScript.JsonValue.enumerated
          (TypeScript.Idempotency.selected others (keyFields.map utf16)).members)) ↔
      Agreed payload keyFields := by
  unfold Agreed
  by_cases hkept : ∀ name ∈ keyFields, Kept payload keyFields name
  · have hholds := TypeScript.Idempotency.holds_selected others (keyFields.map utf16)
    have hnode := readableNode_selected hpayload hpresent
    have hperm : (TypeScript.Idempotency.selected others (keyFields.map utf16)).members.Perm
        ((selected payload keyFields).map fun member => (utf16 member.1, received member.2)) := by
      rw [Members.perm_iff hholds.nodup
        (TypeScript.JsonValue.nodup_keys_utf16 received hnode.1 hnode.2)]
      intro member
      rw [mem_selected_received hpayload hreceived hpresent, List.mem_map]
      constructor
      · rintro ⟨name, value, hname, -, hvalue, rfl⟩
        exact ⟨(name, value), mem_selected.mpr ⟨hname, hvalue⟩, rfl⟩
      · rintro ⟨pair, hpair, rfl⟩
        obtain ⟨hname, hvalue⟩ := mem_selected.mp hpair
        exact ⟨pair.1, pair.2, hname, hkept pair.1 hname, hvalue, rfl⟩
    have hordered : Ordered (Members.keys (selected payload keyFields)) ↔ Ordered keyFields := by
      unfold Ordered
      simp only [mem_keys_selected hpresent]
    rw [laidOut_dict_eq_object_iff hnode
      ((TypeScript.JsonValue.enumerated_perm _).trans hperm), hordered, and_iff_right hkept]
    refine and_congr_right fun _ => ?_
    constructor
    · intro h name hname value hvalue
      exact (laidOut_eq_received_iff (readable_find hpayload hvalue)).mp
        (h (name, value) (mem_selected.mpr ⟨hname, hvalue⟩))
    · intro h member hm
      obtain ⟨hname, hvalue⟩ := mem_selected.mp hm
      exact (laidOut_eq_received_iff (readable_find hpayload hvalue)).mpr
        (h member.1 hname member.2 hvalue)
  · refine iff_of_false (fun h => hkept fun name hname => ?_) fun h => hkept h.1
    exact kept_of_laidOut_eq hpayload hreceived hpresent h hname

theorem document_eq_iff (hpayload : Readable (.dict payload))
    (hreceived : received (.dict payload) = .object others)
    (hpresent : ∀ name ∈ keyFields, name ∈ Members.keys payload) (eventType : List CodePoint) :
    documentText eventType payload keyFields = TypeScript.Idempotency.rendered
        (TypeScript.Idempotency.document (utf16 eventType) others (keyFields.map utf16)) ↔
      Agreed payload keyFields := by
  unfold documentText TypeScript.Idempotency.rendered
  rw [Json.render_inj Json.faithful_quoteAscii, laidOut_document, laidOut_document_received,
    Json.Tree.object.injEq, List.cons.injEq, List.cons.injEq]
  simp only [Prod.mk.injEq, true_and, and_true]
  exact laidOut_selected_iff hpayload hreceived hpresent

-- Of what it received TypeScript writes a document.
theorem written_document (hreceived : received (.dict payload) = .object others)
    {eventType : List CodeUnit} {names : List (List CodeUnit)}
    (haccepts : (TypeScript.Idempotency.document eventType others names).Every
      TypeScript.Idempotency.Accepts) :
    TypeScript.Idempotency.written (TypeScript.Idempotency.document eventType others names) =
      TypeScript.Idempotency.rendered
        (TypeScript.Idempotency.document eventType others names) := by
  have hsolid : (TypeScript.JsonValue.object others).Every TypeScript.JsonValue.Solid :=
    hreceived ▸ TypeScript.JsonValue.solid_ofTree _
  exact TypeScript.Idempotency.written_of_solid haccepts
    (TypeScript.Idempotency.solid_document hsolid eventType)

-- TypeScript derives a key over what it received unless it refuses a number.
theorem derive_received_eq_ok_iff (hpayload : Readable (.dict payload))
    (hreceived : received (.dict payload) = .object others) (hne : keyFields ≠ [])
    (hpresent : ∀ name ∈ keyFields, name ∈ Members.keys payload)
    {sha256 : List UInt8 → List Char} {eventType : List CodeUnit} {key : List Char} :
    TypeScript.Idempotency.deriveIdempotencyKey sha256 eventType others (keyFields.map utf16) =
        .ok key ↔
      ¬ Refused payload keyFields ∧ key = sha256 (Utf8.encode (TypeScript.Idempotency.rendered
        (TypeScript.Idempotency.document eventType others (keyFields.map utf16)))) := by
  have hthere : ∀ unit ∈ keyFields.map utf16, unit ∈ Members.keys others := by
    intro unit hunit
    obtain ⟨name, hname, rfl⟩ := List.mem_map.mp hunit
    have hjoined := joined_of_present hpayload hpresent name hname
    rw [← Members.find_isSome, find_received hpayload.self hreceived hjoined, Option.isSome_map,
      Members.find_isSome]
    exact hpresent name hname
  have hnames : keyFields.map utf16 ≠ [] := fun h => hne (List.map_eq_nil_iff.mp h)
  have haccepts := accepts_document_iff hpayload hreceived hpresent eventType
  rw [TypeScript.Idempotency.derive_eq_ok_iff, haccepts]
  constructor
  · rintro ⟨-, -, hrefused, rfl⟩
    rw [written_document hreceived (haccepts.mpr hrefused)]
    exact ⟨hrefused, rfl⟩
  · rintro ⟨hrefused, rfl⟩
    rw [← written_document hreceived (haccepts.mpr hrefused)]
    exact ⟨hnames, hthere, hrefused, rfl⟩

end Received

end Idempotency

-- The bytes that TypeScript ever hashes.
def TypeScript.Idempotency.Hashed (bytes : List UInt8) : Prop :=
  ∃ eventType payload keyFields text,
    canonicalJson (document eventType payload keyFields) = .ok text ∧ bytes = Utf8.encode text

open Idempotency TypeScript.EventEnvelope

theorem charPoints_injective {s t : List Char}
    (h : utf16 (s.map Json.charPoint) = utf16 (t.map Json.charPoint)) : s = t := by
  have hpoints := utf16_injective_of_scalar (scalar_charPoints s) (scalar_charPoints t) h
  have hchars := congrArg characters hpoints
  rwa [characters_charPoint, characters_charPoint] at hchars

section Stamped

variable {maxStrDigits : ℕ} {payload : List (List CodePoint × Value)} {key : List Char}
  {uuid4 : Uuid} {now : DateTime} {arguments : Arguments} {envelope : EventEnvelope}
  {raw : List UInt8}

-- TypeScript reads the payload and the key that the envelope was stamped with.
theorem fromBytes_stamped (htyped : arguments.Typed fun _ => True)
    (hbody : arguments.payload = .dict payload) (hkey : arguments.idempotencyKey = ofChars key)
    (hnew : newEnvelope uuid4 now arguments = .ok envelope)
    (hraw : envelope.toBytes maxStrDigits = .ok raw) (hfinite : Every FiniteNode (.dict payload)) :
    ∃ hop, TypeScript.EventEnvelope.fromBytes raw = .ok hop ∧
      hop.payload = TypeScript.JsonValue.received (.dict payload) ∧
      hop.idempotencyKey = .string (utf16 (key.map Json.charPoint)) := by
  obtain ⟨⟨context, hfields⟩, hsent⟩ := htyped.envelope hnew
  rw [hbody] at hsent
  have hall : Every FiniteNode (envelope.toDict (.dict context)) :=
    hfields.every_toDict (fun _ _ => trivial) (fun _ _ => trivial) trivial trivial trivial trivial
      (hsent ▸ hfinite)
  have hnonnull : envelope.payload ≠ .none := fun hnone => nomatch hsent.symm.trans hnone
  refine ⟨ofPython envelope (.dict context), ?_, congrArg TypeScript.JsonValue.received hsent, ?_⟩
  · rw [fromBytes_eq_fromWire (EventEnvelope.carrier_of_carries hfields.carries) hall hraw,
      fromWire_received (hfields.complete hnonnull)]
  · change TypeScript.JsonValue.received envelope.idempotencyKey = _
    rw [newEnvelope_idempotencyKey hnew, hkey]
    rfl

theorem finite_of_fromBytes (htyped : arguments.Typed fun _ => True)
    (hbody : arguments.payload = .dict payload)
    (hnew : newEnvelope uuid4 now arguments = .ok envelope)
    (hraw : envelope.toBytes maxStrDigits = .ok raw) {hop : TypeScript.EventEnvelope}
    (hhop : TypeScript.EventEnvelope.fromBytes raw = .ok hop) :
    Every FiniteNode (.dict payload) := by
  obtain ⟨⟨context, hfields⟩, hsent⟩ := htyped.envelope hnew
  rw [hbody] at hsent
  by_contra hfinite
  have hall : ¬ Every FiniteNode (envelope.toDict (.dict context)) := by
    intro h
    have hlast := (every_dict.mp h).2 (points "payload", envelope.payload) (by simp)
    rw [hsent] at hlast
    exact hfinite hlast
  rw [fromBytes_eq_error (EventEnvelope.carrier_of_carries hfields.carries) hall hraw] at hhop
  exact nomatch hhop

end Stamped

-- TypeScript never makes another key of the message than the one the message holds.
theorem derived_key_agrees_iff {maxStrDigits : ℕ} {sha256 : List UInt8 → List Char}
    {eventType : List CodePoint} {payload : List (List CodePoint × Value)}
    {keyFields : List (List CodePoint)} {key : List Char} {uuid4 : Uuid} {now : DateTime}
    {arguments : Arguments} {envelope : EventEnvelope} {raw : List UInt8}
    (hpayload : Readable (.dict payload))
    (hderive : deriveIdempotencyKey maxStrDigits sha256 eventType payload keyFields = .ok key)
    (hsha : ∀ bytes, TypeScript.Idempotency.Hashed bytes → sha256 bytes = key →
      bytes = Utf8.encode (documentText eventType payload keyFields))
    (htyped : arguments.Typed fun _ => True) (hbody : arguments.payload = .dict payload)
    (hkey : arguments.idempotencyKey = ofChars key)
    (hnew : newEnvelope uuid4 now arguments = .ok envelope)
    (hraw : envelope.toBytes maxStrDigits = .ok raw) :
    (∀ hop members key', TypeScript.EventEnvelope.fromBytes raw = .ok hop →
      hop.payload = .object members →
      TypeScript.Idempotency.deriveIdempotencyKey sha256 (utf16 eventType) members
        (keyFields.map utf16) = .ok key' →
      hop.idempotencyKey = .string (utf16 (key'.map Json.charPoint))) ↔
    ¬ Every FiniteNode (.dict payload) ∨ Refused payload keyFields ∨
      Agreed payload keyFields := by
  obtain ⟨hne, hpresent, hdigest⟩ := of_derive_eq_ok hderive
  have hreceived := TypeScript.JsonValue.received_dict hpayload.self
  have hok {key' : List Char} :=
    @derive_received_eq_ok_iff _ _ _ hpayload hreceived hne hpresent sha256 (utf16 eventType) key'
  have hdocument := document_eq_iff hpayload hreceived hpresent eventType
  rw [← or_assoc, or_iff_not_imp_left, not_or, not_not]
  constructor
  · rintro h ⟨hfinite, hrefused⟩
    obtain ⟨hop, hhop, hmembers, hstamp⟩ := fromBytes_stamped htyped hbody hkey hnew hraw hfinite
    have hderived := h hop _ _ hhop (hmembers.trans hreceived) (hok.mpr ⟨hrefused, rfl⟩)
    rw [hstamp, TypeScript.JsonValue.string.injEq] at hderived
    have haccepts := (accepts_document_iff hpayload hreceived hpresent (utf16 eventType)).mpr
      hrefused
    have hbytes := hsha _ ⟨_, _, _, _, TypeScript.Idempotency.encode_of_accepts haccepts, rfl⟩
      (written_document hreceived haccepts ▸ (charPoints_injective hderived).symm)
    rw [written_document hreceived haccepts] at hbytes
    exact hdocument.mp (Utf8.encode_injective hbytes).symm
  · intro h hop others key' hhop hothers hkey'
    have hfinite := finite_of_fromBytes htyped hbody hnew hraw hhop
    obtain ⟨hop', hhop', hmembers, hstamp⟩ := fromBytes_stamped htyped hbody hkey hnew hraw hfinite
    obtain rfl : hop' = hop := Except.ok.inj (hhop'.symm.trans hhop)
    rw [hmembers, hreceived, TypeScript.JsonValue.object.injEq] at hothers
    rw [← hothers] at hkey'
    obtain ⟨hrefused, rfl⟩ := hok.mp hkey'
    rw [hstamp, hdigest, hdocument.mpr (h ⟨hfinite, hrefused⟩)]

def stamped (key : List Char) (payload : Value) : Arguments :=
  { observed payload with idempotencyKey := ofChars key }

def stampedEnvelope (key : List Char) (payload : Value) : EventEnvelope :=
  { observedEnvelope payload with idempotencyKey := ofChars key }

theorem newEnvelope_stamped (key : List Char) (payload : Value) :
    newEnvelope sampleId sampleTime (stamped key payload) =
      .ok (stampedEnvelope key payload) := rfl

theorem typed_stamped (key : List Char) (payload : Value) :
    (stamped key payload).Typed Scalar where
  eventType := text_points _
  producerId := text_points _
  idempotencyKey := ⟨_, rfl, scalar_charPoints key⟩
  source := text_points _
  method := text_points _
  contributorIdentity := Or.inr ⟨[], rfl, by simp [Scalar]⟩
  traceContext := Or.inr ⟨_, rfl, by decide, by simp [Members.keys, scalar_points], by
    simp [text_points]⟩
  eventVersion := text_points _

theorem exists_toBytes_stamped {maxStrDigits : ℕ} (key : List Char) {payload : Value}
    (hreadable : Readable payload) (hprints : Every (Prints wire maxStrDigits) payload) :
    ∃ raw, (stampedEnvelope key payload).toBytes maxStrDigits = .ok raw := by
  obtain ⟨⟨context, hfields⟩, -⟩ := (typed_stamped key payload).envelope (newEnvelope_stamped _ _)
  obtain ⟨raw, hraw, -⟩ := EventEnvelope.fromBytes_of_readable hfields.carries
    (hfields.readable (fun _ h => h) (fun _ h => decode16_utf16 h) hreadable)
    (hfields.every_toDict (fun _ h => h) (fun _ _ => trivial) trivial trivial trivial trivial
      hprints)
  exact ⟨raw, hraw⟩

def observedDomain : Value :=
  .dict [(points "id", .int 1), (points "tags", .list [.none, .str (points "new")])]

theorem readable_domain : Readable observedDomain := by
  have hnode : PlainNode observedDomain :=
    @EventEnvelope.plainNode_named _ ["id", "tags"] rfl (by decide)
  refine every_dict.mpr ⟨hnode.readable, ?_⟩
  simp only [List.forall_mem_cons, List.not_mem_nil, false_implies, implies_true, and_true]
  exact ⟨trivial, every_list.mpr ⟨trivial, by simp [Every, ReadableNode, joined_points]⟩⟩

theorem prints_domain (options : Options) : Every (Prints options 4300) observedDomain := by
  have hone : exceeds 4300 (Nat.toDigits 10 1) = false := by
    decide
  refine every_dict.mpr ⟨trivial, ?_⟩
  simp only [List.forall_mem_cons, List.not_mem_nil, false_implies, implies_true, and_true]
  exact ⟨hone, every_list.mpr ⟨trivial, by simp [Every, Prints]⟩⟩

theorem derived_key_agrees_domain :
    ∃ key raw,
      deriveIdempotencyKey 4300 signalDigest (points "signal") [(points "domain", observedDomain)]
        [points "domain"] = .ok key ∧
      (stampedEnvelope key (.dict [(points "domain", observedDomain)])).toBytes 4300 = .ok raw ∧
      ((∀ hop members key', TypeScript.EventEnvelope.fromBytes raw = .ok hop →
        hop.payload = .object members →
        TypeScript.Idempotency.deriveIdempotencyKey signalDigest (utf16 (points "signal")) members
          ([points "domain"].map utf16) = .ok key' →
        hop.idempotencyKey = .string (utf16 (key'.map Json.charPoint))) ↔
      ¬ Every FiniteNode (.dict [(points "domain", observedDomain)]) ∨
        Refused [(points "domain", observedDomain)] [points "domain"] ∨
          Agreed [(points "domain", observedDomain)] [points "domain"]) := by
  have hreadable : Readable (.dict [(points "domain", observedDomain)]) :=
    readable_single readable_domain
  have hderive := @derive_eq_ok 4300 signalDigest (points "signal")
    [(points "domain", observedDomain)] [points "domain"] (by decide) (by decide)
    (fits_of_find rfl (prints_domain _))
  obtain ⟨raw, hraw⟩ := @exists_toBytes_stamped 4300 _ _ hreadable
    (every_dict.mpr ⟨trivial, fun member hm => by
      obtain rfl := List.mem_singleton.mp hm
      exact prints_domain _⟩)
  exact ⟨_, raw, hderive, hraw, derived_key_agrees_iff hreadable hderive
    (fun _ _ h => digestAt_injective (by decide) h)
    ((typed_stamped _ _).mono fun _ _ => trivial) rfl rfl (newEnvelope_stamped _ _) hraw⟩

def one : Double :=
  Double.whole 1 (by decide)

def scored : List (List CodePoint × Value) :=
  [(points "score", .float one)]

-- Python writes `.0` after a whole float.
theorem not_alikeFloat_whole {negative : Bool} {x : binary64.Magnitude} {n : ℕ} (hx : x.val = n)
    (hpos : 0 < n) (hn : n < 2 ^ 53) : ¬ AlikeFloat (.finite negative x) := by
  rintro ⟨-, hlarge | ⟨-, hfraction⟩ | hsmall⟩
  · rw [Double.decimal_of_lt hx hn] at hlarge
    have hlt : (n : ℚ) < 2 ^ 53 := by exact_mod_cast hn
    have hpow : (2 : ℚ) ^ 53 < (10 : ℚ) ^ (21 : ℤ) := by norm_num
    linarith
  · exact hfraction ⟨n, hx⟩
  · rw [Double.decimal_of_lt hx hn] at hsmall
    have hone : (1 : ℚ) ≤ n := by exact_mod_cast hpos
    have hpow : (10 : ℚ) ^ (-9 : ℤ) < 1 := by norm_num
    linarith

theorem not_agreed_scored : ¬ Agreed scored [points "score"] := by
  intro h
  have halike : AlikeFloat one := h.2.2 _ (List.mem_singleton.mpr rfl) (.float one) rfl
  exact not_alikeFloat_whole rfl one_pos (by decide) halike

-- Python hashes `1.0`, and TypeScript, which makes no difference between 1.0 and 1, `1`.
theorem derived_key_differs :
    ∃ key raw hop members key',
      deriveIdempotencyKey 4300 signalDigest (points "signal") scored [points "score"] = .ok key ∧
      (stampedEnvelope key (.dict scored)).toBytes 4300 = .ok raw ∧
      TypeScript.EventEnvelope.fromBytes raw = .ok hop ∧ hop.payload = .object members ∧
      TypeScript.Idempotency.deriveIdempotencyKey signalDigest (utf16 (points "signal")) members
        ([points "score"].map utf16) = .ok key' ∧
      hop.idempotencyKey ≠ .string (utf16 (key'.map Json.charPoint)) := by
  have hreadable : Readable (.dict scored) := readable_single trivial
  have hpresent : ∀ name ∈ [points "score"], name ∈ Members.keys scored := by decide
  have hfits : Fits 4300 scored [points "score"] := fits_of_find rfl trivial
  have hderive := @derive_eq_ok 4300 signalDigest (points "signal") scored [points "score"]
    (by decide) hpresent hfits
  obtain ⟨raw, hraw⟩ := @exists_toBytes_stamped 4300
    (signalDigest (Utf8.encode (documentText (points "signal") scored [points "score"])))
    (.dict scored) hreadable (every_dict.mpr ⟨trivial, fun member hm => by
      obtain rfl := List.mem_singleton.mp hm
      trivial⟩)
  have hfinite : Every FiniteNode (.dict scored) := every_dict.mpr ⟨trivial, fun member hm => by
    obtain rfl := List.mem_singleton.mp hm
    trivial⟩
  obtain ⟨hop, hhop, hmembers, hstamp⟩ := fromBytes_stamped ((typed_stamped _ _).mono fun _ _ => trivial)
    rfl rfl (newEnvelope_stamped _ _) hraw hfinite
  have hreceived := TypeScript.JsonValue.received_dict hreadable.self
  have hrefused : ¬ Refused scored [points "score"] := by
    rintro ⟨name, hname, -, value, hvalue, hrefused⟩
    obtain rfl := List.mem_singleton.mp hname
    obtain rfl : Value.float one = value := Option.some.inj hvalue
    exact hrefused (Double.isInteger_whole 1 (by decide))
  refine ⟨_, raw, hop, _, _, hderive, hraw, hhop, hmembers.trans hreceived,
    (derive_received_eq_ok_iff hreadable hreceived (by decide) hpresent).mpr ⟨hrefused, rfl⟩, ?_⟩
  rw [hstamp]
  intro h
  have hkey := charPoints_injective (TypeScript.JsonValue.string.inj h)
  have htext := Utf8.encode_injective (digestAt_injective (by decide) hkey)
  exact not_agreed_scored ((document_eq_iff hreadable hreceived hpresent _).mp htext)

end TrustlistCore.EventBus
