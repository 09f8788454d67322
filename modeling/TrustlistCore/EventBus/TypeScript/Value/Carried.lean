import TrustlistCore.EventBus.EnvelopeParity
import TrustlistCore.EventBus.TypeScript.Idempotency.Theorems

namespace TrustlistCore.EventBus.TypeScript.JsonValue

open Library Unicode

-- A value of the declared type, none of whose objects has a name twice.
def Declared : JsonValue → Prop
  | .object members => (Members.keys members).Nodup
  | .other _ => False
  | _ => True

def isDefined : JsonValue → Bool
  | .undefined => false
  | .hole => false
  | _ => true

theorem isHole_of_isDefined {value : JsonValue} (h : isDefined value = true) :
    isHole value = false := by
  cases value with
  | hole => exact absurd h Bool.false_ne_true
  | _ => rfl

-- No member is set to `undefined`.
def Filled : JsonValue → Prop
  | .object members => ∀ member ∈ members, isDefined member.2 = true
  | _ => True

section Sent

theorem exists_document {value : JsonValue} (h : Every NoBigint value) :
    ∃ tree, document value = .ok tree := by
  have : Nonempty (Option Json.Tree) := ⟨none⟩
  induction value using induct with
  | bigint n => exact absurd h.self id
  | array items ih =>
      have hitems : ∀ item ∈ items, ∃ tree, document item = .ok tree :=
        fun item hi => ih item hi ((every_array.mp h).2 item hi)
      choose! tree htree using hitems
      have hgather : documentItems items = (items.map tree).map .ok := by
        rw [documentItems_eq, List.map_map]
        exact List.map_congr_left htree
      rw [document, Members.gather_eq_ok.mpr hgather]
      exact ⟨_, rfl⟩
  | object members ih =>
      have hmembers : ∀ member ∈ members, ∃ tree, document member.2 = .ok tree :=
        fun member hm => ih member hm ((every_object.mp h).2 member hm)
      choose! tree htree using hmembers
      have hcollect : documentMembers members =
          (members.map fun member => (member.1, tree member)).map fun member =>
            (member.1, .ok member.2) := by
        rw [documentMembers_eq, List.map_map]
        exact List.map_congr_left fun member hm => congrArg (Prod.mk _) (htree member hm)
      rw [document, Members.collect_eq_ok.mpr hcollect]
      exact ⟨_, rfl⟩
  | _ => exact ⟨_, rfl⟩

-- The document of a value without a bigint.
def sent (value : JsonValue) : Option Json.Tree :=
  match document value with
  | .ok tree => tree
  | .error _ => none

theorem document_eq_sent {value : JsonValue} (h : Every NoBigint value) :
    document value = .ok (sent value) := by
  obtain ⟨tree, htree⟩ := exists_document h
  unfold sent
  rw [htree]

theorem sent_array {items : List JsonValue} (h : ∀ item ∈ items, Every NoBigint item) :
    sent (.array items) = some (.array (items.map fun item => orNull (sent item))) := by
  have hgather : documentItems items = (items.map sent).map .ok := by
    rw [documentItems_eq, List.map_map]
    exact List.map_congr_left fun item hi => document_eq_sent (h item hi)
  unfold sent
  rw [document, Members.gather_eq_ok.mpr hgather, Except.map, List.map_map]
  rfl

theorem sent_object {members : List (List CodeUnit × JsonValue)}
    (h : ∀ member ∈ members, Every NoBigint member.2) :
    sent (.object members) =
      some (.object (present (members.map fun member => (member.1, sent member.2)))) := by
  have hcollect : documentMembers members =
      (members.map fun member => (member.1, sent member.2)).map fun member =>
        (member.1, .ok member.2) := by
    rw [documentMembers_eq, List.map_map]
    exact List.map_congr_left fun member hm =>
      congrArg (Prod.mk _) (document_eq_sent (h member hm))
  unfold sent
  rw [document, Members.collect_eq_ok.mpr hcollect, Except.map]
  rfl

-- Of the declared values only `undefined` has no document.
theorem sent_isSome {value : JsonValue} (h : Every NoBigint value) (hdeclared : Declared value) :
    (sent value).isSome = isDefined value := by
  cases value with
  | bigint n => exact absurd h.self id
  | array items => rw [sent_array (every_array.mp h).2]; rfl
  | object members => rw [sent_object (every_object.mp h).2]; rfl
  | other text => exact absurd hdeclared id
  | _ => rfl

theorem present_eq_filter {V : Type} (f : V → Option Json.Tree)
    (members : List (List CodeUnit × V)) :
    present (members.map fun member => (member.1, f member.2)) =
      (members.filter fun member => (f member.2).isSome).map fun member =>
        (member.1, orNull (f member.2)) := by
  unfold present
  induction members with
  | nil => rfl
  | cons member members ih =>
      cases hsent : f member.2 with
      | none => simpa [hsent] using ih
      | some tree => simpa [hsent, orNull] using ih

theorem standard_sent {value : JsonValue} (h : Every NoBigint value) :
    standard (orNull (sent value)) = true := by
  induction value using induct with
  | bigint n => exact absurd h.self id
  | number x => cases x <;> rfl
  | array items ih =>
      have hitems := (every_array.mp h).2
      rw [sent_array hitems, orNull, standard, standardItems_iff, List.forall_mem_map]
      exact fun item hi => ih item hi (hitems item hi)
  | object members ih =>
      have hmembers := (every_object.mp h).2
      rw [sent_object hmembers, orNull, standard, standardMembers_iff, present_eq_filter,
        List.forall_mem_map]
      intro member hm
      have hmem := (List.mem_filter.mp hm).1
      exact ih member hmem (hmembers member hmem)
  | _ => rfl

end Sent

section Carried

-- What `JSON.parse` makes of what `JSON.stringify` writes, inside of an array.
def carried (value : JsonValue) : JsonValue :=
  ofTree (orNull (sent value))

theorem carried_array {items : List JsonValue} (h : ∀ item ∈ items, Every NoBigint item) :
    carried (.array items) = .array (items.map carried) := by
  unfold carried
  rw [sent_array h, orNull, ofTree, ofItems_eq, List.map_map]
  rfl

-- The members an object arrives with are those it has a value for.
theorem exists_carried_object {members : List (List CodeUnit × JsonValue)}
    (h : ∀ member ∈ members, Every NoBigint member.2)
    (hdeclared : Every Declared (.object members)) :
    ∃ others, carried (.object members) = .object others ∧
      others.Perm ((members.filter fun member => isDefined member.2).map fun member =>
        (member.1, carried member.2)) := by
  obtain ⟨hnodup, hvalues⟩ := every_object.mp hdeclared
  have hfilter : members.filter (fun member => (sent member.2).isSome) =
      members.filter fun member => isDefined member.2 :=
    List.filter_congr fun member hm => sent_isSome (h member hm) (hvalues member hm).self
  have hkeys : (Members.keys ((members.filter fun member => isDefined member.2).map fun member =>
      (member.1, carried member.2))).Nodup := by
    rw [Members.keys_mapValues]
    exact hnodup.sublist (List.filter_sublist.map Prod.fst)
  refine ⟨_, ?_, enumerated_perm _⟩
  unfold carried at hkeys ⊢
  rw [sent_object h, orNull, ofTree, ofMembers_eq, present_eq_filter, hfilter, List.map_map]
  exact congrArg (fun members => JsonValue.object (enumerated members))
    (Members.ofPairs_of_nodup hkeys)

theorem carried_finite (negative : Bool) (x : binary64.Magnitude) :
    carried (.number (.finite negative x)) =
      .number (.finite (negative && decide (x.val ≠ 0)) x) :=
  congrArg JsonValue.number (Double.ofNumber_display negative x)

open TypeScript.Idempotency (Accepts Whole laidOut laidOut_array laidOutMembers_eq lone_iff
  lone_of_solid laidOut_object_eq_iff)

theorem accepts_carried {value : JsonValue} (hbigint : Every NoBigint value)
    (hdeclared : Every Declared value) (h : Every Accepts value) :
    Every Accepts (carried value) := by
  induction value using induct with
  | bigint n => exact absurd hbigint.self id
  | number x =>
      cases x with
      | finite negative x =>
          rw [carried_finite]
          exact h
      | infinity negative => exact trivial
      | nan => exact trivial
  | array items ih =>
      have hitems := (every_array.mp hbigint).2
      rw [carried_array hitems, every_array, List.forall_mem_map]
      exact ⟨trivial, fun item hi => ih item hi (hitems item hi)
        ((every_array.mp hdeclared).2 item hi) ((every_array.mp h).2 item hi)⟩
  | object members ih =>
      have hmembers := (every_object.mp hbigint).2
      obtain ⟨others, hcarried, hperm⟩ := exists_carried_object hmembers hdeclared
      rw [hcarried, every_object]
      refine ⟨trivial, fun other ho => ?_⟩
      obtain ⟨member, hm, rfl⟩ := List.mem_map.mp (hperm.mem_iff.mp ho)
      have hmem := (List.mem_filter.mp hm).1
      exact ih member hmem (hmembers member hmem) ((every_object.mp hdeclared).2 member hmem)
        ((every_object.mp h).2 member hmem)
  | other text => exact absurd hdeclared.self id
  | _ => exact trivial

theorem laidOut_carried_finite (negative : Bool) (x : binary64.Magnitude) :
    laidOut (carried (.number (.finite negative x))) = laidOut (.number (.finite negative x)) := by
  rw [carried_finite]
  by_cases hzero : x.val = 0
  · simp [laidOut, numberTree, Double.display_zero _ hzero]
  · simp [hzero]

-- `null` arrives in the place of a hole, and one item where a lone hole was written as none.
theorem laidOut_carried_array_iff {items : List JsonValue}
    (hitems : ∀ item ∈ items, Every NoBigint item) (hwhole : Every Whole (.array items))
    (ih : ∀ item ∈ items, isHole item = false →
      (laidOut (carried item) = laidOut item ↔ Every Filled item ∧ Every Solid item)) :
    laidOut (carried (.array items)) = laidOut (.array items) ↔
      Every Filled (.array items) ∧ Every Solid (.array items) := by
  have hlone : TypeScript.Idempotency.lone (items.map carried) = false :=
    lone_of_solid (List.forall_mem_map.mpr fun item _ => (solid_ofTree _).self)
  rw [carried_array hitems, laidOut_array hlone, every_array, every_array]
  rcases (every_array.mp hwhole).1 with hone | hholes
  · obtain rfl := lone_iff.mp hone
    refine iff_of_false ?_ fun h => (h.2.2 .hole List.mem_cons_self).self
    simp [laidOut, hone]
  · have hnot : TypeScript.Idempotency.lone items = false := by
      refine Bool.eq_false_of_not_eq_true fun hone => ?_
      obtain rfl := lone_iff.mp hone
      exact Bool.true_eq_false.mp (hholes .hole List.mem_cons_self)
    rw [laidOut_array hnot, Json.Tree.array.injEq, List.map_map, List.map_inj_left]
    constructor
    · intro h
      have hvalues (item : JsonValue) (hi : item ∈ items) :=
        (ih item hi (hholes item hi)).mp (h item hi)
      exact ⟨⟨trivial, fun item hi => (hvalues item hi).1⟩, trivial,
        fun item hi => (hvalues item hi).2⟩
    · exact fun h item hi => (ih item hi (hholes item hi)).mpr ⟨h.1.2 item hi, h.2.2 item hi⟩

-- A member that is lost on the way leaves too few of them.
theorem laidOut_carried_object_iff {members : List (List CodeUnit × JsonValue)}
    (hmembers : ∀ member ∈ members, Every NoBigint member.2)
    (hdeclared : Every Declared (.object members))
    (ih : ∀ member ∈ members, laidOut (carried member.2) = laidOut member.2 ↔
      Every Filled member.2 ∧ Every Solid member.2) :
    laidOut (carried (.object members)) = laidOut (.object members) ↔
      Every Filled (.object members) ∧ Every Solid (.object members) := by
  have hnodup := (every_object.mp hdeclared).1
  obtain ⟨others, hcarried, hperm⟩ := exists_carried_object hmembers hdeclared
  have hlaid := hperm.map fun member => (member.1, laidOut member.2)
  rw [List.map_map] at hlaid
  rw [hcarried, laidOut_object_eq_iff hnodup, every_object, every_object]
  constructor
  · intro h
    have hsame := hlaid.symm.trans h
    have hlength := hsame.length_eq
    rw [List.length_map, List.length_map, List.length_filter_eq_length_iff] at hlength
    have hkeys : (Members.keys (members.map fun member =>
        (member.1, laidOut member.2))).Nodup := by
      rwa [Members.keys_mapValues]
    have hvalues : ∀ member ∈ members, Every Filled member.2 ∧ Every Solid member.2 := by
      intro member hm
      have hmem : (member.1, laidOut (carried member.2)) ∈
          members.map fun member => (member.1, laidOut member.2) :=
        hsame.mem_iff.mp (List.mem_map_of_mem (f := fun member : List CodeUnit × JsonValue =>
          (member.1, laidOut (carried member.2)))
            (List.mem_filter.mpr ⟨hm, hlength member hm⟩))
      exact (ih member hm).mp (Members.eq_of_mem hkeys hmem (List.mem_map_of_mem hm))
    exact ⟨⟨hlength, fun member hm => (hvalues member hm).1⟩, trivial,
      fun member hm => (hvalues member hm).2⟩
  · rintro ⟨⟨hfilled, hvalues⟩, -, hsolid⟩
    rw [List.filter_eq_self.mpr hfilled] at hlaid
    refine hlaid.trans (List.Perm.of_eq (List.map_congr_left fun member hm => ?_))
    have hvalue := (ih member hm).mpr ⟨hvalues member hm, hsolid member hm⟩
    exact congrArg (Prod.mk member.1) hvalue

-- The canonical document is the same on either side unless a member was lost on the way or a
-- hole was filled.
theorem laidOut_carried_iff {value : JsonValue} (hbigint : Every NoBigint value)
    (hdeclared : Every Declared value) (hwhole : Every Whole value) (hhole : isHole value = false) :
    laidOut (carried value) = laidOut value ↔ Every Filled value ∧ Every Solid value := by
  induction value using induct with
  | bigint n => exact absurd hbigint.self id
  | number x =>
      refine iff_of_true ?_ ⟨trivial, trivial⟩
      cases x with
      | finite negative x => exact laidOut_carried_finite negative x
      | infinity negative => rfl
      | nan => rfl
  | array items ih =>
      have hitems := (every_array.mp hbigint).2
      have hdecls := (every_array.mp hdeclared).2
      have hwholes := (every_array.mp hwhole).2
      exact laidOut_carried_array_iff hitems hwhole fun item hi =>
        ih item hi (hitems item hi) (hdecls item hi) (hwholes item hi)
  | object members ih =>
      have hmembers := (every_object.mp hbigint).2
      have hdecls := (every_object.mp hdeclared).2
      obtain ⟨hholes, hwholes⟩ := every_object.mp hwhole
      exact laidOut_carried_object_iff hmembers hdeclared fun member hm =>
        ih member hm (hmembers member hm) (hdecls member hm) (hwholes member hm) (hholes member hm)
  | other text => exact absurd hdeclared.self id
  | hole => exact absurd hhole Bool.true_eq_false.mp
  | _ => exact iff_of_true rfl ⟨trivial, trivial⟩

end Carried

end TrustlistCore.EventBus.TypeScript.JsonValue
