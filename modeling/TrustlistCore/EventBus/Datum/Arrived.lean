import TrustlistCore.EventBus.CanonicalKey
import TrustlistCore.EventBus.Datum.Theorems

namespace TrustlistCore.EventBus.Datum

open Library Unicode
open Value (Options keyText)
open Idempotency (canonical)
open EventEnvelope (wire)

variable {sorting : KeySorting}

section Named

theorem inOrder_canonical {V : Type} (members : List (Value × V)) :
    inOrder sorting canonical members = sorting.sort members := rfl

theorem less_str (a b : List CodePoint) : Value.less (.str a) (.str b) = true ↔ a < b :=
  decide_eq_true_iff

theorem keys_str {V : Type} (members : List (List CodePoint × V)) :
    Members.keys (members.map fun member => (Value.str member.1, member.2)) =
      (Members.keys members).map Value.str :=
  Members.keys_map Value.str id members

theorem laidOut_named {members : List (List CodePoint × Datum)}
    (h : (Members.keys members).Nodup) :
    laidOut sorting canonical (named members) =
      .object ((Members.sorted members).map fun member =>
        (utf16 member.1, laidOut sorting canonical member.2)) := by
  unfold named
  rw [laidOut_dict, inOrder_canonical, Sorting.sort_map less_str h, List.map_map]
  rfl

theorem ofItems_eq (items : List Value) : ofItems items = items.map ofValue := by
  induction items with
  | nil => rfl
  | cons item items ih => rw [ofItems, ih, List.map_cons]

theorem ofMembers_eq (members : List (List CodePoint × Value)) :
    ofMembers members = members.map fun member => (.str member.1, ofValue member.2) := by
  induction members with
  | nil => rfl
  | cons member members ih => rw [ofMembers, ih, List.map_cons]

theorem ofValue_dict (members : List (List CodePoint × Value)) :
    ofValue (.dict members) = named (members.map fun member => (member.1, ofValue member.2)) := by
  rw [ofValue, ofMembers_eq, named, List.map_map]
  rfl

-- A dict as Python keeps it.
def Keyed : Value → Prop
  | .dict members => (Members.keys members).Nodup
  | _ => True

-- Of what has strings for keys, both models write one canonical document.
theorem laidOut_ofValue {value : Value} (h : Value.Every Keyed value) :
    laidOut sorting canonical (ofValue value) = Value.laidOut canonical value := by
  induction value using Value.induct with
  | list items ih =>
      rw [ofValue, laidOut, Value.laidOut, laidOutItems_eq, Value.laidOutItems_eq, ofItems_eq,
        List.map_map, Json.Tree.array.injEq, List.map_inj_left]
      exact fun item hi => ih item hi ((Value.every_list.mp h).2 item hi)
  | dict members ih =>
      obtain ⟨hnodup, hvalues⟩ := Value.every_dict.mp h
      have hkeys : (Members.keys (members.map fun member => (member.1, ofValue member.2))).Nodup := by
        rwa [Members.keys_mapValues]
      rw [ofValue_dict, laidOut_named hkeys, Value.laidOut_dict, Members.sorted_mapValues,
        Members.sorted_mapValues, List.map_map, List.map_map, Json.Tree.object.injEq,
        List.map_inj_left]
      intro member hm
      have hmem := Members.mem_sorted.mp hm
      exact congrArg (Prod.mk _) (ih member hmem (hvalues member hmem))
  | _ => rfl

theorem prints_named {options : Options} {maxStrDigits : ℕ}
    (members : List (List CodePoint × Datum)) : Prints options maxStrDigits (named members) := by
  refine ⟨?_, fun _ => ?_⟩
  · rw [keys_str, List.forall_mem_map]
    exact fun name _ => ⟨name, rfl⟩
  · rw [keys_str, List.pairwise_map]
    exact List.pairwise_of_forall fun _ _ => rfl

theorem every_named {P : Datum → Prop} {members : List (List CodePoint × Datum)} :
    Every P (named members) ↔ P (named members) ∧ ∀ member ∈ members, Every P member.2 := by
  unfold named
  rw [every_dict, List.forall_mem_map]

end Named

section Arrived

-- The name a key is read back under.
def arrivedName (key : Value) : List CodePoint :=
  decode16 (utf16 (keyName key))

-- What `json.loads` makes of what `json.dumps` writes: of the members that are read back
-- under one name the last counts.
mutual

def arrived : Datum → Value
  | .none => .none
  | .bool value => .bool value
  | .int value => .int value
  | .float value => .float value
  | .str points => .str (decode16 (utf16 points))
  | .list items => .list (arrivedItems items)
  | .tuple items => .list (arrivedItems items)
  | .dict members => .dict (Members.ofPairs (arrivedMembers members))
  | .object _ text => .str (decode16 (utf16 text))

def arrivedItems : List Datum → List Value
  | [] => []
  | item :: items => arrived item :: arrivedItems items

def arrivedMembers : List (Value × Datum) → List (List CodePoint × Value)
  | [] => []
  | (key, value) :: members => (arrivedName key, arrived value) :: arrivedMembers members

end

theorem arrivedItems_eq (items : List Datum) : arrivedItems items = items.map arrived := by
  induction items with
  | nil => rfl
  | cons item items ih => rw [arrivedItems, ih, List.map_cons]

theorem arrivedMembers_eq (members : List (Value × Datum)) :
    arrivedMembers members = members.map fun member => (arrivedName member.1, arrived member.2) := by
  induction members with
  | nil => rfl
  | cons member members ih => rw [arrivedMembers, ih, List.map_cons]

theorem arrived_named (members : List (List CodePoint × Datum)) :
    arrived (named members) = .dict (Members.ofPairs (members.map fun member =>
      (decode16 (utf16 member.1), arrived member.2))) := by
  unfold named
  rw [arrived, arrivedMembers_eq, List.map_map]
  rfl

theorem ofItems_of_read {maxStrDigits : ℕ} {items : List Datum}
    (h : ∀ item ∈ items, Value.ofTree maxStrDigits (laidOut sorting wire item) =
      .ok (arrived item)) :
    Members.gather (Value.ofItems maxStrDigits (laidOutItems sorting wire items)) =
      .ok (arrivedItems items) := by
  rw [Members.gather_eq_ok, Value.ofItems_eq, laidOutItems_eq, arrivedItems_eq, List.map_map,
    List.map_map]
  exact List.map_congr_left h

theorem ofTree_laidOut {maxStrDigits : ℕ} {value : Datum}
    (h : Every (Prints wire maxStrDigits) value) :
    Value.ofTree maxStrDigits (laidOut sorting wire value) = .ok (arrived value) := by
  induction value using induct with
  | int n => exact Value.readNumber_ofInt h.self
  | float x => exact Value.ofTree_floatTree x
  | list items ih =>
      rw [laidOut, Value.ofTree,
        ofItems_of_read fun item hi => ih item hi ((every_list.mp h).2 item hi)]
      rfl
  | tuple items ih =>
      rw [laidOut, Value.ofTree,
        ofItems_of_read fun item hi => ih item hi ((every_tuple.mp h).2 item hi)]
      rfl
  | dict members ih =>
      have hmembers : Value.ofMembers maxStrDigits ((inOrder sorting wire members).map fun member =>
          (utf16 (keyName member.1), laidOut sorting wire member.2)) =
            (arrivedMembers members).map fun member => (member.1, .ok member.2) := by
        rw [Value.ofMembers_eq, arrivedMembers_eq, List.map_map, List.map_map]
        exact List.map_congr_left fun member hm =>
          congrArg (Prod.mk _) (ih member hm ((every_dict.mp h).2 member hm))
      rw [laidOut_dict, Value.ofTree, Members.collect_eq_ok.mpr hmembers]
      rfl
  | object kind text => exact absurd h.self Bool.false_ne_true
  | _ => rfl

theorem keyed_arrived (value : Datum) : Value.Every Keyed (arrived value) := by
  induction value using induct with
  | list items ih =>
      rw [arrived, arrivedItems_eq, Value.every_list, List.forall_mem_map]
      exact ⟨trivial, ih⟩
  | tuple items ih =>
      rw [arrived, arrivedItems_eq, Value.every_list, List.forall_mem_map]
      exact ⟨trivial, ih⟩
  | dict members ih =>
      rw [arrived, Value.every_dict]
      refine ⟨Members.nodup_ofPairs _, fun member hm => ?_⟩
      have hmem := (Members.mem_foldl_insert hm).resolve_left List.not_mem_nil
      rw [arrivedMembers_eq] at hmem
      obtain ⟨sent, hsent, rfl⟩ := List.mem_map.mp hmem
      exact ih sent hsent
  | _ => trivial

-- Written and read back, a value has strings for keys and can be put in order.
theorem prints_arrived {maxStrDigits : ℕ} {value : Datum}
    (h : Every (Prints wire maxStrDigits) value) :
    Every (Prints canonical maxStrDigits) (ofValue (arrived value)) := by
  induction value using induct with
  | list items ih =>
      rw [arrived, arrivedItems_eq, ofValue, ofItems_eq, List.map_map, every_list,
        List.forall_mem_map]
      exact ⟨trivial, fun item hi => ih item hi ((every_list.mp h).2 item hi)⟩
  | tuple items ih =>
      rw [arrived, arrivedItems_eq, ofValue, ofItems_eq, List.map_map, every_list,
        List.forall_mem_map]
      exact ⟨trivial, fun item hi => ih item hi ((every_tuple.mp h).2 item hi)⟩
  | dict members ih =>
      rw [arrived, ofValue_dict, every_named, List.forall_mem_map]
      refine ⟨prints_named _, fun member hm => ?_⟩
      have hmem := (Members.mem_foldl_insert hm).resolve_left List.not_mem_nil
      rw [arrivedMembers_eq] at hmem
      obtain ⟨sent, hsent, rfl⟩ := List.mem_map.mp hmem
      exact ih sent hsent ((every_dict.mp h).2 sent hsent)
  | object kind text => exact absurd h.self Bool.false_ne_true
  | _ => exact h

end Arrived

section Settled

variable (sorting) in
-- Put in order as they are, the keys of a dict are read back under names that are in order
-- too, none of which another one takes.
def Settled : Datum → Prop
  | .dict members =>
      ((sorting.sort members).map fun member => arrivedName member.1).Pairwise (· < ·)
  | _ => True

theorem settled_dict {members : List (Value × Datum)} :
    Settled sorting (.dict members) ↔
      ((sorting.sort members).map fun member => arrivedName member.1).Pairwise (· < ·) :=
  Iff.rfl

theorem sorted_of_settled {members : List (Value × Datum)} (h : Settled sorting (.dict members)) :
    Members.sorted (Members.ofPairs (arrivedMembers members)) =
      (sorting.sort members).map fun member => (arrivedName member.1, arrived member.2) := by
  have hperm : ((sorting.sort members).map fun member =>
      (arrivedName member.1, arrived member.2)).Perm (arrivedMembers members) := by
    rw [arrivedMembers_eq]
    exact (sorting.perm members).map _
  have hlt : ((sorting.sort members).map fun member =>
      (arrivedName member.1, arrived member.2)).Pairwise fun a b => a.1 < b.1 :=
    List.pairwise_map.mpr (List.pairwise_map.mp h)
  have hnodup : (Members.keys (arrivedMembers members)).Nodup := by
    refine ((hperm.map Prod.fst).nodup_iff).mp ?_
    exact List.pairwise_map.mpr (hlt.imp fun hab => ne_of_lt hab)
  rw [Members.ofPairs_of_nodup hnodup]
  exact (Members.eq_sorted hnodup hperm (hlt.imp fun hab => le_of_lt hab)).symm

theorem settled_of_names {members : List (Value × Datum)}
    (h : Members.keys (Members.sorted (Members.ofPairs (arrivedMembers members))) =
      (sorting.sort members).map fun member => arrivedName member.1) :
    Settled sorting (.dict members) := by
  have hnodup : (Members.keys (Members.sorted
      (Members.ofPairs (arrivedMembers members)))).Nodup :=
    (Members.keys_sorted_perm _).nodup_iff.mpr (Members.nodup_ofPairs _)
  rw [settled_dict, ← h]
  have hle : (Members.keys (Members.sorted
      (Members.ofPairs (arrivedMembers members)))).Pairwise (· ≤ ·) :=
    List.pairwise_map.mpr (Members.sorted_pairwise _)
  exact (hle.and hnodup).imp fun hab => lt_of_le_of_ne hab.1 hab.2

theorem utf16_arrivedName (key : Value) : utf16 (arrivedName key) = utf16 (keyName key) :=
  utf16_decode16 _

theorem joined_keys {members : List (Value × Datum)} {member : List CodePoint × Value}
    (h : member ∈ Members.ofPairs (arrivedMembers members)) : Joined member.1 := by
  have hmem := (Members.mem_foldl_insert h).resolve_left List.not_mem_nil
  rw [arrivedMembers_eq] at hmem
  obtain ⟨sent, -, rfl⟩ := List.mem_map.mp hmem
  exact joined_decode16 _

-- The canonical document is the same on either side of the wire just where every dict is
-- settled.
theorem laidOut_arrived_iff {value : Datum} :
    Value.laidOut canonical (arrived value) = laidOut sorting canonical value ↔
      Every (Settled sorting) value := by
  induction value using induct with
  | str s => exact iff_of_true (congrArg Json.Tree.string (utf16_decode16 _)) trivial
  | object kind text => exact iff_of_true (congrArg Json.Tree.string (utf16_decode16 _)) trivial
  | list items ih =>
      rw [arrived, arrivedItems_eq, Value.laidOut, Value.laidOutItems_eq, laidOut, laidOutItems_eq,
        Json.Tree.array.injEq, List.map_map, List.map_inj_left, every_list]
      exact (forall₂_congr ih).trans (and_iff_right trivial).symm
  | tuple items ih =>
      rw [arrived, arrivedItems_eq, Value.laidOut, Value.laidOutItems_eq, laidOut, laidOutItems_eq,
        Json.Tree.array.injEq, List.map_map, List.map_inj_left, every_tuple]
      exact (forall₂_congr ih).trans (and_iff_right trivial).symm
  | dict members ih =>
      have hvalues : (∀ member ∈ sorting.sort members, Value.laidOut canonical (arrived member.2) =
          laidOut sorting canonical member.2) ↔
            ∀ member ∈ members, Every (Settled sorting) member.2 := by
        simp only [(sorting.perm members).mem_iff]
        exact forall₂_congr ih
      rw [arrived, Value.laidOut_dict, laidOut_dict, inOrder_canonical, Members.sorted_mapValues,
        List.map_map, Json.Tree.object.injEq, every_dict, ← hvalues]
      constructor
      · intro h
        have hnames := congrArg (List.map fun member => decode16 member.1) h
        rw [List.map_map, List.map_map] at hnames
        have hsettled : Settled sorting (.dict members) := by
          refine settled_of_names (Eq.trans ?_ hnames)
          refine List.map_congr_left fun member hm => ?_
          have hjoined : decode16 (utf16 member.1) = member.1 :=
            joined_keys (Members.mem_sorted.mp hm)
          exact hjoined.symm
        rw [sorted_of_settled hsettled, List.map_map, List.map_inj_left] at h
        exact ⟨hsettled, fun member hm => congrArg Prod.snd (h member hm)⟩
      · rintro ⟨hsettled, hsame⟩
        rw [sorted_of_settled hsettled, List.map_map, List.map_inj_left]
        exact fun member hm => Prod.ext (utf16_arrivedName member.1) (hsame member hm)
  | _ => exact iff_of_true rfl trivial

end Settled

end TrustlistCore.EventBus.Datum
