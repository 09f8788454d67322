import TrustlistCore.EventBus.Idempotency
import TrustlistCore.EventBus.Value.Plain

namespace TrustlistCore.EventBus.Value

open Library Unicode
open Idempotency (canonical canonicalJson)

-- What is left of a value on its way through the canonical text: the members of a dict by
-- their keys, and of an object of another class its text.
mutual

def arranged : Value → Value
  | .list items => .list (arrangedItems items)
  | .dict members => .dict (Members.sorted (arrangedMembers members))
  | .object _ text => .str text
  | value => value

def arrangedItems : List Value → List Value
  | [] => []
  | item :: items => arranged item :: arrangedItems items

def arrangedMembers : List (List CodePoint × Value) → List (List CodePoint × Value)
  | [] => []
  | (key, value) :: members => (key, arranged value) :: arrangedMembers members

end

theorem arrangedItems_eq (items : List Value) : arrangedItems items = items.map arranged := by
  induction items with
  | nil => rfl
  | cons item items ih => rw [arrangedItems, ih, List.map_cons]

theorem arrangedMembers_eq (members : List (List CodePoint × Value)) :
    arrangedMembers members = members.map fun member => (member.1, arranged member.2) := by
  induction members with
  | nil => rfl
  | cons member members ih => rw [arrangedMembers, ih, List.map_cons]

-- One node of what `json.dumps` gets: as `json.loads` returns it, or an object that `default`
-- turns into a string of that kind.
def WritableNode : Value → Prop
  | .object _ text => Joined text
  | value => ReadableNode value

abbrev Writable : Value → Prop :=
  Every WritableNode

theorem ReadableNode.writable {value : Value} (h : ReadableNode value) : WritableNode value := by
  cases value with
  | object kind text => exact absurd h id
  | _ => exact h

theorem Readable.writable {value : Value} (h : Readable value) : Writable value :=
  Every.mono (fun _ => ReadableNode.writable) h

variable {options : Options} {maxStrDigits : ℕ}

theorem keys_arrangedMembers (members : List (List CodePoint × Value)) :
    (Members.keys (Members.sorted (arrangedMembers members))).Perm (Members.keys members) := by
  refine (Members.keys_sorted_perm _).trans ?_
  rw [arrangedMembers_eq, Members.keys_mapValues]

theorem find_arrangedMembers {members : List (List CodePoint × Value)}
    (h : (Members.keys members).Nodup) (key : List CodePoint) :
    Members.find (Members.sorted (arrangedMembers members)) key =
      (Members.find members key).map arranged := by
  have hnodup : (Members.keys (arrangedMembers members)).Nodup := by
    rwa [arrangedMembers_eq, Members.keys_mapValues]
  have hmap : Members.find (members.map fun member => (id member.1, arranged member.2)) (id key) =
      (Members.find members key).map arranged :=
    Members.find_map arranged fun _ _ heq => heq
  rw [Members.find_perm hnodup (Members.sorted_perm _), arrangedMembers_eq]
  exact hmap

theorem exists_of_arrangedMembers {members : List (List CodePoint × Value)}
    {member : List CodePoint × Value}
    (h : member ∈ Members.sorted (arrangedMembers members)) :
    ∃ original ∈ members, member = (original.1, arranged original.2) := by
  rw [Members.mem_sorted, arrangedMembers_eq] at h
  obtain ⟨original, horiginal, rfl⟩ := List.mem_map.mp h
  exact ⟨original, horiginal, rfl⟩

@[simp] theorem arranged_arranged (value : Value) : arranged (arranged value) = arranged value := by
  induction value using induct with
  | list items ih =>
      rw [arranged, arranged, arrangedItems_eq, arrangedItems_eq, List.map_map]
      exact congrArg Value.list (List.map_congr_left ih)
  | dict members ih =>
      have hmembers : (arrangedMembers members).map (fun member =>
          (member.1, arranged member.2)) = arrangedMembers members := by
        rw [arrangedMembers_eq, List.map_map]
        exact List.map_congr_left fun member hmember =>
          congrArg (Prod.mk member.1) (ih member hmember)
      rw [arranged, arranged, arrangedMembers_eq (Members.sorted _), ← Members.sorted_mapValues,
        hmembers, Members.sorted_sorted]
  | _ => rfl

theorem readable_arranged {value : Value} (h : Writable value) : Readable (arranged value) := by
  induction value using induct with
  | list items ih =>
      rw [arranged, arrangedItems_eq]
      refine every_list.mpr ⟨trivial, fun item hitem => ?_⟩
      obtain ⟨original, horiginal, rfl⟩ := List.mem_map.mp hitem
      exact ih original horiginal ((every_list.mp h).2 original horiginal)
  | dict members ih =>
      obtain ⟨hself, hmembers⟩ := every_dict.mp h
      have hperm := keys_arrangedMembers members
      rw [arranged]
      refine every_dict.mpr ⟨⟨hperm.nodup_iff.mpr hself.1, ?_⟩, ?_⟩
      · intro key hkey
        exact hself.2 key (hperm.mem_iff.mp hkey)
      · intro member hmember
        obtain ⟨original, horiginal, rfl⟩ := exists_of_arrangedMembers hmember
        exact ih original horiginal (hmembers original horiginal)
  | _ => exact h

theorem prints_arranged {value : Value} (h : Every (Prints canonical maxStrDigits) value) :
    Every (Prints options maxStrDigits) (arranged value) := by
  induction value using induct with
  | list items ih =>
      rw [arranged, arrangedItems_eq]
      refine every_list.mpr ⟨trivial, fun item hitem => ?_⟩
      obtain ⟨original, horiginal, rfl⟩ := List.mem_map.mp hitem
      exact ih original horiginal ((every_list.mp h).2 original horiginal)
  | dict members ih =>
      rw [arranged]
      refine every_dict.mpr ⟨trivial, fun member hmember => ?_⟩
      obtain ⟨original, horiginal, rfl⟩ := exists_of_arrangedMembers hmember
      exact ih original horiginal ((every_dict.mp h).2 original horiginal)
  | object kind text => trivial
  | _ => exact h

-- Sorting while a value is written is writing the arranged value as it stands.
theorem laidOut_arranged (hunsorted : options.sortKeys = false) (value : Value) :
    laidOut options (arranged value) = laidOut canonical value := by
  induction value using induct with
  | list items ih =>
      rw [arranged, laidOut, laidOut, laidOutItems_eq, laidOutItems_eq, arrangedItems_eq,
        List.map_map]
      congr 1
      exact List.map_congr_left ih
  | dict members ih =>
      have hmembers : (arrangedMembers members).map (fun member =>
          (member.1, laidOut options member.2)) = laidOutMembers canonical members := by
        rw [arrangedMembers_eq, laidOutMembers_eq, List.map_map]
        exact List.map_congr_left fun member hmember =>
          congrArg (Prod.mk member.1) (ih member hmember)
      have hunordered : ordered options (laidOutMembers options
          (Members.sorted (arrangedMembers members))) =
            laidOutMembers options (Members.sorted (arrangedMembers members)) := by
        unfold ordered
        rw [hunsorted, if_neg Bool.false_ne_true]
      have hordered : ordered canonical (laidOutMembers canonical members) =
          Members.sorted (laidOutMembers canonical members) := rfl
      rw [arranged, laidOut, laidOut, hunordered, hordered, laidOutMembers_eq,
        ← Members.sorted_mapValues, hmembers]
  | _ => rfl

theorem ofTree_canonical {value : Value} (h : Writable value)
    (hprints : Every (Prints canonical maxStrDigits) value) :
    ofTree maxStrDigits (laidOut canonical value) = .ok (arranged value) := by
  have hunsorted : ({ sortKeys := false, defaultStr := true } : Options).sortKeys = false := rfl
  rw [← laidOut_arranged hunsorted]
  exact ofTree_laidOut hunsorted (readable_arranged h) (prints_arranged hprints)

-- Reading canonical text back.
theorem loads_canonicalJson {value : Value} {text : List Char} (h : Writable value)
    (htext : canonicalJson maxStrDigits value = .ok text) :
    loads maxStrDigits text = .ok (arranged value) := by
  obtain ⟨hprints, rfl⟩ := dumps_eq_ok_iff.mp htext
  unfold loads
  rw [Json.parse_render Json.faithful_quoteAscii]
  exact ofTree_canonical h hprints

theorem exists_canonicalJson {value : Value}
    (hprints : Every (Prints canonical maxStrDigits) value) :
    ∃ text, canonicalJson maxStrDigits value = .ok text :=
  ⟨_, dumps_eq_ok_iff.mpr ⟨hprints, rfl⟩⟩

theorem canonicalJson_arranged {value : Value}
    (hprints : Every (Prints canonical maxStrDigits) value) :
    canonicalJson maxStrDigits (arranged value) = canonicalJson maxStrDigits value := by
  have hunsorted : ({ sortKeys := false, defaultStr := true } : Options).sortKeys = false := rfl
  have hlaidOut : laidOut canonical (arranged value) = laidOut canonical value := by
    rw [← laidOut_arranged hunsorted (arranged value), arranged_arranged,
      laidOut_arranged hunsorted]
  rw [canonicalJson, canonicalJson, dumps_eq_ok_iff.mpr ⟨hprints, rfl⟩,
    dumps_eq_ok_iff.mpr ⟨prints_arranged hprints, rfl⟩, hlaidOut]

-- Two values have one canonical text just where they differ in the order of members only.
theorem canonicalJson_eq_iff {value other : Value} (hvalue : Writable value)
    (hother : Writable other) (hprints : Every (Prints canonical maxStrDigits) value)
    (hprintsOther : Every (Prints canonical maxStrDigits) other) :
    canonicalJson maxStrDigits value = canonicalJson maxStrDigits other ↔
      arranged value = arranged other := by
  obtain ⟨text, htext⟩ := exists_canonicalJson hprints
  obtain ⟨otherText, hotherText⟩ := exists_canonicalJson hprintsOther
  constructor
  · intro heq
    have hread := loads_canonicalJson hvalue htext
    have hreadOther := loads_canonicalJson hother (heq ▸ htext)
    exact Except.ok.inj (hread.symm.trans hreadOther)
  · intro heq
    have hunsorted : ({ sortKeys := false, defaultStr := true } : Options).sortKeys = false := rfl
    rw [canonicalJson, canonicalJson, dumps_eq_ok_iff.mpr ⟨hprints, rfl⟩,
      dumps_eq_ok_iff.mpr ⟨hprintsOther, rfl⟩, ← laidOut_arranged hunsorted value,
      ← laidOut_arranged hunsorted other, heq]

-- Two dicts of the same keys in the same order.
theorem arranged_dict_eq_iff {members others : List (List CodePoint × Value)}
    (hnodup : (Members.keys members).Nodup)
    (hkeys : Members.keys members = Members.keys others) :
    arranged (.dict members) = arranged (.dict others) ↔
      List.Forall₂ (fun a b => a.1 = b.1 ∧ arranged a.2 = arranged b.2) members others := by
  have hmapped : (Members.keys (arrangedMembers members)).Nodup := by
    rwa [arrangedMembers_eq, Members.keys_mapValues]
  have hsame : Members.keys (arrangedMembers members) = Members.keys (arrangedMembers others) := by
    rw [arrangedMembers_eq, arrangedMembers_eq, Members.keys_mapValues, Members.keys_mapValues,
      hkeys]
  rw [arranged, arranged, Value.dict.injEq, Members.sorted_eq_iff hmapped,
    Members.perm_iff_eq hmapped hsame, arrangedMembers_eq, arrangedMembers_eq,
    ← List.forall₂_eq_eq_eq, List.forall₂_map_left_iff, List.forall₂_map_right_iff]
  simp only [Prod.mk.injEq]

theorem arranged_list_eq_iff {items others : List Value} :
    arranged (.list items) = arranged (.list others) ↔
      List.Forall₂ (fun a b => arranged a = arranged b) items others := by
  rw [arranged, arranged, Value.list.injEq, arrangedItems_eq, arrangedItems_eq,
    ← List.forall₂_eq_eq_eq, List.forall₂_map_left_iff, List.forall₂_map_right_iff]

end TrustlistCore.EventBus.Value
