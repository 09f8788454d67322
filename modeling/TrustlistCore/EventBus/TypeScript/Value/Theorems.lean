import TrustlistCore.EventBus.TypeScript.Value
import TrustlistCore.Library.Json.Quoting

namespace TrustlistCore.EventBus.TypeScript.JsonValue

open Library Unicode

-- Induction with an array or an object taken as a whole.
@[elab_as_elim]
theorem induct {motive : JsonValue → Prop} (undefined : motive .undefined) (null : motive .null)
    (boolean : ∀ b, motive (.boolean b)) (number : ∀ x, motive (.number x))
    (bigint : ∀ n, motive (.bigint n)) (string : ∀ s, motive (.string s))
    (array : ∀ items, (∀ item ∈ items, motive item) → motive (.array items))
    (object : ∀ members, (∀ member ∈ members, motive member.2) → motive (.object members))
    (other : ∀ text, motive (.other text)) (hole : motive .hole) (value : JsonValue) :
    motive value :=
  @JsonValue.rec motive (fun items => ∀ item ∈ items, motive item)
    (fun members => ∀ member ∈ members, motive member.2) (fun member => motive member.2)
    undefined null boolean number bigint string array object other hole
    (fun _ h => absurd h List.not_mem_nil)
    (fun _ _ hfirst hrest _ h => by
      rcases List.mem_cons.mp h with rfl | h
      · exact hfirst
      · exact hrest _ h)
    (fun _ h => absurd h List.not_mem_nil)
    (fun _ _ hfirst hrest _ h => by
      rcases List.mem_cons.mp h with rfl | h
      · exact hfirst
      · exact hrest _ h)
    (fun _ _ h => h) value

section Every

variable {P : JsonValue → Prop}

theorem everyItem_iff {items : List JsonValue} :
    EveryItem P items ↔ ∀ item ∈ items, Every P item := by
  induction items with
  | nil => simp [EveryItem]
  | cons item items ih => simp [EveryItem, ih]

theorem everyMember_iff {members : List (List CodeUnit × JsonValue)} :
    EveryMember P members ↔ ∀ member ∈ members, Every P member.2 := by
  induction members with
  | nil => simp [EveryMember]
  | cons member members ih => simp [EveryMember, ih]

theorem every_array {items : List JsonValue} :
    Every P (.array items) ↔ P (.array items) ∧ ∀ item ∈ items, Every P item := by
  rw [Every, everyItem_iff]

theorem every_object {members : List (List CodeUnit × JsonValue)} :
    Every P (.object members) ↔ P (.object members) ∧ ∀ member ∈ members, Every P member.2 := by
  rw [Every, everyMember_iff]

theorem Every.self {value : JsonValue} (h : Every P value) : P value := by
  cases value with
  | array items => exact (every_array.mp h).1
  | object members => exact (every_object.mp h).1
  | _ => exact h

theorem Every.mono {Q : JsonValue → Prop} (hmono : ∀ value, P value → Q value) {value : JsonValue}
    (h : Every P value) : Every Q value := by
  induction value using JsonValue.induct with
  | array items ih =>
      obtain ⟨harray, hitems⟩ := every_array.mp h
      exact every_array.mpr ⟨hmono _ harray, fun item hi => ih item hi (hitems item hi)⟩
  | object members ih =>
      obtain ⟨hobject, hmembers⟩ := every_object.mp h
      exact every_object.mpr ⟨hmono _ hobject, fun member hm => ih member hm (hmembers member hm)⟩
  | _ => exact hmono _ h

end Every

section Read

theorem ofItems_eq (items : List Json.Tree) : ofItems items = items.map ofTree := by
  induction items with
  | nil => rfl
  | cons item items ih => rw [ofItems, ih, List.map_cons]

theorem ofMembers_eq (members : List (List CodeUnit × Json.Tree)) :
    ofMembers members = members.map fun member => (member.1, ofTree member.2) := by
  induction members with
  | nil => rfl
  | cons member members ih => rw [ofMembers, ih, List.map_cons]

theorem standardItems_iff {items : List Json.Tree} :
    standardItems items = true ↔ ∀ item ∈ items, standard item = true := by
  induction items with
  | nil => simp [standardItems]
  | cons item items ih => simp [standardItems, ih]

theorem standardMembers_iff {members : List (List CodeUnit × Json.Tree)} :
    standardMembers members = true ↔ ∀ member ∈ members, standard member.2 = true := by
  induction members with
  | nil => simp [standardMembers]
  | cons member members ih => simp [standardMembers, ih]

-- Of an array without holes.
def Solid : JsonValue → Prop
  | .hole => False
  | _ => True

theorem Solid.isHole {value : JsonValue} (h : Solid value) : isHole value = false := by
  cases value with
  | hole => exact absurd h id
  | _ => rfl

-- Enumeration only puts the members in another order.
theorem enumerated_perm {V : Type} (members : List (List CodeUnit × V)) :
    (enumerated members).Perm members := by
  have hnot : (fun member : List CodeUnit × V => (arrayIndex member.1).isNone) =
      fun member => !(arrayIndex member.1).isSome :=
    funext fun member => (Option.not_isSome _).symm
  unfold enumerated
  rw [hnot]
  exact ((List.perm_insertionSort _ _).append_right _).trans (List.filter_append_perm _ _)

-- The order the members of a mapped list are enumerated in is one of the list itself.
theorem exists_perm_enumerated {A V : Type} (f : A → List CodeUnit × V) (members : List A) :
    ∃ others : List A, others.Perm members ∧ enumerated (members.map f) = others.map f :=
  Members.exists_perm_of_map (enumerated_perm (members.map f))

-- No array that is read has a hole.
theorem solid_ofTree (tree : Json.Tree) : Every Solid (ofTree tree) := by
  induction tree using Json.Tree.induct with
  | constant c => cases c <;> exact trivial
  | array items ih =>
      rw [ofTree, ofItems_eq, every_array, List.forall_mem_map]
      exact ⟨trivial, ih⟩
  | object members ih =>
      rw [ofTree, ofMembers_eq, every_object]
      refine ⟨trivial, fun member hm => ?_⟩
      have hread := (Members.mem_foldl_insert ((enumerated_perm _).mem_iff.mp hm)).resolve_left
        List.not_mem_nil
      obtain ⟨read, hmem, rfl⟩ := List.mem_map.mp hread
      exact ih read hmem
  | _ => exact trivial

end Read

section Write

theorem documentItems_eq (items : List JsonValue) : documentItems items = items.map document := by
  induction items with
  | nil => rfl
  | cons item items ih => rw [documentItems, ih, List.map_cons]

theorem documentMembers_eq (members : List (List CodeUnit × JsonValue)) :
    documentMembers members = members.map fun member => (member.1, document member.2) := by
  induction members with
  | nil => rfl
  | cons member members ih => rw [documentMembers, ih, List.map_cons]

theorem document_array {items : List JsonValue} {trees : List Json.Tree}
    (h : items.map document = trees.map fun tree => .ok (some tree)) :
    document (.array items) = .ok (some (.array trees)) := by
  have hitems : documentItems items = (trees.map some).map .ok := by
    rw [documentItems_eq, h, List.map_map]
    rfl
  have hnull : (trees.map some).map orNull = trees := by
    rw [List.map_map]
    exact List.map_id trees
  rw [document, Members.gather_eq_ok.mpr hitems, Except.map, hnull]

theorem document_object {members : List (List CodeUnit × JsonValue)}
    {trees : List (List CodeUnit × Json.Tree)}
    (h : members.map (fun member => (member.1, document member.2)) =
      trees.map fun member => (member.1, .ok (some member.2))) :
    document (.object members) = .ok (some (.object trees)) := by
  have hmembers : documentMembers members =
      (trees.map fun member => (member.1, some member.2)).map fun member =>
        (member.1, .ok member.2) := by
    rw [documentMembers_eq, h, List.map_map]
    rfl
  have hpresent : present (trees.map fun member => (member.1, some member.2)) = trees := by
    unfold present
    rw [List.filterMap_map]
    exact List.filterMap_some
  rw [document, Members.collect_eq_ok.mpr hmembers, Except.map, hpresent]

end Write

end TrustlistCore.EventBus.TypeScript.JsonValue
