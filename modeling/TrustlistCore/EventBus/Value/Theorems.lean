import TrustlistCore.EventBus.Value
import TrustlistCore.Library.Json.Theorems

namespace TrustlistCore.EventBus.Value

open Library Unicode

-- Induction with a list or a dict taken as a whole.
@[elab_as_elim]
theorem induct {motive : Value → Prop} (none : motive .none) (bool : ∀ b, motive (.bool b))
    (int : ∀ n, motive (.int n)) (float : ∀ x, motive (.float x)) (str : ∀ s, motive (.str s))
    (list : ∀ items, (∀ item ∈ items, motive item) → motive (.list items))
    (dict : ∀ members, (∀ member ∈ members, motive member.2) → motive (.dict members))
    (object : ∀ kind text, motive (.object kind text)) (value : Value) : motive value :=
  @Value.rec motive (fun items => ∀ item ∈ items, motive item)
    (fun members => ∀ member ∈ members, motive member.2) (fun member => motive member.2)
    none bool int float str list dict object
    (fun _ h => absurd h List.not_mem_nil)
    (fun _ _ hfirst hrest _ h => by
      rcases List.mem_cons.mp h with rfl | h
      · exact hfirst
      · exact hrest _ h)
    (fun _ h => absurd h List.not_mem_nil)
    (fun _ _ hfirst hrest _ h => by
      rcases List.mem_cons.mp h with rfl | h
      · exact hfirst
      · exact hrest _ h)
    (fun _ _ h => h) value

section Every

variable {P : Value → Prop}

theorem everyItem_iff {items : List Value} : EveryItem P items ↔ ∀ item ∈ items, Every P item := by
  induction items with
  | nil => simp [EveryItem]
  | cons item items ih => simp [EveryItem, ih]

theorem everyMember_iff {members : List (List CodePoint × Value)} :
    EveryMember P members ↔ ∀ member ∈ members, Every P member.2 := by
  induction members with
  | nil => simp [EveryMember]
  | cons member members ih => simp [EveryMember, ih]

theorem every_list {items : List Value} :
    Every P (.list items) ↔ P (.list items) ∧ ∀ item ∈ items, Every P item := by
  rw [Every, everyItem_iff]

theorem every_dict {members : List (List CodePoint × Value)} :
    Every P (.dict members) ↔ P (.dict members) ∧ ∀ member ∈ members, Every P member.2 := by
  rw [Every, everyMember_iff]

theorem Every.self {value : Value} (h : Every P value) : P value := by
  cases value with
  | list items => exact (every_list.mp h).1
  | dict members => exact (every_dict.mp h).1
  | _ => exact h

end Every

theorem exceeds_toDigits {maxStrDigits n : ℕ} (h : maxStrDigits ≠ 0) :
    exceeds maxStrDigits (Nat.toDigits 10 n) = true ↔ 10 ^ maxStrDigits ≤ n := by
  have hlen := Nat.length_toDigits_le_iff (n := n) (b := 10) (by decide) (Nat.pos_of_ne_zero h)
  simp only [exceeds, decide_eq_true_eq, h, ne_eq, not_false_eq_true, true_and]
  rw [← not_le, hlen, not_lt]

theorem exceeds_pow {maxStrDigits : ℕ} (h : maxStrDigits ≠ 0) :
    exceeds maxStrDigits (Nat.toDigits 10 ((10 ^ maxStrDigits : ℤ).natAbs)) = true := by
  rw [exceeds_toDigits h, Int.natAbs_pow]
  exact le_refl _

section Document

variable (options : Options) (maxStrDigits : ℕ)

theorem documentItems_eq (items : List Value) :
    documentItems options maxStrDigits items = items.map (document options maxStrDigits) := by
  induction items with
  | nil => rfl
  | cons item items ih => rw [documentItems, ih, List.map_cons]

theorem documentMembers_eq (members : List (List CodePoint × Value)) :
    documentMembers options maxStrDigits members =
      members.map fun member => (member.1, document options maxStrDigits member.2) := by
  induction members with
  | nil => rfl
  | cons member members ih => rw [documentMembers, ih, List.map_cons]

-- The document of a value that has one.
mutual

def laidOut : Value → Json.Tree
  | .none => .null
  | .bool value => .bool value
  | .int value => .number (.ofInt value)
  | .float value => floatTree value
  | .str points => .string (utf16 points)
  | .list items => .array (laidOutItems items)
  | .dict members =>
      .object ((ordered options (laidOutMembers members)).map fun member =>
        (utf16 member.1, member.2))
  | .object _ text => .string (utf16 text)

def laidOutItems : List Value → List Json.Tree
  | [] => []
  | item :: items => laidOut item :: laidOutItems items

def laidOutMembers : List (List CodePoint × Value) → List (List CodePoint × Json.Tree)
  | [] => []
  | (key, value) :: members => (key, laidOut value) :: laidOutMembers members

end

-- What keeps a value from having one: an integer past the limit, or an object that no
-- default turns into text.
def Prints : Value → Prop
  | .int value => exceeds maxStrDigits (Nat.toDigits 10 value.natAbs) = false
  | .object _ _ => options.defaultStr = true
  | _ => True

theorem laidOutItems_eq (items : List Value) :
    laidOutItems options items = items.map (laidOut options) := by
  induction items with
  | nil => rfl
  | cons item items ih => rw [laidOutItems, ih, List.map_cons]

theorem laidOutMembers_eq (members : List (List CodePoint × Value)) :
    laidOutMembers options members =
      members.map fun member => (member.1, laidOut options member.2) := by
  induction members with
  | nil => rfl
  | cons member members ih => rw [laidOutMembers, ih, List.map_cons]

variable {options maxStrDigits}

theorem mem_ordered {V : Type} {members : List (List CodePoint × V)}
    {member : List CodePoint × V} :
    member ∈ ordered options members ↔ member ∈ members := by
  unfold ordered
  split
  · exact Members.mem_sorted
  · exact Iff.rfl

theorem ordered_mapValues {V W : Type} (members : List (List CodePoint × V)) (g : V → W) :
    ordered options (members.map fun member => (member.1, g member.2)) =
      (ordered options members).map fun member => (member.1, g member.2) := by
  unfold ordered
  split
  · exact Members.sorted_mapValues members g
  · rfl

theorem intNumber_eq_ok {n : ℤ} {number : Number} :
    intNumber maxStrDigits n = .ok number ↔
      exceeds maxStrDigits (Nat.toDigits 10 n.natAbs) = false ∧ number = .ofInt n := by
  unfold intNumber
  split
  · rename_i h
    simp [h]
  · rename_i h
    rw [Except.ok.injEq]
    simp [h, eq_comm]

theorem document_of_prints {value : Value} (h : Every (Prints options maxStrDigits) value) :
    document options maxStrDigits value = .ok (laidOut options value) := by
  induction value using induct with
  | none => rfl
  | bool b => rfl
  | int n =>
      rw [document, intNumber_eq_ok.mpr ⟨h.self, rfl⟩]
      rfl
  | float x => rfl
  | str s => rfl
  | list items ih =>
      have hitems : documentItems options maxStrDigits items =
          (laidOutItems options items).map .ok := by
        rw [documentItems_eq, laidOutItems_eq, List.map_map]
        exact List.map_congr_left fun item hi => ih item hi ((every_list.mp h).2 item hi)
      rw [document, Members.gather_eq_ok.mpr hitems]
      rfl
  | dict members ih =>
      have hmembers : documentMembers options maxStrDigits members =
          (laidOutMembers options members).map fun member => (member.1, .ok member.2) := by
        rw [documentMembers_eq, laidOutMembers_eq, List.map_map]
        exact List.map_congr_left fun member hm =>
          congrArg (Prod.mk member.1) (ih member hm ((every_dict.mp h).2 member hm))
      have hordered : ordered options ((laidOutMembers options members).map fun member =>
          (member.1, Except.ok member.2)) = (ordered options (laidOutMembers options members)).map
            fun member => (member.1, (Except.ok member.2 : Except Failure Json.Tree)) :=
        ordered_mapValues _ _
      rw [document, hmembers, Members.collect_eq_ok.mpr hordered]
      rfl
  | object kind text =>
      have hdefault : options.defaultStr = true := h.self
      rw [document, if_pos hdefault]
      rfl

theorem prints_of_document {value : Value} {tree : Json.Tree}
    (h : document options maxStrDigits value = .ok tree) :
    Every (Prints options maxStrDigits) value := by
  induction value using induct generalizing tree with
  | none => trivial
  | bool b => trivial
  | int n =>
      obtain ⟨number, hnumber, -⟩ := Result.map_eq_ok.mp h
      exact (intNumber_eq_ok.mp hnumber).1
  | float x => trivial
  | str s => trivial
  | list items ih =>
      refine every_list.mpr ⟨trivial, fun item hi => ?_⟩
      obtain ⟨trees, hitems, -⟩ := Result.map_eq_ok.mp h
      rw [documentItems_eq] at hitems
      obtain ⟨tree, htree⟩ := Members.exists_of_gather hitems (List.mem_map_of_mem hi)
      exact ih item hi htree
  | dict members ih =>
      refine every_dict.mpr ⟨trivial, fun member hm => ?_⟩
      obtain ⟨trees, hmembers, -⟩ := Result.map_eq_ok.mp h
      have hmem : (member.1, document options maxStrDigits member.2) ∈
          ordered options (documentMembers options maxStrDigits members) := by
        rw [mem_ordered, documentMembers_eq]
        exact List.mem_map_of_mem hm
      obtain ⟨tree, htree⟩ := Members.exists_of_collect hmembers hmem
      exact ih member hm htree
  | object kind text =>
      rw [document] at h
      split at h
      · assumption
      · exact absurd h (by simp)

theorem document_eq_ok_iff {value : Value} {tree : Json.Tree} :
    document options maxStrDigits value = .ok tree ↔
      Every (Prints options maxStrDigits) value ∧ tree = laidOut options value := by
  constructor
  · intro h
    have hprints := prints_of_document h
    rw [document_of_prints hprints, Except.ok.injEq] at h
    exact ⟨hprints, h.symm⟩
  · rintro ⟨hprints, rfl⟩
    exact document_of_prints hprints

theorem dumps_eq_ok_iff {value : Value} {text : List Char} :
    dumps options maxStrDigits value = .ok text ↔
      Every (Prints options maxStrDigits) value ∧
        text = Json.render Json.quoteAscii (laidOut options value) := by
  unfold dumps
  simp only [Result.map_eq_ok, document_eq_ok_iff]
  constructor
  · rintro ⟨tree, ⟨hprints, rfl⟩, rfl⟩
    exact ⟨hprints, rfl⟩
  · rintro ⟨hprints, rfl⟩
    exact ⟨_, ⟨hprints, rfl⟩, rfl⟩

end Document

end TrustlistCore.EventBus.Value
