import TrustlistCore.EventBus.Datum
import TrustlistCore.EventBus.Value.Theorems
import TrustlistCore.Library.Result

namespace TrustlistCore.EventBus.Datum

open Library Unicode
open Value (Options keyText comparable intNumber floatTree)

-- Induction with a sequence or a dict taken as a whole.
@[elab_as_elim]
theorem induct {motive : Datum → Prop} (none : motive .none) (bool : ∀ b, motive (.bool b))
    (int : ∀ n, motive (.int n)) (float : ∀ x, motive (.float x)) (str : ∀ s, motive (.str s))
    (list : ∀ items, (∀ item ∈ items, motive item) → motive (.list items))
    (tuple : ∀ items, (∀ item ∈ items, motive item) → motive (.tuple items))
    (dict : ∀ members, (∀ member ∈ members, motive member.2) → motive (.dict members))
    (object : ∀ kind text, motive (.object kind text)) (value : Datum) : motive value :=
  @Datum.rec motive (fun items => ∀ item ∈ items, motive item)
    (fun members => ∀ member ∈ members, motive member.2) (fun member => motive member.2)
    none bool int float str list tuple dict object
    (fun _ h => absurd h List.not_mem_nil)
    (fun _ _ hfirst hrest _ h => by
      rcases List.mem_cons.mp h with rfl | h
      · exact hfirst
      · exact hrest _ h)
    (fun _ h => absurd h List.not_mem_nil)
    (fun _ _ hfirst hrest _ h => by
      rcases List.mem_cons.mp h with rfl | h
      · exact hfirst
      · exact hrest _ h)
    (fun _ _ h => h) value

section Every

variable (P : Datum → Prop)

mutual

def Every : Datum → Prop
  | .list items => P (.list items) ∧ EveryItem items
  | .tuple items => P (.tuple items) ∧ EveryItem items
  | .dict members => P (.dict members) ∧ EveryMember members
  | value => P value

def EveryItem : List Datum → Prop
  | [] => True
  | item :: items => Every item ∧ EveryItem items

def EveryMember : List (Value × Datum) → Prop
  | [] => True
  | (_, value) :: members => Every value ∧ EveryMember members

end

variable {P}

theorem everyItem_iff {items : List Datum} : EveryItem P items ↔ ∀ item ∈ items, Every P item := by
  induction items with
  | nil => simp [EveryItem]
  | cons item items ih => simp [EveryItem, ih]

theorem everyMember_iff {members : List (Value × Datum)} :
    EveryMember P members ↔ ∀ member ∈ members, Every P member.2 := by
  induction members with
  | nil => simp [EveryMember]
  | cons member members ih => simp [EveryMember, ih]

theorem every_list {items : List Datum} :
    Every P (.list items) ↔ P (.list items) ∧ ∀ item ∈ items, Every P item := by
  rw [Every, everyItem_iff]

theorem every_tuple {items : List Datum} :
    Every P (.tuple items) ↔ P (.tuple items) ∧ ∀ item ∈ items, Every P item := by
  rw [Every, everyItem_iff]

theorem every_dict {members : List (Value × Datum)} :
    Every P (.dict members) ↔ P (.dict members) ∧ ∀ member ∈ members, Every P member.2 := by
  rw [Every, everyMember_iff]

theorem Every.self {value : Datum} (h : Every P value) : P value := by
  cases value with
  | list items => exact (every_list.mp h).1
  | tuple items => exact (every_tuple.mp h).1
  | dict members => exact (every_dict.mp h).1
  | _ => exact h

end Every

-- The string a key is written as.
def keyName (key : Value) : List CodePoint :=
  match keyText 0 key with
  | .ok name => name
  | .error _ => []

theorem keyName_eq {maxStrDigits : ℕ} {key : Value} {name : List CodePoint}
    (h : keyText maxStrDigits key = .ok name) : name = keyName key := by
  cases key with
  | int n =>
      obtain ⟨number, hnumber, rfl⟩ := Result.map_eq_ok.mp h
      obtain ⟨-, rfl⟩ := Value.intNumber_eq_ok.mp hnumber
      rfl
  | list items => cases h
  | dict members => cases h
  | object kind text => cases h
  | _ => exact (Except.ok.inj h).symm

section Document

variable (sorting : KeySorting) (options : Options) (maxStrDigits : ℕ)

def inOrder {V : Type} (members : List (Value × V)) : List (Value × V) :=
  if options.sortKeys then sorting.sort members else members

variable {sorting options} in
theorem inOrder_perm {V : Type} (members : List (Value × V)) :
    (inOrder sorting options members).Perm members := by
  unfold inOrder
  split
  · exact sorting.perm members
  · exact List.Perm.refl _

variable {sorting options} in
theorem inOrder_mapValues {V W : Type} (g : V → W) (members : List (Value × V)) :
    inOrder sorting options (members.map fun member => (member.1, g member.2)) =
      (inOrder sorting options members).map fun member => (member.1, g member.2) := by
  unfold inOrder
  split
  · exact sorting.mapValues g members
  · rfl

-- The keys of a dict that `json.dumps` takes.
def Sortable (keys : List Value) : Prop :=
  options.sortKeys = true → keys.Pairwise fun a b => comparable a b = true

variable {sorting options} in
theorem ordered_eq_ok_iff {V : Type} {members result : List (Value × V)} :
    ordered sorting options members = .ok result ↔
      Sortable options (Members.keys members) ∧ result = inOrder sorting options members := by
  unfold ordered inOrder Sortable Members.keys
  by_cases hsort : options.sortKeys = true
  · simp only [hsort, if_true, true_implies, List.pairwise_map]
    by_cases hpairs : members.Pairwise fun a b => comparable a.1 b.1 = true
    · rw [if_pos hpairs, Except.ok.injEq, eq_comm]
      exact (and_iff_right hpairs).symm
    · rw [if_neg hpairs]
      exact iff_of_false (fun h => by cases h) fun h => hpairs h.1
  · rw [if_neg hsort, if_neg hsort, Except.ok.injEq, eq_comm]
    exact (and_iff_right fun h => absurd h hsort).symm

-- The document of a value that has one.
mutual

def laidOut : Datum → Json.Tree
  | .none => .null
  | .bool value => .bool value
  | .int value => .number (.ofInt value)
  | .float value => floatTree value
  | .str points => .string (utf16 points)
  | .list items => .array (laidOutItems items)
  | .tuple items => .array (laidOutItems items)
  | .dict members =>
      .object ((inOrder sorting options (laidOutMembers members)).map fun member =>
        (utf16 (keyName member.1), member.2))
  | .object _ text => .string (utf16 text)

def laidOutItems : List Datum → List Json.Tree
  | [] => []
  | item :: items => laidOut item :: laidOutItems items

def laidOutMembers : List (Value × Datum) → List (Value × Json.Tree)
  | [] => []
  | (key, value) :: members => (key, laidOut value) :: laidOutMembers members

end

-- What keeps a value from having one.
def Prints : Datum → Prop
  | .int value => exceeds maxStrDigits (Nat.toDigits 10 value.natAbs) = false
  | .dict members => (∀ key ∈ Members.keys members, ∃ name, keyText maxStrDigits key = .ok name) ∧
      Sortable options (Members.keys members)
  | .object _ _ => options.defaultStr = true
  | _ => True

variable {sorting options maxStrDigits}

theorem documentItems_eq (items : List Datum) :
    documentItems sorting options maxStrDigits items =
      items.map (document sorting options maxStrDigits) := by
  induction items with
  | nil => rfl
  | cons item items ih => rw [documentItems, ih, List.map_cons]

theorem documentMembers_eq (members : List (Value × Datum)) :
    documentMembers sorting options maxStrDigits members =
      members.map fun member => (member.1, document sorting options maxStrDigits member.2) := by
  induction members with
  | nil => rfl
  | cons member members ih => rw [documentMembers, ih, List.map_cons]

theorem laidOutItems_eq (items : List Datum) :
    laidOutItems sorting options items = items.map (laidOut sorting options) := by
  induction items with
  | nil => rfl
  | cons item items ih => rw [laidOutItems, ih, List.map_cons]

theorem laidOutMembers_eq (members : List (Value × Datum)) :
    laidOutMembers sorting options members =
      members.map fun member => (member.1, laidOut sorting options member.2) := by
  induction members with
  | nil => rfl
  | cons member members ih => rw [laidOutMembers, ih, List.map_cons]

theorem laidOut_dict (members : List (Value × Datum)) :
    laidOut sorting options (.dict members) =
      .object ((inOrder sorting options members).map fun member =>
        (utf16 (keyName member.1), laidOut sorting options member.2)) := by
  rw [laidOut, laidOutMembers_eq, inOrder_mapValues, List.map_map]
  rfl

theorem documentItems_of_prints {items : List Datum}
    (h : ∀ item ∈ items, document sorting options maxStrDigits item =
      .ok (laidOut sorting options item)) :
    Members.gather (documentItems sorting options maxStrDigits items) =
      .ok (laidOutItems sorting options items) := by
  rw [Members.gather_eq_ok, documentItems_eq, laidOutItems_eq, List.map_map]
  exact List.map_congr_left h

theorem document_dict_of_prints {members : List (Value × Datum)}
    (hnode : Prints options maxStrDigits (.dict members))
    (h : ∀ member ∈ members, document sorting options maxStrDigits member.2 =
      .ok (laidOut sorting options member.2)) :
    document sorting options maxStrDigits (.dict members) =
      .ok (laidOut sorting options (.dict members)) := by
  have hordered := (@ordered_eq_ok_iff sorting options _
    (documentMembers sorting options maxStrDigits members) _).mpr
      ⟨by rw [documentMembers_eq, Members.keys_mapValues]; exact hnode.2, rfl⟩
  rw [document, hordered, Except.bind, laidOut_dict, documentMembers_eq, inOrder_mapValues,
    List.map_map]
  refine Result.map_eq_ok.mpr ⟨_, Members.gather_eq_ok.mpr ?_, rfl⟩
  rw [List.map_map]
  refine List.map_congr_left fun member hm => ?_
  have hmem := (inOrder_perm members).mem_iff.mp hm
  obtain ⟨name, hname⟩ := hnode.1 member.1 (List.mem_map_of_mem hmem)
  simp only [Function.comp_apply, hname, h member hmem, Except.bind, Except.map,
    keyName_eq hname]

theorem document_of_prints {value : Datum} (h : Every (Prints options maxStrDigits) value) :
    document sorting options maxStrDigits value = .ok (laidOut sorting options value) := by
  induction value using induct with
  | int n =>
      rw [document, Value.intNumber_eq_ok.mpr ⟨h.self, rfl⟩]
      rfl
  | list items ih =>
      rw [document, documentItems_of_prints fun item hi => ih item hi ((every_list.mp h).2 item hi)]
      rfl
  | tuple items ih =>
      rw [document,
        documentItems_of_prints fun item hi => ih item hi ((every_tuple.mp h).2 item hi)]
      rfl
  | dict members ih =>
      exact document_dict_of_prints h.self fun member hm =>
        ih member hm ((every_dict.mp h).2 member hm)
  | object kind text =>
      have hdefault : options.defaultStr = true := h.self
      rw [document, if_pos hdefault]
      rfl
  | _ => rfl

theorem exists_of_gather {items : List Datum} {trees : List Json.Tree}
    (h : Members.gather (documentItems sorting options maxStrDigits items) = .ok trees) :
    ∀ item ∈ items, ∃ tree, document sorting options maxStrDigits item = .ok tree := by
  intro item hi
  rw [documentItems_eq] at h
  exact Members.exists_of_gather h (List.mem_map_of_mem hi)

theorem of_document_dict {members : List (Value × Datum)} {tree : Json.Tree}
    (h : document sorting options maxStrDigits (.dict members) = .ok tree) :
    Prints options maxStrDigits (.dict members) ∧
      ∀ member ∈ members, ∃ tree, document sorting options maxStrDigits member.2 = .ok tree := by
  rw [document, Result.bind_eq_ok] at h
  obtain ⟨sorted, hsorted, htrees⟩ := h
  obtain ⟨hsortable, rfl⟩ := ordered_eq_ok_iff.mp hsorted
  obtain ⟨trees, hgather, -⟩ := Result.map_eq_ok.mp htrees
  rw [documentMembers_eq, Members.keys_mapValues] at hsortable
  have hboth : ∀ member ∈ members, (∃ name, keyText maxStrDigits member.1 = .ok name) ∧
      ∃ tree, document sorting options maxStrDigits member.2 = .ok tree := by
    intro member hm
    have hmem : (member.1, document sorting options maxStrDigits member.2) ∈
        inOrder sorting options (documentMembers sorting options maxStrDigits members) := by
      rw [(inOrder_perm _).mem_iff, documentMembers_eq]
      exact List.mem_map_of_mem hm
    have hentry := List.mem_map_of_mem (f := fun member : Value × Except Failure Json.Tree =>
      (keyText maxStrDigits member.1).bind fun name =>
        member.2.map fun tree => (utf16 name, tree)) hmem
    obtain ⟨pair, hpair⟩ := Members.exists_of_gather hgather hentry
    obtain ⟨name, hname, hvalue⟩ := Result.bind_eq_ok.mp hpair
    obtain ⟨tree, htree, -⟩ := Result.map_eq_ok.mp hvalue
    exact ⟨⟨name, hname⟩, tree, htree⟩
  refine ⟨⟨fun key hkey => ?_, hsortable⟩, fun member hm => (hboth member hm).2⟩
  obtain ⟨member, hm, rfl⟩ := List.mem_map.mp hkey
  exact (hboth member hm).1

theorem prints_of_document {value : Datum} {tree : Json.Tree}
    (h : document sorting options maxStrDigits value = .ok tree) :
    Every (Prints options maxStrDigits) value := by
  induction value using induct generalizing tree with
  | int n =>
      obtain ⟨number, hnumber, -⟩ := Result.map_eq_ok.mp h
      exact (Value.intNumber_eq_ok.mp hnumber).1
  | list items ih =>
      obtain ⟨trees, hitems, -⟩ := Result.map_eq_ok.mp h
      refine every_list.mpr ⟨trivial, fun item hi => ?_⟩
      obtain ⟨tree, htree⟩ := exists_of_gather hitems item hi
      exact ih item hi htree
  | tuple items ih =>
      obtain ⟨trees, hitems, -⟩ := Result.map_eq_ok.mp h
      refine every_tuple.mpr ⟨trivial, fun item hi => ?_⟩
      obtain ⟨tree, htree⟩ := exists_of_gather hitems item hi
      exact ih item hi htree
  | dict members ih =>
      obtain ⟨hnode, hvalues⟩ := of_document_dict h
      refine every_dict.mpr ⟨hnode, fun member hm => ?_⟩
      obtain ⟨tree, htree⟩ := hvalues member hm
      exact ih member hm htree
  | object kind text =>
      rw [document] at h
      split at h
      · assumption
      · exact absurd h (by simp)
  | _ => trivial

theorem dumps_eq_ok_iff {value : Datum} {text : List Char} :
    dumps sorting options maxStrDigits value = .ok text ↔
      Every (Prints options maxStrDigits) value ∧
        text = Json.render Json.quoteAscii (laidOut sorting options value) := by
  unfold dumps
  rw [Result.map_eq_ok]
  constructor
  · rintro ⟨tree, hdocument, rfl⟩
    have hprints := prints_of_document hdocument
    rw [document_of_prints hprints, Except.ok.injEq] at hdocument
    exact ⟨hprints, by rw [hdocument]⟩
  · rintro ⟨hprints, rfl⟩
    exact ⟨_, document_of_prints hprints, rfl⟩

end Document

end TrustlistCore.EventBus.Datum
