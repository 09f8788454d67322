import TrustlistCore.EventBus.Value.Theorems

namespace TrustlistCore.EventBus.Value

open Library Unicode

-- The same JSON value: the order of the members of a dict is no part of it.
mutual

def sameJson : Value → Value → Prop
  | .none, .none => True
  | .bool a, .bool b => a = b
  | .int a, .int b => a = b
  | .str a, .str b => a = b
  | .list xs, .list ys => sameItems xs ys
  | .dict xs, .dict ys =>
      (∀ key, key ∈ Members.keys xs ↔ key ∈ Members.keys ys) ∧ sameMembers xs ys
  | _, _ => False

def sameItems : List Value → List Value → Prop
  | [], [] => True
  | x :: xs, y :: ys => sameJson x y ∧ sameItems xs ys
  | _, _ => False

def sameMembers :
    List (List CodePoint × Value) → List (List CodePoint × Value) → Prop
  | [], _ => True
  | (key, value) :: xs, ys => (∃ other, (key, other) ∈ ys ∧ sameJson value other) ∧ sameMembers xs ys

end

def Scalar (points : List CodePoint) : Prop :=
  ∀ point ∈ points, isScalar point = true

-- One node of a payload built from null, booleans, integers, strings of scalar values,
-- lists and string-keyed dicts.
def PlainNode : Value → Prop
  | .float _ => False
  | .object _ _ => False
  | .str points => Scalar points
  | .dict members =>
      (Members.keys members).Nodup ∧ ∀ key ∈ Members.keys members, Scalar key
  | _ => True

abbrev Plain : Value → Prop :=
  Every PlainNode

theorem scalar_points (text : String) : Scalar (points text) := by
  intro point hpoint
  obtain ⟨c, -, rfl⟩ := List.mem_map.mp hpoint
  have hvalid : c.toNat < 0xD800 ∨ 0xDFFF < c.toNat ∧ c.toNat < 0x110000 := c.valid
  rw [isScalar, decide_eq_true_eq]
  change c.toNat < 0xD800 ∨ 0xE000 ≤ c.toNat
  omega

theorem joined_points (text : String) : Joined (points text) :=
  decode16_utf16 (scalar_points text)

-- One node of what `json.loads` can return.
def ReadableNode : Value → Prop
  | .object _ _ => False
  | .str points => Joined points
  | .dict members =>
      (Members.keys members).Nodup ∧ ∀ key ∈ Members.keys members, Joined key
  | _ => True

abbrev Readable : Value → Prop :=
  Every ReadableNode

theorem Every.mono {P Q : Value → Prop} (hPQ : ∀ value, P value → Q value) {value : Value}
    (h : Every P value) : Every Q value := by
  induction value using Value.induct with
  | list items ih =>
      exact every_list.mpr
        ⟨hPQ _ h.self, fun item hi => ih item hi ((every_list.mp h).2 item hi)⟩
  | dict members ih =>
      exact every_dict.mpr
        ⟨hPQ _ h.self, fun member hm => ih member hm ((every_dict.mp h).2 member hm)⟩
  | _ => exact hPQ _ h

theorem Every.and {P Q : Value → Prop} {value : Value} (hP : Every P value)
    (hQ : Every Q value) : Every (fun value => P value ∧ Q value) value := by
  induction value using Value.induct with
  | list items ih =>
      exact every_list.mpr ⟨⟨hP.self, hQ.self⟩, fun item hi =>
        ih item hi ((every_list.mp hP).2 item hi) ((every_list.mp hQ).2 item hi)⟩
  | dict members ih =>
      exact every_dict.mpr ⟨⟨hP.self, hQ.self⟩, fun member hm =>
        ih member hm ((every_dict.mp hP).2 member hm) ((every_dict.mp hQ).2 member hm)⟩
  | _ => exact ⟨hP, hQ⟩

theorem PlainNode.readable {value : Value} (h : PlainNode value) : ReadableNode value := by
  cases value with
  | str s => exact decode16_utf16 h
  | dict members => exact ⟨h.1, fun key hkey => decode16_utf16 (h.2 key hkey)⟩
  | object kind text => exact h
  | _ => trivial

theorem Plain.readable {value : Value} (h : Plain value) : Readable value :=
  Every.mono (fun _ => PlainNode.readable) h

theorem sameMembers_iff {xs ys : List (List CodePoint × Value)} :
    sameMembers xs ys ↔ ∀ member ∈ xs, ∃ other, (member.1, other) ∈ ys ∧ sameJson member.2 other := by
  induction xs with
  | nil => simp [sameMembers]
  | cons member xs ih => simp [sameMembers, ih]

theorem sameItems_map {items : List Value} {f : Value → Value}
    (h : ∀ item ∈ items, sameJson item (f item)) : sameItems items (items.map f) := by
  induction items with
  | nil => trivial
  | cons item items ih =>
      exact ⟨h item List.mem_cons_self, ih fun other ho => h other (List.mem_cons_of_mem _ ho)⟩

-- Keys of scalar values survive the way through UTF-16.
theorem decode_keys {V : Type} {members : List (List CodePoint × V)}
    (h : ∀ key ∈ Members.keys members, Scalar key) :
    (members.map fun member => (utf16 member.1, member.2)).map
      (fun member => (decode16 member.1, member.2)) = members := by
  rw [List.map_map]
  conv_rhs => rw [← List.map_id members]
  apply List.map_congr_left
  intro member hm
  simp only [Function.comp_apply, decode16_utf16 (h member.1 (List.mem_map_of_mem hm)), id_eq]

section Read

variable {maxStrDigits : ℕ}

theorem ofItems_eq (items : List Json.Tree) :
    ofItems maxStrDigits items = items.map (ofTree maxStrDigits) := by
  induction items with
  | nil => rfl
  | cons item items ih => rw [ofItems, ih, List.map_cons]

theorem ofMembers_eq (members : List (List CodeUnit × Json.Tree)) :
    ofMembers maxStrDigits members =
      members.map fun member => (decode16 member.1, ofTree maxStrDigits member.2) := by
  induction members with
  | nil => rfl
  | cons member members ih => rw [ofMembers, ih, List.map_cons]

theorem readNumber_ofInt {n : ℤ} (h : exceeds maxStrDigits (Nat.toDigits 10 n.natAbs) = false) :
    readNumber maxStrDigits (.ofInt n) = .ok (.int n) := by
  have hdigits : exceeds maxStrDigits (Number.ofInt n).integer = false := h
  unfold readNumber
  rw [if_pos (Number.isInteger_ofInt n), hdigits, if_neg Bool.false_ne_true, Number.toInt_ofInt]

theorem readNumber_repr (negative : Bool) (x : binary64.Magnitude) :
    readNumber maxStrDigits (Double.repr negative x) = .ok (.float (.finite negative x)) := by
  unfold readNumber
  rw [Double.isInteger_repr, if_neg Bool.false_ne_true, Double.ofNumber_repr]

theorem ofTree_floatTree (x : Double) :
    ofTree maxStrDigits (floatTree x) = .ok (.float x) := by
  cases x with
  | finite negative x => exact readNumber_repr negative x
  | infinity negative => rfl
  | nan => rfl

variable {options : Options}

-- With the members left in their order, reading undoes writing.
theorem ofTree_laidOut (hunsorted : options.sortKeys = false) {value : Value} (h : Readable value)
    (hprints : Every (Prints options maxStrDigits) value) :
    ofTree maxStrDigits (laidOut options value) = .ok value := by
  induction value using induct with
  | none => rfl
  | bool b => rfl
  | int n => exact readNumber_ofInt hprints.self
  | float x => exact ofTree_floatTree x
  | str s =>
      have hjoined : decode16 (utf16 s) = s := h.self
      rw [laidOut, ofTree, hjoined]
  | list items ih =>
      have hitems : ofItems maxStrDigits (laidOutItems options items) = items.map .ok := by
        rw [ofItems_eq, laidOutItems_eq, List.map_map]
        exact List.map_congr_left fun item hi =>
          ih item hi ((every_list.mp h).2 item hi) ((every_list.mp hprints).2 item hi)
      rw [laidOut, ofTree, Members.gather_eq_ok.mpr hitems]
      rfl
  | dict members ih =>
      have hmembers : ofMembers maxStrDigits ((laidOutMembers options members).map fun member =>
          (utf16 member.1, member.2)) = members.map fun member => (member.1, .ok member.2) := by
        rw [ofMembers_eq, laidOutMembers_eq, List.map_map, List.map_map]
        refine List.map_congr_left fun member hm => ?_
        have hkey : decode16 (utf16 member.1) = member.1 :=
          h.self.2 member.1 (List.mem_map_of_mem hm)
        have hvalue := ih member hm ((every_dict.mp h).2 member hm)
          ((every_dict.mp hprints).2 member hm)
        simp only [Function.comp_apply, hkey, hvalue]
      have hordered : ordered options (laidOutMembers options members) =
          laidOutMembers options members := by
        unfold ordered
        rw [hunsorted, if_neg Bool.false_ne_true]
      rw [laidOut, ofTree, hordered, Members.collect_eq_ok.mpr hmembers, Except.map,
        Members.ofPairs_of_nodup h.self.1]
  | object kind text => exact absurd h.self id

theorem loads_dumps (hunsorted : options.sortKeys = false) {value : Value} {text : List Char}
    (h : Readable value) (hdumps : dumps options maxStrDigits value = .ok text) :
    loads maxStrDigits text = .ok value := by
  obtain ⟨hprints, rfl⟩ := dumps_eq_ok_iff.mp hdumps
  unfold loads
  rw [Json.parse_render Json.faithful_quoteAscii]
  exact ofTree_laidOut hunsorted h hprints

end Read

end TrustlistCore.EventBus.Value
