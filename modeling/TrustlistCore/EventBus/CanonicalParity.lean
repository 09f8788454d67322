import TrustlistCore.EventBus.Idempotency.Theorems
import TrustlistCore.EventBus.TypeScript.Idempotency.Theorems
import TrustlistCore.Library.Double.Theorems

namespace TrustlistCore.EventBus

open Library Unicode

namespace TypeScript.JsonValue

-- A double with nothing after its point, as an integer.
def wholePart : Double → ℤ
  | .finite negative x => if negative then -x.val.num else x.val.num
  | _ => 0

-- The Python object of the same value.
mutual

def toPython : JsonValue → Value
  | .undefined => .none
  | .null => .none
  | .boolean value => .bool value
  | .number value =>
      if Double.isInteger value then .int (wholePart value) else .float value
  | .bigint value => .int value
  | .string units => .str (decode16 units)
  | .array items => .list (toPythonItems items)
  | .object members => .dict (toPythonMembers members)
  | .other text => .str (decode16 text)
  | .hole => .none

def toPythonItems : List JsonValue → List Value
  | [] => []
  | item :: items => toPython item :: toPythonItems items

def toPythonMembers : List (List CodeUnit × JsonValue) → List (List CodePoint × Value)
  | [] => []
  | (key, value) :: members => (decode16 key, toPython value) :: toPythonMembers members

end

-- One node of a value built from null, booleans, strings, arrays, objects with keys of the
-- basic plane, bigints and whole numbers that a double holds exactly.
def ParityNode : JsonValue → Prop
  | .undefined => False
  | .other _ => False
  | .hole => False
  | .number value => Double.isInteger value = true ∧ (wholePart value).natAbs ≤ 2 ^ 53 - 1
  | .object members => ∀ key ∈ Members.keys members, Bmp key
  | _ => True

theorem toPythonItems_eq (items : List JsonValue) :
    toPythonItems items = items.map toPython := by
  induction items with
  | nil => rfl
  | cons item items ih => rw [toPythonItems, ih, List.map_cons]

theorem toPythonMembers_eq (members : List (List CodeUnit × JsonValue)) :
    toPythonMembers members =
      members.map fun member => (decode16 member.1, toPython member.2) := by
  induction members with
  | nil => rfl
  | cons member members ih => rw [toPythonMembers, ih, List.map_cons]

theorem numberTree_of_whole {value : Double} (h : Double.isInteger value = true)
    (hsmall : (wholePart value).natAbs ≤ 2 ^ 53 - 1) :
    numberTree value = .number (.ofInt (wholePart value)) := by
  cases value with
  | finite negative x =>
      obtain ⟨n, hn⟩ := (Double.isInteger_iff negative x).mp h
      have hnum : x.val.num = n := by rw [hn, Rat.num_natCast]
      have hwhole : wholePart (.finite negative x) = if negative then -(n : ℤ) else n := by
        simp only [wholePart, hnum]
      have habs : (wholePart (.finite negative x)).natAbs = n := by
        rw [hwhole]
        split <;> omega
      rw [habs] at hsmall
      by_cases hzero : n = 0
      · have hx : x.val = 0 := by rw [hn, hzero, Nat.cast_zero]
        rw [numberTree, Double.display_zero negative hx, hwhole, hzero]
        cases negative <;> rfl
      have hnegative : decide (wholePart (.finite negative x) < 0) = negative := by
        rw [hwhole]
        cases negative with
        | true => simp only [if_true, decide_eq_true_eq]; omega
        | false => simp only [Bool.false_eq_true, if_false, decide_eq_false_iff_not]; omega
      have hnearest : binary64.nearest ((wholePart (.finite negative x)).natAbs : ℚ) = some x := by
        rw [habs, ← hn]
        exact Format.nearest_of_representable x.property
      have hdisplay := Double.display_ofInt_of_small hnearest (by omega)
      rw [hnegative] at hdisplay
      rw [numberTree, hdisplay]
  | infinity negative => exact absurd h (by simp [Double.isInteger])
  | nan => exact absurd h (by simp [Double.isInteger])

theorem solid_of_parity {value : JsonValue} (h : ParityNode value) :
    Solid value := by
  cases value with
  | hole => exact absurd h id
  | _ => trivial

open Value (laidOut) in
-- Escapes, numbers, separators and nesting agree everywhere, the order of the keys on the
-- basic plane.
theorem laidOut_toPython {value : JsonValue} (h : Every ParityNode value) :
    laidOut EventBus.Idempotency.canonical (toPython value) =
      TypeScript.Idempotency.laidOut value := by
  induction value using induct with
  | undefined => exact absurd h.self id
  | null => rfl
  | boolean b => rfl
  | number x =>
      have hwhole := numberTree_of_whole h.self.1 h.self.2
      rw [toPython, if_pos h.self.1, laidOut, TypeScript.Idempotency.laidOut, hwhole]
  | bigint n => rfl
  | string s =>
      rw [toPython, laidOut, utf16_decode16]
      rfl
  | array items ih =>
      have hitems := (every_array.mp h).2
      have hlone := TypeScript.Idempotency.lone_of_solid fun item hi =>
        solid_of_parity (hitems item hi).self
      rw [toPython, laidOut, TypeScript.Idempotency.laidOut_array hlone, Value.laidOutItems_eq,
        toPythonItems_eq, List.map_map]
      exact congrArg Json.Tree.array (List.map_congr_left fun item hi => ih item hi (hitems item hi))
  | object members ih =>
      have hkeys : ∀ a ∈ Members.keys (TypeScript.Idempotency.laidOutMembers members),
          ∀ b ∈ Members.keys (TypeScript.Idempotency.laidOutMembers members),
            a ≤ b ↔ decode16 a ≤ decode16 b := by
        rw [TypeScript.Idempotency.laidOutMembers_eq, Members.keys_mapValues]
        exact fun a ha b hb => (decode16_le_iff (h.self a ha) (h.self b hb)).symm
      have hmembers : Value.laidOutMembers EventBus.Idempotency.canonical
          (toPythonMembers members) =
            (TypeScript.Idempotency.laidOutMembers members).map fun member =>
              (decode16 member.1, id member.2) := by
        rw [Value.laidOutMembers_eq, toPythonMembers_eq,
          TypeScript.Idempotency.laidOutMembers_eq, List.map_map, List.map_map]
        exact List.map_congr_left fun member hm =>
          congrArg (Prod.mk _) (ih member hm ((every_object.mp h).2 member hm))
      rw [toPython, laidOut, TypeScript.Idempotency.laidOut, hmembers,
        EventBus.Idempotency.ordered_canonical, Members.sorted_map id hkeys, List.map_map]
      conv_rhs => rw [← List.map_id (Members.sorted _)]
      exact congrArg Json.Tree.object (List.map_congr_left fun member _ =>
        Prod.ext (utf16_decode16 member.1) rfl)
  | other text => exact absurd h.self id
  | hole => exact absurd h.self id

theorem accepts_of_parity {value : JsonValue} (h : Every ParityNode value) :
    Every TypeScript.Idempotency.Accepts value := by
  induction value using induct with
  | number x => exact h.self.1
  | array items ih =>
      exact every_array.mpr ⟨trivial, fun item hi => ih item hi ((every_array.mp h).2 item hi)⟩
  | object members ih =>
      exact every_object.mpr
        ⟨trivial, fun member hm => ih member hm ((every_object.mp h).2 member hm)⟩
  | _ => trivial

-- The two canonical texts of one value are one.
theorem canonicalJson_eq {maxStrDigits : ℕ} {value : JsonValue} (h : Every ParityNode value)
    (hfits : Value.Every (Value.Prints EventBus.Idempotency.canonical maxStrDigits)
      (toPython value)) :
    ∃ text, TypeScript.Idempotency.canonicalJson value = .ok text ∧
      EventBus.Idempotency.canonicalJson maxStrDigits (toPython value) = .ok text := by
  refine ⟨_, TypeScript.Idempotency.encode_of_accepts (accepts_of_parity h),
    Value.dumps_eq_ok_iff.mpr ⟨hfits, ?_⟩⟩
  rw [laidOut_toPython h, TypeScript.Idempotency.written_of_solid (accepts_of_parity h)
    (h.mono fun _ => solid_of_parity)]

theorem wholePart_whole (n : ℕ) (h : n ≤ 2 ^ 53) : wholePart (Double.whole n h) = n := by
  simp [wholePart, Double.whole]

-- A bigint past the doubles, a small number, a pair of surrogates and DEL.
def mixed : JsonValue :=
  .object
    [([0x62], .array [.bigint (10 ^ 20), .number (Double.whole 5 (by decide)), .null]),
      ([0x61], .string [0xD83D, 0xDE00, 0x7F])]

theorem canonicalJson_eq_mixed :
    ∃ text, TypeScript.Idempotency.canonicalJson mixed = .ok text ∧
      EventBus.Idempotency.canonicalJson 4300 (toPython mixed) = .ok text := by
  have hfive := Double.isInteger_whole 5 (by decide)
  have hpart := wholePart_whole 5 (by decide)
  apply canonicalJson_eq
  · refine every_object.mpr ⟨?_, fun member hm => ?_⟩
    · simp [ParityNode, Members.keys, Bmp, decode16, ofUnit]
    rcases List.mem_cons.mp hm with rfl | hm
    · refine every_array.mpr ⟨trivial, fun item hi => ?_⟩
      simp only [List.mem_cons, List.not_mem_nil, or_false] at hi
      rcases hi with rfl | rfl | rfl
      · trivial
      · exact ⟨hfive, by rw [hpart]; decide⟩
      · trivial
    · obtain rfl := List.mem_singleton.mp hm
      trivial
  · refine Value.every_dict.mpr ⟨trivial, fun member hm => ?_⟩
    rcases List.mem_cons.mp hm with rfl | hm
    · refine Value.every_list.mpr ⟨trivial, fun item hi => ?_⟩
      simp only [toPythonItems, toPython, if_pos hfive, hpart, List.mem_cons, List.not_mem_nil,
        or_false] at hi
      rcases hi with rfl | rfl | rfl
      · exact (by decide : exceeds 4300 (Nat.toDigits 10 (10 ^ 20)) = false)
      · exact (by decide : exceeds 4300 (Nat.toDigits 10 5) = false)
      · trivial
    · obtain rfl := List.mem_singleton.mp hm
      trivial

-- TypeScript prints a bigint of any length, Python an integer only up to its limit.
theorem canonicalJson_past_limit :
    ¬ ∃ text, TypeScript.Idempotency.canonicalJson (.bigint (10 ^ 4300)) = .ok text ∧
      EventBus.Idempotency.canonicalJson 4300 (toPython (.bigint (10 ^ 4300))) = .ok text := by
  rintro ⟨text, -, hpython⟩
  have hprints : exceeds 4300 (Nat.toDigits 10 ((10 ^ 4300 : ℤ).natAbs)) = false :=
    (Value.dumps_eq_ok_iff.mp hpython).1
  rw [Value.exceeds_pow (by decide)] at hprints
  exact absurd hprints (by decide)

end TypeScript.JsonValue

end TrustlistCore.EventBus
