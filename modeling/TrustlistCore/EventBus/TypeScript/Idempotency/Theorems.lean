import TrustlistCore.EventBus.TypeScript.Idempotency
import TrustlistCore.EventBus.TypeScript.Value.Theorems
import TrustlistCore.Library.Double.Theorems
import TrustlistCore.Library.Json.Gaps
import TrustlistCore.Library.Result

namespace TrustlistCore.EventBus.TypeScript.Idempotency

open Library Unicode JsonValue

theorem toDigits_sixteen_of_le {n : ℕ} (h : 16 ≤ n) :
    Nat.toDigits 16 n = Nat.toDigits 16 (n / 16) ++ [Nat.digitChar (n % 16)] :=
  Nat.toDigits_of_base_le (by decide) h

-- `toString(16).padStart(4, '0')` writes the four digits of a unit.
theorem padStart_toDigits (unit : CodeUnit) :
    '\\' :: 'u' :: padStart 4 (Nat.toDigits 16 unit.val) = Json.unicodeEscape unit := by
  obtain ⟨n, hn⟩ := unit
  have hlast {m : ℕ} (h : m < 16) : Nat.toDigits 16 m = [Nat.digitChar m] :=
    Nat.toDigits_of_lt_base h
  have hzero : '0' = Nat.digitChar 0 := rfl
  simp only [Json.unicodeEscape, Json.hexDigit]
  by_cases h1 : n < 16
  · rw [hlast h1, show n / 0x1000 = 0 by omega, show n / 0x100 % 0x10 = 0 by omega,
      show n / 0x10 % 0x10 = 0 by omega, show n % 0x10 = n by omega]
    rfl
  rw [toDigits_sixteen_of_le (by omega)]
  by_cases h2 : n / 16 < 16
  · rw [hlast h2, show n / 0x1000 = 0 by omega, show n / 0x100 % 0x10 = 0 by omega,
      show n / 0x10 % 0x10 = n / 16 by omega]
    rfl
  rw [toDigits_sixteen_of_le (by omega)]
  by_cases h3 : n / 16 / 16 < 16
  · rw [hlast h3, show n / 0x1000 = 0 by omega, show n / 0x100 % 0x10 = n / 16 / 16 by omega]
    rfl
  rw [toDigits_sixteen_of_le (by omega), hlast (by omega), show n / 0x1000 = n / 16 / 16 / 16 by omega,
    show n / 0x100 % 0x10 = n / 16 / 16 % 16 by omega]
  rfl

theorem escape_of_mem : ∀ escaped ∈ Json.shortEscapes, escape escaped.1 = ['\\', escaped.2] := by
  decide

theorem ne_of_shortEscape {unit : CodeUnit} (h : Json.shortEscape unit = none) :
    ∀ escaped ∈ Json.shortEscapes, unit.val ≠ escaped.1.val := by
  intro escaped hmem heq
  rw [Json.shortEscape, Option.map_eq_none_iff, List.find?_eq_none] at h
  exact h escaped hmem (by simp [Fin.ext heq])

theorem escape_eq (unit : CodeUnit) : escape unit = Json.escapeAscii unit := by
  unfold Json.escapeAscii
  cases h : Json.shortEscape unit with
  | some c => exact escape_of_mem _ (Json.mem_of_shortEscape h)
  | none =>
      have hne := ne_of_shortEscape h
      simp only [Json.shortEscapes, List.forall_mem_cons, List.not_mem_nil, false_implies,
        implies_true, and_true] at hne
      obtain ⟨h1, h2, h3, h4, h5, h6, h7⟩ : unit.val ≠ 0x22 ∧ unit.val ≠ 0x5C ∧
        unit.val ≠ 0x08 ∧ unit.val ≠ 0x0C ∧ unit.val ≠ 0x0A ∧ unit.val ≠ 0x0D ∧
        unit.val ≠ 0x09 := hne
      unfold escape
      rw [if_neg h1, if_neg h2, if_neg h3, if_neg h4, if_neg h5, if_neg h6, if_neg h7]
      simp only
      split
      · rw [padStart_toDigits, if_neg (by omega)]
      · rw [if_pos (by omega)]

theorem encodeString_eq (units : List CodeUnit) :
    encodeString units = Json.quoted Json.quoteAscii units := by
  unfold encodeString Json.quoted Json.quoteAscii
  rw [funext escape_eq]

theorem bigintText_eq (n : ℤ) : bigintText n = (Number.ofInt n).text := by
  simp [bigintText, Number.text, Number.ofInt, Numeral.text, Decimal.integerNumeral,
    Numeral.fractionText, Numeral.exponentText]

-- What `encodeNumber` does not refuse.
def Accepts : JsonValue → Prop
  | .number value => Double.isInteger value = true
  | _ => True

theorem encodeNumber_eq_ok_iff {value : Double} {text : List Char} :
    encodeNumber value = .ok text ↔
      Double.isInteger value = true ∧ text = Json.render Json.quoteAscii (numberTree value) := by
  cases value with
  | finite negative x =>
      by_cases hint : Double.isInteger (.finite negative x) = true
      · by_cases hzero : negative = true ∧ x.val = 0
        · have hdisplay := Double.display_zero negative hzero.2
          simp only [encodeNumber, hint, not_true_eq_false, if_false, if_pos hzero,
            Except.ok.injEq, true_and, numberTree, Json.render, hdisplay]
          exact eq_comm
        · simp only [encodeNumber, hint, not_true_eq_false, if_false, if_neg hzero,
            Except.ok.injEq, true_and, numberTree, Json.render]
          exact eq_comm
      · simp [encodeNumber, hint]
  | infinity negative => simp [encodeNumber, Double.isInteger]
  | nan => simp [encodeNumber, Double.isInteger]

-- One place alone that holds nothing: the array is written as one without places.
def lone : List JsonValue → Bool
  | [item] => isHole item
  | _ => false

-- The document behind the canonical text, where that is one.
mutual

def laidOut : JsonValue → Json.Tree
  | .undefined => .null
  | .null => .null
  | .boolean value => .bool value
  | .number value => numberTree value
  | .bigint value => .number (.ofInt value)
  | .string units => .string units
  | .array items => .array (if lone items then [] else laidOutItems items)
  | .object members => .object (Members.sorted (laidOutMembers members))
  | .other text => .string text
  | .hole => .null

def laidOutItems : List JsonValue → List Json.Tree
  | [] => []
  | item :: items => laidOut item :: laidOutItems items

def laidOutMembers : List (List CodeUnit × JsonValue) → List (List CodeUnit × Json.Tree)
  | [] => []
  | (key, value) :: members => (key, laidOut value) :: laidOutMembers members

end

theorem encodeItems_eq (items : List JsonValue) : encodeItems items = items.map encode := by
  induction items with
  | nil => rfl
  | cons item items ih => rw [encodeItems, ih, List.map_cons]

theorem encodeMembers_eq (members : List (List CodeUnit × JsonValue)) :
    encodeMembers members = members.map fun member => (member.1, encode member.2) := by
  induction members with
  | nil => rfl
  | cons member members ih => rw [encodeMembers, ih, List.map_cons]

theorem laidOutItems_eq (items : List JsonValue) : laidOutItems items = items.map laidOut := by
  induction items with
  | nil => rfl
  | cons item items ih => rw [laidOutItems, ih, List.map_cons]

theorem laidOutMembers_eq (members : List (List CodeUnit × JsonValue)) :
    laidOutMembers members = members.map fun member => (member.1, laidOut member.2) := by
  induction members with
  | nil => rfl
  | cons member members ih => rw [laidOutMembers, ih, List.map_cons]

theorem laidOut_array {items : List JsonValue} (h : lone items = false) :
    laidOut (.array items) = .array (items.map laidOut) := by
  rw [laidOut, h, laidOutItems_eq]
  rfl

theorem lone_of_solid {items : List JsonValue} (h : ∀ item ∈ items, Solid item) :
    lone items = false := by
  match items with
  | [] => rfl
  | [item] => exact (h item List.mem_cons_self).isHole
  | _ :: _ :: _ => rfl

abbrev rendered (value : JsonValue) : List Char :=
  Json.render Json.quoteAscii (laidOut value)

section Written

theorem exists_encode {value : JsonValue} (h : Every Accepts value) :
    ∃ text, encode value = .ok text := by
  have : Nonempty (List Char) := ⟨[]⟩
  induction value using induct with
  | number x => exact ⟨_, encodeNumber_eq_ok_iff.mpr ⟨h.self, rfl⟩⟩
  | array items ih =>
      have hitems : ∀ item ∈ items, ∃ text, encode item = .ok text :=
        fun item hi => ih item hi ((every_array.mp h).2 item hi)
      choose! text htext using hitems
      have hgather : encodeItems items = (items.map text).map .ok := by
        rw [encodeItems_eq, List.map_map]
        exact List.map_congr_left htext
      rw [encode, Members.gather_eq_ok.mpr hgather]
      exact ⟨_, rfl⟩
  | object members ih =>
      have hmembers : ∀ member ∈ members, ∃ text, encode member.2 = .ok text :=
        fun member hm => ih member hm ((every_object.mp h).2 member hm)
      choose! text htext using hmembers
      have hcollect : encodeMembers members =
          (members.map fun member => (member.1, text member)).map fun member =>
            (member.1, .ok member.2) := by
        rw [encodeMembers_eq, List.map_map]
        exact List.map_congr_left fun member hm => congrArg (Prod.mk _) (htext member hm)
      have hsorted := Members.sorted_mapValues
        (members.map fun member => (member.1, text member)) (Except.ok (ε := Failure))
      rw [encode, hcollect, Members.collect_eq_ok.mpr hsorted]
      exact ⟨_, rfl⟩
  | _ => exact ⟨_, rfl⟩

-- The canonical text of a value none of whose numbers is refused.
def written (value : JsonValue) : List Char :=
  match encode value with
  | .ok text => text
  | .error _ => []

theorem encode_of_accepts {value : JsonValue} (h : Every Accepts value) :
    encode value = .ok (written value) := by
  obtain ⟨text, htext⟩ := exists_encode h
  unfold written
  rw [htext]

theorem written_array {items : List JsonValue} (h : ∀ item ∈ items, Every Accepts item) :
    written (.array items) = '[' :: Json.separated (items.map written) ++ [']'] := by
  have hgather : encodeItems items = (items.map written).map .ok := by
    rw [encodeItems_eq, List.map_map]
    exact List.map_congr_left fun item hi => encode_of_accepts (h item hi)
  unfold written
  rw [encode, Members.gather_eq_ok.mpr hgather, Except.map]
  rfl

theorem written_object {members : List (List CodeUnit × JsonValue)}
    (h : ∀ member ∈ members, Every Accepts member.2) :
    written (.object members) = '\x7b' :: Json.separated ((Members.sorted members).map fun member =>
      Json.quoted Json.quoteAscii member.1 ++ ':' :: written member.2) ++ ['\x7d'] := by
  have hcollect : encodeMembers members =
      (members.map fun member => (member.1, written member.2)).map fun member =>
        (member.1, .ok member.2) := by
    rw [encodeMembers_eq, List.map_map]
    exact List.map_congr_left fun member hm =>
      congrArg (Prod.mk member.1) (encode_of_accepts (h member hm))
  have hsorted := Members.sorted_mapValues
    (members.map fun member => (member.1, written member.2)) (Except.ok (ε := Failure))
  unfold written
  rw [encode, hcollect, Members.collect_eq_ok.mpr hsorted, Except.map, Members.sorted_mapValues,
    List.map_map]
  simp only [Function.comp_def, encodeString_eq]
  rfl

theorem accepts_of_encode {value : JsonValue} {text : List Char} (h : encode value = .ok text) :
    Every Accepts value := by
  induction value using induct generalizing text with
  | number x => exact (encodeNumber_eq_ok_iff.mp h).1
  | array items ih =>
      refine every_array.mpr ⟨trivial, fun item hi => ?_⟩
      obtain ⟨texts, hitems, -⟩ := Result.map_eq_ok.mp h
      rw [encodeItems_eq] at hitems
      obtain ⟨text, htext⟩ := Members.exists_of_gather hitems (List.mem_map_of_mem hi)
      exact ih item hi htext
  | object members ih =>
      refine every_object.mpr ⟨trivial, fun member hm => ?_⟩
      obtain ⟨texts, hmembers, -⟩ := Result.map_eq_ok.mp h
      have hmem : (member.1, encode member.2) ∈ Members.sorted (encodeMembers members) := by
        rw [Members.mem_sorted, encodeMembers_eq]
        exact List.mem_map_of_mem hm
      obtain ⟨text, htext⟩ := Members.exists_of_collect hmembers hmem
      exact ih member hm htext
  | _ => trivial

theorem encode_eq_ok_iff {value : JsonValue} {text : List Char} :
    encode value = .ok text ↔ Every Accepts value ∧ text = written value := by
  constructor
  · intro h
    have haccepts := accepts_of_encode h
    rw [encode_of_accepts haccepts, Except.ok.injEq] at h
    exact ⟨haccepts, h.symm⟩
  · rintro ⟨haccepts, rfl⟩
    exact encode_of_accepts haccepts

theorem written_number {x : Double} (h : Double.isInteger x = true) :
    written (.number x) = Json.render Json.quoteAscii (numberTree x) := by
  unfold written
  rw [encode, encodeNumber_eq_ok_iff.mpr ⟨h, rfl⟩]

theorem written_boolean (b : Bool) : written (.boolean b) = rendered (.boolean b) := by
  cases b <;> rfl

theorem written_bigint (n : ℤ) : written (.bigint n) = rendered (.bigint n) :=
  bigintText_eq n

theorem written_string (units : List CodeUnit) : written (.string units) = rendered (.string units) :=
  encodeString_eq units

theorem written_other (text : List CodeUnit) : written (.other text) = rendered (.other text) :=
  encodeString_eq text

-- The text is the JSON of the sorted document where no array has a hole.
theorem written_of_solid {value : JsonValue} (h : Every Accepts value) (hsolid : Every Solid value) :
    written value = rendered value := by
  induction value using induct with
  | boolean b => exact written_boolean b
  | number x => exact written_number h.self
  | bigint n => exact written_bigint n
  | string s => exact written_string s
  | array items ih =>
      have hitems := (every_array.mp h).2
      have hsolids := (every_array.mp hsolid).2
      have hlone := lone_of_solid fun item hi => (hsolids item hi).self
      rw [written_array hitems, rendered, laidOut_array hlone, Json.render, Json.renderItems_eq,
        List.map_map, List.map_congr_left fun item hi => ih item hi (hitems item hi) (hsolids item hi)]
      rfl
  | object members ih =>
      have hmembers := (every_object.mp h).2
      have hsolids := (every_object.mp hsolid).2
      have hvalues : ∀ member ∈ Members.sorted members, written member.2 = rendered member.2 := by
        intro member hm
        have hmem := Members.mem_sorted.mp hm
        exact ih member hmem (hmembers member hmem) (hsolids member hmem)
      rw [written_object hmembers, rendered, laidOut, Json.render, Json.renderMembers_eq,
        laidOutMembers_eq, Members.sorted_mapValues, List.map_map,
        List.map_congr_left fun member hm => congrArg
          (fun text => Json.quoted Json.quoteAscii member.1 ++ ':' :: text) (hvalues member hm)]
      rfl
  | other text => exact written_other text
  | hole => exact absurd hsolid.self id
  | _ => rfl

end Written

section Whole

-- A text with a hole is a document only where the hole stands alone.
def Whole : JsonValue → Prop
  | .array items => lone items = true ∨ ∀ item ∈ items, isHole item = false
  | .object members => ∀ member ∈ members, isHole member.2 = false
  | _ => True

theorem lone_iff {items : List JsonValue} : lone items = true ↔ items = [.hole] := by
  match items with
  | [] => exact iff_of_false Bool.false_ne_true (List.cons_ne_nil _ _).symm
  | [item] => cases item <;> simp [lone, isHole]
  | _ :: _ :: _ => simp [lone]

theorem starts_rendered (value : JsonValue) : Json.Starts (rendered value) :=
  Json.starts_render _

theorem starts_written {value : JsonValue} (h : Every Accepts value) (hhole : isHole value = false) :
    Json.Starts (written value) := by
  cases value with
  | boolean b => exact written_boolean b ▸ starts_rendered _
  | number x => exact written_number h ▸ Json.starts_render _
  | bigint n => exact written_bigint n ▸ starts_rendered _
  | string s => exact written_string s ▸ starts_rendered _
  | array items =>
      rw [written_array (every_array.mp h).2]
      exact ⟨_, _, rfl, by decide⟩
  | object members =>
      rw [written_object (every_object.mp h).2]
      exact ⟨_, _, rfl, by decide⟩
  | other text => exact written_other text ▸ starts_rendered _
  | hole => exact absurd hhole Bool.true_eq_false.mp
  | _ => exact ⟨_, _, rfl, by decide⟩

theorem denotes_leaf {value : JsonValue} {text : List Char} (htext : text = rendered value)
    (hhole : isHole value = false) (hwhole : Every Whole value)
    (hvalue : ∀ fuel rest, Numeral.Stops rest →
      Json.value (fuel + 1) (rendered value ++ rest) = some (laidOut value, rest)) :
    Json.Denotes text (laidOut value) (isHole value = false ∧ Every Whole value) :=
  Json.denotes_of_value ⟨hhole, hwhole⟩ (htext ▸ hvalue)

-- The text of an array is that of another document just where an item is a hole.
theorem denotes_written_array {items : List JsonValue} (hitems : ∀ item ∈ items, Every Accepts item)
    (ih : ∀ item ∈ items,
      Json.Denotes (written item) (laidOut item) (isHole item = false ∧ Every Whole item)) :
    Json.Denotes (written (.array items)) (laidOut (.array items))
      (isHole (.array items) = false ∧ Every Whole (.array items)) := by
  rw [written_array hitems]
  by_cases hlone : lone items = true
  · obtain rfl := lone_iff.mp hlone
    exact Json.denotes_of_value ⟨rfl, Or.inl rfl, trivial, trivial⟩ fun _ _ _ => rfl
  · rw [laidOut_array (Bool.eq_false_of_not_eq_true hlone)]
    have hstarts : ∀ item ∈ items, written item = [] ∨ Json.Starts (written item) := by
      intro item hi
      cases hhole : isHole item with
      | true =>
          left
          cases item with
          | hole => rfl
          | _ => cases hhole
      | false => exact Or.inr (starts_written (hitems item hi) hhole)
    have hempty : items.map written ≠ [[]] := by
      intro hmap
      obtain ⟨item, rfl, hitem⟩ := List.map_eq_singleton_iff.mp hmap
      cases hhole : isHole item with
      | true => exact hlone hhole
      | false =>
          obtain ⟨c, more, hstart, -⟩ := starts_written (hitems item List.mem_cons_self) hhole
          rw [hitem] at hstart
          cases hstart
    refine (Json.denotes_array ih hstarts hempty).mono
      fun hall => ⟨rfl, every_array.mpr ⟨Or.inr fun item hi => (hall item hi).1, ?_⟩⟩
    exact fun item hi => (hall item hi).2

theorem denotes_written_object {members : List (List CodeUnit × JsonValue)}
    (hmembers : ∀ member ∈ members, Every Accepts member.2)
    (ih : ∀ member ∈ members, Json.Denotes (written member.2) (laidOut member.2)
      (isHole member.2 = false ∧ Every Whole member.2)) :
    Json.Denotes (written (.object members)) (laidOut (.object members))
      (isHole (.object members) = false ∧ Every Whole (.object members)) := by
  have hdenotes : ∀ member ∈ Members.sorted members, Json.Denotes (written member.2)
      (laidOut member.2) (isHole member.2 = false ∧ Every Whole member.2) :=
    fun member hm => ih member (Members.mem_sorted.mp hm)
  rw [written_object hmembers, laidOut, laidOutMembers_eq, Members.sorted_mapValues]
  refine (Json.denotes_object Json.faithful_quoteAscii hdenotes).mono
    fun hall => ⟨rfl, every_object.mpr ⟨?_, ?_⟩⟩
  · exact fun member hm => (hall member (Members.mem_sorted.mpr hm)).1
  · exact fun member hm => (hall member (Members.mem_sorted.mpr hm)).2

theorem denotes_written {value : JsonValue} (h : Every Accepts value) :
    Json.Denotes (written value) (laidOut value) (isHole value = false ∧ Every Whole value) := by
  have hstring (units : List CodeUnit) (fuel : ℕ) (rest : List Char) :=
    Json.value_string Json.faithful_quoteAscii fuel units rest
  induction value using induct with
  | undefined =>
      exact denotes_leaf rfl rfl trivial fun fuel _ _ =>
        Json.value_of_leaf fuel rfl (by decide) (by decide) (by decide)
  | null =>
      exact denotes_leaf rfl rfl trivial fun fuel _ _ =>
        Json.value_of_leaf fuel rfl (by decide) (by decide) (by decide)
  | boolean b =>
      refine denotes_leaf (written_boolean b) rfl trivial fun fuel _ _ => ?_
      cases b <;> exact Json.value_of_leaf fuel rfl (by decide) (by decide) (by decide)
  | number x =>
      refine denotes_leaf (written_number h) rfl trivial fun fuel rest hrest => ?_
      cases x with
      | finite negative x => exact Json.value_number fuel _ hrest
      | infinity negative => exact absurd h Bool.false_ne_true
      | nan => exact absurd h Bool.false_ne_true
  | bigint n =>
      exact denotes_leaf (written_bigint n) rfl trivial fun fuel rest hrest =>
        Json.value_number fuel _ hrest
  | string s =>
      exact denotes_leaf (written_string s) rfl trivial fun fuel rest _ => hstring s fuel rest
  | array items ih =>
      have hitems := (every_array.mp h).2
      exact denotes_written_array hitems fun item hi => ih item hi (hitems item hi)
  | object members ih =>
      have hmembers := (every_object.mp h).2
      exact denotes_written_object hmembers fun member hm => ih member hm (hmembers member hm)
  | other text =>
      exact denotes_leaf (written_other text) rfl trivial fun fuel rest _ => hstring text fuel rest
  | hole => exact Json.denotes_nil

end Whole

theorem laidOut_object_eq_iff {members others : List (List CodeUnit × JsonValue)}
    (hnodup : (Members.keys members).Nodup) :
    laidOut (.object others) = laidOut (.object members) ↔
      (others.map fun member => (member.1, laidOut member.2)).Perm
        (members.map fun member => (member.1, laidOut member.2)) := by
  have hkeys : (Members.keys (members.map fun member =>
      (member.1, laidOut member.2))).Nodup := by
    rwa [Members.keys_mapValues]
  rw [laidOut, laidOut, laidOutMembers_eq, laidOutMembers_eq, Json.Tree.object.injEq, eq_comm,
    Members.sorted_eq_iff hkeys]
  exact List.perm_comm

section Derive

variable {sha256 : List UInt8 → List Char} {eventType : List CodeUnit}
  {payload : List (List CodeUnit × JsonValue)} {keyFields : List (List CodeUnit)}

theorem missing_eq_nil_iff :
    missing payload keyFields = [] ↔ ∀ name ∈ keyFields, name ∈ Members.keys payload := by
  unfold missing
  simp [List.filter_eq_nil_iff]

-- A key is derived of fields that are there and hold no number that is refused.
theorem derive_eq_ok_iff {key : List Char} :
    deriveIdempotencyKey sha256 eventType payload keyFields = .ok key ↔
      keyFields ≠ [] ∧ (∀ name ∈ keyFields, name ∈ Members.keys payload) ∧
        Every Accepts (document eventType payload keyFields) ∧
          key = sha256 (Utf8.encode (written (document eventType payload keyFields))) := by
  unfold deriveIdempotencyKey canonicalJson
  by_cases hempty : keyFields = []
  · simp [hempty]
  have hlength : ¬ keyFields.length = 0 := by simpa using hempty
  by_cases hmissing : missing payload keyFields = []
  · rw [if_neg hlength, hmissing, if_neg (by simp), Result.map_eq_ok]
    simp only [encode_eq_ok_iff]
    constructor
    · rintro ⟨text, ⟨haccepts, rfl⟩, rfl⟩
      exact ⟨hempty, missing_eq_nil_iff.mp hmissing, haccepts, rfl⟩
    · rintro ⟨-, -, haccepts, rfl⟩
      exact ⟨_, ⟨haccepts, rfl⟩, rfl⟩
  · rw [if_neg hlength, if_pos (List.length_pos_iff.mpr hmissing)]
    exact iff_of_false (fun h => by cases h) fun h => hmissing (missing_eq_nil_iff.mpr h.2.1)

end Derive

section Selected

variable (payload : List (List CodeUnit × JsonValue))

def field (name : List CodeUnit) : JsonValue :=
  (Members.find payload name).getD .undefined

-- Whether a key field becomes a member of `selected`. The first assignment to `__proto__`
-- goes to the accessor; the next makes a member if that took the accessor away.
def Kept (keyFields : List (List CodeUnit)) (name : List CodeUnit) : Prop :=
  name ∈ keyFields ∧
    (name = proto → keepsAccessor (field payload proto) = false ∧ 2 ≤ keyFields.count proto)

structure Holds (keyFields : List (List CodeUnit)) (selected : Selected) : Prop where
  nodup : (Members.keys selected.members).Nodup
  accessor : selected.accessor = true ↔
    keyFields.count proto = 0 ∨ keepsAccessor (field payload proto) = true
  keys : ∀ name, name ∈ Members.keys selected.members ↔ Kept payload keyFields name
  values : ∀ member ∈ selected.members, member.2 = field payload member.1

variable {payload} {keyFields : List (List CodeUnit)}

theorem kept_append {name other : List CodeUnit} (h : other ≠ proto ∨ name ≠ proto) :
    Kept payload (keyFields ++ [name]) other ↔ Kept payload keyFields other ∨ other = name := by
  unfold Kept
  by_cases hother : other = proto
  · have hname : name ≠ proto := h.resolve_left fun hne => hne hother
    have hne : other ≠ name := fun heq => hname (heq ▸ hother)
    have hcount : (keyFields ++ [name]).count proto = keyFields.count proto := by
      rw [List.count_append, List.count_singleton, if_neg (by simpa using hname), Nat.add_zero]
    simp only [List.mem_append, List.mem_singleton, hne, or_false, hcount]
  · simp [hother]

theorem Holds.insert {selected : Selected} (h : Holds payload keyFields selected)
    {name : List CodeUnit}
    (hkept : ∀ other, Kept payload (keyFields ++ [name]) other ↔
      Kept payload keyFields other ∨ other = name)
    (haccessor : selected.accessor = true ↔ (keyFields ++ [name]).count proto = 0 ∨
      keepsAccessor (field payload proto) = true) :
    Holds payload (keyFields ++ [name])
      { selected with members := Members.insert selected.members name (field payload name) } where
  nodup := Members.nodup_insert h.nodup name _
  accessor := haccessor
  keys other := by rw [Members.mem_keys_insert, h.keys, hkept]
  values member hm := by
    rcases Members.mem_insert hm with hold | hnew
    · exact h.values member hold
    · rw [hnew]

theorem Holds.assign {selected : Selected} (h : Holds payload keyFields selected)
    (name : List CodeUnit) :
    Holds payload (keyFields ++ [name]) (assign selected name (field payload name)) := by
  by_cases hname : name = proto
  · have hcount : (keyFields ++ [name]).count proto = keyFields.count proto + 1 := by
      rw [List.count_append, hname, List.count_singleton_self]
    have hproto : Kept payload (keyFields ++ [name]) proto ↔
        keepsAccessor (field payload proto) = false ∧ 2 ≤ keyFields.count proto + 1 := by
      unfold Kept
      rw [hcount]
      simp [hname]
    have hother {other : List CodeUnit} (hne : other ≠ proto) :
        Kept payload (keyFields ++ [name]) other ↔ Kept payload keyFields other := by
      rw [kept_append (Or.inl hne), hname, or_iff_left hne]
    unfold Idempotency.assign
    split
    · rename_i hsetter
      have hkeeps := h.accessor.mp hsetter.2.2
      -- The accessor takes the value, and no member comes of it.
      refine ⟨h.nodup, ?_, fun other => ?_, h.values⟩
      · rw [hcount, hname]
        simp
      · by_cases hne : other = proto
        · refine iff_of_false (hne ▸ hsetter.2.1) fun hkept => ?_
          obtain ⟨hloses, htwice⟩ := hproto.mp (hne ▸ hkept)
          rcases hkeeps with hzero | hkeeps
          · omega
          · exact Bool.false_ne_true (hloses.symm.trans hkeeps)
        · rw [h.keys, hother hne]
    · rename_i hmember
      have hmade : keepsAccessor (field payload proto) = false ∧ 1 ≤ keyFields.count proto := by
        by_cases hkey : proto ∈ Members.keys selected.members
        · have hkept := ((h.keys proto).mp hkey).2 rfl
          exact ⟨hkept.1, by omega⟩
        · have haccessor : ¬ selected.accessor = true := fun hset => hmember ⟨hname, hkey, hset⟩
          rw [h.accessor, not_or, Bool.not_eq_true] at haccessor
          exact ⟨haccessor.2, by omega⟩
      refine h.insert (fun other => ?_) ?_
      · by_cases hne : other = proto
        · rw [hne, hproto]
          exact iff_of_true ⟨hmade.1, by omega⟩ (Or.inr hname.symm)
        · rw [hother hne, hname, or_iff_left hne]
      · rw [h.accessor, hcount]
        refine or_congr_left (iff_of_false ?_ ?_) <;> omega
  · have hmember : ¬ (name = proto ∧ proto ∉ Members.keys selected.members ∧
        selected.accessor = true) := fun hsetter => hname hsetter.1
    unfold Idempotency.assign
    rw [if_neg hmember]
    refine h.insert (fun other => kept_append (Or.inr hname)) ?_
    rw [h.accessor, List.count_append, List.count_singleton, if_neg (by simpa using hname),
      Nat.add_zero]

theorem holds_selected (payload : List (List CodeUnit × JsonValue))
    (keyFields : List (List CodeUnit)) :
    Holds payload keyFields (selected payload keyFields) := by
  induction keyFields using List.reverseRecOn with
  | nil =>
      refine ⟨List.nodup_nil, iff_of_true rfl (Or.inl rfl), fun name => ?_, ?_⟩
      · exact iff_of_false List.not_mem_nil fun hkept => List.not_mem_nil hkept.1
      · exact fun member hm => absurd hm List.not_mem_nil
  | append_singleton names name ih =>
      have hfold : selected payload (names ++ [name]) =
          assign (selected payload names) name (field payload name) := by
        unfold selected
        rw [List.foldl_append]
        rfl
      rw [hfold]
      exact ih.assign name

theorem exists_selected_iff {P : List CodeUnit → JsonValue → Prop} :
    (∀ member ∈ (selected payload keyFields).members, P member.1 member.2) ↔
      ∀ name, Kept payload keyFields name → P name (field payload name) := by
  have hholds := holds_selected payload keyFields
  constructor
  · intro h name hkept
    obtain ⟨value, hvalue⟩ := Members.mem_keys.mp ((hholds.keys name).mpr hkept)
    have hfield : value = field payload name := hholds.values _ hvalue
    rw [← hfield]
    exact h _ hvalue
  · intro h member hm
    rw [hholds.values member hm]
    exact h member.1 ((hholds.keys member.1).mp (List.mem_map_of_mem hm))

variable {eventType : List CodeUnit} {P : JsonValue → Prop}

theorem every_kept_of_document (h : Every P (document eventType payload keyFields))
    {name : List CodeUnit} (hkept : Kept payload keyFields name) : Every P (field payload name) := by
  unfold document at h
  simp only [every_object, List.forall_mem_cons, List.not_mem_nil, false_implies, implies_true,
    and_true, (enumerated_perm _).mem_iff] at h
  exact (exists_selected_iff (P := fun _ => Every P)).mp h.2.2.2 name hkept

theorem every_document_iff (hstring : ∀ units, P (.string units))
    (hobject : ∀ members, P (.object members)) :
    Every P (document eventType payload keyFields) ↔
      ∀ name, Kept payload keyFields name → Every P (field payload name) := by
  refine ⟨fun h name hkept => every_kept_of_document h hkept, fun h => ?_⟩
  unfold document
  simp only [every_object, List.forall_mem_cons, List.not_mem_nil, false_implies, implies_true,
    and_true, (enumerated_perm _).mem_iff]
  exact ⟨hobject _, hstring _, hobject _, (exists_selected_iff (P := fun _ => Every P)).mpr h⟩

theorem accepts_document_iff : Every Accepts (document eventType payload keyFields) ↔
    ∀ name, Kept payload keyFields name → Every Accepts (field payload name) :=
  every_document_iff (fun _ => trivial) fun _ => trivial

theorem solid_document (h : Every Solid (.object payload)) (eventType : List CodeUnit) :
    Every Solid (document eventType payload keyFields) := by
  refine (every_document_iff (fun _ => trivial) fun _ => trivial).mpr fun name _ => ?_
  unfold field
  cases hfind : Members.find payload name with
  | none => exact trivial
  | some value => exact (every_object.mp h).2 _ (Members.mem_of_find hfind)

end Selected

end TrustlistCore.EventBus.TypeScript.Idempotency
