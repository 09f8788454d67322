import Mathlib.Algebra.GroupWithZero.Nat
import Mathlib.Data.Fin.Basic
import Mathlib.Data.List.Lex
import Mathlib.Order.Fin.Basic

namespace TrustlistCore.Library.Unicode

abbrev CodeUnit := Fin 0x10000

abbrev CodePoint := Fin 0x110000

instance neZeroCodeUnit : NeZero (0x10000 : ℕ) :=
  ⟨Nat.succ_ne_zero _⟩

instance neZeroCodePoint : NeZero (0x110000 : ℕ) :=
  ⟨Nat.succ_ne_zero _⟩

def isHigh (unit : CodeUnit) : Bool :=
  0xD800 ≤ unit.val ∧ unit.val ≤ 0xDBFF

def isLow (unit : CodeUnit) : Bool :=
  0xDC00 ≤ unit.val ∧ unit.val ≤ 0xDFFF

-- A scalar value is a code point that is not half of a surrogate pair.
def isScalar (point : CodePoint) : Bool :=
  point.val < 0xD800 ∨ 0xE000 ≤ point.val

def highUnit (point : CodePoint) : CodeUnit :=
  ⟨0xD800 + (point.val - 0x10000) / 0x400, by omega⟩

def lowUnit (point : CodePoint) : CodeUnit :=
  ⟨0xDC00 + (point.val - 0x10000) % 0x400, by omega⟩

-- The UTF-16 form of one code point; a lone surrogate stands for itself.
def utf16Point (point : CodePoint) : List CodeUnit :=
  if h : point.val < 0x10000 then [⟨point.val, h⟩] else [highUnit point, lowUnit point]

def utf16 (points : List CodePoint) : List CodeUnit :=
  points.flatMap utf16Point

def ofUnit (unit : CodeUnit) : CodePoint :=
  ⟨unit.val, by omega⟩

def ofPair (high low : CodeUnit) : CodePoint :=
  ⟨0x10000 + (high.val % 0x400) * 0x400 + low.val % 0x400, by omega⟩

-- Reading UTF-16: a high unit joins the low unit after it, any other unit stands alone.
def decode16 : List CodeUnit → List CodePoint
  | [] => []
  | [unit] => [ofUnit unit]
  | first :: second :: rest =>
      if isHigh first ∧ isLow second then ofPair first second :: decode16 rest
      else ofUnit first :: decode16 (second :: rest)

theorem utf16_cons (point : CodePoint) (points : List CodePoint) :
    utf16 (point :: points) = utf16Point point ++ utf16 points := rfl

theorem utf16Point_ofUnit (unit : CodeUnit) : utf16Point (ofUnit unit) = [unit] := by
  unfold utf16Point ofUnit
  rw [dif_pos unit.isLt]

theorem utf16Point_ofPair {high low : CodeUnit} (hh : isHigh high = true)
    (hl : isLow low = true) : utf16Point (ofPair high low) = [high, low] := by
  simp only [isHigh, isLow, decide_eq_true_eq] at hh hl
  have hhigh : highUnit (ofPair high low) = high := by
    apply Fin.ext
    simp only [highUnit, ofPair]
    omega
  have hlow : lowUnit (ofPair high low) = low := by
    apply Fin.ext
    simp only [lowUnit, ofPair]
    omega
  unfold utf16Point
  rw [dif_neg (by simp only [ofPair]; omega), hhigh, hlow]

theorem utf16_decode16 (units : List CodeUnit) : utf16 (decode16 units) = units := by
  induction units using decode16.induct with
  | case1 => rfl
  | case2 unit => simp [decode16, utf16, utf16Point_ofUnit]
  | case3 first second rest hpair ih =>
      rw [decode16, if_pos hpair, utf16_cons, utf16Point_ofPair hpair.1 hpair.2, ih]
      rfl
  | case4 first second rest hpair ih =>
      rw [decode16, if_neg hpair, utf16_cons, utf16Point_ofUnit, ih]
      rfl

theorem decode16_cons_of_not_high {unit : CodeUnit} (h : isHigh unit = false)
    (units : List CodeUnit) : decode16 (unit :: units) = ofUnit unit :: decode16 units := by
  cases units with
  | nil => rfl
  | cons second rest =>
      rw [decode16, if_neg]
      simp [h]

theorem ofPair_highUnit_lowUnit {point : CodePoint} (h : ¬ point.val < 0x10000) :
    ofPair (highUnit point) (lowUnit point) = point := by
  apply Fin.ext
  simp only [ofPair, highUnit, lowUnit]
  omega

-- On scalar values the two are inverse, so their strings are told apart by UTF-16.
theorem decode16_utf16 {points : List CodePoint} (h : ∀ point ∈ points, isScalar point = true) :
    decode16 (utf16 points) = points := by
  induction points with
  | nil => rfl
  | cons point rest ih =>
      have hrest := ih (fun other ho => h other (List.mem_cons_of_mem _ ho))
      have hscalar := h point List.mem_cons_self
      simp only [isScalar, decide_eq_true_eq] at hscalar
      rw [utf16_cons]
      unfold utf16Point
      split
      · rename_i hsmall
        have hnothigh : isHigh ⟨point.val, hsmall⟩ = false := by
          simp only [isHigh, decide_eq_false_iff_not]
          omega
        rw [List.singleton_append, decode16_cons_of_not_high hnothigh, hrest]
        rfl
      · rename_i hlarge
        have hbound := point.isLt
        have hpair : isHigh (highUnit point) = true ∧ isLow (lowUnit point) = true := by
          constructor
          · rw [isHigh, decide_eq_true_eq]
            simp only [highUnit]
            omega
          · rw [isLow, decide_eq_true_eq]
            simp only [lowUnit]
            omega
        rw [List.cons_append, List.singleton_append, decode16, if_pos hpair, hrest,
          ofPair_highUnit_lowUnit hlarge]

theorem utf16_injective_of_scalar {points others : List CodePoint}
    (hp : ∀ point ∈ points, isScalar point = true) (ho : ∀ point ∈ others, isScalar point = true)
    (h : utf16 points = utf16 others) : points = others := by
  rw [← decode16_utf16 hp, h, decode16_utf16 ho]

-- A string that UTF-16 can hold: no high surrogate stands right before a low one.
def Joined (points : List CodePoint) : Prop :=
  decode16 (utf16 points) = points

theorem joined_decode16 (units : List CodeUnit) : Joined (decode16 units) := by
  unfold Joined
  rw [utf16_decode16]

theorem Joined.injective {points others : List CodePoint} (hp : Joined points)
    (ho : Joined others) (h : utf16 points = utf16 others) : points = others := by
  rw [← hp, h, ho]

theorem map_lt_map_iff {α β : Type*} [LinearOrder α] [LinearOrder β] {f : α → β}
    (hf : StrictMono f) {xs ys : List α} : xs.map f < ys.map f ↔ xs < ys := by
  induction xs generalizing ys with
  | nil => cases ys <;> simp
  | cons x xs ih =>
      cases ys with
      | nil => simp
      | cons y ys =>
          rw [List.map_cons, List.map_cons, List.cons_lt_cons_iff, List.cons_lt_cons_iff, ih,
            hf.lt_iff_lt, hf.injective.eq_iff]

theorem strictMono_ofUnit : StrictMono ofUnit :=
  fun _ _ h => h

-- Text with no character past the basic plane.
def Bmp (units : List CodeUnit) : Prop :=
  ∀ point ∈ decode16 units, point.val < 0x10000

theorem decode16_of_bmp {units : List CodeUnit} (h : Bmp units) :
    decode16 units = units.map ofUnit := by
  induction units using decode16.induct with
  | case1 => rfl
  | case2 unit => rfl
  | case3 first second rest hpair ih =>
      have hlarge := h (ofPair first second) (by
        rw [decode16, if_pos hpair]
        exact List.mem_cons_self)
      simp only [ofPair] at hlarge
      omega
  | case4 first second rest hpair ih =>
      have hrest : Bmp (second :: rest) := by
        intro point hpoint
        refine h point ?_
        rw [decode16, if_neg hpair]
        exact List.mem_cons_of_mem _ hpoint
      rw [decode16, if_neg hpair, ih hrest]
      rfl

-- There the order of the code points is the order of the units.
theorem decode16_le_iff {units others : List CodeUnit} (h : Bmp units) (ho : Bmp others) :
    decode16 units ≤ decode16 others ↔ units ≤ others := by
  rw [decode16_of_bmp h, decode16_of_bmp ho, ← not_lt, ← not_lt,
    map_lt_map_iff strictMono_ofUnit]

end TrustlistCore.Library.Unicode
