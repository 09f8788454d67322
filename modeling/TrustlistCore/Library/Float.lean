import Mathlib.Algebra.Order.Field.Power
import Mathlib.Data.Int.Log
import Mathlib.Data.Rat.Floor
import Mathlib.Tactic.FieldSimp
import Mathlib.Tactic.Linarith
import Mathlib.Tactic.Positivity
import Mathlib.Tactic.Ring

namespace TrustlistCore.Library

-- A binary format: magnitudes of `precision` bits, in units from `2 ^ least` up.
structure Format where
  precision : ℕ
  least : ℤ
  greatest : ℤ
  precise : 0 < precision
  fine : least ≤ 0
  ordered : least ≤ greatest

namespace Format

variable (format : Format)

def Representable (q : ℚ) : Prop :=
  ∃ (m : ℕ) (e : ℤ),
    m < 2 ^ format.precision ∧ format.least ≤ e ∧ e ≤ format.greatest ∧ q = m * (2 : ℚ) ^ e

def Magnitude : Type :=
  { q : ℚ // format.Representable q }

instance : DecidableEq format.Magnitude :=
  inferInstanceAs (DecidableEq { q : ℚ // format.Representable q })

-- To the nearest natural number, ties to even.
def roundEven (q : ℚ) : ℕ :=
  let low := ⌊q⌋₊
  if q - low < 1 / 2 then low
  else if 1 / 2 < q - low then low + 1
  else if low % 2 = 0 then low
  else low + 1

-- The unit in the last place at `q`.
def unitExponent (q : ℚ) : ℤ :=
  max (Int.log 2 q - (format.precision - 1)) format.least

def rounded (q : ℚ) : ℚ :=
  roundEven (q / (2 : ℚ) ^ format.unitExponent q) * (2 : ℚ) ^ format.unitExponent q

theorem roundEven_le {q : ℚ} {k : ℕ} (h : q ≤ k) : roundEven q ≤ k := by
  have hfloor : ⌊q⌋₊ ≤ k := Nat.floor_le_of_le h
  have hup (hhalf : ¬ q - ⌊q⌋₊ < 1 / 2) : ⌊q⌋₊ + 1 ≤ k := by
    have hlt : ((⌊q⌋₊ : ℕ) : ℚ) < k := by linarith
    exact_mod_cast hlt
  unfold roundEven
  simp only
  split
  · exact hfloor
  split
  · exact hup (by assumption)
  split
  · exact hfloor
  · exact hup (by assumption)

theorem le_roundEven {q : ℚ} {k : ℕ} (h : (k : ℚ) ≤ q) : k ≤ roundEven q := by
  have hfloor : k ≤ ⌊q⌋₊ := Nat.le_floor h
  unfold roundEven
  simp only
  split
  · exact hfloor
  split
  · omega
  split <;> omega

theorem roundEven_of_nonpos {q : ℚ} (h : q ≤ 0) : roundEven q = 0 :=
  Nat.le_zero.mp (roundEven_le (by simpa using h))

variable {format}

theorem Representable.nonneg {q : ℚ} (h : format.Representable q) : 0 ≤ q := by
  obtain ⟨m, e, -, -, -, rfl⟩ := h
  positivity

theorem Representable.lt_bound {q : ℚ} (h : format.Representable q) :
    q < (2 : ℚ) ^ (format.precision + format.greatest) := by
  obtain ⟨m, e, hm, -, he, rfl⟩ := h
  have hm' : (m : ℚ) < (2 : ℚ) ^ format.precision := by exact_mod_cast hm
  calc (m : ℚ) * (2 : ℚ) ^ e
      < (2 : ℚ) ^ format.precision * (2 : ℚ) ^ e := by
        exact mul_lt_mul_of_pos_right hm' (by positivity)
    _ ≤ (2 : ℚ) ^ format.precision * (2 : ℚ) ^ format.greatest := by
        have hle := zpow_le_zpow_right₀ (show (1 : ℚ) ≤ 2 by norm_num) he
        exact mul_le_mul_of_nonneg_left hle (by positivity)
    _ = (2 : ℚ) ^ (format.precision + format.greatest) := by
        rw [zpow_add₀ (by norm_num), zpow_natCast]

theorem representable_zero : format.Representable 0 :=
  ⟨0, format.least, by positivity, le_refl _, format.ordered, by simp⟩

theorem rounded_of_nonpos {q : ℚ} (h : q ≤ 0) : format.rounded q = 0 := by
  unfold rounded
  rw [roundEven_of_nonpos (div_nonpos_of_nonpos_of_nonneg h (by positivity))]
  simp

-- Above the least unit the significand fills its bits.
theorem pow_le_of_least_lt {q : ℚ} (hq : 0 < q) (h : format.least < format.unitExponent q) :
    (2 : ℚ) ^ (format.precision - 1 + format.unitExponent q) ≤ q := by
  have hunit : format.unitExponent q = Int.log 2 q - (format.precision - 1) := by
    unfold unitExponent at h ⊢
    omega
  rw [hunit, show (format.precision : ℤ) - 1 + (Int.log 2 q - (format.precision - 1))
    = Int.log 2 q by ring]
  exact Int.zpow_log_le_self (by norm_num) hq

theorem lt_pow_unitExponent (q : ℚ) :
    q < (2 : ℚ) ^ (format.precision + format.unitExponent q) := by
  have hlog : q < (2 : ℚ) ^ (Int.log 2 q + 1) := Int.lt_zpow_succ_log_self (by norm_num) q
  refine lt_of_lt_of_le hlog (zpow_le_zpow_right₀ (by norm_num) ?_)
  unfold unitExponent
  omega

-- A coarser grid point is a point of the grid at hand.
theorem grid_point {m : ℕ} {e u : ℤ} (h : u ≤ e) :
    ((m * 2 ^ (e - u).toNat : ℕ) : ℚ) * (2 : ℚ) ^ u = m * (2 : ℚ) ^ e := by
  have he : e = (e - u).toNat + u := by omega
  conv_rhs => rw [he]
  rw [zpow_add₀ (by norm_num), zpow_natCast]
  push_cast
  ring

theorem lt_pow_of_lt {m p : ℕ} {e u : ℤ} (hm : m < 2 ^ p) (h : e < u) :
    (m : ℚ) * (2 : ℚ) ^ e < (2 : ℚ) ^ ((p : ℤ) - 1 + u) := by
  have hm' : (m : ℚ) < (2 : ℚ) ^ p := by exact_mod_cast hm
  calc (m : ℚ) * (2 : ℚ) ^ e
      < (2 : ℚ) ^ p * (2 : ℚ) ^ e := mul_lt_mul_of_pos_right hm' (by positivity)
    _ = (2 : ℚ) ^ ((p : ℤ) + e) := by rw [zpow_add₀ (by norm_num), zpow_natCast]
    _ ≤ (2 : ℚ) ^ ((p : ℤ) - 1 + u) := zpow_le_zpow_right₀ (by norm_num) (by omega)

theorem pow_le_rounded {q : ℚ} (hq : 0 < q) (h : format.least < format.unitExponent q) :
    (2 : ℚ) ^ ((format.precision : ℤ) - 1 + format.unitExponent q) ≤ format.rounded q := by
  have hlow := pow_le_of_least_lt hq h
  have hprecise := format.precise
  have hpow : (2 : ℚ) ^ ((format.precision : ℤ) - 1) = ((2 ^ (format.precision - 1) : ℕ) : ℚ) := by
    rw [show (format.precision : ℤ) - 1 = ((format.precision - 1 : ℕ) : ℤ) by omega,
      zpow_natCast]
    push_cast
    rfl
  rw [zpow_add₀ (by norm_num), hpow] at hlow ⊢
  refine mul_le_mul_of_nonneg_right ?_ (by positivity)
  exact_mod_cast le_roundEven ((le_div_iff₀ (by positivity)).mpr hlow)

theorem rounded_le {q r : ℚ} (hr : format.Representable r) (h : q ≤ r) :
    format.rounded q ≤ r := by
  rcases le_or_gt q 0 with hq | hq
  · rw [rounded_of_nonpos hq]
    exact hr.nonneg
  obtain ⟨m, e, hm, hleast, -, rfl⟩ := hr
  rcases le_or_gt (format.unitExponent q) e with hu | hu
  · rw [← grid_point hu] at h ⊢
    refine mul_le_mul_of_nonneg_right ?_ (by positivity)
    exact_mod_cast roundEven_le ((div_le_iff₀ (by positivity)).mpr h)
  · have hlow := pow_le_of_least_lt hq (lt_of_le_of_lt hleast hu)
    have hhigh := lt_pow_of_lt hm hu
    exact absurd h (by linarith)

theorem le_rounded {q r : ℚ} (hr : format.Representable r) (h : r ≤ q) :
    r ≤ format.rounded q := by
  rcases le_or_gt q 0 with hq | hq
  · rw [rounded_of_nonpos hq]
    linarith
  obtain ⟨m, e, hm, hleast, -, rfl⟩ := hr
  rcases le_or_gt (format.unitExponent q) e with hu | hu
  · rw [← grid_point hu] at h ⊢
    refine mul_le_mul_of_nonneg_right ?_ (by positivity)
    exact_mod_cast le_roundEven ((le_div_iff₀ (by positivity)).mpr h)
  · refine le_trans (lt_pow_of_lt hm hu).le ?_
    exact pow_le_rounded hq (lt_of_le_of_lt hleast hu)

theorem rounded_of_representable {r : ℚ} (hr : format.Representable r) : format.rounded r = r :=
  le_antisymm (rounded_le hr le_rfl) (le_rounded hr le_rfl)

theorem roundEven_le_pow (q : ℚ) :
    roundEven (q / (2 : ℚ) ^ format.unitExponent q) ≤ 2 ^ format.precision := by
  apply roundEven_le
  have hlt : q < (2 : ℚ) ^ (format.precision + format.unitExponent q) := lt_pow_unitExponent q
  rw [zpow_add₀ (by norm_num), zpow_natCast] at hlt
  rw [div_le_iff₀ (by positivity)]
  push_cast
  exact hlt.le

-- The carry into the next binade is the one case that moves the exponent.
theorem representable_rounded {q : ℚ}
    (h : format.rounded q < (2 : ℚ) ^ (format.precision + format.greatest)) :
    format.Representable (format.rounded q) := by
  rcases le_or_gt q 0 with hq | hq
  · rw [rounded_of_nonpos hq]
    exact representable_zero
  have hleast : format.least ≤ format.unitExponent q := le_max_right _ _
  have hprecise := format.precise
  have hordered := format.ordered
  have hgreatest : format.unitExponent q ≤ format.greatest := by
    by_contra hgt
    have hlt : format.least < format.unitExponent q := by omega
    have hlow := pow_le_rounded hq hlt
    have hpow := zpow_le_zpow_right₀ (show (1 : ℚ) ≤ 2 by norm_num)
      (show (format.precision : ℤ) + format.greatest ≤
        (format.precision : ℤ) - 1 + format.unitExponent q by omega)
    linarith
  rcases Nat.lt_or_ge (roundEven (q / (2 : ℚ) ^ format.unitExponent q)) (2 ^ format.precision)
    with hm | hm
  · exact ⟨_, _, hm, hleast, hgreatest, rfl⟩
  · have heq := le_antisymm (roundEven_le_pow q) hm
    have hrounded : format.rounded q =
        ((2 ^ (format.precision - 1) : ℕ) : ℚ) * (2 : ℚ) ^ (format.unitExponent q + 1) := by
      have hpow : (2 : ℚ) ^ format.precision = (2 : ℚ) ^ (format.precision - 1) * 2 := by
        rw [← pow_succ, Nat.sub_add_cancel hprecise]
      unfold rounded
      rw [heq, zpow_add₀ (by norm_num), zpow_one]
      push_cast
      rw [hpow]
      ring
    have hcarry : format.unitExponent q + 1 ≤ format.greatest := by
      by_contra hgt
      have hpow := zpow_le_zpow_right₀ (show (1 : ℚ) ≤ 2 by norm_num)
        (show (format.precision : ℤ) + format.greatest ≤
          (format.precision - 1 : ℕ) + (format.unitExponent q + 1) by omega)
      rw [zpow_add₀ (by norm_num) _ (format.unitExponent q + 1), zpow_natCast] at hpow
      rw [hrounded] at h
      push_cast at h
      linarith
    exact ⟨2 ^ (format.precision - 1), format.unitExponent q + 1,
      Nat.pow_lt_pow_right (by decide) (by omega), by omega, hcarry, hrounded⟩

variable (format) in
-- Round to nearest; nothing where that overflows.
def nearest (q : ℚ) : Option format.Magnitude :=
  if h : format.rounded q < (2 : ℚ) ^ (format.precision + format.greatest) then
    some ⟨format.rounded q, representable_rounded h⟩
  else none

theorem nearest_eq_some {q : ℚ} {x : format.Magnitude} (h : format.nearest q = some x) :
    x.val = format.rounded q := by
  unfold nearest at h
  split at h
  · rw [← Option.some.inj h]
  · exact absurd h (by simp)

theorem nearest_of_representable {r : ℚ} (hr : format.Representable r) :
    format.nearest r = some ⟨r, hr⟩ := by
  have hrounded := rounded_of_representable hr
  unfold nearest
  rw [dif_pos (by rw [hrounded]; exact hr.lt_bound)]
  exact congrArg some (Subtype.ext hrounded)

theorem le_nearest {q r : ℚ} {x : format.Magnitude} (h : format.nearest q = some x)
    (hr : format.Representable r) (hle : r ≤ q) : r ≤ x.val := by
  rw [nearest_eq_some h]
  exact le_rounded hr hle

end Format

end TrustlistCore.Library
