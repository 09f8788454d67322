import TrustlistCore.Library.Double

namespace TrustlistCore.Library.Double

open Format Decimal

theorem toDigits_mul_pow {s : ℕ} (h : 0 < s) (k : ℕ) :
    Nat.toDigits 10 (s * 10 ^ k) = Nat.toDigits 10 s ++ List.replicate k '0' := by
  induction k with
  | zero => simp
  | succ k ih =>
      have happend := Nat.toDigits_append_toDigits (b := 10) (n := s * 10 ^ k) (d := 0)
        (by decide) (by positivity) (by decide)
      rw [Nat.toDigits_zero, ih] at happend
      rw [pow_succ, ← mul_assoc, mul_comm _ 10, ← Nat.add_zero (10 * _), ← happend,
        List.append_assoc, List.replicate_succ']

theorem lt_pow_length (s : ℕ) : s < 10 ^ (Nat.toDigits 10 s).length :=
  (Nat.length_toDigits_le_iff (by decide) Nat.length_toDigits_pos).mp (le_refl _)

theorem pow_length_le {s : ℕ} (h : 0 < s) : 10 ^ ((Nat.toDigits 10 s).length - 1) ≤ s := by
  by_contra hlt
  have hlen : 0 < (Nat.toDigits 10 s).length := Nat.length_toDigits_pos
  rcases Nat.eq_or_lt_of_le (Nat.succ_le_of_lt hlen) with hone | hmore
  · rw [← hone] at hlt
    simp only [Nat.succ_eq_add_one, zero_add, Nat.sub_self, pow_zero] at hlt
    omega
  · have hle := (Nat.length_toDigits_le_iff (n := s) (b := 10) (by decide)
      (show 0 < (Nat.toDigits 10 s).length - 1 by omega)).mpr (by omega)
    omega

theorem decimal_lt_pow_iff {x : binary64.Magnitude} (h : x.val ≠ 0) (j : ℤ) :
    decimal x < (10 : ℚ) ^ j ↔ point x ≤ j := by
  have hpos := shortest_pos h
  have hten : (1 : ℚ) < 10 := by norm_num
  have hlen : 0 < (Nat.toDigits 10 (shortest x).1).length := Nat.length_toDigits_pos
  have hhigh : decimal x < (10 : ℚ) ^ point x := by
    have hlt : ((shortest x).1 : ℚ) < (10 : ℚ) ^ (Nat.toDigits 10 (shortest x).1).length := by
      exact_mod_cast lt_pow_length (shortest x).1
    unfold decimal point
    rw [add_comm, zpow_add₀ (by norm_num), zpow_natCast]
    exact mul_lt_mul_of_pos_right hlt (by positivity)
  have hlow : (10 : ℚ) ^ (point x - 1) ≤ decimal x := by
    have hle : (10 : ℚ) ^ ((Nat.toDigits 10 (shortest x).1).length - 1) ≤ (shortest x).1 := by
      exact_mod_cast pow_length_le hpos
    unfold decimal point
    rw [show (shortest x).2 + ((Nat.toDigits 10 (shortest x).1).length : ℤ) - 1 =
      ((Nat.toDigits 10 (shortest x).1).length - 1 : ℕ) + (shortest x).2 by omega,
      zpow_add₀ (by norm_num), zpow_natCast]
    exact mul_le_mul_of_nonneg_right hle (by positivity)
  constructor
  · intro hlt
    by_contra hgt
    have hpow := zpow_le_zpow_right₀ hten.le (show j ≤ point x - 1 by omega)
    linarith
  · intro hle
    exact lt_of_lt_of_le hhigh (zpow_le_zpow_right₀ hten.le hle)

theorem representable_natCast {n : ℕ} (h : n ≤ 2 ^ 53) : binary64.Representable n := by
  rcases Nat.lt_or_ge n (2 ^ 53) with hlt | hge
  · exact ⟨n, 0, hlt, by decide, by decide, by simp⟩
  · refine ⟨1, 53, by decide, by decide, by decide, ?_⟩
    rw [le_antisymm h hge]
    norm_num

-- From the last bit of the significand up every double is whole.
theorem integral_of_le {q : ℚ} (hq : binary64.Representable q) (h : (2 : ℚ) ^ 53 ≤ q) :
    ∃ n : ℕ, q = n := by
  obtain ⟨m, e, hm, -, -, rfl⟩ := hq
  have he : 0 ≤ e := by
    by_contra hneg
    have hm' : (m : ℚ) < (2 : ℚ) ^ 53 := by exact_mod_cast hm
    have hpow : (2 : ℚ) ^ e ≤ 1 :=
      zpow_le_one_of_nonpos₀ (by norm_num) (by omega)
    have hmul : (m : ℚ) * (2 : ℚ) ^ e ≤ m * 1 :=
      mul_le_mul_of_nonneg_left hpow (by positivity)
    linarith
  refine ⟨m * 2 ^ e.toNat, ?_⟩
  rw [show e = (e.toNat : ℤ) by omega, zpow_natCast]
  push_cast
  rfl

theorem integral_of_nearest {n : ℕ} {x : binary64.Magnitude} (h : binary64.nearest n = some x) :
    ∃ m : ℕ, x.val = m := by
  rcases Nat.lt_or_ge (2 ^ 53) n with hlarge | hsmall
  · have hrep : binary64.Representable ((2 ^ 53 : ℕ) : ℚ) := representable_natCast le_rfl
    have hle := le_nearest h hrep (by exact_mod_cast hlarge.le)
    exact integral_of_le x.property (by exact_mod_cast hle)
  · rw [nearest_of_representable (representable_natCast hsmall)] at h
    exact ⟨n, congrArg Subtype.val (Option.some.inj h).symm⟩

-- The double of a small natural number.
def whole (n : ℕ) (h : n ≤ 2 ^ 53) : Double :=
  .finite false ⟨n, representable_natCast h⟩

theorem zero_mem_exponents : (0 : ℤ) ∈ exponents binary64 :=
  mem_exponents.mpr ⟨by decide, by decide⟩

-- A double is whole just where its shortest decimal is.
theorem integral_iff (x : binary64.Magnitude) :
    (∃ n : ℕ, x.val = n) ↔ 0 ≤ (shortest x).2 := by
  constructor
  · rintro ⟨n, hn⟩
    exact le_shortest zero_mem_exponents (candidate_of_eq (s := n) (by simp [hn]))
  · intro h
    apply integral_of_nearest (n := (shortest x).1 * 10 ^ (shortest x).2.toNat)
    have hnearest := nearest_shortest x
    rw [show (shortest x).2 = ((shortest x).2.toNat : ℤ) by omega, zpow_natCast] at hnearest
    exact_mod_cast hnearest

theorem isInteger_iff (negative : Bool) (x : binary64.Magnitude) :
    isInteger (.finite negative x) = true ↔ ∃ n : ℕ, x.val = n := by
  have hnonneg : 0 ≤ x.val := x.property.nonneg
  simp only [isInteger, decide_eq_true_eq]
  constructor
  · intro h
    refine ⟨x.val.num.toNat, ?_⟩
    have hnum : 0 ≤ x.val.num := Rat.num_nonneg.mpr hnonneg
    have hcast : ((x.val.num.toNat : ℤ) : ℚ) = x.val.num := by rw [Int.toNat_of_nonneg hnum]
    rw [Int.cast_natCast] at hcast
    rw [hcast]
    exact (Rat.coe_int_num_of_den_eq_one h).symm
  · rintro ⟨n, hn⟩
    rw [hn]
    exact Rat.den_natCast n

theorem isInteger_whole (n : ℕ) (h : n ≤ 2 ^ 53) : isInteger (whole n h) = true :=
  (isInteger_iff _ _).mpr ⟨n, rfl⟩

theorem decimal_of_lt {x : binary64.Magnitude} {n : ℕ} (hx : x.val = n) (hn : n < 2 ^ 53) :
    decimal x = n := by
  have hexp := (integral_iff x).mp ⟨n, hx⟩
  have hnearest := nearest_shortest x
  have hpow : (10 : ℚ) ^ (shortest x).2 = (10 ^ (shortest x).2.toNat : ℕ) := by
    conv_lhs => rw [show (shortest x).2 = ((shortest x).2.toNat : ℤ) by omega]
    rw [zpow_natCast]
    push_cast
    rfl
  have hdecimal : decimal x = ((shortest x).1 * 10 ^ (shortest x).2.toNat : ℕ) := by
    unfold decimal
    rw [hpow]
    push_cast
    rfl
  have hwhole : binary64.nearest ((shortest x).1 * 10 ^ (shortest x).2.toNat : ℕ) = some x := by
    rw [← hdecimal]
    exact nearest_decimal x
  rcases Nat.lt_or_ge (2 ^ 53) ((shortest x).1 * 10 ^ (shortest x).2.toNat) with hlarge | hsmall
  · have hrep : binary64.Representable ((2 ^ 53 : ℕ) : ℚ) := representable_natCast le_rfl
    have hle := le_nearest hwhole hrep (by exact_mod_cast hlarge.le)
    rw [hx] at hle
    exact absurd hn (by exact_mod_cast hle.not_gt)
  · rw [nearest_of_representable (representable_natCast hsmall)] at hwhole
    have hval := congrArg Subtype.val (Option.some.inj hwhole)
    rw [hdecimal, ← hx]
    exact hval

theorem zero_lt_of_nearest {n : ℕ} {x : binary64.Magnitude} (h : binary64.nearest n = some x)
    (hn : n ≠ 0) : x.val ≠ 0 := by
  have hone : binary64.Representable ((1 : ℕ) : ℚ) := representable_natCast (by decide)
  have hle := le_nearest h hone (by exact_mod_cast Nat.one_le_iff_ne_zero.mpr hn)
  intro hzero
  rw [hzero] at hle
  norm_num at hle

-- A whole shortest decimal below the threshold of the exponent is shown digit by digit.
theorem display_of_whole (negative : Bool) {x : binary64.Magnitude} {n : ℕ} (hx : x.val ≠ 0)
    (hexp : 0 ≤ (shortest x).2) (hdecimal : decimal x = n) (hpoint : point x ≤ 21) :
    (display negative x).toNumeral = integerNumeral negative n := by
  have hpos := shortest_pos hx
  have hlen : 0 < (Nat.toDigits 10 (shortest x).1).length := Nat.length_toDigits_pos
  have hpoint' : point x = (shortest x).2 + (significand x hx).length := rfl
  have hn : n = (shortest x).1 * 10 ^ (shortest x).2.toNat := by
    have hpow : (10 : ℚ) ^ (shortest x).2 = (10 ^ (shortest x).2.toNat : ℕ) := by
      conv_lhs => rw [show (shortest x).2 = ((shortest x).2.toNat : ℤ) by omega]
      rw [zpow_natCast]
      push_cast
      rfl
    unfold decimal at hdecimal
    rw [hpow] at hdecimal
    exact_mod_cast hdecimal.symm
  have hbounds : -6 < point x ∧ point x ≤ 21 := by
    refine ⟨?_, hpoint⟩
    unfold point
    omega
  have hshow : (display negative x).toNumeral =
      positional negative (significand x hx) (point x) 0 := by
    unfold display
    rw [dif_neg hx, if_pos hbounds]
  have hdigits : (significand x hx).digits = Nat.toDigits 10 (shortest x).1 := rfl
  rw [hshow]
  unfold positional integerNumeral
  rw [if_pos (by omega), hn, toDigits_mul_pow hpos, hdigits,
    show (point x - (significand x hx).length).toNat = (shortest x).2.toNat by omega]
  rfl

theorem display_zero (negative : Bool) {x : binary64.Magnitude} (h : x.val = 0) :
    display negative x = Number.ofInt 0 := by
  unfold display
  rw [dif_pos h]
  rfl

-- What is shown is read back, but for the sign of a zero.
theorem ofNumber_display (negative : Bool) (x : binary64.Magnitude) :
    ofNumber (display negative x) = .finite (negative && decide (x.val ≠ 0)) x := by
  unfold ofNumber
  by_cases h : x.val = 0
  · rw [display_zero negative h, Number.magnitude_ofInt]
    have hnearest : binary64.nearest ((Int.natAbs 0 : ℕ) : ℚ) = some x := by
      simpa using nearest_zero h
    rw [hnearest]
    simp [Number.ofInt, integerNumeral, h]
  · have hnegative : (display negative x).negative = negative := by
      unfold display
      rw [dif_neg h]
      split
      · exact negative_positional ..
      · rfl
    rw [magnitude_display negative h, nearest_decimal, hnegative]
    simp [h]

-- An integer is shown by its own digits just where they are the shortest decimal of its
-- nearest double and too few for an exponent.
theorem display_eq_ofInt_iff {n : ℤ} {x : binary64.Magnitude}
    (h : binary64.nearest (n.natAbs : ℚ) = some x) :
    display (decide (n < 0)) x = Number.ofInt n ↔
      decimal x = n.natAbs ∧ n.natAbs < 10 ^ 21 := by
  by_cases hn : n = 0
  · subst hn
    have hx : x.val = 0 := by
      rw [show ((0 : ℤ).natAbs : ℚ) = 0 by simp,
        nearest_of_representable representable_zero] at h
      exact congrArg Subtype.val (Option.some.inj h).symm
    have hdecimal := decimal_of_lt (n := 0) (by simpa using hx) (by positivity)
    rw [display_zero _ hx]
    simpa using hdecimal
  have hx := zero_lt_of_nearest h (Int.natAbs_ne_zero.mpr hn)
  have hexp := (integral_iff x).mp (integral_of_nearest h)
  have hpow : (10 : ℚ) ^ (21 : ℤ) = ((10 ^ 21 : ℕ) : ℚ) := by norm_num
  constructor
  · intro heq
    have hmagnitude : decimal x = n.natAbs := by
      rw [← magnitude_display (decide (n < 0)) hx, heq, Number.magnitude_ofInt]
    refine ⟨hmagnitude, ?_⟩
    have hpoint : point x ≤ 21 := by
      by_contra hgt
      have hshow : (display (decide (n < 0)) x).toNumeral =
          scientific (decide (n < 0)) (significand x hx) (point x) 0 := by
        unfold display
        rw [dif_neg hx, if_neg (by omega)]
      rw [heq] at hshow
      exact integerNumeral_ne_scientific _ _ _ _ _ _ hshow
    have hlt := (decimal_lt_pow_iff hx 21).mpr hpoint
    rw [hmagnitude, hpow] at hlt
    exact_mod_cast hlt
  · rintro ⟨hdecimal, hlt⟩
    have hpoint : point x ≤ 21 := by
      rw [← decimal_lt_pow_iff hx, hdecimal, hpow]
      exact_mod_cast hlt
    have hnumeral := display_of_whole (decide (n < 0)) hx hexp hdecimal hpoint
    exact Number.ext hnumeral

theorem display_ofInt_of_small {n : ℤ} {x : binary64.Magnitude}
    (h : binary64.nearest (n.natAbs : ℚ) = some x) (hn : n.natAbs < 2 ^ 53) :
    display (decide (n < 0)) x = Number.ofInt n := by
  have hx : x.val = n.natAbs := by
    rw [nearest_of_representable (representable_natCast hn.le)] at h
    exact congrArg Subtype.val (Option.some.inj h).symm
  exact (display_eq_ofInt_iff h).mpr ⟨decimal_of_lt hx hn, lt_trans hn (by norm_num)⟩

theorem decimal_lt_of_not_integral {x : binary64.Magnitude} (h : ¬ ∃ n : ℕ, x.val = n) :
    decimal x < (10 : ℚ) ^ (16 : ℤ) := by
  have hrep : binary64.Representable ((2 ^ 53 : ℕ) : ℚ) := representable_natCast le_rfl
  by_contra hge
  have hle := le_nearest (nearest_decimal x) hrep (by push_cast; norm_num at hge ⊢; linarith)
  exact h (integral_of_le x.property (by exact_mod_cast hle))

theorem point_lt_length_iff (x : binary64.Magnitude) (h : x.val ≠ 0) :
    point x < (significand x h).length ↔ ¬ ∃ n : ℕ, x.val = n := by
  have hpoint : point x = (shortest x).2 + (significand x h).length := rfl
  rw [integral_iff]
  omega

-- The two languages show a float alike where both use an exponent of two digits or more,
-- or where neither uses one and there are digits past the point.
theorem display_eq_repr_iff (negative : Bool) (x : binary64.Magnitude) :
    display negative x = repr negative x ↔
      x.val ≠ 0 ∧ ((10 : ℚ) ^ (21 : ℤ) ≤ decimal x ∨
        ((10 : ℚ) ^ (-4 : ℤ) ≤ decimal x ∧ ¬ ∃ n : ℕ, x.val = n) ∨
        decimal x < (10 : ℚ) ^ (-9 : ℤ)) := by
  by_cases hx : x.val = 0
  · refine iff_of_false ?_ (fun h => h.1 hx)
    intro h
    unfold display repr at h
    rw [dif_pos hx, dif_pos hx] at h
    exact absurd (congrArg (fun number => number.fraction) h) (by simp [integerNumeral, zeroNumeral])
  have hhigh := decimal_lt_pow_iff hx 21
  have hmid := decimal_lt_pow_iff hx (-4)
  have hlow := decimal_lt_pow_iff hx (-9)
  have hsmall : (¬ ∃ n : ℕ, x.val = n) → point x ≤ 16 :=
    fun h => (decimal_lt_pow_iff hx 16).mp (decimal_lt_of_not_integral h)
  rw [← not_lt, ← not_lt, hhigh, hmid, hlow]
  unfold display repr
  rw [dif_neg hx, dif_neg hx]
  by_cases hd : -6 < point x ∧ point x ≤ 21
  · rw [if_pos hd]
    by_cases hr : -4 < point x ∧ point x ≤ 16
    · rw [if_pos hr, Number.mk.injEq, positional_eq_iff, point_lt_length_iff x hx]
      constructor
      · exact fun h => ⟨hx, Or.inr (Or.inl ⟨by omega, h⟩)⟩
      · rintro ⟨-, h | ⟨-, h⟩ | h⟩
        · omega
        · exact h
        · omega
    · rw [if_neg hr, Number.mk.injEq]
      refine iff_of_false (positional_ne_scientific _ _ _ _ _ _ _ _) ?_
      rintro ⟨-, h | ⟨hlt, h⟩ | h⟩
      · omega
      · have hle := hsmall h
        omega
      · omega
  · rw [if_neg hd, if_neg (by omega), Number.mk.injEq, scientific_eq_iff]
    constructor
    · intro h
      refine ⟨hx, ?_⟩
      rcases le_or_gt (point x) (-9) with hle | hgt
      · exact Or.inr (Or.inr hle)
      · exact Or.inl (by omega)
    · rintro ⟨-, h | ⟨hlt, h⟩ | h⟩
      · omega
      · have hle := hsmall h
        omega
      · omega

end TrustlistCore.Library.Double
