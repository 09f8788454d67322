import TrustlistCore.Library.Float

namespace TrustlistCore.Library.Format

variable {format : Format}

def readsBack (x : format.Magnitude) (s : ℕ) (p : ℤ) : Bool :=
  format.nearest (s * (10 : ℚ) ^ p) = some x

-- Of the two multiples of `10 ^ p` around a magnitude, one that reads back as it; the
-- closer where both do, the even one on a tie.
def candidate (x : format.Magnitude) (p : ℤ) : Option ℕ :=
  let low := ⌊x.val / (10 : ℚ) ^ p⌋₊
  match readsBack x low p, readsBack x (low + 1) p with
  | true, true => some (roundEven (x.val / (10 : ℚ) ^ p))
  | true, false => some low
  | false, true => some (low + 1)
  | false, false => none

variable (format) in
-- From the exponent no magnitude reaches down to that of the least unit.
def exponents : List ℤ :=
  (List.range (format.precision + format.greatest - format.least + 1).toNat).map fun i : ℕ =>
    format.precision + format.greatest - (i : ℤ)

def search (x : format.Magnitude) : Option (ℕ × ℤ) :=
  (exponents format).findSome? fun p => (candidate x p).map fun s => (s, p)

theorem roundEven_cases (q : ℚ) : roundEven q = ⌊q⌋₊ ∨ roundEven q = ⌊q⌋₊ + 1 := by
  unfold roundEven
  simp only
  split
  · exact Or.inl rfl
  split
  · exact Or.inr rfl
  split
  · exact Or.inl rfl
  · exact Or.inr rfl

theorem nearest_of_candidate {x : format.Magnitude} {p : ℤ} {s : ℕ}
    (h : candidate x p = some s) : format.nearest (s * (10 : ℚ) ^ p) = some x := by
  unfold candidate at h
  simp only at h
  split at h <;> rename_i hlow hhigh <;>
    simp only [readsBack, decide_eq_true_eq] at hlow hhigh
  · obtain rfl := Option.some.inj h
    rcases roundEven_cases (x.val / (10 : ℚ) ^ p) with hs | hs <;> rw [hs]
    · exact hlow
    · exact hhigh
  · obtain rfl := Option.some.inj h
    exact hlow
  · obtain rfl := Option.some.inj h
    exact hhigh
  · exact absurd h (by simp)

theorem candidate_of_eq {x : format.Magnitude} {p : ℤ} {s : ℕ}
    (h : x.val = s * (10 : ℚ) ^ p) : (candidate x p).isSome = true := by
  have hquot : x.val / (10 : ℚ) ^ p = s := by
    rw [h]
    field_simp
  have hlow : readsBack x ⌊x.val / (10 : ℚ) ^ p⌋₊ p = true := by
    rw [hquot, Nat.floor_natCast]
    simp only [readsBack, decide_eq_true_eq]
    rw [← h, nearest_of_representable x.property]
    rfl
  unfold candidate
  simp only [hlow]
  split <;> simp_all

theorem mem_exponents {p : ℤ} :
    p ∈ exponents format ↔ format.least ≤ p ∧ p ≤ format.precision + format.greatest := by
  have hordered := format.ordered
  simp only [exponents, List.mem_map, List.mem_range]
  constructor
  · rintro ⟨i, hi, rfl⟩
    omega
  · rintro ⟨hleast, hgreatest⟩
    exact ⟨(format.precision + format.greatest - p).toNat, by omega, by omega⟩

theorem exponents_pairwise : (exponents format).Pairwise (· > ·) := by
  unfold exponents
  rw [List.pairwise_map]
  refine List.Pairwise.imp ?_ List.pairwise_lt_range
  intro i j hij
  omega

-- At the least unit every magnitude is a multiple of the power of ten.
theorem exact_at_least (x : format.Magnitude) : ∃ s : ℕ, x.val = s * (10 : ℚ) ^ format.least := by
  obtain ⟨m, e, -, hleast, -, hx⟩ := x.property
  have hfine := format.fine
  refine ⟨m * 2 ^ (e - format.least).toNat * 5 ^ (-format.least).toNat, ?_⟩
  have hfive : (5 : ℚ) ^ (-format.least).toNat * (10 : ℚ) ^ format.least =
      (2 : ℚ) ^ format.least := by
    rw [show (10 : ℚ) = 5 * 2 by norm_num, mul_zpow, ← zpow_natCast,
      show ((-format.least).toNat : ℤ) = -format.least by omega, ← mul_assoc,
      ← zpow_add₀ (by norm_num)]
    simp
  rw [hx, ← grid_point hleast]
  push_cast
  rw [mul_assoc _ _ ((10 : ℚ) ^ format.least), hfive]

theorem search_isSome (x : format.Magnitude) : (search x).isSome = true := by
  obtain ⟨s, hs⟩ := exact_at_least x
  obtain ⟨t, ht⟩ := Option.isSome_iff_exists.mp (candidate_of_eq hs)
  have hordered := format.ordered
  unfold search
  rw [List.findSome?_isSome_iff]
  exact ⟨format.least, mem_exponents.mpr ⟨le_refl _, by omega⟩, by simp [ht]⟩

-- The significand and the exponent of the shortest decimal that reads back.
@[irreducible]
def shortest (x : format.Magnitude) : ℕ × ℤ :=
  (search x).get (search_isSome x)

theorem search_eq (x : format.Magnitude) : search x = some (shortest x) := by
  unfold shortest
  exact (Option.some_get (search_isSome x)).symm

theorem candidate_shortest (x : format.Magnitude) :
    candidate x (shortest x).2 = some (shortest x).1 := by
  have hsearch := search_eq x
  unfold search at hsearch
  obtain ⟨p, -, hp⟩ := List.exists_of_findSome?_eq_some hsearch
  obtain ⟨s, hs, heq⟩ := Option.map_eq_some_iff.mp hp
  rw [← heq]
  exact hs

theorem nearest_shortest (x : format.Magnitude) :
    format.nearest ((shortest x).1 * (10 : ℚ) ^ (shortest x).2) = some x :=
  nearest_of_candidate (candidate_shortest x)

theorem le_shortest {x : format.Magnitude} {p : ℤ} (hp : p ∈ exponents format)
    (h : (candidate x p).isSome = true) : p ≤ (shortest x).2 := by
  have hsearch := search_eq x
  unfold search at hsearch
  obtain ⟨before, q, after, hlist, hq, hbefore⟩ := List.findSome?_eq_some_iff.mp hsearch
  obtain ⟨s, -, heq⟩ := Option.map_eq_some_iff.mp hq
  have hsecond : (shortest x).2 = q := by rw [← heq]
  rw [hsecond]
  have hpairwise : (exponents format).Pairwise (· > ·) := exponents_pairwise
  rw [hlist] at hp hpairwise
  rcases List.mem_append.mp hp with hp | hp
  · have hnone := hbefore p hp
    rw [Option.map_eq_none_iff] at hnone
    rw [hnone] at h
    exact absurd h (by simp)
  · rcases List.mem_cons.mp hp with rfl | hp
    · exact le_refl _
    · have hrest := (List.pairwise_append.mp hpairwise).2.1
      exact (List.rel_of_pairwise_cons hrest hp).le

theorem shortest_pos {x : format.Magnitude} (h : x.val ≠ 0) : 0 < (shortest x).1 := by
  rcases Nat.eq_zero_or_pos (shortest x).1 with hzero | hpos
  · have hnearest := nearest_shortest x
    rw [hzero, Nat.cast_zero, zero_mul, nearest_of_representable representable_zero] at hnearest
    exact absurd (congrArg Subtype.val (Option.some.inj hnearest)).symm h
  · exact hpos

end TrustlistCore.Library.Format
