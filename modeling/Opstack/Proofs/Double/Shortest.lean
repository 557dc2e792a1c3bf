import Opstack.Proofs.Double.Nearest

/-!
# The shortest decimal names its double

`Double.shortest` looks through finer and finer grids until one has a point in the interval of the
double.

* `ReadBack.search_cases`: where the search stops, and that it has passed over nothing.
* `Double.contains_shortest`: what it finds lies in the interval, so the decimal is read back as
  the double.
* `Double.exponent_shortest_nonneg_iff`: the decimal has no places exactly if the double is whole.
  A whole double is a point of the grid of whole numbers; another one is too far from all of them.
-/

set_option autoImplicit false

namespace Opstack
namespace Double

/-- The number that a decimal stands for. -/
def Decimal.value (x : Decimal) : ℚ := x.digits * 10 ^ x.exponent

namespace ReadBack

variable (r : ReadBack) (p : Int)

/-! ## One grid -/

theorem unitNum_div_unitDen : (r.unitNum p : ℚ) / r.unitDen p = 2 ^ r.unit / 10 ^ p := by
  have htwo := pow_toNat_div two_ne_zero r.unit
  have hten := pow_toNat_div (b := 10) (by decide) p
  rw [Nat.cast_ofNat] at htwo hten
  simp only [unitNum, unitDen, Nat.pow_eq]
  rw [← htwo, ← hten, Nat.cast_mul, Nat.cast_mul, div_div_div_eq]

theorem unitDen_pos : 0 < r.unitDen p :=
  Nat.mul_pos (Nat.two_pow_pos _) (Nat.pow_pos (by decide))

theorem mul_unitNum_le_iff (a k : Nat) :
    a * r.unitNum p ≤ k * r.unitDen p ↔ (a * 2 ^ r.unit : ℚ) ≤ k * 10 ^ p := by
  have hden : (0 : ℚ) < r.unitDen p := Nat.cast_pos.mpr (r.unitDen_pos p)
  have hten : (0 : ℚ) < 10 ^ p := by positivity
  rw [← div_le_iff₀ hten, mul_div_assoc, ← unitNum_div_unitDen, ← mul_div_assoc,
    div_le_iff₀ hden]
  exact_mod_cast Iff.rfl

theorem le_mul_unitNum_iff (a k : Nat) :
    k * r.unitDen p ≤ a * r.unitNum p ↔ (k * 10 ^ p : ℚ) ≤ a * 2 ^ r.unit := by
  have hden : (0 : ℚ) < r.unitDen p := Nat.cast_pos.mpr (r.unitDen_pos p)
  have hten : (0 : ℚ) < 10 ^ p := by positivity
  rw [← le_div_iff₀ hten, mul_div_assoc, ← unitNum_div_unitDen, ← mul_div_assoc,
    le_div_iff₀ hden]
  exact_mod_cast Iff.rfl

/-- The comparisons in whole numbers decide whether a point lies in the interval. -/
theorem holds_iff (k : Nat) : r.holds p k = true ↔ r.Contains (k * 10 ^ p) := by
  simp only [holds, Contains]
  split
  · rw [decide_eq_true_eq, mul_unitNum_le_iff, le_mul_unitNum_iff]
  · rw [decide_eq_true_eq, ← Nat.not_le, ← Nat.not_le, mul_unitNum_le_iff, le_mul_unitNum_iff,
      not_le, not_le]

/-- The centre is a point of the grid. -/
theorem mul_unitNum_eq_iff (a k : Nat) :
    a * r.unitNum p = k * r.unitDen p ↔ (a * 2 ^ r.unit : ℚ) = k * 10 ^ p := by
  rw [le_antisymm_iff, le_antisymm_iff, mul_unitNum_le_iff, le_mul_unitNum_iff]

variable {r p}

theorem holds_of_pick {k : Nat} (h : r.pick p = some k) : r.holds p k = true := by
  simp only [pick] at h
  split at h
  case h_1 hbelow habove =>
    split at h <;> cases h
    · exact hbelow
    · exact habove
  case h_2 hbelow _ =>
    cases h
    exact hbelow
  case h_3 _ habove =>
    cases h
    exact habove
  case h_4 => cases h

/-- A grid on which the centre lies has a point to pick. -/
theorem pick_isSome {k : Nat} (hk : r.centre * r.unitNum p = k * r.unitDen p)
    (hholds : r.holds p k = true) : (r.pick p).isSome = true := by
  have hbelow : r.centre * r.unitNum p / r.unitDen p = k := by
    rw [hk, Nat.mul_div_cancel _ (r.unitDen_pos p)]
  simp only [pick, hbelow, hholds]
  cases r.holds p (k + 1) with
  | true =>
    dsimp only
    split <;> rfl
  | false => rfl

/-! ## The search -/

/-- The search stops at the first grid with a point in the interval, or at the last one. -/
theorem search_cases (r : ReadBack) (n : Nat) (p : Int) :
    (∀ q, (r.search n p).exponent < q → q ≤ p → r.pick q = none) ∧
      (r.pick (r.search n p).exponent = some (r.search n p).digits ∨
        ((r.search n p).exponent = p - n ∧
          (r.search n p).digits = r.centre * r.unitNum (p - n) / r.unitDen (p - n))) := by
  induction n generalizing p with
  | zero =>
    refine ⟨fun q hlt hle => ?_, .inr ⟨?_, ?_⟩⟩
    · simp only [search] at hlt
      omega
    · simp [search]
    · simp [search]
  | succ n ih =>
    rw [search]
    cases hpick : r.pick p with
    | some k => exact ⟨fun q hlt hle => absurd hle (not_le.mpr hlt), .inl hpick⟩
    | none =>
      obtain ⟨hpassed, hstops⟩ := ih (p - 1)
      have hlast : p - 1 - (n : Int) = p - (n + 1 : Nat) := by omega
      rw [hlast] at hstops
      refine ⟨fun q hlt hle => ?_, hstops⟩
      rcases Int.lt_or_eq_of_le hle with hless | rfl
      · exact hpassed q hlt (by omega)
      · exact hpick

theorem finest_le_coarsest (r : ReadBack) : r.finest ≤ r.coarsest := by
  rw [finest, coarsest]
  omega

/-- The centre lies on the finest grid. -/
theorem unitDen_finest_dvd (r : ReadBack) : r.unitDen r.finest ∣ r.unitNum r.finest := by
  simp only [unitDen, unitNum, finest, Nat.pow_eq]
  rcases Int.le_total r.unit 0 with hneg | hpos
  · rw [min_eq_left hneg, Int.toNat_of_nonpos hneg, Nat.pow_zero, Nat.mul_one, Nat.one_mul]
    exact pow_dvd_pow_of_dvd (by decide) _
  · rw [min_eq_right hpos, Int.toNat_of_nonpos (Int.neg_nonpos_of_nonneg hpos)]
    exact one_dvd _

end ReadBack

/-! ## The decimal of a double -/

section

variable {d : Double}

theorem centre_mul_two_zpow (d : Double) :
    (d.readBack.centre : ℚ) * 2 ^ d.readBack.unit = d.absValue := by
  have hcentre : (d.readBack.centre : ℚ) = 4 * d.mantissa := by
    simp only [readBack]
    push_cast
    rfl
  rw [mul_two_zpow_unit, hcentre, absValue, mul_div_cancel_left₀ _ four_ne_zero]

/-- A double other than zero lies in its own interval. -/
theorem contains_absValue (hm : d.mantissa ≠ 0) : d.readBack.Contains d.absValue := by
  have hunit : (0 : ℚ) < 2 ^ d.readBack.unit := by positivity
  have hlow : d.readBack.low < d.readBack.centre := by
    simp only [readBack]
    split <;> omega
  have hhigh : d.readBack.centre < d.readBack.high := by
    simp only [readBack]
    omega
  have hlow' : (d.readBack.low * 2 ^ d.readBack.unit : ℚ) < d.absValue := by
    rw [← centre_mul_two_zpow]
    gcongr
  have hhigh' : (d.absValue : ℚ) < d.readBack.high * 2 ^ d.readBack.unit := by
    rw [← centre_mul_two_zpow]
    gcongr
  rw [ReadBack.Contains]
  split
  · exact ⟨hlow'.le, hhigh'.le⟩
  · exact ⟨hlow', hhigh'⟩

theorem shortest_of_mantissa_ne_zero (hm : d.mantissa ≠ 0) :
    d.shortest = d.readBack.search (d.readBack.coarsest - d.readBack.finest).toNat
      d.readBack.coarsest := if_neg hm

/-- **The shortest decimal of a double lies in its interval.** -/
theorem contains_shortest (hm : d.mantissa ≠ 0) : d.readBack.Contains d.shortest.value := by
  have hle := d.readBack.finest_le_coarsest
  have hlast : d.readBack.coarsest - ((d.readBack.coarsest - d.readBack.finest).toNat : Int) =
      d.readBack.finest := by omega
  obtain ⟨-, hpick | ⟨hexponent, hdigits⟩⟩ := d.readBack.search_cases
    (d.readBack.coarsest - d.readBack.finest).toNat d.readBack.coarsest
  · rw [Decimal.value, shortest_of_mantissa_ne_zero hm]
    exact (ReadBack.holds_iff ..).mp (ReadBack.holds_of_pick hpick)
  · rw [hlast] at hexponent hdigits
    have hcentre : d.readBack.centre * d.readBack.unitNum d.readBack.finest =
        d.shortest.digits * d.readBack.unitDen d.readBack.finest := by
      rw [shortest_of_mantissa_ne_zero hm, hdigits, Nat.div_mul_cancel]
      exact (d.readBack.unitDen_finest_dvd).mul_left _
    rw [ReadBack.mul_unitNum_eq_iff, centre_mul_two_zpow] at hcentre
    have hvalue : d.shortest.value = d.absValue := by
      rw [hcentre, Decimal.value, shortest_of_mantissa_ne_zero hm, hexponent]
    rw [hvalue]
    exact contains_absValue hm

/-! ## Whole numbers -/

theorem RoundsTo.eq_of_natCast {n q : Nat} (h : RoundsTo n q) : n = q := by
  obtain ⟨⟨hlow, hhigh⟩, -⟩ := h
  have hle : (n : ℚ) < (q + 1 : Nat) := by
    push_cast
    linarith
  have hge : (q : ℚ) < (n + 1 : Nat) := by
    push_cast
    linarith
  have := Nat.cast_lt.mp hle
  have := Nat.cast_lt.mp hge
  omega

/-- The grid of whole numbers is not passed over before the search begins. -/
theorem coarsest_nonneg_of_isWhole (hm : d.mantissa ≠ 0) (hwhole : d.isWhole = true) :
    0 ≤ d.readBack.coarsest := by
  have hpos : (0 : ℚ) < 2 ^ d.readBack.unit := by positivity
  have hcentre : d.readBack.centre ≠ 0 := by
    simp only [readBack]
    omega
  have hvalue : (0 : ℚ) < d.absValue := by
    rw [← centre_mul_two_zpow]
    positivity
  have hone : (1 : ℚ) ≤ d.absValue := by
    rw [← wholePart_of_isWhole hwhole] at hvalue ⊢
    exact_mod_cast hvalue
  have hless : (1 : ℚ) < 2 ^ ((d.readBack.centre.log2 : Int) + 1 + d.readBack.unit) := by
    rw [zpow_add₀ two_ne_zero]
    calc (1 : ℚ) ≤ d.readBack.centre * 2 ^ d.readBack.unit := by rwa [centre_mul_two_zpow]
      _ < _ := by
        gcongr
        exact (log2_bounds hcentre).2
  rw [one_lt_zpow_iff_right₀ one_lt_two] at hless
  rw [ReadBack.coarsest]
  omega

/-- **The shortest decimal has no places exactly if the double is whole.** -/
theorem exponent_shortest_nonneg_iff (d : Double) :
    0 ≤ d.shortest.exponent ↔ d.isWhole = true := by
  by_cases hm : d.mantissa = 0
  · rw [shortest, if_pos hm, isWhole, hm, Nat.zero_mod]
    exact iff_of_true (Int.le_refl 0) rfl
  constructor
  · intro hexponent
    obtain ⟨n, hn⟩ := Int.eq_ofNat_of_zero_le hexponent
    have hrounds := roundsTo_of_contains hm (contains_shortest hm)
    rw [isWhole_iff_dvd]
    rcases Int.le_total 0 d.exponent with hnonneg | hneg
    · rw [Int.toNat_of_nonpos (Int.neg_nonpos_of_nonneg hnonneg)]
      exact one_dvd _
    · -- In units of the mantissa the decimal is a whole number, so it is the mantissa.
      have hunits : d.shortest.value / 2 ^ d.exponent =
          (d.shortest.digits * 10 ^ n * 2 ^ (-d.exponent).toNat : Nat) := by
        have hpow : (2 : ℚ) ^ d.exponent = (2 ^ (-d.exponent).toNat)⁻¹ := by
          rw [← zpow_natCast, Int.toNat_of_nonneg (by omega), zpow_neg, inv_inv]
        rw [Decimal.value, hn, hpow, div_inv_eq_mul]
        push_cast
        rfl
      rw [hunits] at hrounds
      exact ⟨_, (hrounds.eq_of_natCast.symm.trans (Nat.mul_comm ..))⟩
  · intro hwhole
    by_contra hneg
    have hcoarsest := coarsest_nonneg_of_isWhole hm hwhole
    have hpassed := (d.readBack.search_cases
      (d.readBack.coarsest - d.readBack.finest).toNat d.readBack.coarsest).1 0
    rw [← shortest_of_mantissa_ne_zero hm] at hpassed
    have hpoint : d.absValue = d.wholePart * 10 ^ (0 : Int) := by
      rw [zpow_zero, mul_one, wholePart_of_isWhole hwhole]
    have hsome := ReadBack.pick_isSome (r := d.readBack) (p := 0) (k := d.wholePart)
      (by rw [ReadBack.mul_unitNum_eq_iff, centre_mul_two_zpow, hpoint])
      (by rw [ReadBack.holds_iff, ← hpoint]; exact contains_absValue hm)
    rw [hpassed (by omega) hcoarsest] at hsome
    cases hsome

end

end Double
end Opstack
