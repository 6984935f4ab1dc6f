import Toal.Number.Shortest
import Toal.Proofs.Rounding
import Mathlib.Data.Nat.Cast.Order.Field

/-!
# The shortest decimal reads back

The decimal that is written for a magnitude is found on grids of decimals that get finer and
finer: on each of them the two points around the magnitude are tried, in natural numbers. A point
that is accepted is rounded to the magnitude (`near_of_onGrid?`), since the comparisons are those
between the point and the two midpoints. And some point is accepted: there are more decimals
with seventeen digits than there are magnitudes, so that on the seventeenth grid one of the two
points lies between the midpoints (`isSome_onGrid?_of_le`).

* `near_shortest`: the shortest decimal of a magnitude is rounded to it.
-/

namespace Toal.Number

/-- The rational that the decimal is. -/
def Decimal.value (d : Decimal) : ℚ := d.digits * 10 ^ d.exponent

/-- An integer power is the quotient of two natural ones. -/
theorem pow_toNat {b : ℚ} (hb : b ≠ 0) (k : ℤ) : b ^ k.toNat = b ^ k * b ^ (-k).toNat := by
  rw [← zpow_natCast, ← zpow_natCast, ← zpow_add₀ hb]
  congr 1
  omega

/-! ## Trailing zeros and leading digits -/

/-- Removing trailing zeros does not change the value. -/
theorem Decimal.value_trim (d : Decimal) : d.trim.value = d.value := by
  fun_induction trim d with
  | case1 d h ih =>
    have hdigits : d.digits = d.digits / 10 * 10 :=
      (Nat.div_mul_cancel (Nat.dvd_of_mod_eq_zero h.2)).symm
    rw [ih, value, value, zpow_add_one₀ (by norm_num)]
    conv_rhs => rw [hdigits]
    push_cast
    ring
  | case2 d h => rfl

/-- Every number has a digit. -/
theorem digitCount_pos (n : ℕ) : 0 < digitCount n := by
  unfold digitCount
  split <;> omega

/-- A number is below the power of ten that has one digit more. -/
theorem lt_pow_digitCount (n : ℕ) : n < 10 ^ digitCount n := by
  fun_induction digitCount n with
  | case1 n h => exact h
  | case2 n h ih =>
    rw [pow_succ]
    omega

/-- A positive number is at least the power of ten with as many digits. -/
theorem pow_digitCount_le {n : ℕ} (hn : 0 < n) : 10 ^ (digitCount n - 1) ≤ n := by
  fun_induction digitCount n with
  | case1 n h => exact hn
  | case2 n h ih =>
    have hle := ih (by omega)
    have hcount := digitCount_pos (n / 10)
    have hpower : 10 ^ (digitCount (n / 10) + 1 - 1) = 10 ^ (digitCount (n / 10) - 1) * 10 := by
      rw [← pow_succ]
      congr 1
      omega
    rw [hpower]
    omega

/-- The power of the leading digit of a quotient is at most the quotient. -/
theorem ten_zpow_leadingPower_le {n d : ℕ} (hn : 0 < n) (hd : 0 < d) :
    (10 : ℚ) ^ leadingPower n d ≤ n / d := by
  have hd' : (0 : ℚ) < d := by exact_mod_cast hd
  unfold leadingPower
  split
  · next hle =>
    have hcount := digitCount_pos (n / d)
    have hexponent : ((digitCount (n / d) : ℤ) - 1) = ((digitCount (n / d) - 1 : ℕ) : ℤ) := by omega
    rw [hexponent, zpow_natCast]
    calc ((10 : ℚ) ^ (digitCount (n / d) - 1)) ≤ (n / d : ℕ) := by
          exact_mod_cast pow_digitCount_le (Nat.div_pos hle hd)
      _ ≤ (n : ℚ) / d := Nat.cast_div_le
  · next hlt =>
    have hquotient := (Nat.div_lt_iff_lt_mul hn).1 (lt_pow_digitCount ((d - 1) / n))
    have hle : (d : ℚ) ≤ 10 ^ digitCount ((d - 1) / n) * n := by
      have hcast : d ≤ 10 ^ digitCount ((d - 1) / n) * n := by omega
      exact_mod_cast hcast
    rw [zpow_neg, zpow_natCast, inv_eq_one_div, div_le_div_iff₀ (by positivity) hd']
    linarith

/-! ## Points of a grid -/

section Points

theorem tenPow_cast (j : ℕ) : (tenPow j : ℚ) = 10 ^ j := by
  rw [tenPow, Nat.pow_eq, Nat.cast_pow, Nat.cast_ofNat]

theorem twoPow_cast (j : ℕ) : (twoPow j : ℚ) = 2 ^ j := by
  rw [twoPow, Nat.pow_eq, Nat.cast_pow, Nat.cast_ofNat]

variable (n k scale : ℕ) (power : ℤ)

/-- A point of a grid in the common scale. -/
theorem point_cast : ((k * (scale * tenPow power.toNat) : ℕ) : ℚ) =
    k * 10 ^ power * scale * tenPow (-power).toNat := by
  rw [Nat.cast_mul, Nat.cast_mul, tenPow_cast, tenPow_cast, pow_toNat (by norm_num) power]
  ring

theorem fine_pos : (0 : ℚ) < tenPow (-power).toNat := by
  rw [tenPow_cast]
  positivity

/-- Comparing with a point of a grid in the common scale is comparing with the point. -/
theorem le_point_iff : n * tenPow (-power).toNat ≤ k * (scale * tenPow power.toNat) ↔
    (n : ℚ) ≤ k * 10 ^ power * scale := by
  rw [← Nat.cast_le (α := ℚ), point_cast, Nat.cast_mul, mul_le_mul_iff_left₀ (fine_pos power)]

theorem point_le_iff : k * (scale * tenPow power.toNat) ≤ n * tenPow (-power).toNat ↔
    k * 10 ^ power * scale ≤ (n : ℚ) := by
  rw [← Nat.cast_le (α := ℚ), point_cast, Nat.cast_mul, mul_le_mul_iff_left₀ (fine_pos power)]

theorem lt_point_iff : n * tenPow (-power).toNat < k * (scale * tenPow power.toNat) ↔
    (n : ℚ) < k * 10 ^ power * scale := by
  rw [← not_le, ← not_le, point_le_iff]

theorem point_lt_iff : k * (scale * tenPow power.toNat) < n * tenPow (-power).toNat ↔
    k * 10 ^ power * scale < (n : ℚ) := by
  rw [← not_le, ← not_le, le_point_iff]

end Points

namespace Magnitude

variable {a : Magnitude}

theorem scale_pos (a : Magnitude) : (0 : ℚ) < a.around.scale := by
  rw [around, twoPow_cast]
  positivity

theorem unit_cast (a : Magnitude) :
    (twoPow (a.exponent - 2).toNat : ℚ) = 2 ^ (a.exponent - 2) * a.around.scale := by
  rw [around, twoPow_cast, twoPow_cast, pow_toNat (by norm_num), neg_sub]

/-- The magnitude in the common scale. -/
theorem around_value (a : Magnitude) : (a.around.value : ℚ) = a.value * a.around.scale := by
  have hvalue : a.around.value = 4 * a.mantissa * twoPow (a.exponent - 2).toNat := rfl
  rw [hvalue, Nat.cast_mul, unit_cast, value, zpow_sub₀ (by norm_num)]
  push_cast
  ring

/-- The lower midpoint in the common scale. -/
theorem around_low (ha : 0 < a.mantissa) : (a.around.low : ℚ) =
    (4 * a.mantissa - a.below) * 2 ^ (a.exponent - 2) * a.around.scale := by
  have hlow : a.around.low = (4 * a.mantissa - a.below) * twoPow (a.exponent - 2).toNat := rfl
  have hbelow := a.below_le
  rw [hlow, Nat.cast_mul, unit_cast, Nat.cast_sub (by omega)]
  push_cast
  ring

/-- The upper midpoint in the common scale. -/
theorem around_high (a : Magnitude) : (a.around.high : ℚ) =
    (4 * a.mantissa + 2) * 2 ^ (a.exponent - 2) * a.around.scale := by
  have hhigh : a.around.high = (4 * a.mantissa + 2) * twoPow (a.exponent - 2).toNat := rfl
  rw [hhigh, Nat.cast_mul, unit_cast]
  push_cast
  ring

/-- A point of a grid is accepted if it is rounded to the magnitude. -/
theorem holds_iff (ha : 0 < a.mantissa) (k : ℕ) (power : ℤ) :
    a.around.holds (a.around.low * tenPow (-power).toNat) (a.around.high * tenPow (-power).toNat)
      (k * (a.around.scale * tenPow power.toNat)) = true ↔ a.Near (k * 10 ^ power) := by
  have hscale := a.scale_pos
  have hclosed : a.around.closed = decide (a.mantissa % 2 = 0) := rfl
  unfold Around.holds
  rw [hclosed]
  by_cases heven : a.mantissa % 2 = 0
  · rw [if_pos (decide_eq_true heven), Bool.and_eq_true, decide_eq_true_iff, decide_eq_true_iff,
      le_point_iff, point_le_iff, around_low ha, around_high, mul_le_mul_iff_left₀ hscale,
      mul_le_mul_iff_left₀ hscale]
    refine ⟨fun h => ⟨h.1, h.2, fun hodd => ?_, fun hodd => ?_⟩, fun h => ⟨h.low, h.high⟩⟩
    · omega
    · omega
  · rw [if_neg (by simpa using heven), Bool.and_eq_true, decide_eq_true_iff, decide_eq_true_iff,
      lt_point_iff, point_lt_iff, around_low ha, around_high, mul_lt_mul_iff_left₀ hscale,
      mul_lt_mul_iff_left₀ hscale]
    exact ⟨fun h => .of_lt h.1 h.2, fun h => ⟨h.low_odd (by omega), h.high_odd (by omega)⟩⟩

/-- The point of a grid below the magnitude. -/
def pointBelow (a : Magnitude) (power : ℤ) : ℕ :=
  a.around.value * tenPow (-power).toNat / (a.around.scale * tenPow power.toNat)

/-- The point below a magnitude does not lie above it. -/
theorem pointBelow_le (a : Magnitude) (power : ℤ) : a.pointBelow power * 10 ^ power ≤ a.value := by
  have hle := (point_le_iff a.around.value (a.pointBelow power) a.around.scale power).1
    (Nat.div_mul_le_self _ _)
  rwa [around_value, mul_le_mul_iff_left₀ a.scale_pos] at hle

/-- The next point of the grid lies above the magnitude. -/
theorem lt_pointBelow_succ (a : Magnitude) (power : ℤ) :
    a.value < (a.pointBelow power + 1) * 10 ^ power := by
  have hpos : 0 < a.around.scale * tenPow power.toNat := by
    refine Nat.mul_pos ?_ (Nat.pow_pos (by decide))
    exact_mod_cast a.scale_pos
  have hlt := (lt_point_iff a.around.value (a.pointBelow power + 1) a.around.scale power).1
    ((Nat.div_lt_iff_lt_mul hpos).1 (Nat.lt_succ_self _))
  rw [around_value, mul_lt_mul_iff_left₀ a.scale_pos] at hlt
  exact_mod_cast hlt

/-- What is found on a grid is rounded to the magnitude. -/
theorem near_of_onGrid? (ha : 0 < a.mantissa) {power : ℤ} {d : Decimal}
    (h : a.around.onGrid? power = some d) : a.Near d.value := by
  unfold Around.onGrid? at h
  dsimp only at h
  split at h
  · next hbelow habove =>
    cases h
    unfold Decimal.value
    dsimp only
    split
    · exact (holds_iff ha _ _).1 hbelow
    · exact (holds_iff ha _ _).1 habove
  · next hbelow _ =>
    cases h
    exact (holds_iff ha _ _).1 hbelow
  · next _ habove =>
    cases h
    exact (holds_iff ha _ _).1 habove
  · cases h

/-- If the point below or the one above is rounded to the magnitude, then something is
    found on the grid. -/
theorem isSome_onGrid? (ha : 0 < a.mantissa) {power : ℤ}
    (h : a.Near (a.pointBelow power * 10 ^ power) ∨
      a.Near ((a.pointBelow power + 1 : ℕ) * 10 ^ power)) :
    (a.around.onGrid? power).isSome = true := by
  rw [← holds_iff ha, ← holds_iff ha] at h
  unfold Around.onGrid?
  dsimp only
  split
  · rfl
  · rfl
  · rfl
  · next hbelow habove =>
    rcases h with h | h
    · cases hbelow.symm.trans h
    · cases habove.symm.trans h

/-! ## Seventeen digits -/

/-- On a grid with sixteen places after the leading digit of the magnitude, one of the two points
    around it is rounded to it. -/
theorem isSome_onGrid?_of_le (ha : a.Canonical) (hpos : 0 < a.mantissa) {top : ℤ}
    (htop : (10 : ℚ) ^ top ≤ a.value) : (a.around.onGrid? (top - 16)).isSome = true := by
  have hpoint := a.pointBelow_le (top - 16)
  have hnext := a.lt_pointBelow_succ (top - 16)
  have hvalue : a.value = 4 * (a.mantissa * 2 ^ (a.exponent - 2)) := by
    rw [value, zpow_sub₀ (by norm_num)]
    ring
  have hstep : (10 : ℚ) ^ (top - 16) * 10 ^ 16 ≤ a.value := by
    rwa [← zpow_natCast (10 : ℚ) 16, ← zpow_add₀ (by norm_num), Nat.cast_ofNat, sub_add_cancel]
  apply isSome_onGrid? hpos
  rw [Nat.cast_add_one]
  rw [hvalue] at hpoint hnext hstep
  have hunit := two_zpow_pos (a.exponent - 2)
  generalize (a.pointBelow (top - 16) : ℚ) = k at *
  generalize (10 : ℚ) ^ (top - 16) = step at *
  by_cases hpower : a.mantissa = 2 ^ 52 ∧ leastExponent < a.exponent
  · -- Above a power of two the points are less than half a place apart.
    have hbelow : a.below = 1 := if_pos hpower
    have hmantissa : (a.mantissa : ℚ) = 2 ^ 52 := by exact_mod_cast hpower.1
    rw [hmantissa] at hpoint hnext hstep
    refine .inr (Near.of_lt ?_ ?_)
    · rw [hmantissa, hbelow, Nat.cast_one]
      linarith
    · rw [hmantissa]
      linarith
  · -- Elsewhere they are less than a place apart, and the nearer one will do.
    have hbelow : a.below = 2 := if_neg hpower
    have hbits : ((a.mantissa : ℚ) + 1) * 2 ^ (a.exponent - 2) ≤ 2 ^ 53 * 2 ^ (a.exponent - 2) :=
      mul_le_mul_of_nonneg_right (by exact_mod_cast ha.mantissa_lt) hunit.le
    by_cases hlow : (4 * a.mantissa - a.below) * 2 ^ (a.exponent - 2) < k * step
    · refine .inl (Near.of_lt hlow ?_)
      linarith
    · refine .inr (Near.of_lt ?_ ?_)
      · rw [hbelow]
        push_cast
        linarith
      · rw [hbelow] at hlow
        push_cast at hlow
        linarith

/-- The shortest decimal of a magnitude is rounded to it. -/
theorem near_shortest (ha : a.Canonical) (hpos : 0 < a.mantissa) : a.Near a.shortest.value := by
  have hscale : 0 < a.around.scale := by exact_mod_cast a.scale_pos
  have hvalue : 0 < a.around.value :=
    Nat.mul_pos (Nat.mul_pos (by decide) hpos) (Nat.pow_pos (by decide))
  have htop : (10 : ℚ) ^ leadingPower a.around.value a.around.scale ≤ a.value := by
    have hle := ten_zpow_leadingPower_le hvalue hscale
    rwa [around_value, mul_div_cancel_right₀ _ a.scale_pos.ne'] at hle
  unfold shortest
  dsimp only
  split
  · next d hd =>
    obtain ⟨n, -, hn⟩ := List.exists_of_findSome?_eq_some hd
    rw [Decimal.value_trim]
    exact near_of_onGrid? hpos hn
  · next hnone =>
    have hlast := List.findSome?_eq_none_iff.1 hnone 16 (List.mem_range.2 (by decide))
    have hsome := isSome_onGrid?_of_le ha hpos htop
    rw [Nat.cast_ofNat] at hlast
    rw [hlast] at hsome
    cases hsome

/-- A positive magnitude has a shortest decimal with positive digits. -/
theorem digits_shortest_pos (ha : a.Canonical) (hpos : 0 < a.mantissa) : 0 < a.shortest.digits := by
  have hlow := (near_shortest ha hpos).low
  refine Nat.pos_of_ne_zero fun hzero => ?_
  rw [Decimal.value, hzero, Nat.cast_zero, zero_mul] at hlow
  have hbelow : (a.below : ℚ) ≤ 2 := by exact_mod_cast a.below_le
  have hone : (1 : ℚ) ≤ a.mantissa := by exact_mod_cast hpos
  exact absurd hlow (not_le.2 (mul_pos (by linarith) (two_zpow_pos _)))

end Magnitude

end Toal.Number
