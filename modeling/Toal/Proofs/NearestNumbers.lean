import Toal.Number.Numeral
import Toal.Proofs.Packing

/-!
# The number nearest to a decimal

The value of a numeral is a natural number divided by a power of ten. `Float.ofScientific`
divides numbers where both are numbers exactly, and otherwise it divides natural numbers and
rounds the quotient, for which a few bits more than a mantissa has are enough.

* `isNearest_ofScientific`: in either case the result is the number nearest to the quotient
  (`IsNearest`), of which there is only one (`IsNearest.unique`).
-/

namespace Toal.Number

open Float.Model (Format UnpackedFloat totalExponent)
open Float.Model.UnpackedFloat (Sign Accuracy ExtendedMantissa roundWithAccuracy divCore
  accuracyOfFraction)

variable {a : Magnitude} {r : ℚ}

/-! ## Exact magnitudes -/

/-- A magnitude is nearest to its own value. -/
theorem Magnitude.near_value (a : Magnitude) : a.Near a.value := by
  have hpos := two_zpow_pos (a.exponent - 2)
  have hvalue : a.value = 4 * a.mantissa * 2 ^ (a.exponent - 2) := by
    rw [value, quarters (a.mantissa * 2 ^ a.exponent) a.exponent,
      mul_div_cancel_right₀ _ (two_zpow_pos a.exponent).ne']
  have hbelow : (0 : ℚ) < a.below := by
    unfold below
    split <;> norm_num
  rw [hvalue]
  refine .of_lt ?_ ?_
  · exact mul_lt_mul_of_pos_right (by linarith) hpos
  · exact mul_lt_mul_of_pos_right (by linarith) hpos

/-! ## Quotients -/

theorem represents_exact (m : ℕ) : Represents (.ofMantissaAndAccuracy m .exact) m := by
  have hhalf : half (.ofMantissaAndAccuracy m .exact) = 0 := rfl
  have hmantissa : ((ExtendedMantissa.ofMantissaAndAccuracy m .exact).mantissa : ℚ) = m := rfl
  refine ⟨?_, ?_, ?_⟩
  all_goals rw [hhalf, hmantissa]
  · linarith
  · linarith
  · exact ⟨fun hsticky => absurd hsticky Bool.false_ne_true, fun hlt => absurd hlt (by simp)⟩

/-- The fraction that a division leaves says which bits have been cut off. -/
theorem represents_div (m : ℕ) {n : ℕ} (hn : 0 < n) :
    Represents (.ofMantissaAndAccuracy (m / n) (accuracyOfFraction (m % n) n)) ((m : ℚ) / n) := by
  have hpos : (0 : ℚ) < n := by exact_mod_cast hn
  have hrest : ((m % n : ℕ) : ℚ) < n := by exact_mod_cast Nat.mod_lt m hn
  have hsplit : (m : ℚ) / n = ((m / n : ℕ) : ℚ) + ((m % n : ℕ) : ℚ) / n := by
    rw [add_div' _ _ _ hpos.ne', div_left_inj' hpos.ne']
    exact_mod_cast (Nat.div_add_mod' m n).symm
  rw [hsplit]
  generalize m / n = q
  generalize m % n = rest at *
  have hfraction : (rest : ℚ) / n < 1 := (div_lt_one hpos).2 hrest
  unfold accuracyOfFraction
  rcases Nat.eq_zero_or_pos rest with rfl | hrest
  · rw [if_pos rfl, Nat.cast_zero, zero_div, add_zero]
    exact represents_exact q
  · have hrest' : (0 : ℚ) < (rest : ℚ) / n := div_pos (by exact_mod_cast hrest) hpos
    rw [if_neg hrest.ne']
    -- Below a half only the sticky bit is set, at a half only the round bit, and above it both.
    rcases lt_trichotomy (2 * rest) n with hlt | heq | hgt
    · have hhalf : (rest : ℚ) / n < 1 / 2 := by
        rw [div_lt_div_iff₀ hpos (by norm_num)]
        exact_mod_cast (by omega : rest * 2 < 1 * n)
      rw [Nat.compare_eq_lt.2 hlt]
      have hbit : half (.ofMantissaAndAccuracy q (.inexact .lt)) = 0 := rfl
      refine ⟨?_, ?_, iff_of_true rfl ?_⟩
      all_goals
        rw [hbit]
        dsimp only [ExtendedMantissa.ofMantissaAndAccuracy]
        linarith
    · have hhalf : (rest : ℚ) / n = 1 / 2 := by
        rw [div_eq_div_iff hpos.ne' (by norm_num)]
        exact_mod_cast (by omega : rest * 2 = 1 * n)
      rw [Nat.compare_eq_eq.2 heq, hhalf]
      have hbit : half (.ofMantissaAndAccuracy q (.inexact .eq)) = 1 / 2 := rfl
      refine ⟨?_, ?_, iff_of_false Bool.false_ne_true ?_⟩
      all_goals
        rw [hbit]
        dsimp only [ExtendedMantissa.ofMantissaAndAccuracy]
        linarith
    · have hhalf : 1 / 2 < (rest : ℚ) / n := by
        rw [div_lt_div_iff₀ (by norm_num) hpos]
        exact_mod_cast (by omega : 1 * n < rest * 2)
      rw [Nat.compare_eq_gt.2 hgt]
      have hbit : half (.ofMantissaAndAccuracy q (.inexact .gt)) = 1 / 2 := rfl
      refine ⟨?_, ?_, iff_of_true rfl ?_⟩
      all_goals
        rw [hbit]
        dsimp only [ExtendedMantissa.ofMantissaAndAccuracy]
        linarith

/-- The quotient has bits enough. -/
theorem le_log2_div {m n : ℕ} (hm : 0 < m) (hn : 0 < n) (k : ℕ) :
    (m.log2 : ℤ) + k - n.log2 ≤ (m <<< k / n).log2 + 1 := by
  by_cases hsmall : m.log2 + k ≤ n.log2
  · omega
  · obtain ⟨j, hj⟩ := Nat.exists_eq_add_of_lt (not_le.1 hsmall)
    have hbits : 2 ^ j ≤ m <<< k / n := by
      rw [Nat.le_div_iff_mul_le hn, Nat.shiftLeft_eq]
      calc 2 ^ j * n ≤ 2 ^ j * 2 ^ (n.log2 + 1) :=
            Nat.mul_le_mul_left _ Nat.lt_log2_self.le
        _ = 2 ^ m.log2 * 2 ^ k := by
          rw [← Nat.pow_add, ← Nat.pow_add]
          congr 1
          omega
        _ ≤ m * 2 ^ k := Nat.mul_le_mul_right _ (Nat.log2_self_le hm.ne')
    have hpos : 0 < m <<< k / n := lt_of_lt_of_le (Nat.two_pow_pos j) hbits
    have hlog := (Nat.le_log2 hpos.ne').2 hbits
    omega

/-- The quotient of two finite numbers is rounded to the nearest one. -/
theorem exists_near_div (s s' : Sign) {m n : ℕ} (q q' : ℤ) (hm : 0 < m) (hn : 0 < n) :
    ∃ a : Magnitude, a.Canonical ∧ a.Near (m * 2 ^ q / (n * 2 ^ q')) ∧
      UnpackedFloat.div Format.binary64 (.finite s m q hm) (.finite s' n q' hn) =
        a.unpacked (s / s') := by
  have htarget := targetExponent_eq (totalExponent m q - totalExponent n q')
  change ∃ a : Magnitude, a.Canonical ∧ a.Near (m * 2 ^ q / (n * 2 ^ q')) ∧
    roundWithAccuracy Format.binary64 (s / s') (divCore Format.binary64 m q n q').1
      (divCore Format.binary64 m q n q').2.1 (divCore Format.binary64 m q n q').2.2 = _
  unfold divCore
  dsimp only
  generalize Format.binary64.targetExponent (totalExponent m q - totalExponent n q') = t at *
  generalize hk : (q - q' - min (q - q') t).toNat = k
  have hshift : q - q' = min (q - q') t + k := by omega
  refine exists_near_roundWithAccuracy (s / s') ?_ ?_
  · have hquotient : (m * 2 ^ q / (n * 2 ^ q') / 2 ^ min (q - q') t : ℚ) =
        ((m <<< k : ℕ) : ℚ) / n := by
      have hpowers : (2 : ℚ) ^ q = 2 ^ q' * 2 ^ min (q - q') t * 2 ^ k := by
        rw [← zpow_natCast, ← zpow_add₀ (by norm_num), ← zpow_add₀ (by norm_num)]
        congr 1
        omega
      have hq' := (two_zpow_pos q').ne'
      have hmin := (two_zpow_pos (min (q - q') t)).ne'
      have hn' : (n : ℚ) ≠ 0 := by exact_mod_cast hn.ne'
      rw [hpowers, Nat.shiftLeft_eq]
      push_cast
      field_simp
    rw [hquotient]
    exact represents_div (m <<< k) hn
  · have hbits := le_log2_div hm hn k
    rw [targetExponent_eq]
    unfold totalExponent at *
    omega

/-! ## Decimals -/

theorem canonical_zero : Magnitude.Canonical ⟨0, leastExponent⟩ :=
  ⟨by norm_num, le_refl _, .inr rfl⟩

/-- Up to half of the least magnitude, zero is nearest. -/
theorem near_zero (hr : 0 ≤ r) (hle : r ≤ 2 ^ (-1075 : ℤ)) :
    Magnitude.Near ⟨0, leastExponent⟩ r := by
  have hodd : ¬0 % 2 = 1 := by decide
  have hunit : (2 : ℚ) ^ (-1075 : ℤ) = 2 * 2 ^ (leastExponent - 2) := by
    rw [leastExponent, show (-1075 : ℤ) = -1074 - 2 + 1 by norm_num, zpow_add_one₀ (by norm_num),
      mul_comm]
  -- Zero is even, so the midpoint above it is rounded to it.
  refine ⟨?_, ?_, fun h => absurd h hodd, fun h => absurd h hodd⟩
  · have hbelow : Magnitude.below ⟨0, leastExponent⟩ = 2 := rfl
    rw [hbelow]
    have hpos := two_zpow_pos (leastExponent - 2)
    push_cast
    linarith
  · rw [hunit] at hle
    push_cast
    linarith

/-- A decimal with too many places is zero. -/
theorem le_of_places {m k : ℕ} (h : 2 ^ 11 + m.log2 < k) :
    (m : ℚ) / 10 ^ k ≤ 2 ^ (-1075 : ℤ) := by
  have hm : (m : ℚ) ≤ 2 ^ (m.log2 + 1) := by exact_mod_cast Nat.lt_log2_self.le
  have hten : (2 : ℚ) ^ k ≤ 10 ^ k := pow_le_pow_left₀ (by norm_num) (by norm_num) k
  calc (m : ℚ) / 10 ^ k ≤ 2 ^ (m.log2 + 1) / 2 ^ k := by gcongr
    _ = 2 ^ (((m.log2 + 1 : ℕ) : ℤ) - (k : ℤ)) := by
      rw [zpow_sub₀ (by norm_num), zpow_natCast, zpow_natCast]
    _ ≤ 2 ^ (-1075 : ℤ) := zpow_le_zpow_right₀ (by norm_num) (by push_cast; omega)

/-- A natural number is shifted, so that it has bits enough, and rounded. -/
theorem exists_near_mul {m : ℕ} (hm : 0 < m) :
    ∃ a : Magnitude, a.Canonical ∧ a.Near m ∧
      roundWithAccuracy Format.binary64 .positive (m <<< 53 * 10 ^ 0) (-53 + 0) .exact =
        a.unpacked .positive := by
  have hshift : m <<< 53 * 10 ^ 0 = m * 2 ^ 53 := by rw [Nat.shiftLeft_eq, pow_zero, mul_one]
  rw [hshift, add_zero]
  refine exists_near_roundWithAccuracy .positive ?_ ?_
  · have hscaled : (m : ℚ) / 2 ^ (-53 : ℤ) = ((m * 2 ^ 53 : ℕ) : ℚ) := by
      rw [zpow_neg, div_inv_eq_mul]
      push_cast
      norm_num
    rw [hscaled]
    exact represents_exact _
  · have hpos : 0 < m * 2 ^ 53 := Nat.mul_pos hm (Nat.two_pow_pos 53)
    have hlog : 53 ≤ (m * 2 ^ 53).log2 :=
      (Nat.le_log2 hpos.ne').2 (Nat.le_mul_of_pos_left _ hm)
    rw [targetExponent_eq, totalExponent]
    omega

/-- Where natural numbers are divided, the quotient is rounded to the nearest number. -/
theorem exists_near_ofScientific (m k : ℕ) :
    ∃ a : Magnitude, a.Canonical ∧ a.Near ((m : ℚ) / 10 ^ k) ∧
      UnpackedFloat.ofScientific Format.binary64 m (Int.negOfNat k) = a.unpacked .positive := by
  have hneg : Int.negOfNat k = -(k : ℤ) := Int.negOfNat_eq
  rw [hneg]
  unfold UnpackedFloat.ofScientific
  rcases Nat.eq_zero_or_pos m with rfl | hm
  · rw [dif_pos rfl]
    refine ⟨_, canonical_zero, near_zero ?_ ?_, rfl⟩
    · simp
    · simp
  · have hbits : (2 : ℤ) ^ Format.binary64.exponentBits = 2 ^ 11 := rfl
    rw [dif_neg hm.ne', hbits, if_neg (by omega)]
    by_cases hplaces : 2 ^ 11 + m.log2 < k
    · rw [if_pos (by omega)]
      exact ⟨_, canonical_zero, near_zero (by positivity) (le_of_places hplaces), rfl⟩
    · rw [if_neg (by omega)]
      rcases Nat.eq_zero_or_pos k with rfl | hk
      · rw [if_pos (by omega), pow_zero, div_one]
        exact exists_near_mul hm
      · rw [if_neg (by omega)]
        obtain ⟨a, ha, hnear, hdiv⟩ := exists_near_div .positive .positive (m := m)
          (n := 10 ^ (-(-(k : ℤ))).toNat) 0 0 hm (by positivity)
        refine ⟨a, ha, ?_, hdiv⟩
        have hpower : (-(-(k : ℤ))).toNat = k := by omega
        rw [hpower, zpow_zero, mul_one, mul_one, Nat.cast_pow, Nat.cast_ofNat] at hnear
        exact hnear

/-! ## Exact numbers -/

/-- A natural number that is not too large, as a magnitude. -/
def wholeMagnitude (m : ℕ) : Magnitude := ⟨m * 2 ^ (52 - m.log2), (m.log2 : ℤ) - 52⟩

section Whole

variable {m : ℕ}

/-- A whole number of at most 53 bits is the value of its magnitude. -/
theorem value_wholeMagnitude (hlog : m.log2 ≤ 52) : (wholeMagnitude m).value = m := by
  have hpower : (2 : ℚ) ^ ((m.log2 : ℤ) - 52) = (2 ^ (52 - m.log2))⁻¹ := by
    rw [← zpow_natCast, ← zpow_neg]
    congr 1
    omega
  rw [Magnitude.value, wholeMagnitude, hpower]
  push_cast
  rw [mul_assoc, mul_inv_cancel₀ (by positivity), mul_one]

theorem log2_mul_two_pow (hm : 0 < m) (k : ℕ) : (m * 2 ^ k).log2 = m.log2 + k := by
  rw [Nat.log2_eq_iff (Nat.mul_pos hm (Nat.two_pow_pos k)).ne', Nat.pow_add,
    Nat.add_right_comm m.log2 k 1, Nat.pow_add]
  exact ⟨Nat.mul_le_mul_right _ (Nat.log2_self_le hm.ne'),
    Nat.mul_lt_mul_of_pos_right Nat.lt_log2_self (Nat.two_pow_pos k)⟩

/-- The magnitude of a whole number is canonical. -/
theorem canonical_wholeMagnitude (hm : 0 < m) (hlog : m.log2 ≤ 52) :
    (wholeMagnitude m).Canonical := by
  have hpos := Nat.mul_pos hm (Nat.two_pow_pos (52 - m.log2))
  have hbits : (m * 2 ^ (52 - m.log2)).log2 = 52 := by
    rw [log2_mul_two_pow hm]
    omega
  refine ⟨(Nat.log2_lt hpos.ne').1 (by omega), ?_, .inl ((Nat.le_log2 hpos.ne').1 hbits.ge)⟩
  rw [leastExponent, wholeMagnitude]
  dsimp only
  omega

/-- Natural numbers with up to 53 bits are rounded to themselves. -/
theorem round_eq (hm : 0 < m) (hlog : m.log2 ≤ 52) :
    UnpackedFloat.round Format.binary64 .positive m 0 = (wholeMagnitude m).unpacked .positive := by
  have htarget : Format.binary64.targetExponent (totalExponent m 0) = (m.log2 : ℤ) - 52 := by
    rw [targetExponent_eq, totalExponent, leastExponent]
    omega
  have hshift : (0 - ((m.log2 : ℤ) - 52)).toNat = 52 - m.log2 := by omega
  have hexponent : (0 : ℤ) - ((52 - m.log2 : ℕ) : ℤ) = (m.log2 : ℤ) - 52 := by omega
  unfold UnpackedFloat.round Float.Model.UnpackedFloat.decreaseExponent
  dsimp only
  rw [htarget, hshift, hexponent, Nat.shiftLeft_eq]
  have hvalue := value_wholeMagnitude hlog
  have hrepresents : Represents (.ofMantissaAndAccuracy (m * 2 ^ (52 - m.log2)) .exact)
      ((m : ℚ) / 2 ^ ((m.log2 : ℤ) - 52)) := by
    have hscaled : (m : ℚ) / 2 ^ ((m.log2 : ℤ) - 52) = ((m * 2 ^ (52 - m.log2) : ℕ) : ℚ) := by
      rw [div_eq_iff (two_zpow_pos _).ne']
      exact hvalue.symm
    rw [hscaled]
    exact represents_exact _
  have hbits : (m.log2 : ℤ) - 52 ≤ Format.binary64.targetExponent
      (totalExponent (m * 2 ^ (52 - m.log2)) ((m.log2 : ℤ) - 52)) := by
    rw [targetExponent_eq, totalExponent, log2_mul_two_pow hm]
    omega
  -- Nothing is lost, since a magnitude is near to itself and no other one is.
  obtain ⟨a, ha, hnear, heq⟩ := exists_near_roundWithAccuracy .positive hrepresents hbits
  have hself := (wholeMagnitude m).near_value
  rw [hvalue] at hself
  rw [heq, hnear.unique hself ha (canonical_wholeMagnitude hm hlog)]

/-- Natural numbers with up to 53 bits are numbers. -/
theorem toFloat_toUInt64 (hm : 0 < m) (hlt : m < 2 ^ 53) :
    m.toUInt64.toFloat = packed .positive (wholeMagnitude m) := by
  have hlog : m.log2 ≤ 52 := Nat.le_of_lt_succ ((Nat.log2_lt hm.ne').2 hlt)
  have hnat : m.toUInt64.toNat = m := Nat.mod_eq_of_lt (by omega)
  have hofNat : UnpackedFloat.ofUInt64 Format.binary64 m.toUInt64 =
      (wholeMagnitude m).unpacked .positive := by
    unfold UnpackedFloat.ofUInt64 UnpackedFloat.ofNat UnpackedFloat.ofInt UnpackedFloat.normalize
    rw [hnat, Int.compare_eq_gt.2 (by omega), ← round_eq hm hlog]
    rfl
  change Float.ofModel (.pack (UnpackedFloat.ofUInt64 Format.binary64 m.toUInt64)) = _
  rw [hofNat]
  rfl

end Whole

/-- The number is a power of ten. -/
def isPowerOfTen (k : ℕ) (x : Float) : Bool :=
  x.isFinite && !isNegative x && decide (-52 ≤ (magnitude x).exponent ∧
    (magnitude x).mantissa * 2 ^ ((magnitude x).exponent + 52).toNat = 10 ^ k * 2 ^ 52)

/-- The powers of ten in the table are powers of ten. -/
theorem isPowerOfTen_table : ∀ k : Fin Float.exactlyRepresentablePowersOfTen.size,
    isPowerOfTen k.val Float.exactlyRepresentablePowersOfTen[k] = true := by
  decide +kernel

/-- What passes for a power of ten is one. -/
theorem value_of_isPowerOfTen {k : ℕ} {x : Float} (h : isPowerOfTen k x = true) :
    x.isFinite = true ∧ signOf x = .positive ∧ (magnitude x).value = 10 ^ k := by
  rw [isPowerOfTen, Bool.and_eq_true, Bool.and_eq_true, decide_eq_true_iff] at h
  obtain ⟨⟨hfinite, hsign⟩, hexponent, hpower⟩ := h
  refine ⟨hfinite, if_neg (by simpa using hsign), ?_⟩
  have hunits : (2 : ℚ) ^ (magnitude x).exponent =
      2 ^ ((magnitude x).exponent + 52).toNat / 2 ^ 52 := by
    rw [← zpow_natCast, Int.toNat_of_nonneg (by omega), zpow_add₀ (by norm_num)]
    norm_num
  have hcast : ((magnitude x).mantissa : ℚ) * 2 ^ ((magnitude x).exponent + 52).toNat =
      10 ^ k * 2 ^ 52 := by exact_mod_cast hpower
  rw [Magnitude.value, hunits, ← mul_div_assoc, hcast, mul_div_cancel_right₀ _ (by norm_num)]

/-- A packed magnitude is computed with as itself. -/
theorem unpack_packed (ha : a.Canonical) (hexponent : a.exponent ≤ 971) :
    (packed .positive a).toModel.unpack = a.unpacked .positive :=
  unpack_pack_unpacked .positive ha hexponent

section Quotients

variable {x : Float} (hx : x.isFinite = true) (hsign : signOf x = .positive)
  (hpos : 0 < (magnitude x).mantissa)

include hx hsign hpos

/-- The quotient of two positive numbers is rounded to the nearest number. -/
theorem exists_near_packed_div (ha : a.Canonical) (hexponent : a.exponent ≤ 971)
    (hapos : 0 < a.mantissa) :
    ∃ b : Magnitude, b.Canonical ∧ b.Near (a.value / (magnitude x).value) ∧
      packed .positive a / x = packed .positive b := by
  obtain ⟨b, hb, hnear, hdiv⟩ :=
    exists_near_div .positive .positive a.exponent (magnitude x).exponent hapos hpos
  refine ⟨b, hb, hnear, ?_⟩
  change Float.ofModel (.pack (UnpackedFloat.div Format.binary64 (packed .positive a).toModel.unpack
    x.toModel.unpack)) = _
  rw [unpack_packed ha hexponent, unpack_toModel hx, hsign, Magnitude.unpacked_of_pos _ hapos,
    Magnitude.unpacked_of_pos _ hpos, hdiv]
  rfl

/-- Zero divided by a finite positive number is zero. -/
theorem packed_zero_div :
    packed .positive ⟨0, leastExponent⟩ / x = packed .positive ⟨0, leastExponent⟩ := by
  change Float.ofModel (.pack (UnpackedFloat.div Format.binary64
    (packed .positive ⟨0, leastExponent⟩).toModel.unpack x.toModel.unpack)) = _
  rw [unpack_packed canonical_zero (by decide), unpack_toModel hx, hsign,
    Magnitude.unpacked_of_pos _ hpos]
  rfl

end Quotients

/-- A decimal is rounded to a magnitude that is near to it. -/
theorem ofScientific_near (m k : ℕ) :
    ∃ a : Magnitude, a.Canonical ∧ a.Near ((m : ℚ) / 10 ^ k) ∧
      Float.ofScientific m true k = packed .positive a := by
  by_cases hfast : m < 2 ^ 53 ∧ k ≤ 22
  · -- Both the digits and the power of ten are numbers, which are divided.
    have hsize : k < Float.exactlyRepresentablePowersOfTen.size := Nat.lt_succ_of_le hfast.2
    have hquotient : Float.ofScientific m true k =
        m.toUInt64.toFloat / Float.exactlyRepresentablePowersOfTen[k] := dif_pos hfast
    obtain ⟨hfinite, hsign, hpower⟩ := value_of_isPowerOfTen (isPowerOfTen_table ⟨k, hsize⟩)
    change (magnitude Float.exactlyRepresentablePowersOfTen[k]).value = 10 ^ k at hpower
    have hpos : 0 < (magnitude Float.exactlyRepresentablePowersOfTen[k]).mantissa := by
      refine Nat.pos_of_ne_zero fun hzero => ?_
      rw [Magnitude.value, hzero, Nat.cast_zero, zero_mul] at hpower
      exact absurd hpower.symm (by positivity)
    rw [hquotient]
    rcases Nat.eq_zero_or_pos m with rfl | hm
    · refine ⟨_, canonical_zero, near_zero ?_ ?_, packed_zero_div hfinite hsign hpos⟩
      · simp
      · simp
    · have hlog : m.log2 ≤ 52 := Nat.le_of_lt_succ ((Nat.log2_lt hm.ne').2 hfast.1)
      have hexponent : (wholeMagnitude m).exponent ≤ 971 := by
        rw [wholeMagnitude]
        dsimp only
        omega
      rw [toFloat_toUInt64 hm hfast.1, ← hpower, ← value_wholeMagnitude hlog]
      exact exists_near_packed_div hfinite hsign hpos (canonical_wholeMagnitude hm hlog) hexponent
        (Nat.mul_pos hm (Nat.two_pow_pos _))
  · obtain ⟨a, ha, hnear, heq⟩ := exists_near_ofScientific m k
    refine ⟨a, ha, hnear, ?_⟩
    have hmodel : Float.ofScientific m true k =
        .ofModel (.pack (UnpackedFloat.ofScientific Format.binary64 m (Int.negOfNat k))) :=
      dif_neg hfast
    rw [hmodel, heq]
    rfl

/-! ## Nearest numbers -/

/-- The number that a rational from zero on is rounded to: the nearest one, or infinity if the
    rational is too large. -/
def IsNearest (x : Float) (r : ℚ) : Prop :=
  isNegative x = false ∧
    if (Magnitude.overflow : ℚ) ≤ r then x.isInf = true
    else x.isFinite = true ∧ (magnitude x).Near r

theorem signOf_eq_positive_iff {x : Float} : signOf x = .positive ↔ isNegative x = false := by
  rw [signOf]
  cases isNegative x
  · exact ⟨fun _ => rfl, fun _ => rfl⟩
  · exact ⟨fun h => (by cases h), fun h => (by cases h)⟩

/-- A canonical magnitude that is nearest is the nearest number. -/
theorem isNearest_packed (ha : a.Canonical) (h : a.Near r) :
    IsNearest (packed .positive a) r := by
  by_cases hexponent : 971 < a.exponent
  · rw [packed_of_lt _ ha hexponent]
    refine ⟨rfl, ?_⟩
    rw [if_pos ((h.lt_exponent_iff ha).1 hexponent)]
    rfl
  · have hle : a.exponent ≤ 971 := not_lt.1 hexponent
    obtain ⟨hsign, hmagnitude⟩ := parts_packed .positive ha hle
    refine ⟨signOf_eq_positive_iff.1 hsign, ?_⟩
    rw [if_neg fun hr => hexponent ((h.lt_exponent_iff ha).2 hr), hmagnitude]
    exact ⟨isFinite_packed _ ha hle, h⟩

/-- There is only one nearest number. -/
theorem IsNearest.unique {x y : Float} (hx : IsNearest x r) (hy : IsNearest y r) : x = y := by
  obtain ⟨hxsign, hx⟩ := hx
  obtain ⟨hysign, hy⟩ := hy
  rw [← signOf_eq_positive_iff] at hxsign hysign
  by_cases hr : (Magnitude.overflow : ℚ) ≤ r
  · rw [if_pos hr] at hx hy
    rw [eq_of_isInf hx, eq_of_isInf hy, hxsign, hysign]
  · rw [if_neg hr] at hx hy
    rw [← packed_magnitude hx.1, ← packed_magnitude hy.1, hxsign, hysign,
      hx.2.unique hy.2 (canonical_magnitude x) (canonical_magnitude y)]

/-- A decimal is read as the number nearest to it. -/
theorem isNearest_ofScientific (m k : ℕ) :
    IsNearest (Float.ofScientific m true k) ((m : ℚ) / 10 ^ k) := by
  obtain ⟨a, ha, hnear, heq⟩ := ofScientific_near m k
  rw [heq]
  exact isNearest_packed ha hnear

end Toal.Number
