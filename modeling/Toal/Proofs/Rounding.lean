import Toal.Number.Magnitude
import Mathlib.Algebra.Order.Field.Power
import Mathlib.Algebra.Order.Field.Rat
import Mathlib.Tactic.Linarith
import Mathlib.Tactic.NormNum
import Mathlib.Tactic.Positivity
import Mathlib.Tactic.Ring

/-!
# Rounding to the nearest number

Every magnitude `m · 2^q` has the rationals around it that are rounded to it: those between the
midpoints to its two neighbours, and the midpoints themselves if `m` is even
(`Magnitude.Near`). Where magnitudes are written in the one way in which numbers have them
(`Magnitude.Canonical`), no rational is near to two of them (`Magnitude.Near.unique`).

The numbers of the language round by shifting: the mantissa is shifted to the right until it
fits, and of the bits that are lost only the first one is kept, and whether there are others.
That is enough to know on which side of a midpoint the rational lies (`Represents`).

* `exists_near_roundWithAccuracy`: what a rational is rounded to is near to it.
-/

namespace Toal.Number

open Float.Model (Format totalExponent UnpackedFloat)
open Float.Model.UnpackedFloat (Sign Accuracy ExtendedMantissa roundWithAccuracy)

theorem two_zpow_pos (q : ℤ) : (0 : ℚ) < 2 ^ q := zpow_pos (by norm_num) q

namespace Magnitude

/-! ## The rationals around a magnitude -/

/-- The rational that the magnitude is. -/
def value (a : Magnitude) : ℚ := a.mantissa * 2 ^ a.exponent

/-- The mantissa has as many bits as it can have. -/
structure Canonical (a : Magnitude) : Prop where
  mantissa_lt : a.mantissa < 2 ^ 53
  le_exponent : leastExponent ≤ a.exponent
  full : 2 ^ 52 ≤ a.mantissa ∨ a.exponent = leastExponent

/-- The distance to the lower midpoint, in quarters of the last place. -/
def below (a : Magnitude) : ℕ :=
  if a.mantissa = 2 ^ 52 ∧ leastExponent < a.exponent then 1 else 2

/-- The rational is rounded to the magnitude. -/
structure Near (a : Magnitude) (r : ℚ) : Prop where
  low : (4 * a.mantissa - a.below) * 2 ^ (a.exponent - 2) ≤ r
  high : r ≤ (4 * a.mantissa + 2) * 2 ^ (a.exponent - 2)
  low_odd : a.mantissa % 2 = 1 → (4 * a.mantissa - a.below) * 2 ^ (a.exponent - 2) < r
  high_odd : a.mantissa % 2 = 1 → r < (4 * a.mantissa + 2) * 2 ^ (a.exponent - 2)

variable {a b : Magnitude} {r : ℚ}

/-- The lower midpoint is at most half a last place away. -/
theorem below_le (a : Magnitude) : a.below ≤ 2 := by
  unfold below
  split <;> decide

/-- What lies strictly between the midpoints is rounded to the magnitude. -/
theorem Near.of_lt (hlow : (4 * a.mantissa - a.below) * 2 ^ (a.exponent - 2) < r)
    (hhigh : r < (4 * a.mantissa + 2) * 2 ^ (a.exponent - 2)) : a.Near r :=
  ⟨hlow.le, hhigh.le, fun _ => hlow, fun _ => hhigh⟩

/-- Of two magnitudes with the same exponent that a rational is rounded to, neither has
    the greater mantissa. -/
theorem Near.mantissa_le (ha : a.Near r) (hb : b.Near r) (he : a.exponent = b.exponent) :
    a.mantissa ≤ b.mantissa := by
  by_contra hlt
  have hpos := two_zpow_pos (b.exponent - 2)
  have hlow := ha.low
  rw [he] at hlow
  have hends := le_of_mul_le_mul_right (hlow.trans hb.high) hpos
  have hbelow := a.below_le
  have hends' : 4 * a.mantissa ≤ 4 * b.mantissa + 2 + a.below := by
    have hcast : (4 * a.mantissa : ℚ) ≤ 4 * b.mantissa + 2 + a.below := by linarith
    exact_mod_cast hcast
  have hnext : a.mantissa = b.mantissa + 1 := by omega
  -- The midpoint between two neighbours belongs to the even one.
  have htwo : a.below = 2 := by omega
  have hmidpoint : (4 * a.mantissa - a.below : ℚ) = 4 * b.mantissa + 2 := by
    rw [hnext, htwo]
    push_cast
    ring
  rw [hmidpoint] at hlow
  have hr := le_antisymm hb.high hlow
  rcases Nat.mod_two_eq_zero_or_one b.mantissa with heven | hodd
  · have hstrict := ha.low_odd (by omega)
    rw [he, hmidpoint] at hstrict
    exact absurd hr hstrict.ne'
  · exact absurd hr (hb.high_odd hodd).ne

/-- The lower midpoint of a mantissa with all bits. -/
theorem Canonical.le_low (h : b.Canonical) (hexponent : leastExponent < b.exponent) :
    (2 : ℚ) ^ 54 - 1 ≤ 4 * b.mantissa - b.below := by
  have hfull : 2 ^ 52 ≤ b.mantissa := h.full.resolve_right (by omega)
  have hbits : 2 ^ 54 + b.below ≤ 4 * b.mantissa + 1 := by
    unfold below
    split <;> omega
  have hcast : (2 ^ 54 + b.below : ℚ) ≤ 4 * b.mantissa + 1 := by exact_mod_cast hbits
  linarith

/-- Of two canonical magnitudes that a rational is rounded to, neither has the greater
    exponent. -/
theorem Near.exponent_le (ha : a.Near r) (hb : b.Near r) (ha' : a.Canonical) (hb' : b.Canonical) :
    b.exponent ≤ a.exponent := by
  by_contra hlt
  have hlt : a.exponent + 1 ≤ b.exponent := by omega
  have hleast := ha'.le_exponent
  have hpos := two_zpow_pos (a.exponent - 2)
  have hbits := hb'.le_low (by omega)
  have hunits : (2 : ℚ) * 2 ^ (a.exponent - 2) ≤ 2 ^ (b.exponent - 2) := by
    have hle : (2 : ℚ) ^ (a.exponent - 2 + 1) ≤ 2 ^ (b.exponent - 2) :=
      zpow_le_zpow_right₀ (by norm_num) (by omega)
    rw [zpow_add_one₀ (by norm_num)] at hle
    linarith
  have hlow : ((2 : ℚ) ^ 55 - 2) * 2 ^ (a.exponent - 2) ≤ r := by
    calc ((2 : ℚ) ^ 55 - 2) * 2 ^ (a.exponent - 2)
        = ((2 : ℚ) ^ 54 - 1) * (2 * 2 ^ (a.exponent - 2)) := by ring
      _ ≤ (4 * b.mantissa - b.below : ℚ) * 2 ^ (b.exponent - 2) :=
        mul_le_mul hbits hunits (by positivity) (by linarith)
      _ ≤ r := hb.low
  have hends := le_of_mul_le_mul_right (hlow.trans ha.high) hpos
  have hmantissa : 2 ^ 55 - 2 ≤ 4 * a.mantissa + 2 := by
    have hcast : (2 ^ 55 : ℚ) ≤ 4 * a.mantissa + 2 + 2 := by linarith
    have hcast' : 2 ^ 55 ≤ 4 * a.mantissa + 2 + 2 := by exact_mod_cast hcast
    omega
  have hmax := ha'.mantissa_lt
  -- Only the greatest mantissa reaches up to the midpoint below the larger exponent. It is odd,
  -- and so the midpoint is not rounded to it.
  have heq : a.mantissa = 2 ^ 53 - 1 := by omega
  have hstrict := ha.high_odd (by omega)
  rw [heq] at hstrict
  norm_num at hstrict hlow
  linarith

/-- A rational is rounded to one magnitude only. -/
theorem Near.unique (ha : a.Near r) (hb : b.Near r) (ha' : a.Canonical) (hb' : b.Canonical) :
    a = b := by
  have he : a.exponent = b.exponent :=
    le_antisymm (hb.exponent_le ha hb' ha') (ha.exponent_le hb ha' hb')
  have hm : a.mantissa = b.mantissa :=
    le_antisymm (ha.mantissa_le hb he) (hb.mantissa_le ha he.symm)
  cases a
  cases b
  cases he
  cases hm
  rfl

/-- The least natural number that is rounded to something too large for a number. -/
def overflow : ℕ := (2 ^ 54 - 1) * 2 ^ 970

/-- Numbers have exponents up to 971. -/
theorem Near.lt_exponent_iff (h : a.Near r) (ha : a.Canonical) :
    971 < a.exponent ↔ (overflow : ℚ) ≤ r := by
  have hoverflow : (overflow : ℚ) = (2 ^ 54 - 1) * 2 ^ (970 : ℤ) := by
    have hpower : ((2 ^ 970 : ℕ) : ℚ) = 2 ^ (970 : ℤ) := by
      rw [Nat.cast_pow]
      exact (zpow_natCast (2 : ℚ) 970).symm
    rw [overflow, Nat.cast_mul, hpower, Nat.cast_sub (by norm_num), Nat.cast_pow, Nat.cast_ofNat,
      Nat.cast_one]
  rw [hoverflow]
  constructor
  · intro hlt
    have hbits := ha.le_low (by rw [leastExponent]; omega)
    have hunits : (2 : ℚ) ^ (970 : ℤ) ≤ 2 ^ (a.exponent - 2) :=
      zpow_le_zpow_right₀ (by norm_num) (by omega)
    calc ((2 : ℚ) ^ 54 - 1) * 2 ^ (970 : ℤ)
        ≤ (4 * a.mantissa - a.below : ℚ) * 2 ^ (a.exponent - 2) :=
          mul_le_mul hbits hunits (by positivity) (by linarith)
      _ ≤ r := h.low
  · intro hle
    by_contra hexponent
    have hmax := ha.mantissa_lt
    have hunits : (2 : ℚ) ^ (a.exponent - 2) ≤ 2 ^ (969 : ℤ) :=
      zpow_le_zpow_right₀ (by norm_num) (by omega)
    have hunit : (2 : ℚ) ^ (970 : ℤ) = 2 * 2 ^ (969 : ℤ) := by
      rw [show (970 : ℤ) = 969 + 1 by norm_num, zpow_add_one₀ (by norm_num), mul_comm]
    have hpos := two_zpow_pos 969
    rw [hunit] at hle
    generalize (2 : ℚ) ^ (969 : ℤ) = u at *
    -- The greatest mantissa is odd, so the midpoint above it, which is the bound, is not rounded
    -- to it. Smaller ones stay below the bound anyway.
    by_cases hodd : a.mantissa = 2 ^ 53 - 1
    · have hstrict := h.high_odd (by omega)
      have hbound : (4 * a.mantissa + 2 : ℚ) * 2 ^ (a.exponent - 2) ≤ (4 * a.mantissa + 2) * u :=
        mul_le_mul_of_nonneg_left hunits (by positivity)
      rw [hodd, Nat.cast_sub (by norm_num)] at hstrict hbound
      push_cast at hstrict hbound
      linarith
    · have hmantissa : (a.mantissa : ℚ) + 2 ≤ 2 ^ 53 := by
        have hcast : a.mantissa + 2 ≤ 2 ^ 53 := by omega
        exact_mod_cast hcast
      have hbound : (4 * a.mantissa + 2 : ℚ) * 2 ^ (a.exponent - 2) ≤ (2 ^ 55 - 6) * u :=
        mul_le_mul (by linarith) hunits (two_zpow_pos _).le (by norm_num)
      have hhigh := h.high.trans hbound
      linarith only [hle, hhigh, hpos]

end Magnitude

/-! ## Shifting -/

/-- What the round bit adds to the mantissa. -/
def half (em : ExtendedMantissa) : ℚ := if em.roundBit then 1 / 2 else 0

/-- The mantissa and the round bit are the rational cut off after the halves, and the sticky
    bit says whether anything has been cut off. -/
structure Represents (em : ExtendedMantissa) (x : ℚ) : Prop where
  low : em.mantissa + half em ≤ x
  high : x < em.mantissa + half em + 1 / 2
  sticky : em.stickyBit = true ↔ em.mantissa + half em < x

variable {em : ExtendedMantissa} {x : ℚ}

/-- The round bit adds nothing or a half. -/
theorem half_bounds (em : ExtendedMantissa) : 0 ≤ half em ∧ half em ≤ 1 / 2 := by
  unfold half
  split <;> norm_num

/-- Shifting by one halves the mantissa, and what falls out is the new round bit. -/
theorem half_shiftRightOne (em : ExtendedMantissa) :
    (em.shiftRightOne.mantissa : ℚ) + half em.shiftRightOne = em.mantissa / 2 := by
  have hsplit : (em.mantissa : ℚ) =
      2 * ((em.mantissa / 2 : ℕ) : ℚ) + ((em.mantissa % 2 : ℕ) : ℚ) := by
    exact_mod_cast (Nat.div_add_mod em.mantissa 2).symm
  have hhalf : half em.shiftRightOne = ((em.mantissa % 2 : ℕ) : ℚ) / 2 := by
    unfold half ExtendedMantissa.shiftRightOne
    rcases Nat.mod_two_eq_zero_or_one em.mantissa with hm | hm <;> simp [hm]
  rw [hhalf, ExtendedMantissa.shiftRightOne]
  linarith

/-- Shifting by one represents the half. -/
theorem Represents.shiftRightOne (h : Represents em x) : Represents em.shiftRightOne (x / 2) := by
  obtain ⟨hnonneg, hle⟩ := half_bounds em
  have hlow := h.low
  have hhigh := h.high
  refine ⟨?_, ?_, ?_⟩
  · rw [half_shiftRightOne]
    linarith
  · rw [half_shiftRightOne]
    linarith
  · rw [half_shiftRightOne]
    change (em.roundBit || em.stickyBit) = true ↔ _
    rw [Bool.or_eq_true, h.sticky]
    constructor
    · -- What was in the round bit is cut off now.
      rintro (hround | hsticky)
      · have hhalf : half em = 1 / 2 := if_pos hround
        linarith
      · linarith
    · intro hlt
      cases hround : em.roundBit with
      | true => exact .inl rfl
      | false =>
        have hhalf : half em = 0 := by rw [half, hround]; rfl
        right
        linarith

/-- Shifting represents the quotient by the power of two. -/
theorem Represents.shiftRight (h : Represents em x) (n : ℕ) :
    Represents (em >>> n) (x / 2 ^ n) := by
  change Represents (n.repeat ExtendedMantissa.shiftRightOne em) _
  induction n with
  | zero => simpa [Nat.repeat] using h
  | succ n ih =>
    rw [Nat.repeat, pow_succ, ← div_div]
    exact ih.shiftRightOne

/-- The natural number is nearest to the rational, and of two that are equally near it is the
    even one. -/
structure RoundsTo (x : ℚ) (n : ℕ) : Prop where
  low : n - 1 / 2 ≤ x
  high : x ≤ n + 1 / 2
  low_odd : n % 2 = 1 → n - 1 / 2 < x
  high_odd : n % 2 = 1 → x < n + 1 / 2

/-- What lies strictly within a half of a natural number is rounded to it. -/
theorem RoundsTo.of_lt {n : ℕ} (hlow : n - 1 / 2 < x) (hhigh : x < n + 1 / 2) : RoundsTo x n :=
  ⟨hlow.le, hhigh.le, fun _ => hlow, fun _ => hhigh⟩

/-- A representation is rounded as the rational is, with ties to even. -/
theorem Represents.roundsTo (h : Represents em x) : RoundsTo x em.roundedMantissa := by
  obtain ⟨hlow, hhigh, hsticky⟩ := h
  rcases em with ⟨m, round, sticky⟩
  cases round with
  | false =>
    have hhalf : half ⟨m, false, sticky⟩ = 0 := rfl
    rw [hhalf] at hlow hhigh
    have hrounded : ExtendedMantissa.roundedMantissa ⟨m, false, sticky⟩ = m := by
      cases sticky <;> rfl
    rw [hrounded]
    exact .of_lt (by linarith) (by linarith)
  | true =>
    have hhalf : half ⟨m, true, sticky⟩ = 1 / 2 := rfl
    rw [hhalf] at hlow hhigh hsticky
    cases sticky with
    | true =>
      have hlt := hsticky.1 rfl
      have hrounded : ExtendedMantissa.roundedMantissa ⟨m, true, true⟩ = m + 1 := rfl
      rw [hrounded]
      refine .of_lt ?_ ?_
      · push_cast
        linarith
      · push_cast
        linarith
    | false =>
      -- Halfway between two numbers, of which the even one is taken.
      have hx : x = m + 1 / 2 := le_antisymm (not_lt.1 (mt hsticky.2 Bool.false_ne_true)) hlow
      have hrounded : ExtendedMantissa.roundedMantissa ⟨m, true, false⟩ = m + m % 2 := rfl
      have heven : (m + m % 2) % 2 ≠ 1 := by omega
      rw [hrounded]
      refine ⟨?_, ?_, fun hodd => absurd hodd heven, fun hodd => absurd hodd heven⟩
      all_goals
        rcases Nat.mod_two_eq_zero_or_one m with hm | hm
        all_goals
          rw [hm, hx]
          push_cast
          linarith

/-! ## Rounding -/

/-- The magnitude with a sign. -/
def Magnitude.unpacked (sign : Sign) (a : Magnitude) : UnpackedFloat :=
  if h : a.mantissa = 0 then .zero sign
  else .finite sign a.mantissa a.exponent (Nat.pos_of_ne_zero h)

theorem targetExponent_eq (total : ℤ) :
    Format.binary64.targetExponent total = max (total - 53) leastExponent := rfl

/-- What a rational has to fulfil for its rounding at an exponent to be what it is rounded to:
    there are bits enough, and not too many. -/
structure Scaled (x : ℚ) (t : ℤ) : Prop where
  least_le : leastExponent ≤ t
  lt : x < 2 ^ 53
  le : 2 ^ 52 ≤ x ∨ t = leastExponent

/-- The magnitude with the mantissa at the exponent, where a mantissa that has become a bit too
    long is halved. -/
def carried (n : ℕ) (t : ℤ) : Magnitude := if n = 2 ^ 53 then ⟨2 ^ 52, t + 1⟩ else ⟨n, t⟩

variable {r : ℚ} {n m : ℕ} {t e : ℤ} {accuracy : Accuracy}

/-- A scaled rational is rounded to at most one bit too many. -/
theorem Scaled.le_pow (h : Scaled x t) (hn : RoundsTo x n) : n ≤ 2 ^ 53 := by
  have hlt : (n : ℚ) < 2 ^ 53 + 1 := by linarith [h.lt, hn.low]
  have hlt' : n < 2 ^ 53 + 1 := by exact_mod_cast hlt
  omega

/-- The rounded mantissa, carried over where it is too long, is canonical. -/
theorem Scaled.canonical (h : Scaled x t) (hn : RoundsTo x n) : (carried n t).Canonical := by
  have hle := h.le_pow hn
  have hleast := h.least_le
  unfold carried
  split
  · exact ⟨by norm_num, by dsimp only; omega, .inl (le_refl _)⟩
  · refine ⟨by dsimp only; omega, hleast, h.le.imp_left fun hx => ?_⟩
    have hlt : (2 : ℚ) ^ 52 < n + 1 := by linarith [hn.high]
    have hlt' : 2 ^ 52 < n + 1 := by exact_mod_cast hlt
    exact Nat.le_of_lt_succ hlt'

/-- A rational in quarters of the last place. -/
theorem quarters (r : ℚ) (t : ℤ) : r = 4 * (r / 2 ^ t) * 2 ^ (t - 2) := by
  have hunit : (2 : ℚ) ^ t = 4 * 2 ^ (t - 2) := by
    rw [zpow_sub₀ (by norm_num)]
    norm_num
    ring
  have hpos := two_zpow_pos t
  rw [show 4 * (r / 2 ^ t) * (2 : ℚ) ^ (t - 2) = r / 2 ^ t * (4 * 2 ^ (t - 2)) by ring, ← hunit,
    div_mul_cancel₀ r hpos.ne']

/-- A mantissa that has become too long stands for a power of two, which is even. -/
theorem Scaled.near_of_carry (h : Scaled (r / 2 ^ t) t) (hn : RoundsTo (r / 2 ^ t) (2 ^ 53)) :
    Magnitude.Near ⟨2 ^ 52, t + 1⟩ r := by
  have hpos := two_zpow_pos (t - 2)
  have hr := quarters r t
  have hlt := h.lt
  have hlow := hn.low
  have hleast := h.least_le
  generalize r / 2 ^ t = x at *
  have hunit : (2 : ℚ) ^ (t + 1 - 2) = 2 * 2 ^ (t - 2) := by
    rw [show t + 1 - 2 = t - 2 + 1 by omega, zpow_add_one₀ (by norm_num), mul_comm]
  have hbelow : Magnitude.below ⟨2 ^ 52, t + 1⟩ = 1 := if_pos ⟨rfl, by dsimp only; omega⟩
  have heven : (2 ^ 52) % 2 ≠ 1 := by decide
  refine ⟨?_, ?_, fun hodd => absurd hodd heven, fun hodd => absurd hodd heven⟩
  · rw [hbelow, hr]
    dsimp only
    rw [hunit, ← mul_assoc]
    refine mul_le_mul_of_nonneg_right ?_ hpos.le
    push_cast at hlow ⊢
    linarith
  · rw [hr]
    dsimp only
    rw [hunit, ← mul_assoc]
    refine mul_le_mul_of_nonneg_right ?_ hpos.le
    push_cast
    linarith

/-- What the scaled rational is rounded to is what the rational is rounded to, before the
    carry. -/
theorem Scaled.near_of_roundsTo (h : Scaled (r / 2 ^ t) t) (hn : RoundsTo (r / 2 ^ t) n) :
    Magnitude.Near ⟨n, t⟩ r := by
  have hpos := two_zpow_pos (t - 2)
  have hr := quarters r t
  have hle := h.le
  obtain ⟨hlow, hhigh, hlow', hhigh'⟩ := hn
  generalize r / 2 ^ t = x at *
  have hquarters : (4 * n - Magnitude.below ⟨n, t⟩ : ℚ) ≤ 4 * x ∧
      (n % 2 = 1 → (4 * n - Magnitude.below ⟨n, t⟩ : ℚ) < 4 * x) := by
    unfold Magnitude.below
    split
    · next hpower =>
      -- Below a power of two there is nothing of this exponent.
      obtain ⟨hpower, hexponent⟩ := hpower
      dsimp only at hpower hexponent
      have hx := hle.resolve_right hexponent.ne'
      rw [hpower]
      push_cast
      exact ⟨by linarith, fun hodd => by linarith⟩
    · push_cast
      exact ⟨by linarith, fun hodd => by linarith [hlow' hodd]⟩
  refine ⟨?_, ?_, fun hodd => ?_, fun hodd => ?_⟩
  · rw [hr]
    exact mul_le_mul_of_nonneg_right hquarters.1 hpos.le
  · rw [hr]
    exact mul_le_mul_of_nonneg_right (by linarith) hpos.le
  · rw [hr]
    exact mul_lt_mul_of_pos_right (hquarters.2 hodd) hpos
  · rw [hr]
    exact mul_lt_mul_of_pos_right (by linarith [hhigh' hodd]) hpos

/-- What the scaled rational is rounded to is what the rational is rounded to, after the
    carry. -/
theorem Scaled.near (h : Scaled (r / 2 ^ t) t) (hn : RoundsTo (r / 2 ^ t) n) :
    (carried n t).Near r := by
  unfold carried
  split
  · next hcarry =>
    rw [hcarry] at hn
    exact h.near_of_carry hn
  · exact h.near_of_roundsTo hn

/-- What is represented begins at the mantissa and ends before the next one. -/
theorem Represents.bounds (h : Represents (.ofMantissaAndAccuracy m accuracy) x) :
    (m : ℚ) ≤ x ∧ x < m + 1 := by
  obtain ⟨hnonneg, hle⟩ := half_bounds (.ofMantissaAndAccuracy m accuracy)
  have hmantissa : (ExtendedMantissa.ofMantissaAndAccuracy m accuracy).mantissa = m := by
    rcases accuracy with _ | (_ | _ | _) <;> rfl
  have hlow := h.low
  have hhigh := h.high
  rw [hmantissa] at hlow hhigh
  exact ⟨by linarith, by linarith⟩

theorem div_zpow_eq (r : ℚ) (t e : ℤ) : r / 2 ^ t = r / 2 ^ e / 2 ^ (t - e) := by
  rw [div_div, ← zpow_add₀ (by norm_num), add_sub_cancel]

/-- At its target exponent, a represented rational is scaled. -/
theorem Represents.scaled (h : Represents (.ofMantissaAndAccuracy m accuracy) (r / 2 ^ e))
    (he : e ≤ Format.binary64.targetExponent (totalExponent m e)) :
    Scaled (r / 2 ^ Format.binary64.targetExponent (totalExponent m e))
      (Format.binary64.targetExponent (totalExponent m e)) := by
  obtain ⟨hlow, hhigh⟩ := h.bounds
  have htarget := targetExponent_eq (totalExponent m e)
  rw [totalExponent] at *
  generalize Format.binary64.targetExponent _ = t at *
  have hpos := two_zpow_pos (t - e)
  rw [div_zpow_eq r t e]
  refine ⟨by omega, ?_, ?_⟩
  · rw [div_lt_iff₀ hpos]
    have hbits : m + 1 ≤ 2 ^ (m.log2 + 1) := Nat.lt_log2_self
    calc r / 2 ^ e < m + 1 := hhigh
      _ ≤ (2 : ℚ) ^ (m.log2 + 1) := by exact_mod_cast hbits
      _ = (2 : ℚ) ^ ((m.log2 + 1 : ℕ) : ℤ) := (zpow_natCast _ _).symm
      _ ≤ (2 : ℚ) ^ (53 + (t - e)) := zpow_le_zpow_right₀ (by norm_num) (by push_cast; omega)
      _ = 2 ^ 53 * 2 ^ (t - e) := by rw [zpow_add₀ (by norm_num)]; norm_num
  · by_cases hleast : t = leastExponent
    · exact .inr hleast
    · left
      have hne : m ≠ 0 := by
        rintro rfl
        rw [Nat.log2_zero] at htarget
        omega
      rw [le_div_iff₀ hpos]
      calc (2 : ℚ) ^ 52 * 2 ^ (t - e) = 2 ^ (52 + (t - e)) := by
            rw [zpow_add₀ (by norm_num)]
            norm_num
        _ ≤ (2 : ℚ) ^ (m.log2 : ℤ) := zpow_le_zpow_right₀ (by norm_num) (by omega)
        _ = (2 : ℚ) ^ m.log2 := zpow_natCast _ _
        _ ≤ m := by exact_mod_cast Nat.log2_self_le hne
        _ ≤ r / 2 ^ e := hlow

/-- Bringing an exact mantissa of at most one bit too many to its target exponent is the
    carry. -/
theorem shiftToTarget_exact (hle : n ≤ 2 ^ 53) (ht : leastExponent ≤ t) :
    let shifted := Float.Model.UnpackedFloat.shiftToTargetExponent Format.binary64 n t .exact
    (⟨shifted.1.mantissa, shifted.2⟩ : Magnitude) = carried n t := by
  unfold Float.Model.UnpackedFloat.shiftToTargetExponent
    Float.Model.UnpackedFloat.shiftToExponent carried
  rw [targetExponent_eq, totalExponent]
  dsimp only
  split
  · next hcarry =>
    have hamount : (max ((n.log2 : ℤ) + 1 + t - 53) leastExponent - t).toNat = 1 := by
      rw [hcarry, Nat.log2_two_pow]
      omega
    rw [hamount, hcarry]
    rfl
  · next hcarry =>
    have hlog : n.log2 ≤ 52 := by
      rcases Nat.eq_zero_or_pos n with rfl | hpos
      · decide
      · exact Nat.le_of_lt_succ ((Nat.log2_lt hpos.ne').2 (by omega))
    have hamount : (max ((n.log2 : ℤ) + 1 + t - 53) leastExponent - t).toNat = 0 := by
      omega
    rw [hamount]
    exact congrArg (Magnitude.mk n) (Int.add_zero t)

/-- What a rational is rounded to is near to it. -/
theorem exists_near_roundWithAccuracy (sign : Sign)
    (h : Represents (.ofMantissaAndAccuracy m accuracy) (r / 2 ^ e))
    (he : e ≤ Format.binary64.targetExponent (totalExponent m e)) :
    ∃ a : Magnitude, a.Canonical ∧ a.Near r ∧
      roundWithAccuracy Format.binary64 sign m e accuracy = a.unpacked sign := by
  have hscaled := h.scaled he
  have hshifted := h.shiftRight
    (Format.binary64.targetExponent (totalExponent m e) - e).toNat
  rw [← zpow_natCast, Int.toNat_of_nonneg (by omega), ← div_zpow_eq] at hshifted
  refine ⟨_, hscaled.canonical hshifted.roundsTo, hscaled.near hshifted.roundsTo, ?_⟩
  have hcarried := shiftToTarget_exact (hscaled.le_pow hshifted.roundsTo) hscaled.least_le
  rw [← hcarried]
  have hexponent : e + ((Format.binary64.targetExponent (totalExponent m e) - e).toNat : ℤ) =
      Format.binary64.targetExponent (totalExponent m e) := by omega
  unfold roundWithAccuracy Magnitude.unpacked Float.Model.UnpackedFloat.shiftToTargetExponent
    Float.Model.UnpackedFloat.shiftToExponent
  dsimp only
  rw [hexponent]

end Toal.Number
