import Toal.Number.Magnitude

/-!
# The shortest decimal

Among the decimals that read back as a given number, the one to write is one
with the fewest digits, and of those the nearest. All reals between the
midpoints to the two neighbouring numbers read back as the number, the
midpoints themselves if its mantissa is even. `shortest` therefore tries grids
of decimals with one, two, three, … digits: on each grid only the two points
around the number can be nearest to it, and the first grid of which a point
lies between the midpoints gives the result. Seventeen digits always suffice.

All comparisons are between natural numbers: the number and its midpoints are
brought to a common denominator (`Around`).
-/

namespace Toal.Number

/-- The decimal `digits · 10 ^ exponent`. -/
structure Decimal where
  /-- The significant digits, read as a natural number. -/
  digits : Nat
  /-- The power of ten that they are multiplied by. -/
  exponent : Int
deriving DecidableEq, Repr

/-- The number of decimal digits of `n`. -/
def digitCount (n : Nat) : Nat :=
  if n < 10 then 1 else digitCount (n / 10) + 1

/-- A number together with the reals that read back as it: they lie between
    `low / scale` and `high / scale`, around `value / scale`. -/
structure Around where
  /-- The lower midpoint. -/
  low : Nat
  /-- The number itself. -/
  value : Nat
  /-- The upper midpoint. -/
  high : Nat
  /-- The common denominator. -/
  scale : Nat
  /-- Whether the midpoints themselves read back as the number. -/
  closed : Bool

/-- The surroundings of a positive magnitude, in quarters of its last place. The
    neighbour below a power of two is only half as far away. -/
def Magnitude.around (a : Magnitude) : Around :=
  let below := if a.mantissa = twoPow 52 ∧ leastExponent < a.exponent then 1 else 2
  let unit := twoPow (a.exponent - 2).toNat
  { low := (4 * a.mantissa - below) * unit
    value := 4 * a.mantissa * unit
    high := (4 * a.mantissa + 2) * unit
    scale := twoPow (2 - a.exponent).toNat
    closed := a.mantissa % 2 = 0 }

/-- The power of ten of the leading digit of `n / d`, for positive `n` and `d`. -/
def leadingPower (n d : Nat) : Int :=
  if d ≤ n then digitCount (n / d) - 1 else -digitCount ((d - 1) / n)

/-- Whether a multiple of the grid's step reads back, given the multiple and the
    midpoints in the same unit. -/
def Around.holds (r : Around) (low high point : Nat) : Bool :=
  if r.closed then low ≤ point && point ≤ high else low < point && point < high

/-- The better of the two points around the number on the grid of multiples of
    `10 ^ power`, if one reads back. When both do, the nearer one is taken, and
    the upper one if they are equally near. -/
def Around.onGrid? (r : Around) (power : Int) : Option Decimal :=
  let step := r.scale * tenPow power.toNat
  let fine := tenPow (-power).toNat
  let value := r.value * fine
  let below := value / step
  let holds := fun k => r.holds (r.low * fine) (r.high * fine) (k * step)
  match holds below, holds (below + 1) with
  | true, true =>
    some ⟨if 2 * value < (2 * below + 1) * step then below else below + 1, power⟩
  | true, false => some ⟨below, power⟩
  | false, true => some ⟨below + 1, power⟩
  | false, false => none

/-- The same decimal without trailing zeros among its digits. -/
def Decimal.trim (d : Decimal) : Decimal :=
  if d.digits ≠ 0 ∧ d.digits % 10 = 0 then trim ⟨d.digits / 10, d.exponent + 1⟩ else d
termination_by d.digits
decreasing_by omega

/-- The shortest decimal that reads back as the positive magnitude `a`, nearest
    to it among those of its length. -/
def Magnitude.shortest (a : Magnitude) : Decimal :=
  let r := a.around
  let top := leadingPower r.value r.scale
  match (List.range 17).findSome? fun (n : Nat) => r.onGrid? (top - n) with
  | some d => d.trim
  | none => ⟨0, 0⟩

end Toal.Number
