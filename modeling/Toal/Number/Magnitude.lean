/-!
# Numbers taken apart

A number of the language is a binary floating-point number of double precision
(`Float`). A finite one is a sign and a magnitude `m · 2^q` with natural `m` and
integer `q`; `magnitude` reads the two off the number's bits, and `ofMagnitude`
puts them back. Everything that has to be exact about a number (its decimal
text, its remainder) is computed on magnitudes, in natural numbers.
-/

namespace Toal.Number

/-- The power of two with exponent `k`. -/
def twoPow (k : Nat) : Nat :=
  Nat.pow 2 k

/-- The power of ten with exponent `k`. -/
def tenPow (k : Nat) : Nat :=
  Nat.pow 10 k

/-- The magnitude `mantissa · 2 ^ exponent` of a finite number. -/
structure Magnitude where
  /-- The significant bits, read as a natural number. -/
  mantissa : Nat
  /-- The power of two that they are multiplied by. -/
  exponent : Int
deriving DecidableEq, Repr

/-- The exponent of the smallest positive number: all exponents are at least
    this. -/
def leastExponent : Int := -1074

/-- Whether the sign of `x` is negative, as it is for `-0` too. -/
def isNegative (x : Float) : Bool :=
  twoPow 63 ≤ x.toBits.toNat

/-- The magnitude of the finite number `x`. A zero exponent field marks the
    numbers whose leading bit is not implied. -/
def magnitude (x : Float) : Magnitude :=
  let bits : Nat := x.toBits.toNat
  let fraction : Nat := bits % twoPow 52
  let field : Nat := bits / twoPow 52 % twoPow 11
  if field = 0 then ⟨fraction, leastExponent⟩
  else ⟨twoPow 52 + fraction, leastExponent + field - 1⟩

/-- The number with the given sign and magnitude, which is taken to fit: the
    mantissa is below `2 ^ 53` and the exponent no less than the least one. The
    mantissa is first scaled up as far as it goes. -/
def ofMagnitude (negative : Bool) (a : Magnitude) : Float :=
  let room := (a.exponent - leastExponent).toNat
  let shift := min (52 - a.mantissa.log2) room
  let bits := if a.mantissa = 0 then 0 else (room - shift) * twoPow 52 + a.mantissa * twoPow shift
  Float.ofBits (UInt64.ofNat (if negative then twoPow 63 + bits else bits))

/-! ## The remainder of a division

The remainder of `x` by `y` is `x - n · y`, where `n` is the quotient rounded
towards zero. It is always a number itself, so that no rounding takes place: it
is computed on the two magnitudes brought to the smaller of their exponents. -/

/-- The remainder of two magnitudes; the second one is not zero. -/
def Magnitude.remainder (a b : Magnitude) : Magnitude :=
  let exponent := min a.exponent b.exponent
  ⟨a.mantissa * twoPow (a.exponent - exponent).toNat %
    (b.mantissa * twoPow (b.exponent - exponent).toNat), exponent⟩

/-- The remainder of `x` by `y`, with the sign of `x`. There is none for an
    infinite `x` or a zero `y`, and an infinite `y` leaves `x` as it is. -/
def remainder (x y : Float) : Float :=
  if x.isNaN || x.isInf || y.isNaN || y == 0 then 0 / 0
  else if y.isInf then x
  else ofMagnitude (isNegative x) ((magnitude x).remainder (magnitude y))

end Toal.Number
