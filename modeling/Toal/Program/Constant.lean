import Toal.Number.Magnitude
import Toal.Program

/-!
# Constants

What can be said of an expression before the program runs: the value of an
operator between two numbers, of a comparison of two numbers or two words, and
of a test that is a truth value in some disguise. Where a value is not certain
to be what a script would compute, there is none: a division by zero and any
result that is not finite are left to the script, and so is a word with an
escape in it, whose text does not say what it stands for.
-/

/-! ## The order of texts by code units

Scripts compare texts by their UTF-16 code units, where a character beyond
U+FFFF counts as two units that lie below U+E000. So the order is not that of
the characters: `😀` comes before `｡`. -/

namespace Toal.Text

/-- The code units of a character. -/
def charUnits (c : Char) : List Nat :=
  if c.toNat < 0x10000 then [c.toNat]
  else
    let n := c.toNat - 0x10000
    [0xD800 + n / 0x400, 0xDC00 + n % 0x400]

/-- The code units of a text. -/
def units (s : String) : List Nat :=
  s.toList.flatMap charUnits

/-- The lexicographic order of sequences of code units. -/
def compareUnits : List Nat → List Nat → Ordering
  | [], [] => .eq
  | [], _ :: _ => .lt
  | _ :: _, [] => .gt
  | a :: as, b :: bs => (compare a b).then (compareUnits as bs)

end Toal.Text

/-! ## Values -/

namespace Toal.Program

/-- The value of an operator between two numbers. -/
def evalArith (op : ArithOp) (x y : Float) : Option Float :=
  let value : Option Float :=
    match op with
    | .add => some (x + y)
    | .sub => some (x - y)
    | .mul => some (x * y)
    | .div => if y == 0 then none else some (x / y)
    | .pow => some (x.pow y)
    | .rem => if y == 0 then none else some (Number.remainder x y)
  value.filter Float.isFinite

/-- Whether a comparison holds between two numbers. -/
def compareNumbers (op : CompareOp) (x y : Float) : Bool :=
  match op with
  | .gt => y < x
  | .lt => x < y
  | .ge => y ≤ x
  | .le => x ≤ y
  | .eq => x == y
  | .ne => x != y

/-- Whether a comparison holds, given how the two sides are ordered. -/
def orderHolds (op : CompareOp) (o : Ordering) : Bool :=
  match op with
  | .gt => o.isGT
  | .lt => o.isLT
  | .ge => o.isGE
  | .le => o.isLE
  | .eq => o.isEq
  | .ne => o.isNe

/-- Whether the contents of a quoted word have an escape in them. -/
def hasEscape (contents : String) : Bool :=
  contents.toList.contains '\\'

/-- Whether a comparison holds between two quoted words without escapes. -/
def compareWords (op : CompareOp) (s t : String) : Bool :=
  orderHolds op (Text.compareUnits (Text.units s) (Text.units t))

/-- The value of a comparison. -/
def evalCompare (op : CompareOp) (left right : Expr) : Option Bool :=
  match left, right with
  | .num x, .num y => some (compareNumbers op x y)
  | .word s, .word t =>
    if hasEscape s || hasEscape t then none else some (compareWords op s t)
  | _, _ => none

/-- The truth value that a constant of the language stands for. -/
def truth? (v : Variable) : Option Bool :=
  if v.builtin then
    if v.name = "true" then some true
    else if v.name = "false" then some false
    else none
  else none

/-- The truth value of a test, if it is known. -/
def Expr.constBool : Expr → Option Bool
  | .bool b => some b
  | .var v => truth? v
  | .paren inner => inner.constBool
  | _ => none

end Toal.Program
