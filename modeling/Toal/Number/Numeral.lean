/-!
# Numerals

A numeral is an optional minus, some decimal digits, and optionally a point and
some more digits. Its value is the number nearest to the decimal it denotes; a
decimal too large for any number gives infinity.
-/

namespace Toal.Number

/-- The value of a sequence of decimal digits. -/
def digitsValue (ds : List Char) : Nat :=
  ds.foldl (fun n d => 10 * n + (d.toNat - '0'.toNat)) 0

/-- Whether the text is a sequence of one or more decimal digits. -/
def isDigits (ds : List Char) : Bool :=
  !ds.isEmpty && ds.all Char.isDigit

/-- The value of a numeral without sign. -/
def unsignedValue? (cs : List Char) : Option Float :=
  match cs.span (· ≠ '.') with
  | (whole, []) =>
    if isDigits whole then some (Float.ofScientific (digitsValue whole) true 0) else none
  | (whole, _ :: fraction) =>
    if isDigits whole && isDigits fraction then
      some (Float.ofScientific (digitsValue (whole ++ fraction)) true fraction.length)
    else none

/-- The value of a numeral, or `none` if the text is not one. -/
def numeralValue? : List Char → Option Float
  | '-' :: cs => (unsignedValue? cs).map (- ·)
  | cs => unsignedValue? cs

end Toal.Number
