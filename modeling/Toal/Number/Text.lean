import Toal.Number.Shortest

/-!
# The text of a number

A number is written by the digits of its shortest decimal. Where the digits
stand is decided by a `Layout`: in outlines of programs, large and small
numbers have an exponent and whole numbers a fraction `.0`; in scripts and in the
journal every number is written in full, place by place.
-/

namespace Toal.Number

/-- The decisions about the text of a number. -/
structure Layout where
  /-- The least and greatest power of ten of the leading digit for which all
      places are written; other numbers have an exponent. Without bounds, no
      number has one. -/
  positional : Option (Int × Int)
  /-- What follows the digits of a whole number that is written in full. -/
  wholeEnding : String

/-- In an outline, numbers from `0.0001` up to `10000000000000000` are written
    in full, and whole numbers end in `.0`. -/
def Layout.outline : Layout := ⟨some (-4, 15), ".0"⟩

/-- In running text every number is written in full and whole numbers have no
    point. -/
def Layout.plain : Layout := ⟨none, ""⟩

/-- A text of `n` zeros. -/
def zeros (n : Nat) : String :=
  String.ofList (List.replicate n '0')

/-- The decimal written in full. -/
def Decimal.inFull (d : Decimal) (wholeEnding : String) : String :=
  let digits := Nat.toDigits 10 d.digits
  let before := d.exponent + digits.length
  if 0 ≤ d.exponent then
    String.ofList digits ++ zeros d.exponent.toNat ++ wholeEnding
  else if before ≤ 0 then
    "0." ++ zeros (-before).toNat ++ String.ofList digits
  else
    String.ofList (digits.take before.toNat) ++ "." ++ String.ofList (digits.drop before.toNat)

/-- The decimal with one digit before the point and an exponent. -/
def Decimal.withExponent (d : Decimal) : String :=
  let digits := Nat.toDigits 10 d.digits
  let power := d.exponent + digits.length - 1
  let fraction := digits.drop 1
  String.ofList (digits.take 1) ++
    (if fraction.isEmpty then "" else "." ++ String.ofList fraction) ++ "e" ++ toString power

/-- Whether the layout writes the decimal in full. -/
def Layout.isFull (l : Layout) (d : Decimal) : Bool :=
  match l.positional with
  | none => true
  | some (least, greatest) =>
    let power := d.exponent + digitCount d.digits - 1
    least ≤ power && power ≤ greatest

/-- The text of a finite magnitude. -/
def Magnitude.text (l : Layout) (a : Magnitude) : String :=
  if a.mantissa = 0 then "0" ++ l.wholeEnding
  else
    let d := a.shortest
    if l.isFull d then d.inFull l.wholeEnding else d.withExponent

/-- The text of a number. -/
def text (l : Layout) (x : Float) : String :=
  if x.isNaN then "NaN"
  else (if isNegative x then "-" else "") ++ (if x.isInf then "inf" else (magnitude x).text l)

end Toal.Number
