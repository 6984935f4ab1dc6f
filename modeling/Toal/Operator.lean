/-!
# Operators

The language has six arithmetic operators, which are spelled out in words
(`plus`, `divided by`, `to the`, …), and six comparisons (`is`, `is less than`,
…). Both kinds share one spelling with symbols, in which messages and scripts
show them.
-/

namespace Toal

/-- The operators on numbers that give a number. -/
inductive ArithOp
  | add
  | sub
  | mul
  | div
  | pow
  | rem
deriving DecidableEq, Repr

/-- The operators that compare two numbers or two words. -/
inductive CompareOp
  | gt
  | lt
  | ge
  | le
  | eq
  | ne
deriving DecidableEq, Repr

/-- The operators between two expressions. -/
inductive BinOp
  | arith (op : ArithOp)
  | compare (op : CompareOp)
deriving DecidableEq, Repr

/-- The symbol of an arithmetic operator. -/
def ArithOp.symbol : ArithOp → String
  | .add => "+"
  | .sub => "-"
  | .mul => "*"
  | .div => "/"
  | .pow => "^"
  | .rem => "%"

/-- The symbol of a comparison. -/
def CompareOp.symbol : CompareOp → String
  | .gt => ">"
  | .lt => "<"
  | .ge => ">="
  | .le => "<="
  | .eq => "==="
  | .ne => "!=="

/-- The symbol of an operator. -/
def BinOp.symbol : BinOp → String
  | .arith op => op.symbol
  | .compare op => op.symbol

/-- Whether an operator gives a truth value. -/
def BinOp.isComparison : BinOp → Bool
  | .arith _ => false
  | .compare _ => true

/-- The name of an arithmetic operator in outlines. -/
def ArithOp.label : ArithOp → String
  | .add => "Add"
  | .sub => "Sub"
  | .mul => "Mul"
  | .div => "Div"
  | .pow => "Pow"
  | .rem => "Rem"

/-- The name of a comparison in outlines. -/
def CompareOp.label : CompareOp → String
  | .gt => "Gt"
  | .lt => "Lt"
  | .ge => "Ge"
  | .le => "Le"
  | .eq => "Eq"
  | .ne => "Ne"

/-- The name of an operator in outlines. -/
def BinOp.label : BinOp → String
  | .arith op => op.label
  | .compare op => op.label

/-- All operators. -/
def BinOp.all : List BinOp :=
  [.arith .add, .arith .sub, .arith .mul, .arith .div, .arith .pow, .arith .rem,
    .compare .gt, .compare .lt, .compare .ge, .compare .le, .compare .eq, .compare .ne]

/-- The operator with the given name in outlines. -/
def BinOp.ofLabel? (label : String) : Option BinOp :=
  BinOp.all.find? (·.label == label)

end Toal
