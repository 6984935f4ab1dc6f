import Toal.Number.Numeral
import Toal.Surface.Parse.Basic

/-!
# Parsing expressions

Five levels of binding, from loose to tight: a comparison, which does not chain;
`plus` and `minus`; `times`, `divided by` and `mod`; the power `to the`, which
groups to the right; and the primaries. The two middle levels group to the left:
`sumRest` and `productRest` take the operand read so far and extend it by one
operator and operand at a time.
-/

namespace Toal.Surface

open Source

/-- The expression with the given operands. -/
def Expr.ofOperands (op : BinOp) (left right : Expr) : Expr :=
  .binary op left right (left.span.cover right.span)

/-- Reads `or equal to`, if it is there. -/
def orEqualTo (ts : List Token) : Outcome? Bool ts :=
  (token? (.keyword .or) ts).andThen false fun _ rest _ =>
    (keyword .equal rest).andThen fun _ rest _ =>
      (keyword .to_ rest).map fun _ => true

/-- Reads the words of a comparison after `is`. -/
def relation (ts : List Token) : Outcome? CompareOp ts :=
  match ts with
  | ⟨.keyword .greater, _, _⟩ :: rest =>
    (Outcome.after <| (keyword .than rest).andMaybe fun _ rest _ =>
      (orEqualTo rest).map fun equal => if equal then .ge else .gt).weak
  | ⟨.keyword .less, _, _⟩ :: rest =>
    (Outcome.after <| (keyword .than rest).andMaybe fun _ rest _ =>
      (orEqualTo rest).map fun equal => if equal then .le else .lt).weak
  | ⟨.keyword .not, _, _⟩ :: rest => (Outcome?.done CompareOp.ne rest).after.weak
  | ts => .done .eq ts

/-- Reads a comparison, if there is one. -/
def comparison? (ts : List Token) : Attempt CompareOp ts :=
  match ts with
  | ⟨.keyword .is, _, _⟩ :: rest => .found (relation rest).after
  | _ => .ok none

/-- Reads `plus` or `minus`, if one is there. -/
def sumOp? (ts : List Token) : Attempt ArithOp ts :=
  match ts with
  | ⟨.keyword .plus, _, _⟩ :: rest => .found (Outcome?.done ArithOp.add rest).after
  | ⟨.keyword .minus, _, _⟩ :: rest => .found (Outcome?.done ArithOp.sub rest).after
  | _ => .ok none

/-- Reads `times`, `divided by` or `mod`, if one is there. -/
def productOp? (ts : List Token) : Attempt ArithOp ts :=
  match ts with
  | ⟨.keyword .times, _, _⟩ :: rest => .found (Outcome?.done ArithOp.mul rest).after
  | ⟨.keyword .divided, _, _⟩ :: rest =>
    .found ((keyword .by_ rest).map fun _ => ArithOp.div).after
  | ⟨.keyword .mod, _, _⟩ :: rest => .found (Outcome?.done ArithOp.rem rest).after
  | _ => .ok none

/-- Reads `to the`, if it is there. The word `to` alone belongs to something
    else. -/
def powerOp? (ts : List Token) : Attempt Unit ts :=
  match ts with
  | ⟨.keyword .to_, _, _⟩ :: ⟨.keyword .the, _, _⟩ :: rest =>
    .found (Outcome?.done () rest).after.after
  | _ => .ok none

mutual

/-- Reads an expression. -/
def expr (ts : List Token) : Outcome Expr ts :=
  (sum ts).andMaybe fun left rest _ =>
    (comparison? rest).andThen left fun op rest _ =>
      (sum rest).map fun right => .ofOperands (.compare op) left right
termination_by 10 * ts.length + 6

/-- Reads operands joined by `plus` and `minus`. -/
def sum (ts : List Token) : Outcome Expr ts :=
  (product ts).andMaybe fun left rest _ => sumRest left rest
termination_by 10 * ts.length + 5

/-- Extends a sum as far as it goes. -/
def sumRest (left : Expr) (ts : List Token) : Outcome? Expr ts :=
  (sumOp? ts).andThen left fun op rest _ =>
    (product rest).andMaybe fun right rest _ =>
      sumRest (.ofOperands (.arith op) left right) rest
termination_by 10 * ts.length

/-- Reads operands joined by `times`, `divided by` and `mod`. -/
def product (ts : List Token) : Outcome Expr ts :=
  (power ts).andMaybe fun left rest _ => productRest left rest
termination_by 10 * ts.length + 4

/-- Extends a product as far as it goes. -/
def productRest (left : Expr) (ts : List Token) : Outcome? Expr ts :=
  (productOp? ts).andThen left fun op rest _ =>
    (power rest).andMaybe fun right rest _ =>
      productRest (.ofOperands (.arith op) left right) rest
termination_by 10 * ts.length

/-- Reads a primary, possibly raised to a power. -/
def power (ts : List Token) : Outcome Expr ts :=
  (primary ts).andMaybe fun base rest _ =>
    (powerOp? rest).andThen base fun _ rest _ =>
      (power rest).map fun exponent => .ofOperands (.arith .pow) base exponent
termination_by 10 * ts.length + 3

/-- Reads a numeral, a quoted word, a list, a call, a name, or an expression in
    parentheses. -/
def primary (ts : List Token) : Outcome Expr ts :=
  match ts with
  | ⟨.numeral, text, span⟩ :: rest =>
    match Number.numeralValue? text.toList with
    | some value => (Outcome?.done (.number value span) rest).after
    | none => .error (.invalidNumeral ⟨.numeral, text, span⟩ rest)
  | ⟨.word, text, span⟩ :: rest => (Outcome?.done (.word text span) rest).after
  | ⟨.openSquare, _, span⟩ :: rest =>
    Outcome.after <| (args .closeSquare rest).andThen fun elements rest _ =>
      (token .closeSquare (.text "]") rest).map fun close =>
        .list elements (span.cover close.span)
  | ⟨.ident, text, span⟩ :: ⟨.openParen, _, _⟩ :: rest =>
    Outcome.after <| Outcome.after <| (callRest span rest).map fun (args, callSpan) =>
      .call ⟨text, span⟩ args callSpan
  | ⟨.ident, text, span⟩ :: rest => (Outcome?.done (.name ⟨text, span⟩) rest).after
  | ⟨.openParen, _, span⟩ :: rest =>
    Outcome.after <| (expr rest).andThen fun inner rest _ =>
      (token .closeParen (.text ")") rest).map fun close =>
        .group inner (span.cover close.span)
  | ts => .error (.expected .expression ts)
termination_by 10 * ts.length + 2

/-- Reads the arguments of a call after its opening parenthesis, and gives the
    span of the call too, which begins with `start`. -/
def callRest (start : Span) (ts : List Token) : Outcome (List Expr × Span) ts :=
  (args .closeParen ts).andThen fun args rest _ =>
    (token .closeParen (.text ")") rest).map fun close => (args, start.cover close.span)
termination_by 10 * ts.length + 9

/-- Reads expressions separated by commas, unless the closing token comes at
    once. -/
def args (close : Token.Kind) (ts : List Token) : Outcome? (List Expr) ts :=
  if kind? ts = some close then .done [] ts else (argList ts).weak
termination_by 10 * ts.length + 8

/-- Reads one or more expressions separated by commas. -/
def argList (ts : List Token) : Outcome (List Expr) ts :=
  (expr ts).andMaybe fun head rest _ =>
    (token? .comma rest).andThen [head] fun _ rest _ => (argList rest).map (head :: ·)
termination_by 10 * ts.length + 7

end

end Toal.Surface
