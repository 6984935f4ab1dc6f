import Toal.Typing.Basic

/-!
# Typing expressions

Names are looked up from left to right, the operands of an operator both before
their types are compared with what it demands, and the arguments of a call all
before they are counted.
-/

namespace Toal.Typing

open Source

/-- The automation that the callee of a call stands for. -/
def callee (i : Surface.Ident) : Typing Automation := do
  match ← lookup i with
  | .auto a => return a
  | .var _ => raise (.variableCalled i.text) i.span

/-- Compares arguments with the parameters, from the given index on. -/
def checkArgs (index : Nat) : List (Program.Expr × Span) → List Param → Typing Unit
  | (arg, span) :: args, param :: params => do
    require (param.ty.accepts arg.ty) (.argumentMismatch index arg.ty param.ty) span
    checkArgs (index + 1) args params
  | _, _ => return ()

/-- Compares the arguments of a call with what the automation takes. -/
def checkCall (a : Automation) (args : List Program.Expr) (spans : List Span) (span : Span) :
    Typing Unit := do
  require (args.length == a.params.length) (.argumentCount a.params.length args.length) span
  checkArgs 1 (args.zip spans) a.params

mutual

/-- The typed form of an expression. -/
def typeExpr : Surface.Expr → Typing Program.Expr
  | .binary (.arith op) left right _ => do
    let l ← typeExpr left
    let r ← typeExpr right
    demand .numeric l.ty left.span
    demand .numeric r.ty right.span
    return .arith op l r
  | .binary (.compare op) left right _ => do
    let l ← typeExpr left
    let r ← typeExpr right
    demand .numericOrWord l.ty left.span
    demand .numericOrWord r.ty right.span
    return .compare op l r
  | .group inner _ => return .paren (← typeExpr inner)
  | .number value _ => return .num value
  | .word contents _ => return .word contents
  | .list elements _ => return .list (← typeExprs elements)
  | .name i => do
    match ← lookup i with
    | .var v => return .var v
    | .auto a => return .auto a
  | .call i args span => do
    let a ← callee i
    let typed ← typeExprs args
    checkCall a typed (args.map (·.span)) span
    return .call a typed

/-- The typed forms of the expressions of a list. -/
def typeExprs : List Surface.Expr → Typing (List Program.Expr)
  | [] => return []
  | e :: es => do
    let e ← typeExpr e
    let es ← typeExprs es
    return e :: es

end

/-- The typed form of the test of a branch or a loop. -/
def typeTest (e : Surface.Expr) : Typing Program.Expr := do
  let test ← typeExpr e
  demand .truth test.ty e.span
  return test

end Toal.Typing
