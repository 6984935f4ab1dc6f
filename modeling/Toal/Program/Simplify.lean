import Toal.Program.Constant
import Toal.Program.Reduction

/-!
# Simplifying a program

Two passes can be switched on and off. *Folding* replaces expressions whose value
is known by that value: operators between numbers, comparisons, the constants
`true` and `false`, and parentheses around a value. *Pruning* removes statements
that never run: the branch of an `if` that a known test does not select, a loop
whose test is known to be false, and whatever follows a `break` or an `output` in
the same list of statements.

A branch that replaces its `if` is put in its place among the statements around
it, which is right because a branch has no scope of its own.
-/

namespace Toal.Program

/-- The passes to apply. -/
structure Passes where
  /-- Whether expressions are replaced by their values. -/
  fold : Bool
  /-- Whether statements that never run are removed. -/
  prune : Bool
deriving DecidableEq, Repr

/-- Both passes. -/
def Passes.all : Passes := ⟨true, true⟩

/-- A variable, or the truth value it stands for. -/
def foldVar (v : Variable) : Expr :=
  match truth? v with
  | some b => .bool b
  | none => .var v

/-- An operator between two folded operands, or its value. -/
def foldArith (op : ArithOp) (left right : Expr) : Reduced Expr :=
  match left, right with
  | .num x, .num y =>
    match evalArith op x y with
    | some value => do
      Reduced.record (.arithmetic op x y value)
      return .num value
    | none => return .arith op left right
  | _, _ => return .arith op left right

/-- A comparison of two folded operands, or its value. -/
def foldCompare (op : CompareOp) (left right : Expr) : Reduced Expr :=
  match evalCompare op left right with
  | some value => do
    Reduced.record (.comparison op value)
    return .bool value
  | none => return .compare op left right

/-- Parentheses around a folded expression, or the value in them. -/
def foldParen (inner : Expr) : Expr :=
  match inner with
  | .num _ | .bool _ | .word _ => inner
  | _ => .paren inner

mutual

/-- An expression, simplified. -/
def Expr.simplify (p : Passes) : Expr → Reduced Expr
  | .var v => return if p.fold then foldVar v else .var v
  | .arith op left right => do
    let left ← left.simplify p
    let right ← right.simplify p
    if p.fold then foldArith op left right else return .arith op left right
  | .compare op left right => do
    let left ← left.simplify p
    let right ← right.simplify p
    if p.fold then foldCompare op left right else return .compare op left right
  | .paren inner => do
    let inner ← inner.simplify p
    return if p.fold then foldParen inner else .paren inner
  | .list elements => return .list (← simplifyExprs p elements)
  | .call callee args => return .call callee (← simplifyExprs p args)
  | .num value => return .num value
  | .bool value => return .bool value
  | .word contents => return .word contents
  | .auto a => return .auto a

/-- The expressions of a list, simplified from left to right. -/
def simplifyExprs (p : Passes) : List Expr → Reduced (List Expr)
  | [] => return []
  | e :: es => do
    let e ← e.simplify p
    let es ← simplifyExprs p es
    return e :: es

end

/-- Whether nothing after the statement in its list can be reached. -/
def Stmt.isTerminal : Stmt → Bool
  | .breakLoop | .output .. => true
  | _ => false

/-- The truth value of a test that pruning may act on. -/
def knownTest (p : Passes) (test : Expr) : Option Bool :=
  if p.prune then test.constBool else none

/-- Puts on record that statements are removed, if there are any. -/
def dropUnreachable (rest : List Stmt) : Reduced Unit :=
  match rest with
  | [] => return ()
  | _ => Reduced.record (.unreachable rest.length)

mutual

/-- A statement, simplified: none, one or several statements. -/
def Stmt.simplify (p : Passes) : Stmt → Reduced (List Stmt)
  | .declare v init => return [.declare v (← init.simplify p)]
  | .assign target source => return [.assign target (← source.simplify p)]
  | .change op target term => return [.change op target (← term.simplify p)]
  | .print argument => return [.print (← argument.simplify p)]
  | .automate a params body => return [.automate a params (← simplifyStmts p body)]
  | .call callee args => return [.call callee (← simplifyExprs p args)]
  | .output none ty => return [.output none ty]
  | .output (some value) ty => return [.output (some (← value.simplify p)) ty]
  | .ifElse test body none => do
    let test ← test.simplify p
    match knownTest p test with
    | some b =>
      Reduced.record (.branch b)
      if b then simplifyStmts p body else return []
    | none => return [.ifElse test (← simplifyStmts p body) none]
  | .ifElse test body (some alternate) => do
    let test ← test.simplify p
    match knownTest p test with
    | some b =>
      Reduced.record (.branch b)
      if b then simplifyStmts p body else simplifyStmts p alternate
    | none =>
      let body ← simplifyStmts p body
      let alternate ← simplifyStmts p alternate
      return [.ifElse test body (some alternate)]
  | .loopWhile test body => do
    let test ← test.simplify p
    match knownTest p test with
    | some false =>
      Reduced.record .loop
      return []
    | _ => return [.loopWhile test (← simplifyStmts p body)]
  | .loopOver item list body => do
    let list ← list.simplify p
    let body ← simplifyStmts p body
    return [.loopOver item list body]
  | .breakLoop => return [.breakLoop]

/-- The statements of a list, simplified. Pruning ends the list after a statement
    that is terminal before it is simplified. -/
def simplifyStmts (p : Passes) : List Stmt → Reduced (List Stmt)
  | [] => return []
  | s :: ss => do
    let head ← s.simplify p
    if p.prune && s.isTerminal then
      dropUnreachable ss
      return head
    else
      let tail ← simplifyStmts p ss
      return head ++ tail

end

/-- A program, simplified. -/
def simplify (p : Passes) (program : Program) : Reduced Program :=
  return ⟨← simplifyStmts p program.stmts⟩

end Toal.Program
