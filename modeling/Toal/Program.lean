import Toal.Entity
import Toal.Operator

/-!
# Typed programs

The tree of a program in which every name has been replaced by the entity it
stands for, and in which every expression has a type that can be read off it
(`Expr.ty`). Truth values are constants of the language until constants are
evaluated, so the expression `bool` stands in no program as written.
-/

namespace Toal.Program

/-- The expressions. -/
inductive Expr
  | num (value : Float)
  | bool (value : Bool)
  /-- A quoted word, given by what stands between the quotes. -/
  | word (contents : String)
  | list (elements : List Expr)
  | var (v : Variable)
  /-- An automation as a value. -/
  | auto (a : Automation)
  | arith (op : ArithOp) (left right : Expr)
  | compare (op : CompareOp) (left right : Expr)
  /-- An expression in parentheses. -/
  | paren (inner : Expr)
  | call (callee : Automation) (args : List Expr)
deriving BEq

/-- The type of an expression. -/
def Expr.ty : Expr → Ty
  | num _ => .num
  | bool _ => .bool
  | word _ => .word
  | list _ => .list
  | var v => v.ty
  | auto _ => .automation
  | arith .. => .num
  | compare .. => .bool
  | paren inner => inner.ty
  | call callee _ => callee.ty

/-- The statements. -/
inductive Stmt
  | declare (v : Variable) (init : Expr)
  | assign (target : Variable) (source : Expr)
  /-- The target takes the value of itself and the term under the operator. -/
  | change (op : ArithOp) (target : Variable) (term : Expr)
  | print (argument : Expr)
  /-- The declaration of an automation, with the variables that its parameters
      are in the body. -/
  | automate (a : Automation) (params : List Variable) (body : List Stmt)
  | call (callee : Automation) (args : List Expr)
  /-- The end of an automation, with the type of its value. -/
  | output (value : Option Expr) (ty : Ty)
  | ifElse (test : Expr) (body : List Stmt) (alternate : Option (List Stmt))
  | loopWhile (test : Expr) (body : List Stmt)
  | loopOver (item : Variable) (list : Expr) (body : List Stmt)
  | breakLoop
deriving BEq

mutual

/-- Whether a statement holds an output, in whatever branch or loop, but not in
    an automation of its own. -/
def Stmt.hasOutput : Stmt → Bool
  | .output .. => true
  | .ifElse _ body none => anyOutput body
  | .ifElse _ body (some alternate) => anyOutput body || anyOutput alternate
  | .loopWhile _ body => anyOutput body
  | .loopOver _ _ body => anyOutput body
  | _ => false

/-- Whether one of the statements holds an output. -/
def anyOutput : List Stmt → Bool
  | [] => false
  | s :: ss => s.hasOutput || anyOutput ss

end

/-- The type of the expression that a statement is about. -/
def Stmt.subjectTy? : Stmt → Option Ty
  | .declare _ init => some init.ty
  | .assign _ source => some source.ty
  | .change _ _ term => some term.ty
  | .print argument => some argument.ty
  | .call callee _ => some callee.ty
  | .ifElse test _ _ => some test.ty
  | .loopWhile test _ => some test.ty
  | .loopOver _ list _ => some list.ty
  | .automate .. | .output .. | .breakLoop => none

end Toal.Program

namespace Toal

/-- A typed program. -/
structure Program where
  /-- The statements, in order. -/
  stmts : List Program.Stmt
deriving BEq

end Toal
