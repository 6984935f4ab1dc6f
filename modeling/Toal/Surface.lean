import Toal.Operator
import Toal.Source.Position

/-!
# Programs as written

The tree of a program before anything is known about its names: statements and
expressions as the grammar builds them, every node with the span of its text.
Parentheses are kept, and so is the difference between a call and a name.
-/

namespace Toal.Surface

open Source

/-- An occurrence of a name. -/
structure Ident where
  /-- The name. -/
  text : String
  /-- Where it stands. -/
  span : Span
deriving DecidableEq, Repr

/-- The expressions. -/
inductive Expr
  | binary (op : BinOp) (left right : Expr) (span : Span)
  /-- An expression in parentheses. -/
  | group (inner : Expr) (span : Span)
  | number (value : Float) (span : Span)
  /-- A quoted word, given by what stands between the quotes. -/
  | word (contents : String) (span : Span)
  | list (elements : List Expr) (span : Span)
  | name (ident : Ident)
  | call (callee : Ident) (args : List Expr) (span : Span)

/-- Where an expression stands. -/
def Expr.span : Expr → Span
  | .binary _ _ _ span => span
  | .group _ span => span
  | .number _ span => span
  | .word _ span => span
  | .list _ span => span
  | .name ident => ident.span
  | .call _ _ span => span

/-- A parameter of an automation. One without a type takes anything. -/
structure Param where
  /-- The name that stands for the argument in the body. -/
  name : Ident
  /-- The name of the type, if there is one. -/
  ty : Option Ident
deriving DecidableEq, Repr

mutual

/-- The statements. -/
inductive Stmt
  /-- `make x with e;`, or `constantly make x with e;`. -/
  | declare (readOnly : Bool) (name : Ident) (init : Expr) (span : Span)
  /-- `change x to e;`. -/
  | assign (target : Ident) (value : Expr) (span : Span)
  /-- `add e to x;`, `raise x to the e;` and the like. -/
  | change (op : ArithOp) (target : Ident) (term : Expr) (span : Span)
  /-- `print e;`. -/
  | print (value : Expr) (span : Span)
  /-- `automate f(x, num: y) -> num { … }`; the output type may be left out. -/
  | automate (name : Ident) (params : List Param) (output : Option Ident) (body : Block)
      (span : Span)
  /-- `f(e, …);`, with the span of the call apart from that of the statement. -/
  | call (callee : Ident) (args : List Expr) (callSpan span : Span)
  /-- `output e;` or `output;`. -/
  | output (value : Option Expr) (span : Span)
  /-- `if e { … }`, possibly followed by `ifnot { … }`. -/
  | ifElse (test : Expr) (body : Block) (alternate : Option Block) (span : Span)
  /-- `loop while e { … }`. -/
  | loopWhile (test : Expr) (body : Block) (span : Span)
  /-- `loop over x in e { … }`. -/
  | loopOver (item : Ident) (list : Expr) (body : Block) (span : Span)
  /-- `break;`. -/
  | breakLoop (span : Span)

/-- Statements in braces. -/
inductive Block
  | mk (stmts : List Stmt) (span : Span)

end

/-- Where a statement stands. -/
def Stmt.span : Stmt → Span
  | .declare _ _ _ span => span
  | .assign _ _ span => span
  | .change _ _ _ span => span
  | .print _ span => span
  | .automate _ _ _ _ span => span
  | .call _ _ _ span => span
  | .output _ span => span
  | .ifElse _ _ _ span => span
  | .loopWhile _ _ span => span
  | .loopOver _ _ _ span => span
  | .breakLoop span => span

/-- The statements between the braces. -/
def Block.stmts : Block → List Stmt
  | .mk stmts _ => stmts

/-- Where a block stands, braces included. -/
def Block.span : Block → Span
  | .mk _ span => span

end Toal.Surface
