import Toal.Operator

/-!
# Scripts

A program is compiled to a script in JavaScript, of which only a small part is
needed. The tree of a script has the operators, calls, blocks and declarations
of that language, and one node for each of the operations that come with ours
and are spelled out in place (`push`, `removeFirst`, `length`, `range`,
`typeOf`).
-/

namespace Toal.Script

/-- A name in a script: that of an entity, and a number that sets it apart. -/
structure Name where
  /-- The name of the entity. -/
  base : String
  /-- The number of the entity, counted by first use. -/
  suffix : Nat
deriving DecidableEq, Repr

/-- What a variable is in a script: a name, or one of the constants that scripts
    have too. -/
inductive Ref
  | name (n : Name)
  /-- The ratio of a circle's circumference to its diameter. -/
  | pi
  | infinity
  | truth (value : Bool)
deriving DecidableEq, Repr

/-- The expressions. -/
inductive Expr
  | num (value : Float)
  | bool (value : Bool)
  /-- A quoted word, given by what stands between the quotes in the program. -/
  | word (contents : String)
  | list (elements : List Expr)
  | ref (r : Ref)
  | binary (op : BinOp) (left right : Expr)
  | paren (inner : Expr)
  | call (callee : Name) (args : List Expr)
  /-- Appends an element to a list. -/
  | push (list element : Expr)
  /-- Removes the first occurrence of an element from a list. -/
  | removeFirst (list element : Expr)
  /-- The length of a list or a word. -/
  | length (value : Expr)
  /-- The numbers from `start` up to, and without, `stop`. -/
  | range (start stop : Expr)
  /-- The name of a value's type. -/
  | typeOf (value : Expr)

/-- The statements. -/
inductive Stmt
  | declare (target : Ref) (init : Expr)
  | assign (target : Ref) (source : Expr)
  | change (op : ArithOp) (target : Ref) (term : Expr)
  | print (argument : Expr)
  | function (n : Name) (params : List Ref) (body : List Stmt)
  /-- An expression that is evaluated for its effect. -/
  | eval (e : Expr)
  | output (value : Option Expr)
  | ifElse (test : Expr) (body : List Stmt) (alternate : Option (List Stmt))
  | loopWhile (test : Expr) (body : List Stmt)
  | loopOver (item : Ref) (list : Expr) (body : List Stmt)
  | breakLoop

end Toal.Script
