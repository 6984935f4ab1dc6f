import Toal.Program
import Toal.Script

/-!
# From programs to scripts

Every entity that is used gets a name of its own in the script: its name in the
program and a number, counted by first use (`Names`). The constants and
automations of the language are spelled out instead, an automation at its calls
by one of the templates of `template?`.

Two things can stop the generation. A `break` inside an automation that lies in
a loop cannot leave that loop, since the automation becomes a function. And an
automation of the language that has no template cannot be called.
-/

namespace Toal.Script

/-- Why a program has no script. -/
inductive Failure
  /-- A `break` would have to leave the given automation. -/
  | breakLeaves (automation : String)
  /-- A call of an automation of the language for which there is no template. -/
  | noTemplate (name : String) (args : Nat)
deriving DecidableEq, Repr

/-- The entities that have a name in the script, in the order of their first
    use. -/
structure Names where
  /-- The entities. -/
  used : List Entity
deriving DecidableEq, Repr

namespace Names

/-- No names. -/
def empty : Names := ⟨[]⟩

/-- The name of an entity, and the names with it among them. -/
def name (names : Names) (entity : Entity) : Name × Names :=
  match names.used.idxOf? entity with
  | some i => (⟨entity.name, i + 1⟩, names)
  | none => (⟨entity.name, names.used.length + 1⟩, ⟨names.used ++ [entity]⟩)

end Names

/-- A step of generating a script. -/
abbrev Emit (α : Type) := StateT Names (Except Failure) α

/-- The name of an entity. -/
def emitName (entity : Entity) : Emit Name :=
  modifyGet (·.name entity)

/-- The constant of scripts that a variable of the language stands for. -/
def constant? (v : Variable) : Option Ref :=
  if v.builtin then
    match v.name with
    | "π" => some .pi
    | "inf" => some .infinity
    | "true" => some (.truth true)
    | "false" => some (.truth false)
    | _ => none
  else none

/-- What a variable is in the script. -/
def emitVariable (v : Variable) : Emit Ref :=
  match constant? v with
  | some r => return r
  | none => return .name (← emitName (.var v))

/-- What the variables of a list are in the script. -/
def emitVariables : List Variable → Emit (List Ref)
  | [] => return []
  | v :: vs => do
    let r ← emitVariable v
    let rs ← emitVariables vs
    return r :: rs

/-- An operator in the place of an operand is put in parentheses. -/
def operand (e : Expr) : Expr :=
  match e with
  | .binary .. => .paren e
  | _ => e

/-- What a call of an automation of the language is in the script. -/
def template? (name : String) (args : List Expr) : Option Expr :=
  match name, args with
  | "append", [element, list] => some (.push list element)
  | "remove", [element, list] => some (.removeFirst list element)
  | "length", [value] => some (.length value)
  | "range", [start, stop] => some (.range start stop)
  | "type", [value] => some (.typeOf value)
  | _, _ => none

/-- A call, given its arguments. -/
def emitCall (callee : Automation) (args : List Expr) : Emit Expr :=
  if callee.builtin then
    match template? callee.name (args.map operand) with
    | some e => return e
    | none => throw (.noTemplate callee.name args.length)
  else return .call (← emitName (.auto callee)) args

mutual

/-- An expression. -/
def emitExpr : Program.Expr → Emit Expr
  | .num value => return .num value
  | .bool value => return .bool value
  | .word contents => return .word contents
  | .list elements => return .list (← emitExprs elements)
  | .var v => return .ref (← emitVariable v)
  | .auto a => return .ref (.name (← emitName (.auto a)))
  | .arith op left right => do
    let left ← emitExpr left
    let right ← emitExpr right
    return .binary (.arith op) left right
  | .compare op left right => do
    let left ← emitExpr left
    let right ← emitExpr right
    return .binary (.compare op) left right
  | .paren inner => return .paren (← emitExpr inner)
  | .call callee args => do
    let args ← emitExprs args
    emitCall callee args

/-- The expressions of a list, from left to right. -/
def emitExprs : List Program.Expr → Emit (List Expr)
  | [] => return []
  | e :: es => do
    let e ← emitExpr e
    let es ← emitExprs es
    return e :: es

end

/-- What matters about the place of a statement. -/
structure Place where
  /-- Whether it lies in a loop inside the innermost automation. -/
  inLoop : Bool
  /-- The name of the innermost automation, or nothing. -/
  automation : String
deriving DecidableEq, Repr

/-- Outside of everything. -/
def Place.outside : Place := ⟨false, ""⟩

/-- The body of a loop. -/
def Place.loop (p : Place) : Place := { p with inLoop := true }

/-- The body of an automation. -/
def Place.body (a : Automation) : Place := ⟨false, a.name⟩

mutual

/-- A statement. -/
def emitStmt (p : Place) : Program.Stmt → Emit Stmt
  | .declare v init => do
    let r ← emitVariable v
    let init ← emitExpr init
    return .declare r init
  | .assign target source => do
    let r ← emitVariable target
    let source ← emitExpr source
    return .assign r source
  | .change op target term => do
    let r ← emitVariable target
    let term ← emitExpr term
    return .change op r term
  | .print argument => return .print (← emitExpr argument)
  | .automate a params body => do
    let n ← emitName (.auto a)
    let params ← emitVariables params
    let body ← emitStmts (.body a) body
    return .function n params body
  | .call callee args => do
    let args ← emitExprs args
    return .eval (← emitCall callee args)
  | .output none _ => return .output none
  | .output (some value) _ => return .output (some (← emitExpr value))
  | .ifElse test body none => do
    let test ← emitExpr test
    let body ← emitStmts p body
    return .ifElse test body none
  | .ifElse test body (some alternate) => do
    let test ← emitExpr test
    let body ← emitStmts p body
    let alternate ← emitStmts p alternate
    return .ifElse test body (some alternate)
  | .loopWhile test body => do
    let test ← emitExpr test
    let body ← emitStmts p.loop body
    return .loopWhile test body
  | .loopOver item list body => do
    let r ← emitVariable item
    let list ← emitExpr list
    let body ← emitStmts p.loop body
    return .loopOver r list body
  | .breakLoop =>
    if p.inLoop then return .breakLoop else throw (.breakLeaves p.automation)

/-- The statements of a list. -/
def emitStmts (p : Place) : List Program.Stmt → Emit (List Stmt)
  | [] => return []
  | s :: ss => do
    let s ← emitStmt p s
    let ss ← emitStmts p ss
    return s :: ss

end

/-- The script of a program. -/
def ofProgram (program : Program) : Except Failure (List Stmt) :=
  (emitStmts .outside program.stmts).run' .empty

end Toal.Script
