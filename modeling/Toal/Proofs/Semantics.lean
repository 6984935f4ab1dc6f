import Toal.Program.Constant

/-!
# What programs do

A reference semantics of typed programs. Numbers are a parameter: a type, the
value of a literal, the operators and the comparisons (`Meaning`), of which only
this is fixed that they agree with `evalArith` and `compareNumbers` on literals
where those have a value. The same goes for words: without an escape a word is
its code units, and what an escape stands for is left open.

A program acts on a `State`. Every loop body and every call of an automation opens
a *scope*, in which declarations bind entities when they are executed; the branches
of an `if` run in the scope around them. A place sees the scopes around it, from the
inside out, and reading an entity that none of them binds yet is a failure. Lists are
shared objects that `append` and `remove` change in place. An automation is a
*closure*: its body and the scopes around its declaration.

The state changes by *actions*, one at a time: an entity is bound in a scope or
changes its value, a scope is opened, a list or a closure is made, something is
appended to a list, removed from one, or printed (`Action`). The actions so far
determine the state (`Meaning.after`), so they are all that a computation keeps. It
has two kinds of steps: it looks something up in the state (`Meaning.look`), or it
takes one more action (`Meaning.perform`).

Expressions are evaluated from left to right. A computation that does not come
to its end stops in one of four ways (`Stop`): an `output` ends the call around
it, a `break` the innermost loop, a failure everything, and so does the lack of
depth. For computations do not always end, and `exec` runs a task to a given
depth of calls and rounds of loops; `Meaning.Ends` says how a program ends if
some depth suffices, and `Meaning.Prints` what it prints even if none does. What it
does on the way is its `Meaning.trace`.
-/

namespace Toal.Semantics

open Program

/-- The values of a program, over the numbers `N`. -/
inductive Value (N : Type)
  | num (n : N)
  | bool (b : Bool)
  /-- A word, by its code units. -/
  | word (units : List Nat)
  /-- A list, by its number among all lists made so far. -/
  | list (id : Nat)
  /-- An automation of the program, by its number among all closures made so far. -/
  | auto (a : Automation) (id : Nat)
  /-- An automation of the language. -/
  | standard (a : Automation)
  /-- What a call without an output gives. -/
  | none

/-- The type of a value. -/
def Value.ty {N : Type} : Value N → Ty
  | num _ => .num
  | bool _ => .bool
  | word _ => .word
  | list _ => .list
  | auto .. => .automation
  | standard _ => .automation
  | none => .none

/-- What a program means by its numbers and words. -/
structure Meaning (N : Type) where
  /-- The value of a literal. -/
  literal : Float → N
  /-- The value of an operator; without one, the program fails. -/
  arith : ArithOp → N → N → Option N
  /-- Whether a comparison holds. -/
  compare : CompareOp → N → N → Bool
  /-- The constant `π`. -/
  pi : N
  /-- The constant `inf`. -/
  infinity : N
  /-- The number of elements of a list. -/
  ofNat : Nat → N
  /-- The numbers from the first up to, and without, the second. -/
  range : N → N → List N
  /-- The code units of a quoted word, given what stands between the quotes. -/
  units : String → List Nat
  /-- Operators between literals have the value that `evalArith` gives, if any. -/
  arith_literal : ∀ {op x y z}, evalArith op x y = some z →
    arith op (literal x) (literal y) = some (literal z)
  /-- Comparisons of literals hold as `compareNumbers` says. -/
  compare_literal : ∀ op x y, compare op (literal x) (literal y) = compareNumbers op x y
  /-- A word without an escape stands for itself. -/
  units_of_plain : ∀ {s}, hasEscape s = false → units s = Text.units s

/-- An automation, ready to be called. -/
structure Closure where
  /-- The variables that its parameters are in the body. -/
  params : List Variable
  /-- The statements of its body. -/
  body : List Stmt
  /-- The scopes around its declaration, from the inside out. -/
  scopes : List Nat

/-- A value that was printed, with the lists as they were at that moment. -/
structure Printed (N : Type) where
  /-- The value. -/
  value : Value N
  /-- The elements of all lists. -/
  lists : List (List (Value N))

/-- The state of a program at a moment. -/
structure State (N : Type) where
  /-- The scopes opened, each with its bindings, the latest first. -/
  scopes : List (List (Entity × Value N))
  /-- The elements of the lists made. -/
  lists : List (List (Value N))
  /-- The closures made. -/
  closures : List Closure
  /-- What was printed, in order. -/
  printed : List (Printed N)

/-- A change of the state. -/
inductive Action (N : Type)
  /-- An entity is bound in a scope. -/
  | declare (scope : Nat) (e : Entity) (x : Value N)
  /-- An entity that a scope binds takes another value. -/
  | assign (scope : Nat) (e : Entity) (x : Value N)
  | newScope (bindings : List (Entity × Value N))
  | newList (elements : List (Value N))
  | append (x : Value N) (list : Nat)
  | remove (x : Value N) (list : Nat)
  | newClosure (c : Closure)
  | print (x : Value N)

/-- The ways in which a computation stops before its end. -/
inductive Stop (N : Type)
  /-- An `output`, which ends the call around it. -/
  | output (value : Value N)
  /-- A `break`, which ends the innermost loop. -/
  | broke
  /-- A failure, which ends the program. -/
  | failed
  /-- The depth that was allowed does not suffice. -/
  | unfinished

/-- A computation of a program, which keeps a record of the actions. -/
abbrev Exec (N α : Type) := EStateM (Stop N) (List (Action N)) α

variable {N α : Type}

/-! ## Values -/

namespace Meaning

variable (M : Meaning N)

/-- Whether two values are the same. Lists and automations are so only if they
    were made together. -/
def same : Value N → Value N → Bool
  | .num a, .num b => M.compare .eq a b
  | .bool a, .bool b => a == b
  | .word a, .word b => a == b
  | .list a, .list b => a == b
  | .auto _ a, .auto _ b => a == b
  | .standard a, .standard b => a == b
  | .none, .none => true
  | _, _ => false

/-- The value of an operator, if there is one. -/
def arithValue (op : ArithOp) : Value N → Value N → Option (Value N)
  | .num a, .num b => (M.arith op a b).map .num
  | _, _ => none

/-- Whether a comparison holds. Numbers and words are ordered; of other values
    only sameness can be asked. -/
def compareValues (op : CompareOp) : Value N → Value N → Option Bool
  | .num a, .num b => some (M.compare op a b)
  | .word a, .word b => some (orderHolds op (Text.compareUnits a b))
  | a, b =>
    match op with
    | .eq => some (M.same a b)
    | .ne => some (!M.same a b)
    | _ => none

/-- The constant that a variable of the language stands for. -/
def constant? (v : Variable) : Option (Value N) :=
  if v.builtin then
    if v.name = "π" then some (.num M.pi)
    else if v.name = "inf" then some (.num M.infinity)
    else if v.name = "true" then some (.bool true)
    else if v.name = "false" then some (.bool false)
    else none
  else none

end Meaning

/-! ## Steps -/

namespace Meaning

variable (M : Meaning N)

/-- What an action makes of the state. -/
def act (s : State N) : Action N → State N
  | .declare scope e x => { s with scopes := s.scopes.modify scope ((e, x) :: ·) }
  | .assign scope e x => { s with scopes := s.scopes.modify scope ((e, x) :: ·) }
  | .newScope bindings => { s with scopes := s.scopes ++ [bindings] }
  | .newList elements => { s with lists := s.lists ++ [elements] }
  | .append x list => { s with lists := s.lists.modify list (· ++ [x]) }
  | .remove x list => { s with lists := s.lists.modify list (·.eraseP (M.same x)) }
  | .newClosure c => { s with closures := s.closures ++ [c] }
  | .print x => { s with printed := s.printed ++ [⟨x, s.lists⟩] }

/-- The state in which a program begins: one scope with nothing in it. -/
def start : State N := ⟨[[]], [], [], []⟩

/-- The state after the actions. -/
def after (actions : List (Action N)) : State N := actions.foldl M.act start

/-- What a state is after one more action. -/
theorem after_concat (actions : List (Action N)) (action : Action N) :
    M.after (actions ++ [action]) = M.act (M.after actions) action := by
  rw [after, List.foldl_append]
  rfl

/-- Looks something up in the state; if it is not there, the program fails. -/
def look (f : State N → Option α) : Exec N α := fun actions =>
  match f (M.after actions) with
  | some a => .ok a actions
  | none => .error .failed actions

/-- Takes an action, if there is one to take; otherwise the program fails. -/
def perform (f : State N → Option (α × Action N)) : Exec N α := fun actions =>
  match f (M.after actions) with
  | some (a, action) => .ok a (actions ++ [action])
  | none => .error .failed actions

/-- Takes an action that can always be taken. -/
def take (action : Action N) : Exec N Unit := M.perform fun _ => some ((), action)

/-- The value, if there is one; otherwise the program fails. -/
def demand (x : Option α) : Exec N α := M.look fun _ => x

/-- The value of an entity, seen from the given scopes. -/
def read (env : List Nat) (e : Entity) : Exec N (Value N) :=
  M.look fun s => env.findSome? fun id => (s.scopes.getD id []).lookup e

/-- Binds an entity in the innermost scope. -/
def declare (env : List Nat) (e : Entity) (x : Value N) : Exec N Unit :=
  M.perform fun _ => env.head?.map fun id => ((), .declare id e x)

/-- Changes the value of an entity in the scope that binds it. -/
def assign (env : List Nat) (e : Entity) (x : Value N) : Exec N Unit :=
  M.perform fun s =>
    (env.find? fun id => ((s.scopes.getD id []).lookup e).isSome).map fun id =>
      ((), .assign id e x)

/-- Opens a scope with the given bindings. -/
def newScope (bindings : List (Entity × Value N)) : Exec N Nat :=
  M.perform fun s => some (s.scopes.length, .newScope bindings)

/-- Makes a list. -/
def newList (elements : List (Value N)) : Exec N (Value N) :=
  M.perform fun s => some (.list s.lists.length, .newList elements)

/-- The elements of a list. -/
def elements (id : Nat) : Exec N (List (Value N)) :=
  M.look fun s => s.lists[id]?

/-- Makes a closure. -/
def newClosure (c : Closure) : Exec N Nat :=
  M.perform fun s => some (s.closures.length, .newClosure c)

/-- The closure with the given number. -/
def closure (id : Nat) : Exec N Closure :=
  M.look fun s => s.closures[id]?

/-- The value of a variable. -/
def readVariable (env : List Nat) (v : Variable) : Exec N (Value N) :=
  match M.constant? v with
  | some x => return x
  | none => M.read env (.var v)

/-- The value of an automation. -/
def readAutomation (env : List Nat) (a : Automation) : Exec N (Value N) :=
  if a.builtin then return .standard a else M.read env (.auto a)

/-- A call of an automation of the language. -/
def callStandard (name : String) (args : List (Value N)) : Exec N (Value N) :=
  match args, name with
  | [x, .list id], "append" => do
    M.take (.append x id)
    return .none
  | [x, .list id], "remove" => do
    M.take (.remove x id)
    return .none
  | [.list id], "length" => return .num (M.ofNat (← M.elements id).length)
  | [.word units], "length" => return .num (M.ofNat units.length)
  | [.num a, .num b], "range" => M.newList ((M.range a b).map .num)
  | [x], "type" => return .word (Text.units x.ty.name)
  | _, _ => throw .failed

end Meaning

/-! ## Expressions and statements -/

/-- What is left to be done at a smaller depth. -/
inductive Task
  | stmts (ss : List Stmt)
  /-- The rounds of a loop over a list, from the given index on. -/
  | rounds (item : Variable) (list index : Nat) (body : List Stmt)

/-- The value of a call, given how its body runs: what its output says, or
    nothing if the body comes to its end. -/
def outputOf (body : Exec N Unit) : Exec N (Value N) := fun actions =>
  match body actions with
  | .ok () actions => .ok .none actions
  | .error (.output x) actions => .ok x actions
  | .error stop actions => .error stop actions

/-- A round of a loop and the rounds after it, which a `break` calls off. -/
def thenRounds (round rest : Exec N Unit) : Exec N Unit := fun actions =>
  match round actions with
  | .ok () actions => rest actions
  | .error .broke actions => .ok () actions
  | .error stop actions => .error stop actions

namespace Meaning

variable (M : Meaning N) (again : List Nat → Task → Exec N Unit)

/-- Applies an automation to arguments. -/
def apply (f : Value N) (args : List (Value N)) : Exec N (Value N) :=
  match f with
  | .standard a => M.callStandard a.name args
  | .auto _ id => do
    let c ← M.closure id
    let scope ← M.newScope ((c.params.map Entity.var).zip args)
    outputOf (again (scope :: c.scopes) (.stmts c.body))
  | _ => throw .failed

mutual

/-- The value of an expression. -/
def evalExpr (env : List Nat) : Expr → Exec N (Value N)
  | .num value => return .num (M.literal value)
  | .bool value => return .bool value
  | .word contents => return .word (M.units contents)
  | .list elements => do M.newList (← evalExprs env elements)
  | .var v => M.readVariable env v
  | .auto a => M.readAutomation env a
  | .arith op left right => do
    let x ← evalExpr env left
    let y ← evalExpr env right
    M.demand (M.arithValue op x y)
  | .compare op left right => do
    let x ← evalExpr env left
    let y ← evalExpr env right
    return .bool (← M.demand (M.compareValues op x y))
  | .paren inner => evalExpr env inner
  | .call callee args => do
    let f ← M.readAutomation env callee
    M.apply again f (← evalExprs env args)

/-- The values of the expressions of a list, from left to right. -/
def evalExprs (env : List Nat) : List Expr → Exec N (List (Value N))
  | [] => return []
  | e :: es => do
    let x ← evalExpr env e
    let xs ← evalExprs env es
    return x :: xs

end

/-- The truth value of a test. -/
def evalTest (env : List Nat) (test : Expr) : Exec N Bool := do
  match ← M.evalExpr again env test with
  | .bool b => return b
  | _ => throw .failed

/-- The list that an expression stands for. -/
def evalList (env : List Nat) (list : Expr) : Exec N Nat := do
  match ← M.evalExpr again env list with
  | .list id => return id
  | _ => throw .failed

mutual

/-- Executes a statement. -/
def execStmt (env : List Nat) : Stmt → Exec N Unit
  | .declare v init => do M.declare env (.var v) (← M.evalExpr again env init)
  | .assign target source => do M.assign env (.var target) (← M.evalExpr again env source)
  | .change op target term => do
    let x ← M.readVariable env target
    let y ← M.evalExpr again env term
    M.assign env (.var target) (← M.demand (M.arithValue op x y))
  | .print argument => do M.take (.print (← M.evalExpr again env argument))
  | .automate a params body => do
    let id ← M.newClosure ⟨params, body, env⟩
    M.declare env (.auto a) (.auto a id)
  | .call callee args => do
    let f ← M.readAutomation env callee
    let _ ← M.apply again f (← M.evalExprs again env args)
    return ()
  | .output none _ => throw (.output .none)
  | .output (some value) _ => do throw (.output (← M.evalExpr again env value))
  | .ifElse test body none => do
    if ← M.evalTest again env test then execStmts env body else return ()
  | .ifElse test body (some alternate) => do
    if ← M.evalTest again env test then execStmts env body else execStmts env alternate
  | .loopWhile test body => do
    if ← M.evalTest again env test then
      let scope ← M.newScope []
      thenRounds (execStmts (scope :: env) body) (again env (.stmts [.loopWhile test body]))
    else return ()
  | .loopOver item list body => do
    again env (.rounds item (← M.evalList again env list) 0 body)
  | .breakLoop => throw .broke

/-- Executes the statements of a list. -/
def execStmts (env : List Nat) : List Stmt → Exec N Unit
  | [] => return ()
  | s :: ss => do
    execStmt env s
    execStmts env ss

end

/-- Carries out a task, given how smaller tasks are. -/
def execTask (env : List Nat) : Task → Exec N Unit
  | .stmts ss => M.execStmts again env ss
  | .rounds item list index body => do
    match (← M.elements list)[index]? with
    | some x =>
      let scope ← M.newScope [(.var item, x)]
      thenRounds (M.execStmts again (scope :: env) body)
        (again env (.rounds item list (index + 1) body))
    | none => return ()

end Meaning

/-! ## Programs -/

namespace Meaning

variable (M : Meaning N)

/-- Carries out a task to the given depth. -/
def exec : Nat → List Nat → Task → Exec N Unit
  | 0 => fun _ _ => throw .unfinished
  | depth + 1 => M.execTask (exec depth)

/-- What a program does to the given depth: how it stops, if it does not come to
    its end, and the actions that it takes. -/
def trace (depth : Nat) (program : Program) : Except (Stop N) Unit × List (Action N) :=
  match M.exec depth [0] (.stmts program.stmts) [] with
  | .ok () actions => (.ok (), actions)
  | .error stop actions => (.error stop, actions)

/-- What a program does to the given depth, as seen from outside: how it stops, if it
    does not come to its end, and what it prints. -/
def run (depth : Nat) (program : Program) : Except (Stop N) Unit × List (Printed N) :=
  ((M.trace depth program).1, (M.after (M.trace depth program).2).printed)

/-- The program prints the given values and then ends, by itself or by stopping
    in the given way. -/
def Ends (program : Program) (ending : Except (Stop N) Unit) (printed : List (Printed N)) : Prop :=
  ending ≠ .error .unfinished ∧ ∃ depth, M.run depth program = (ending, printed)

/-- The program comes to an end. -/
def Terminates (program : Program) : Prop :=
  ∃ ending printed, M.Ends program ending printed

/-- The program prints the given values, and possibly more after them. -/
def Prints (program : Program) (printed : List (Printed N)) : Prop :=
  ∃ depth, printed <+: (M.run depth program).2

end Meaning

/-! ## Double precision -/

/-- The value of an operator between two numbers of double precision, finite or
    not. -/
def doubleArith (op : ArithOp) (x y : Float) : Float :=
  match op with
  | .add => x + y
  | .sub => x - y
  | .mul => x * y
  | .div => x / y
  | .pow => x.pow y
  | .rem => Number.remainder x y

/-- An operation that is evaluated at compile time has the value that it has in double
    precision. -/
theorem doubleArith_of_evalArith {op : ArithOp} {x y z : Float} (h : evalArith op x y = some z) :
    doubleArith op x y = z := by
  obtain ⟨h, -⟩ := Option.filter_eq_some_iff.1 h
  cases op with
  | div => exact Option.some.inj (Option.ite_none_left_eq_some.1 h).2
  | rem => exact Option.some.inj (Option.ite_none_left_eq_some.1 h).2
  | _ => exact Option.some.inj h

/-- The meaning of programs in double precision, where every operator has a
    value and an escape is not interpreted. -/
def Meaning.double : Meaning Float where
  literal := id
  arith op x y := some (doubleArith op x y)
  compare := compareNumbers
  pi := 3.141592653589793
  infinity := 1 / 0
  ofNat := Float.ofNat
  range a b := (List.range (b - a).toUInt64.toNat).map fun i => a + Float.ofNat i
  units := Text.units
  arith_literal h := congrArg some (doubleArith_of_evalArith h)
  compare_literal _ _ _ := rfl
  units_of_plain _ := rfl

end Toal.Semantics
