import Toal.Program
import Toal.Surface

/-!
# Skeletons

What programs as written and typed programs have in common: statements and
expressions with names of some kind at their leaves, and neither spans nor types
(`Skeleton.Stmt`). A program as written is a skeleton with texts for names, a
typed program one with entities.

Lexical scoping is a matter of skeletons alone. The declarations of a program are
numbered in the order of the text, and every name is replaced by the number of
the declaration it refers to (`Skeleton.resolve`). The body of a loop or an
automation is a scope of its own. The branches of an `if` are not: what a branch
declares is visible after it.
-/

namespace Toal

namespace Skeleton

variable {α β : Type}

/-- Expressions with names in `α`. -/
inductive Expr (α : Type)
  | number (value : Float)
  | truth (value : Bool)
  | word (contents : String)
  | list (elements : List (Expr α))
  | name (x : α)
  | binary (op : BinOp) (left right : Expr α)
  | group (inner : Expr α)
  | call (callee : α) (args : List (Expr α))

/-- Statements with names in `α`. An automation has the names and types of its
    parameters as its callers see them, besides the names they have in the body;
    there is no type where the text has a name that is none. -/
inductive Stmt (α : Type)
  | declare (readOnly : Bool) (x : α) (init : Expr α)
  | assign (target : α) (value : Expr α)
  | change (op : ArithOp) (target : α) (term : Expr α)
  | print (value : Expr α)
  | automate (f : α) (params : List α) (signature : List (String × Option Ty))
      (output : Option Ty) (body : List (Stmt α))
  | call (callee : α) (args : List (Expr α))
  | output (value : Option (Expr α))
  | ifElse (test : Expr α) (body : List (Stmt α)) (alternate : Option (List (Stmt α)))
  | loopWhile (test : Expr α) (body : List (Stmt α))
  | loopOver (item : α) (list : Expr α) (body : List (Stmt α))
  | breakLoop

/-! ## Names -/

mutual

/-- The expression with other names. -/
def Expr.map (f : α → β) : Expr α → Expr β
  | .number value => .number value
  | .truth value => .truth value
  | .word contents => .word contents
  | .list elements => .list (Expr.mapAll f elements)
  | .name x => .name (f x)
  | .binary op left right => .binary op (left.map f) (right.map f)
  | .group inner => .group (inner.map f)
  | .call callee args => .call (f callee) (Expr.mapAll f args)

/-- The expressions with other names. -/
def Expr.mapAll (f : α → β) : List (Expr α) → List (Expr β)
  | [] => []
  | e :: es => e.map f :: Expr.mapAll f es

end

mutual

/-- The statement with other names. -/
def Stmt.map (f : α → β) : Stmt α → Stmt β
  | .declare readOnly x init => .declare readOnly (f x) (init.map f)
  | .assign target value => .assign (f target) (value.map f)
  | .change op target term => .change op (f target) (term.map f)
  | .print value => .print (value.map f)
  | .automate g params signature result body =>
    .automate (f g) (params.map f) signature result (Stmt.mapAll f body)
  | .call callee args => .call (f callee) (Expr.mapAll f args)
  | .output value => .output (value.map (Expr.map f))
  | .ifElse test body none => .ifElse (test.map f) (Stmt.mapAll f body) none
  | .ifElse test body (some alternate) =>
    .ifElse (test.map f) (Stmt.mapAll f body) (some (Stmt.mapAll f alternate))
  | .loopWhile test body => .loopWhile (test.map f) (Stmt.mapAll f body)
  | .loopOver item list body => .loopOver (f item) (list.map f) (Stmt.mapAll f body)
  | .breakLoop => .breakLoop

/-- The statements with other names. -/
def Stmt.mapAll (f : α → β) : List (Stmt α) → List (Stmt β)
  | [] => []
  | s :: ss => s.map f :: Stmt.mapAll f ss

end

mutual

/-- The names that a statement declares, in whatever scope, in the order of the
    text. -/
def Stmt.declared : Stmt α → List α
  | .declare _ x _ => [x]
  | .automate f params _ _ body => f :: (params ++ Stmt.declaredAll body)
  | .ifElse _ body none => Stmt.declaredAll body
  | .ifElse _ body (some alternate) => Stmt.declaredAll body ++ Stmt.declaredAll alternate
  | .loopWhile _ body => Stmt.declaredAll body
  | .loopOver item _ body => item :: Stmt.declaredAll body
  | _ => []

/-- The names that the statements declare. -/
def Stmt.declaredAll : List (Stmt α) → List α
  | [] => []
  | s :: ss => s.declared ++ Stmt.declaredAll ss

end

/-! ## Lexical scoping -/

/-- What a name refers to. -/
inductive Referent
  /-- The declaration of the given number. -/
  | declared (n : Nat)
  /-- None of the program's own declarations. -/
  | free (x : String)
deriving DecidableEq

/-- What is known of the declarations before a place of the text. -/
structure Place where
  /-- The visible ones by their names, innermost first. -/
  scope : List (String × Nat)
  /-- How many there are. -/
  count : Nat

namespace Place

/-- The beginning of the text. -/
def start : Place := ⟨[], 0⟩

/-- What a name refers to. -/
def referent (p : Place) (x : String) : Referent :=
  match p.scope.lookup x with
  | some n => .declared n
  | none => .free x

/-- The place after the declaration of a name. -/
def bind (p : Place) (x : String) : Place := ⟨(x, p.count) :: p.scope, p.count + 1⟩

/-- The referents of names that are declared one after the other. -/
def numbers (p : Place) : List String → List Referent
  | [] => []
  | x :: xs => .declared p.count :: (p.bind x).numbers xs

/-- The place after a scope that was opened at `p` and in which the place `q` has
    been reached. -/
def leave (p q : Place) : Place := ⟨p.scope, q.count⟩

end Place

mutual

/-- The statement with every name replaced by what it refers to, and the place
    after it. -/
def Stmt.resolve (p : Place) : Stmt String → Stmt Referent × Place
  | .declare readOnly x init =>
    (.declare readOnly (.declared p.count) (init.map p.referent), p.bind x)
  | .assign target value => (.assign (p.referent target) (value.map p.referent), p)
  | .change op target term => (.change op (p.referent target) (term.map p.referent), p)
  | .print value => (.print (value.map p.referent), p)
  | .automate f params signature result body =>
    let inside := Stmt.resolveAll (params.foldl Place.bind (p.bind f)) body
    (.automate (.declared p.count) ((p.bind f).numbers params) signature result inside.1,
      (p.bind f).leave inside.2)
  | .call callee args => (.call (p.referent callee) (Expr.mapAll p.referent args), p)
  | .output value => (.output (value.map (Expr.map p.referent)), p)
  | .ifElse test body none =>
    let first := Stmt.resolveAll p body
    (.ifElse (test.map p.referent) first.1 none, first.2)
  | .ifElse test body (some alternate) =>
    let first := Stmt.resolveAll p body
    let second := Stmt.resolveAll first.2 alternate
    (.ifElse (test.map p.referent) first.1 (some second.1), second.2)
  | .loopWhile test body =>
    let inside := Stmt.resolveAll p body
    (.loopWhile (test.map p.referent) inside.1, p.leave inside.2)
  | .loopOver item list body =>
    let inside := Stmt.resolveAll (p.bind item) body
    (.loopOver (.declared p.count) (list.map p.referent) inside.1, p.leave inside.2)
  | .breakLoop => (.breakLoop, p)

/-- The statements with every name replaced by what it refers to, and the place
    after them. -/
def Stmt.resolveAll (p : Place) : List (Stmt String) → List (Stmt Referent) × Place
  | [] => ([], p)
  | s :: ss =>
    let first := s.resolve p
    let rest := Stmt.resolveAll first.2 ss
    (first.1 :: rest.1, rest.2)

end

/-- The statements of a program with every name replaced by what it refers to. -/
def resolve (ss : List (Stmt String)) : List (Stmt Referent) := (Stmt.resolveAll .start ss).1

end Skeleton

/-! ## The skeletons of programs -/

namespace Surface

/-- What callers see of a parameter. -/
def Param.signature (p : Param) : String × Option Ty :=
  (p.name.text, match p.ty with
    | none => some .any
    | some i => Ty.ofName? i.text)

/-- The type of the output of an automation. -/
def outputTy? : Option Ident → Option Ty
  | none => some .none
  | some i => Ty.ofName? i.text

mutual

/-- The expression without spans. -/
def Expr.skeleton : Expr → Skeleton.Expr String
  | .number value _ => .number value
  | .word contents _ => .word contents
  | .list elements _ => .list (exprSkeletons elements)
  | .name ident => .name ident.text
  | .binary op left right _ => .binary op left.skeleton right.skeleton
  | .group inner _ => .group inner.skeleton
  | .call callee args _ => .call callee.text (exprSkeletons args)

/-- The expressions without spans. -/
def exprSkeletons : List Expr → List (Skeleton.Expr String)
  | [] => []
  | e :: es => e.skeleton :: exprSkeletons es

end

mutual

/-- The statement without spans. -/
def Stmt.skeleton : Stmt → Skeleton.Stmt String
  | .declare readOnly name init _ => .declare readOnly name.text init.skeleton
  | .assign target value _ => .assign target.text value.skeleton
  | .change op target term _ => .change op target.text term.skeleton
  | .print value _ => .print value.skeleton
  | .automate name params output body _ =>
    .automate name.text (params.map (·.name.text)) (params.map (·.signature)) (outputTy? output)
      body.skeletons
  | .call callee args _ _ => .call callee.text (exprSkeletons args)
  | .output value _ => .output (value.map Expr.skeleton)
  | .ifElse test body none _ => .ifElse test.skeleton body.skeletons none
  | .ifElse test body (some alternate) _ =>
    .ifElse test.skeleton body.skeletons (some alternate.skeletons)
  | .loopWhile test body _ => .loopWhile test.skeleton body.skeletons
  | .loopOver item list body _ => .loopOver item.text list.skeleton body.skeletons
  | .breakLoop _ => .breakLoop

/-- The statements of the block without spans. -/
def Block.skeletons : Block → List (Skeleton.Stmt String)
  | .mk stmts _ => skeletons stmts

/-- The statements without spans. -/
def skeletons : List Stmt → List (Skeleton.Stmt String)
  | [] => []
  | s :: ss => s.skeleton :: skeletons ss

end

theorem Block.skeletons_eq (b : Block) : b.skeletons = Surface.skeletons b.stmts := by
  cases b
  rfl

end Surface

namespace Program

mutual

/-- The expression without types. -/
def Expr.skeleton : Expr → Skeleton.Expr Entity
  | .num value => .number value
  | .bool value => .truth value
  | .word contents => .word contents
  | .list elements => .list (exprSkeletons elements)
  | .var v => .name (.var v)
  | .auto a => .name (.auto a)
  | .arith op left right => .binary (.arith op) left.skeleton right.skeleton
  | .compare op left right => .binary (.compare op) left.skeleton right.skeleton
  | .paren inner => .group inner.skeleton
  | .call callee args => .call (.auto callee) (exprSkeletons args)

/-- The expressions without types. -/
def exprSkeletons : List Expr → List (Skeleton.Expr Entity)
  | [] => []
  | e :: es => e.skeleton :: exprSkeletons es

end

mutual

/-- The statement without types. -/
def Stmt.skeleton : Stmt → Skeleton.Stmt Entity
  | .declare v init => .declare v.readOnly (.var v) init.skeleton
  | .assign target source => .assign (.var target) source.skeleton
  | .change op target term => .change op (.var target) term.skeleton
  | .print argument => .print argument.skeleton
  | .automate a params body =>
    .automate (.auto a) (params.map .var) (a.params.map fun d => (d.name, some d.ty)) (some a.ty)
      (skeletons body)
  | .call callee args => .call (.auto callee) (exprSkeletons args)
  | .output value _ => .output (value.map Expr.skeleton)
  | .ifElse test body none => .ifElse test.skeleton (skeletons body) none
  | .ifElse test body (some alternate) =>
    .ifElse test.skeleton (skeletons body) (some (skeletons alternate))
  | .loopWhile test body => .loopWhile test.skeleton (skeletons body)
  | .loopOver item list body => .loopOver (.var item) list.skeleton (skeletons body)
  | .breakLoop => .breakLoop

/-- The statements without types. -/
def skeletons : List Stmt → List (Skeleton.Stmt Entity)
  | [] => []
  | s :: ss => s.skeleton :: skeletons ss

end

end Program

/-- The entity that a referent stands for in a program in which the given entities
    are visible: the one of that name, or the one that the declaration of that
    number introduces. -/
def Program.entity? (entities : List Entity) (program : Program) : Skeleton.Referent → Option Entity
  | .declared n => (Skeleton.Stmt.declaredAll (skeletons program.stmts))[n]?
  | .free x => entities.find? (·.name == x)

end Toal
