import Toal.Typing.Expr

/-!
# Typing statements

A declaration takes effect after its own text: the value of a variable is typed
before the variable is visible, while an automation is visible in its own body.
The two branches of an `if` share the scope around them, one after the other;
loops and automations have scopes of their own. `run` types a whole program in
which the given entities are visible from the start.
-/

namespace Toal.Typing

open Source

/-- The output type of an automation, which must not be `any`. Without a name
    for it there is no output. -/
def outputType : Option Surface.Ident → Typing Ty
  | none => return .none
  | some i => do
    let ty ← typeNamed i
    require (ty != .any) .anyOutput i.span
    return ty

/-- What a parameter is to the callers of its automation. -/
def paramType (p : Surface.Param) : Typing Param := do
  match p.ty with
  | none => return ⟨p.name.text, .any⟩
  | some i => return ⟨p.name.text, ← typeNamed i⟩

/-- What the parameters of a list are to the callers of their automation. -/
def paramTypes : List Surface.Param → Typing (List Param)
  | [] => return []
  | p :: ps => do
    let p ← paramType p
    let ps ← paramTypes ps
    return p :: ps

/-- Declares parameters as variables of the body. -/
def declareParams : List (Surface.Param × Param) → Typing (List Variable)
  | [] => return []
  | (written, p) :: ps => do
    require (p.ty != .none) (.noneParameter p.name) written.name.span
    let v ← declareVariable written.name false p.ty
    let vs ← declareParams ps
    return v :: vs

/-- The automation around the current place. -/
def enclosing (span : Span) : Typing Automation := do
  match (← context).automation with
  | some a => return a
  | none => raise .outputOutsideAutomation span

mutual

/-- The typed form of a statement. -/
def typeStmt : Surface.Stmt → Typing Program.Stmt
  | .declare readOnly name init _ => do
    let value ← typeExpr init
    require (value.ty != .none) .noneAssigned init.span
    let v ← declareVariable name readOnly value.ty
    log (.declared name.text value.ty)
    return .declare v value
  | .assign name value _ => do
    let target ← assignable name
    let source ← typeExpr value
    require (source.ty == target.ty) (.valueMismatch target.name target.ty source.ty) value.span
    return .assign target source
  | .change op name term _ => do
    let target ← assignable name
    demand .numeric target.ty name.span
    let typed ← typeExpr term
    demand .numeric typed.ty term.span
    return .change op target typed
  | .print value _ => do
    let argument ← typeExpr value
    require (argument.ty != .none) .nonePrinted value.span
    return .print argument
  | .automate name params output body _ => do
    let ty ← outputType output
    let signature ← paramTypes params
    let a : Automation :=
      { serial := ← fresh, name := name.text, params := signature, ty, builtin := false }
    declare name (.auto a)
    log (.automated name.text ty)
    let (vars, stmts) ← inScope (.body a) do
      let vars ← declareParams (params.zip signature)
      let stmts ← typeBlock body
      return (vars, stmts)
    require (ty == .none || Program.anyOutput stmts) (.missingOutput name.text) name.span
    return .automate a vars stmts
  | .call i args callSpan _ => do
    let a ← callee i
    let typed ← typeExprs args
    checkCall a typed (args.map (·.span)) callSpan
    return .call a typed
  | .output none span => do
    let a ← enclosing span
    require (a.ty == .none) (.missingOutputValue a.name a.ty) span
    return .output none .none
  | .output (some value) span => do
    let a ← enclosing span
    let typed ← typeExpr value
    require (a.ty != .none && typed.ty == a.ty) (.outputMismatch a.name typed.ty a.ty) value.span
    return .output (some typed) typed.ty
  | .ifElse test body none _ => do
    let test ← typeTest test
    let body ← typeBlock body
    return .ifElse test body none
  | .ifElse test body (some alternate) _ => do
    let test ← typeTest test
    let body ← typeBlock body
    let alternate ← typeBlock alternate
    return .ifElse test body (some alternate)
  | .loopWhile test body _ => do
    let test ← typeTest test
    let body ← inScope .loop (typeBlock body)
    return .loopWhile test body
  | .loopOver item list body _ => do
    let typed ← typeExpr list
    demand .list typed.ty list.span
    let (v, stmts) ← inScope .loop do
      let v ← declareVariable item false .any
      let stmts ← typeBlock body
      return (v, stmts)
    return .loopOver v typed stmts
  | .breakLoop span => do
    require (← context).inLoop .breakOutsideLoop span
    return .breakLoop

/-- The typed forms of the statements of a block. -/
def typeBlock : Surface.Block → Typing (List Program.Stmt)
  | .mk stmts _ => typeStmts stmts

/-- The typed forms of the statements of a list. -/
def typeStmts : List Surface.Stmt → Typing (List Program.Stmt)
  | [] => return []
  | s :: ss => do
    let s ← typeStmt s
    let ss ← typeStmts ss
    return s :: ss

end

/-- The typed form of a program. -/
def typeProgram (stmts : List Surface.Stmt) : Typing Program :=
  return ⟨← typeStmts stmts⟩

/-- The typed form of a program in which the given entities are visible, or the
    first fault, and the journal up to there. -/
def run (entities : List Entity) (stmts : List Surface.Stmt) : Except Fault Program × Journal :=
  match typeProgram stmts (.start entities) with
  | .ok program s => (.ok program, s.journal)
  | .error fault s => (.error fault, s.journal)

end Toal.Typing
