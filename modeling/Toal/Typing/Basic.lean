import Toal.Context
import Toal.Journal
import Toal.Program
import Toal.Surface

/-!
# Typing: the computation

Typing a program walks over it with a context of visible names, hands out the
serial numbers of declarations, and keeps the journal. A fault ends the walk;
what has been put in the journal stays there, and scopes that a fault passes
through are left in order.
-/

namespace Toal

open Source

/-- What is carried along the walk. -/
structure Typing.State where
  /-- The names visible at the current place. -/
  context : Context
  /-- The serial number of the next declaration. -/
  next : Nat
  /-- What has happened so far. -/
  journal : Journal

/-- A computation that may raise a fault. -/
abbrev Typing (α : Type) := EStateM Fault Typing.State α

namespace Typing

variable {α : Type}

/-- The state at the start of a program, with the given entities visible. -/
def State.start (entities : List Entity) : State where
  context := .ofEntities entities
  next := entities.foldl (fun n e => max n (e.serial + 1)) 0
  journal := #[]

/-- Puts an event in the journal. -/
def log (event : Event) : Typing Unit :=
  modify fun s => { s with journal := s.journal.push event }

/-- Raises a fault. -/
def raise (problem : Problem) (span : Span) : Typing α := do
  let fault : Fault := ⟨problem, some span⟩
  log (.raised fault)
  throw fault

/-- Raises a fault unless the condition holds. -/
def require (condition : Bool) (problem : Problem) (span : Span) : Typing Unit :=
  if condition then pure () else raise problem span

/-- The context at the current place. -/
def context : Typing Context :=
  return (← get).context

/-- A serial number not handed out before. -/
def fresh : Typing Nat := do
  let s ← get
  set { s with next := s.next + 1 }
  return s.next

/-- What a name stands for. -/
def lookup (i : Surface.Ident) : Typing Entity := do
  match (← context).lookup i.text with
  | .ok entity => return entity
  | .error problem => raise problem i.span

/-- Declares an entity in the current scope. -/
def declare (i : Surface.Ident) (entity : Entity) : Typing Unit := do
  let cx ← context
  match cx.declare i.text entity with
  | .ok cx' =>
    log (.bound cx.id i.text)
    modify fun s => { s with context := cx' }
  | .error problem => raise problem i.span

/-- Declares a variable that is not part of the language. -/
def declareVariable (i : Surface.Ident) (readOnly : Bool) (ty : Ty) : Typing Variable := do
  let v : Variable := { serial := ← fresh, name := i.text, readOnly, ty, builtin := false }
  declare i (.var v)
  return v

/-- Runs a computation in a scope of its own, whose declarations are forgotten
    afterwards, also when a fault is raised in it. -/
def inScope (o : Overrides) (body : Typing α) : Typing α := fun s =>
  let inner := s.context.enter o
  match body { s with context := inner, journal := s.journal.push (.entered inner.id) } with
  | .ok a t => .ok a { t with context := s.context, journal := t.journal.push (.left inner.id) }
  | .error e t =>
    .error e { t with context := s.context, journal := t.journal.push (.left inner.id) }

/-- Raises a fault unless a value of the given type may satisfy the demand. -/
def demand (d : Demand) (ty : Ty) (span : Span) : Typing Unit :=
  require (d.allows ty) (.demandUnmet d ty) span

/-- The type that a name stands for. -/
def typeNamed (i : Surface.Ident) : Typing Ty :=
  match Ty.ofName? i.text with
  | some ty => return ty
  | none => raise (.unknownType i.text) i.span

/-- The variable to be changed that a name stands for. -/
def assignable (i : Surface.Ident) : Typing Variable := do
  match ← lookup i with
  | .auto _ => raise (.automationAssigned i.text) i.span
  | .var v =>
    require (!v.readOnly) (.constantChanged i.text) i.span
    return v

end Typing

end Toal
