import Toal.Program.Reduction
import Toal.Source.Position
import Toal.Problem

/-!
# The journal of a compilation

Compiling a program leaves a journal of what happened on the way: the stages
passed, the scopes entered and left, the entities declared, the reductions
applied, and a fault at the moment it is raised. The journal is kept whether
or not the compilation succeeds.
-/

namespace Toal

/-- How much detail an event is. -/
inductive Level
  | debug
  | trace
deriving DecidableEq, Repr

/-- The name of a level. -/
def Level.name : Level → String
  | debug => "DEBUG"
  | trace => "TRACE"

/-- What happens while a program is compiled. -/
inductive Event
  /-- A fault was raised. -/
  | raised (fault : Fault)
  /-- The program was read. -/
  | parsed (statements : Nat)
  /-- A scope was entered. Scopes are numbered by depth, from zero. -/
  | entered (scope : Nat)
  /-- A scope was left. -/
  | left (scope : Nat)
  /-- A name was bound in a scope. -/
  | bound (scope : Nat) (name : String)
  /-- A variable was declared. -/
  | declared (name : String) (ty : Ty)
  /-- An automation was declared. -/
  | automated (name : String) (output : Ty)
  /-- The program was found to be well formed. -/
  | analyzed
  /-- A reduction was applied. -/
  | reduced (reduction : Program.Reduction)
  /-- The program was simplified. -/
  | simplified (reductions : Nat)
  /-- A script was generated. -/
  | generated (lines : Nat)
deriving DecidableEq, Repr

/-- The level of an event. -/
def Event.level : Event → Level
  | entered _ | left _ | bound .. => .trace
  | _ => .debug

/-- The events of a compilation, in order. -/
abbrev Journal := Array Event

end Toal
