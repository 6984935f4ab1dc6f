import Toal.Entity
import Toal.Problem

/-!
# Scopes

While a program is read, the names that are visible form a stack of *frames*,
the innermost first. The body of a loop or an automation gets a frame of its own,
which is discarded at its end; the branches of an `if` do not. A frame also
records whether it lies in a loop, and in which automation; where it is not told
otherwise it takes both from the frame around it.

No name may be declared while it is visible, in whatever frame, so nothing is
ever shadowed (`Context.declare`). Variables and automations are kept apart, and
a variable is found before an automation of the same name in the same frame.
-/

namespace Toal

/-- The declarations of one block. -/
structure Frame where
  /-- The variables, latest first. -/
  vars : List Variable
  /-- The automations, latest first. -/
  autos : List Automation
  /-- Whether the block lies in a loop. -/
  inLoop : Bool
  /-- The innermost automation around the block. -/
  automation : Option Automation
deriving DecidableEq, Repr

namespace Frame

/-- A frame outside of everything, with nothing in it. -/
def empty : Frame := ⟨[], [], false, none⟩

/-- Whether the frame has an entity of the given name. -/
def binds (f : Frame) (name : String) : Bool :=
  f.vars.any (·.name == name) || f.autos.any (·.name == name)

/-- The entity of the given name in the frame. -/
def find? (f : Frame) (name : String) : Option Entity :=
  match f.vars.find? (·.name == name) with
  | some v => some (.var v)
  | none => (f.autos.find? (·.name == name)).map .auto

/-- The frame with one more entity. It hides one of the same kind and name. -/
def insert (f : Frame) : Entity → Frame
  | .var v => { f with vars := v :: f.vars }
  | .auto a => { f with autos := a :: f.autos }

end Frame

/-- What a new frame sets for itself instead of taking it over. -/
structure Overrides where
  /-- Whether the frame lies in a loop. -/
  inLoop : Option Bool := none
  /-- The automation around the frame. -/
  automation : Option Automation := none

/-- The body of a loop. -/
def Overrides.loop : Overrides := { inLoop := some true }

/-- The body of an automation. It may still lie in a loop around the automation. -/
def Overrides.body (a : Automation) : Overrides := { automation := some a }

/-- The frames around a place of a program. -/
structure Context where
  /-- The innermost frame. -/
  current : Frame
  /-- The frames around it, from the inside out. -/
  outer : List Frame
deriving DecidableEq, Repr

namespace Context

/-- The outermost scope, with nothing declared. -/
def empty : Context := ⟨.empty, []⟩

/-- All frames, from the inside out. -/
def frames (cx : Context) : List Frame := cx.current :: cx.outer

/-- The number of frames around the current one, by which the current one is
    known. -/
def id (cx : Context) : Nat := cx.outer.length

/-- The number of frames. -/
def depth (cx : Context) : Nat := cx.frames.length

/-- Whether the place lies in a loop. -/
def inLoop (cx : Context) : Bool := cx.current.inLoop

/-- The innermost automation around the place. -/
def automation (cx : Context) : Option Automation := cx.current.automation

/-- Whether the name is visible. -/
def sees (cx : Context) (name : String) : Bool :=
  cx.frames.any (·.binds name)

/-- What the name stands for. -/
def find? (cx : Context) (name : String) : Option Entity :=
  cx.frames.findSome? (·.find? name)

/-- What the name stands for, or the problem that it stands for nothing. -/
def lookup (cx : Context) (name : String) : Except Problem Entity :=
  match cx.find? name with
  | some entity => .ok entity
  | none => .error (.notDeclared name)

/-- The context with one more entity in the current frame, under its own name. -/
def insert (cx : Context) (entity : Entity) : Context :=
  { cx with current := cx.current.insert entity }

/-- The context with one more entity in the current frame, or the problem that
    the given name is visible already. -/
def declare (cx : Context) (name : String) (entity : Entity) : Except Problem Context :=
  if cx.sees name then .error (.alreadyDeclared name) else .ok (cx.insert entity)

/-- The outermost scope with the given entities in it. -/
def ofEntities (entities : List Entity) : Context :=
  entities.foldl insert empty

/-- The context inside a new frame. -/
def enter (cx : Context) (o : Overrides) : Context where
  current :=
    { Frame.empty with
      inLoop := o.inLoop.getD cx.inLoop
      automation := o.automation <|> cx.automation }
  outer := cx.frames

/-- The context around the current frame; there is none around the outermost. -/
def parent? (cx : Context) : Option Context :=
  match cx.outer with
  | [] => none
  | f :: fs => some ⟨f, fs⟩

/-- Leaves the frame with the given number, which is possible only if it is the
    current one. Leaving the outermost frame leaves no context at all. -/
def exit? (cx : Context) (id : Nat) : Option (Option Context) :=
  if id = cx.id then some cx.parent? else none

end Context

end Toal
