import Toal.Ty

/-!
# Entities

A name of a program stands for an *entity*: a variable or an automation. Each is
introduced by one declaration, and two declarations introduce two entities, also
when everything that is written down about them agrees. So an entity carries
the serial number of its declaration.
-/

namespace Toal

/-- A variable. Its type is fixed by its declaration. -/
structure Variable where
  /-- The serial number of the declaration. -/
  serial : Nat
  /-- The name it is declared with. -/
  name : String
  /-- Whether its value cannot be changed. -/
  readOnly : Bool
  /-- The type of its values. -/
  ty : Ty
  /-- Whether it comes with the language. -/
  builtin : Bool
deriving DecidableEq, Repr

/-- A parameter of an automation, as its callers see it. -/
structure Param where
  /-- The name of the parameter. -/
  name : String
  /-- The type of the arguments it accepts. -/
  ty : Ty
deriving DecidableEq, Repr

/-- An automation, as its callers see it. -/
structure Automation where
  /-- The serial number of the declaration. -/
  serial : Nat
  /-- The name it is declared with. -/
  name : String
  /-- The parameters, in order. -/
  params : List Param
  /-- The type of its output. -/
  ty : Ty
  /-- Whether it comes with the language. -/
  builtin : Bool
deriving DecidableEq, Repr

/-- What a name can stand for. -/
inductive Entity
  | var (v : Variable)
  | auto (a : Automation)
deriving DecidableEq, Repr

namespace Entity

/-- The name that an entity is declared with. -/
def name : Entity → String
  | var v => v.name
  | auto a => a.name

/-- The serial number of an entity's declaration. -/
def serial : Entity → Nat
  | var v => v.serial
  | auto a => a.serial

/-- The entity with another serial number. -/
def withSerial (serial : Nat) : Entity → Entity
  | var v => var { v with serial }
  | auto a => auto { a with serial }

end Entity

end Toal
