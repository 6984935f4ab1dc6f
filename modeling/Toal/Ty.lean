/-!
# Types

There are seven types. `any` is the type of a value about which nothing is
known until the program runs, and `none` that of a call that gives no value.
Two relations compare types: `isCompatible` says that a value of the one type may
turn out to be of the other, and `accepts` that a slot declared with a type takes
a value of another; only a slot of type `any` takes more than its own.
-/

namespace Toal

/-- The types of the language. -/
inductive Ty
  | bool
  | num
  | word
  | list
  | automation
  | any
  | none
deriving DecidableEq, Repr

/-- All types. -/
def Ty.all : List Ty := [.bool, .num, .word, .list, .automation, .any, .none]

/-- The name that stands for the type in a program. -/
def Ty.name : Ty → String
  | .bool => "bool"
  | .num => "num"
  | .word => "word"
  | .list => "list"
  | .automation => "automation"
  | .any => "any"
  | .none => "none"

/-- The type with the given name. -/
def Ty.ofName? (name : String) : Option Ty :=
  Ty.all.find? (·.name == name)

/-- What messages call the type. -/
def Ty.description : Ty → String
  | .bool => "boolean"
  | .num => "number"
  | .word => "word"
  | .list => "list"
  | .automation => "automation"
  | .any => "any"
  | .none => "none"

/-- The name of the type in outlines. -/
def Ty.label : Ty → String
  | .bool => "Bool"
  | .num => "Num"
  | .word => "Word"
  | .list => "List"
  | .automation => "Automation"
  | .any => "Any"
  | .none => "None"

/-- Whether a value of type `a` may turn out to be of type `b`: they are equal,
    or nothing is known about one of them. -/
def Ty.isCompatible (a b : Ty) : Bool :=
  a == b || a == .any || b == .any

/-- Whether a slot of type `slot` takes a value of type `actual`. -/
def Ty.accepts (slot actual : Ty) : Bool :=
  slot == .any || slot == actual

end Toal
