import Toal.Source.Position
import Toal.Ty

/-!
# Problems

Everything that can be wrong with a program is a `Problem`. Each stage of
compiling raises the problems it finds as faults, a `Fault` being a problem and
the span to blame; the wording of the messages is here, in `Problem.message`, and
nowhere else. A problem belongs to one of seven kinds, which the message names.
-/

namespace Toal

/-- The kinds of problems. -/
inductive ErrorKind
  | syntaxError
  | contextAdd
  | contextLookup
  | assign
  | call
  | auto
  | type
deriving DecidableEq, Repr

/-- The name of the kind in messages. -/
def ErrorKind.name : ErrorKind → String
  | .syntaxError => "SyntaxError"
  | .contextAdd => "ContextAddError"
  | .contextLookup => "ContextLookupError"
  | .assign => "AssignError"
  | .call => "CallError"
  | .auto => "AutoError"
  | .type => "TypeError"

/-- What may stand at a place of a program where something else was found. -/
inductive Expectation
  /-- The given piece of text. -/
  | text (s : String)
  | identifier
  | typeName
  /-- One of the two words that may follow `loop`. -/
  | loopKind
  | statement
  | expression
deriving DecidableEq, Repr

/-- What messages call the expectation. -/
def Expectation.description : Expectation → String
  | .text s => "\"" ++ s ++ "\""
  | .identifier => "an identifier"
  | .typeName => "a type name"
  | .loopKind => "\"while\" or \"over\""
  | .statement => "a statement"
  | .expression => "an expression"

/-- What a place in an expression or a statement demands of a value's type. -/
inductive Demand
  | numeric
  | numericOrWord
  | truth
  | list
deriving DecidableEq, Repr

/-- The types that satisfy the demand (besides `any`). -/
def Demand.types : Demand → List Ty
  | .numeric => [.num]
  | .numericOrWord => [.num, .word]
  | .truth => [.bool]
  | .list => [.list]

/-- What messages call a value that satisfies the demand. -/
def Demand.description : Demand → String
  | .numeric => "a numeric value"
  | .numericOrWord => "a numeric or string value"
  | .truth => "a true/false value"
  | .list => "a list"

/-- Whether a value of the given type may satisfy the demand. -/
def Demand.allows (d : Demand) (ty : Ty) : Bool :=
  d.types.any (·.isCompatible ty)

/-- Everything that can be wrong with a program. -/
inductive Problem
  /-- A character with which no token begins. -/
  | unexpectedCharacter (c : Char)
  /-- A quoted word without its closing quote. -/
  | unterminatedWord
  /-- Something else than what may stand here; `none` is the end of the text. -/
  | expected (what : Expectation) (found : Option String)
  /-- A numeral that has no value. -/
  | invalidNumeral
  /-- A declaration of a name that is already visible. -/
  | alreadyDeclared (name : String)
  /-- A use of a name that is not visible. -/
  | notDeclared (name : String)
  /-- A variable declared with a call that gives no value. -/
  | noneAssigned
  /-- A value of another type than the variable's. -/
  | valueMismatch (name : String) (declared actual : Ty)
  /-- An assignment to an automation. -/
  | automationAssigned (name : String)
  /-- An assignment to a constant. -/
  | constantChanged (name : String)
  /-- A value that does not satisfy the demand of its place. -/
  | demandUnmet (demand : Demand) (actual : Ty)
  /-- The result of a call that gives no value is printed. -/
  | nonePrinted
  /-- A `break` without a loop around it. -/
  | breakOutsideLoop
  /-- A name that stands for no type. -/
  | unknownType (name : String)
  /-- An automation that is declared to output just anything. -/
  | anyOutput
  /-- A parameter of type `none`. -/
  | noneParameter (name : String)
  /-- An automation with an output type and no output. -/
  | missingOutput (name : String)
  /-- An `output` without an automation around it. -/
  | outputOutsideAutomation
  /-- An `output` without the value that the automation is declared to give. -/
  | missingOutputValue (name : String) (ty : Ty)
  /-- An `output` of a value of the wrong type. -/
  | outputMismatch (name : String) (actual declared : Ty)
  /-- A call of something that is not an automation. -/
  | variableCalled (name : String)
  /-- A call with too few or too many arguments. -/
  | argumentCount (declared found : Nat)
  /-- An argument that its parameter does not accept; counted from one. -/
  | argumentMismatch (index : Nat) (actual declared : Ty)
  /-- A `break` that would have to leave an automation to reach its loop. -/
  | breakLeavesAutomation (name : String)
deriving DecidableEq, Repr

/-- The kind that a problem belongs to. -/
def Problem.kind : Problem → ErrorKind
  | .unexpectedCharacter _ | .unterminatedWord | .expected .. | .invalidNumeral => .syntaxError
  | .alreadyDeclared _ => .contextAdd
  | .notDeclared _ => .contextLookup
  | .noneAssigned | .valueMismatch .. | .automationAssigned _ | .constantChanged _ => .assign
  | .demandUnmet .. | .nonePrinted | .unknownType _ => .type
  | .breakOutsideLoop | .outputOutsideAutomation | .variableCalled _ | .argumentCount ..
  | .argumentMismatch .. | .breakLeavesAutomation _ => .call
  | .anyOutput | .noneParameter _ | .missingOutput _ | .missingOutputValue ..
  | .outputMismatch .. => .auto

/-- The message about a problem. -/
def Problem.message : Problem → String
  | .unexpectedCharacter c => s!"Unexpected character '{c}'."
  | .unterminatedWord => "Unterminated string."
  | .expected what none => s!"Expected {what.description}, found end of input."
  | .expected what (some found) => s!"Expected {what.description}, found \"{found}\"."
  | .invalidNumeral => "Invalid numeral."
  | .alreadyDeclared name => s!"Identifier '{name}' has already been declared."
  | .notDeclared name => s!"Identifier '{name}' not declared."
  | .noneAssigned => "Cannot assign a value with type 'none' to a variable."
  | .valueMismatch name declared actual =>
    s!"Variable '{name}' ({declared.description}) cannot have a value of type " ++
      s!"{actual.description}."
  | .automationAssigned name => s!"Cannot assign value to automation '{name}'."
  | .constantChanged name => s!"Cannot change value of constant '{name}'."
  | .demandUnmet demand actual =>
    s!"Expected {demand.description}, got type '{actual.description}'."
  | .nonePrinted => "Cannot print a value of type 'none'."
  | .breakOutsideLoop => "Break must be called in a loop."
  | .unknownType name => s!"Unknown type '{name}'."
  | .anyOutput => "Must specify automation output type (cannot be any)."
  | .noneParameter name => s!"Type of parameter '{name}' cannot be none."
  | .missingOutput name => s!"'{name}' must have an output."
  | .outputOutsideAutomation => "Output must be called in an automation."
  | .missingOutputValue name ty =>
    s!"Automation '{name}' must output a value of type '{ty.description}'."
  | .outputMismatch name actual declared =>
    s!"Automation '{name}' cannot output a value of type '{actual.description}' " ++
      s!"(must output '{declared.description}')."
  | .variableCalled name => s!"Trying to call Variable '{name}' as an Automation."
  | .argumentCount declared found => s!"Expected {declared} arg(s), found {found}."
  | .argumentMismatch index actual declared =>
    s!"Argument {index} ({actual.description}) must be of type: {declared.description}."
  | .breakLeavesAutomation name =>
    s!"Break in automation '{name}' cannot leave a loop outside it."

/-- A problem and the part of the program to blame for it. Only a problem found
    after the program has left its text behind has no span. -/
structure Fault where
  /-- What is wrong. -/
  problem : Problem
  /-- Where it is wrong. -/
  span : Option Source.Span
deriving DecidableEq, Repr

end Toal
