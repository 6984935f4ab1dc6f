import Toal.Diagnostic
import Toal.Journal
import Toal.Prelude
import Toal.Program.Outline
import Toal.Program.Simplify
import Toal.Script.OfProgram
import Toal.Script.Text
import Toal.Surface.Outline
import Toal.Surface.Parse.Stmt
import Toal.Token.Scan
import Toal.Typing.Stmt

/-!
# Compiling

A program goes through four stages: it is parsed, typed, simplified, and turned
into a script. `compile` goes as far as it is asked to and gives what the last
stage made, or the failure that stopped it, and the journal in either case.
-/

namespace Toal

open Source
open Program (Passes)

/-- How far a compilation goes. -/
inductive Stage
  | parsed
  | analyzed
  | optimized
  | js
deriving DecidableEq, Repr

namespace Stage

/-- All stages, in order. -/
def all : List Stage := [parsed, analyzed, optimized, js]

/-- The name of a stage. -/
def name : Stage → String
  | parsed => "parsed"
  | analyzed => "analyzed"
  | optimized => "optimized"
  | js => "js"

/-- The stage with the given name. -/
def ofName? (name : String) : Option Stage :=
  all.find? (·.name == name)

/-- The message about a name that no stage has. -/
def unknownMessage (name : String) : String :=
  s!"unknown output '{name}', expected one of: " ++ ", ".intercalate (all.map Stage.name)

end Stage

/-- What a compilation gives. -/
inductive Output
  | parsed (stmts : List Surface.Stmt)
  | typed (program : Program)
  | script (text : String)

/-- What a compilation gives, as text. -/
def Output.text : Output → String
  | parsed stmts => (Surface.outline stmts).wide
  | typed program => program.outline.wide
  | script text => text

/-- What stops a compilation. -/
inductive Failure
  /-- Something is wrong with the program. -/
  | fault (f : Fault)
  /-- An automation of the language has no template for the given number of
      arguments. -/
  | noTemplate (name : String) (args : Nat)
deriving DecidableEq, Repr

/-- The failure of a compilation whose program has no script. -/
def Script.Failure.toFailure : Script.Failure → Toal.Failure
  | .breakLeaves automation => .fault ⟨.breakLeavesAutomation automation, none⟩
  | .noTemplate name args => .noTemplate name args

/-- The statements of a text. -/
def parseText (text : List Char) : Except Fault (List Surface.Stmt) := do
  let tokens ← Token.scan text
  (Surface.parse tokens).mapError (·.fault (byteLength text))

/-- The text of the script of a program. -/
def Program.scriptText (program : Program) : Except Failure String :=
  match Script.ofProgram program with
  | .ok stmts => .ok (Script.text stmts)
  | .error failure => .error failure.toFailure

/-- Simplifies a program and goes on to its script if asked to. -/
def finish (passes : Passes) (stage : Stage) (program : Program) (journal : Journal) :
    Except Failure Output × Journal :=
  let reduced := program.simplify passes
  let journal := journal ++ (reduced.reductions.map Event.reduced).toArray
    |>.push (.simplified reduced.reductions.length)
  if stage = .optimized then (.ok (.typed reduced.value), journal)
  else
    match reduced.value.scriptText with
    | .error failure => (.error failure, journal)
    | .ok text => (.ok (.script text), journal.push (.generated (Script.lineCount text)))

/-- Compiles a text up to the given stage. -/
def compile (passes : Passes) (stage : Stage) (text : List Char) :
    Except Failure Output × Journal :=
  match parseText text with
  | .error fault => (.error (.fault fault), #[.raised fault])
  | .ok stmts =>
    let journal : Journal := #[.parsed stmts.length]
    if stage = .parsed then (.ok (.parsed stmts), journal)
    else
      match Typing.run Prelude.standard stmts with
      | (.error fault, typing) => (.error (.fault fault), journal ++ typing)
      | (.ok program, typing) =>
        let journal := (journal ++ typing).push .analyzed
        if stage = .analyzed then (.ok (.typed program), journal)
        else finish passes stage program journal

end Toal
