import Toal.Problem
import Toal.Source.Position

/-!
# Diagnostics

A diagnostic is a fault as it is shown to a person: the kind of the problem, the
message, and where in a text it lies. Locating a fault brings its span onto
boundaries of the text, so a diagnostic can always be shown with the text it was
located in (`Diagnostic.render?`): the line at fault, a line of carets below the
span, and the message. Shown with another text, the span may make no sense
there, and then there is nothing to show.
-/

namespace Toal

open Source

/-- A place in a text. -/
structure Mark where
  /-- The part of the text that is marked. -/
  span : Span
  /-- The line and column at which it begins. -/
  location : Location
deriving DecidableEq, Repr

/-- A fault as it is shown to a person. -/
structure Diagnostic where
  /-- The kind of the problem. -/
  kind : ErrorKind
  /-- What is wrong. -/
  message : String
  /-- Where it is wrong, if that is known. -/
  mark : Option Mark
deriving DecidableEq, Repr

/-- The place of a span in a text. -/
def Mark.ofSpan (span : Span) (text : List Char) : Mark :=
  let span := span.clamp text
  ⟨span, locate span.lo text⟩

/-- The fault, located in the text it was found in. -/
def Fault.diagnostic (f : Fault) (text : List Char) : Diagnostic :=
  ⟨f.problem.kind, f.problem.message, f.span.map (Mark.ofSpan · text)⟩

namespace Diagnostic

/-- The diagnostic in one line. -/
def display (d : Diagnostic) : String :=
  let place :=
    match d.mark with
    | some m => s!"Line {m.location.line}, col {m.location.column}: "
    | none => ""
  place ++ d.kind.name ++ ": " ++ d.message

/-- A text of `n` copies of a character. -/
def repeated (c : Char) (n : Nat) : String :=
  String.ofList (List.replicate n c)

/-- The diagnostic below the line of the text that it is about. The carets go to
    the end of the span or of the line, and there is at least one. There is
    nothing to show if the span does not begin at a boundary of the text, or its
    part on the line does not end at one. -/
def render? (d : Diagnostic) (text : List Char) : Option String :=
  match d.mark with
  | none => some d.display
  | some m => do
    let (before, after) ← splitAt? m.span.lo text
    let lineEnd := m.span.lo + byteLength (firstLine after)
    let (marked, _) ← splitAt? (min m.span.hi lineEnd - m.span.lo) after
    let line := String.ofList (lastLine before ++ firstLine after)
    let carets := repeated ' ' (lastLine before).length ++ repeated '^' (max 1 marked.length)
    return line ++ "\n" ++ carets ++ "\n" ++ d.display

end Diagnostic

end Toal
