import Toal.Diagnostic
import Toal.Journal

/-!
# The text of a journal

Each event has one line, with its level in front. A fault is shown with its
place, so the text of the program is needed too.
-/

namespace Toal.Event

/-- What is said about an event, for a program with the given text. -/
def message (text : List Char) : Event → String
  | raised fault => "raising " ++ (fault.diagnostic text).display
  | parsed statements => s!"parsed {statements} statement(s)"
  | entered scope => s!"enter scope {scope}"
  | left scope => s!"exit scope {scope}"
  | bound scope name => s!"scope {scope}: add {name}"
  | declared name ty => s!"declared {name}: {ty.description}"
  | automated name output => s!"declared automation {name} -> {output.description}"
  | analyzed => "analysis finished"
  | reduced reduction => "optimize: " ++ reduction.text
  | simplified reductions => s!"optimizer applied {reductions} rewrite(s)"
  | generated lines => s!"generated {lines} line(s) of JavaScript"

/-- The line of an event. -/
def line (text : List Char) (e : Event) : String :=
  e.level.name ++ " " ++ e.message text

end Toal.Event
