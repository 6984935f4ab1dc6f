/-!
# Outlines

An outline shows a tree of data as text: records with named fields, variants
with their parts in parentheses, and sequences. The *wide* form gives every part
a line of its own, indented by depth; the *narrow* form is one line.
-/

namespace Toal

/-- How the parts of a node are enclosed. -/
inductive Enclosure
  /-- Named parts in braces. -/
  | fields
  /-- Parts in parentheses. -/
  | parts
  /-- Parts in square brackets. -/
  | items
deriving DecidableEq, Repr

/-- What stands before the parts. -/
def Enclosure.opening : Enclosure → String
  | fields => " \x7b"
  | parts => "("
  | items => "["

/-- What stands after the parts. -/
def Enclosure.closing : Enclosure → String
  | fields => "\x7d"
  | parts => ")"
  | items => "]"

/-- A tree of data to be shown. -/
inductive Outline
  /-- A text of its own. -/
  | leaf (text : String)
  /-- A name, possibly empty, and enclosed parts, each with a label. -/
  | node (name : String) (enclosure : Enclosure) (children : List (String × Outline))

namespace Outline

/-- A record with named fields. -/
def record (name : String) (fields : List (String × Outline)) : Outline :=
  .node name .fields (fields.map fun (label, o) => (label ++ ": ", o))

/-- A variant with its part. -/
def variant (name : String) (part : Outline) : Outline :=
  .node name .parts [("", part)]

/-- A sequence. -/
def sequence (items : List Outline) : Outline :=
  .node "" .items (items.map ("", ·))

/-- Something that may be missing. -/
def optional : Option Outline → Outline
  | none => .leaf "None"
  | some o => variant "Some" o

/-- A truth value. -/
def truth (b : Bool) : Outline :=
  .leaf (if b then "true" else "false")

/-- A natural number. -/
def nat (n : Nat) : Outline :=
  .leaf (toString n)

/-- The start of a line at the given depth. -/
def newline (depth : Nat) : String :=
  "\n" ++ String.ofList (List.replicate (4 * depth) ' ')

mutual

/-- Appends the wide form, standing at the given depth, to a text. -/
def appendWide (depth : Nat) (acc : String) : Outline → String
  | .leaf text => acc ++ text
  | .node name enclosure [] => acc ++ name ++ enclosure.opening ++ enclosure.closing
  | .node name enclosure (child :: children) =>
    appendWideAll (depth + 1) (acc ++ name ++ enclosure.opening) (child :: children)
      ++ newline depth ++ enclosure.closing

/-- Appends the wide forms of parts, a line or more for each. -/
def appendWideAll (depth : Nat) (acc : String) : List (String × Outline) → String
  | [] => acc
  | (label, o) :: rest =>
    appendWideAll depth (appendWide depth (acc ++ newline depth ++ label) o ++ ",") rest

end

/-- The wide form. -/
def wide (o : Outline) : String :=
  appendWide 0 "" o

/-- What separates the enclosing brackets from the parts in the narrow form. -/
def margin : Enclosure → String
  | .fields => " "
  | _ => ""

mutual

/-- The narrow form. -/
def narrow : Outline → String
  | .leaf text => text
  | .node name enclosure children =>
    name ++ enclosure.opening ++ margin enclosure ++ narrowAll children ++ margin enclosure
      ++ enclosure.closing

/-- The narrow forms of parts, separated by commas. -/
def narrowAll : List (String × Outline) → String
  | [] => ""
  | [(label, o)] => label ++ narrow o
  | (label, o) :: rest => label ++ narrow o ++ ", " ++ narrowAll rest

end

end Outline

end Toal
