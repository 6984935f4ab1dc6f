import Toal.Number.Text
import Toal.Script

/-!
# The text of a script

A script is written as lines, each at the depth of the blocks around it. A line
that opens a block ends in an opening brace, and the block ends with a line that
begins with the closing one (`Stmt.lines`).

Two details keep expressions what they are. A negative number is put in
parentheses, since a minus in front of a base or after another minus would be
read differently. And a word is quoted so that its escapes, which the two
languages share, pass through, while line terminators, which a quoted word of a
script must not contain, are escaped.
-/

namespace Toal.Script

/-- The text of a name. -/
def Name.text (n : Name) : String :=
  n.base ++ "_" ++ toString n.suffix

/-- The text of a reference. -/
def Ref.text : Ref → String
  | .name n => n.text
  | .pi => "Math.PI"
  | .infinity => "Infinity"
  | .truth value => toString value

/-- The text of a number. -/
def numText (x : Float) : String :=
  if Number.isNegative x then "(" ++ Number.text .plain x ++ ")" else Number.text .plain x

/-- What stands between the quotes in a script, for what stands between them in a
    program. A backslash keeps the character after it as it is. -/
def wordChars : List Char → List Char
  | [] => []
  | ['\\'] => ['\\']
  | '\\' :: c :: cs => '\\' :: c :: wordChars cs
  | '\n' :: cs => '\\' :: 'n' :: wordChars cs
  | '\r' :: cs => '\\' :: 'r' :: wordChars cs
  | '\u2028' :: cs => '\\' :: 'u' :: '2' :: '0' :: '2' :: '8' :: wordChars cs
  | '\u2029' :: cs => '\\' :: 'u' :: '2' :: '0' :: '2' :: '9' :: wordChars cs
  | c :: cs => c :: wordChars cs

/-- A quoted word. -/
def wordText (contents : String) : String :=
  String.ofList ('"' :: wordChars contents.toList ++ ['"'])

/-- The symbol of an arithmetic operator in a script. -/
def arithText : ArithOp → String
  | .pow => "**"
  | op => op.symbol

/-- The symbol of an operator in a script. -/
def opText : BinOp → String
  | .arith op => arithText op
  | .compare op => op.symbol

mutual

/-- The text of an expression. -/
def Expr.text : Expr → String
  | .num value => numText value
  | .bool value => toString value
  | .word contents => wordText contents
  | .list elements => "[" ++ textAll elements ++ "]"
  | .ref r => r.text
  | .binary op left right => left.text ++ " " ++ opText op ++ " " ++ right.text
  | .paren inner => "(" ++ inner.text ++ ")"
  | .call callee args => callee.text ++ "(" ++ textAll args ++ ")"
  | .push list element => list.text ++ ".push(" ++ element.text ++ ")"
  | .removeFirst list element =>
    "((l, e) => \x7b const i = l.indexOf(e); if (i !== -1) l.splice(i, 1); \x7d)(" ++
      list.text ++ ", " ++ element.text ++ ")"
  | .length value => value.text ++ ".length"
  | .range start stop =>
    "Array.from(\x7b length: " ++ stop.text ++ " - " ++ start.text ++ " \x7d, (_, i) => " ++
      start.text ++ " + i)"
  | .typeOf value => "typeof " ++ value.text

/-- The texts of expressions, separated by commas. -/
def textAll : List Expr → String
  | [] => ""
  | [e] => e.text
  | e :: es => e.text ++ ", " ++ textAll es

end

/-- A line of a script. -/
structure Line where
  /-- The number of blocks around the line. -/
  depth : Nat
  /-- What stands on the line after the indentation. -/
  text : String
deriving DecidableEq, Repr

/-- The line with its indentation, two spaces for each block. -/
def Line.indented (l : Line) : String :=
  String.ofList (List.replicate (2 * l.depth) ' ') ++ l.text

mutual

/-- The lines of a statement at the given depth. -/
def Stmt.lines (depth : Nat) : Stmt → List Line
  | .declare target init => [⟨depth, "let " ++ target.text ++ " = " ++ init.text ++ ";"⟩]
  | .assign target source => [⟨depth, target.text ++ " = " ++ source.text ++ ";"⟩]
  | .change op target term =>
    [⟨depth, target.text ++ " " ++ arithText op ++ "= " ++ term.text ++ ";"⟩]
  | .print argument => [⟨depth, "console.log(" ++ argument.text ++ ");"⟩]
  | .function n params body =>
    ⟨depth, "function " ++ n.text ++ "(" ++ ", ".intercalate (params.map (·.text)) ++ ") \x7b"⟩ ::
      linesAll (depth + 1) body ++ [⟨depth, "\x7d"⟩]
  | .eval e => [⟨depth, e.text ++ ";"⟩]
  | .output none => [⟨depth, "return;"⟩]
  | .output (some value) => [⟨depth, "return " ++ value.text ++ ";"⟩]
  | .ifElse test body none =>
    ⟨depth, "if (" ++ test.text ++ ") \x7b"⟩ :: linesAll (depth + 1) body ++ [⟨depth, "\x7d"⟩]
  | .ifElse test body (some alternate) =>
    ⟨depth, "if (" ++ test.text ++ ") \x7b"⟩ :: linesAll (depth + 1) body ++
      ⟨depth, "\x7d else \x7b"⟩ :: linesAll (depth + 1) alternate ++ [⟨depth, "\x7d"⟩]
  | .loopWhile test body =>
    ⟨depth, "while (" ++ test.text ++ ") \x7b"⟩ :: linesAll (depth + 1) body ++ [⟨depth, "\x7d"⟩]
  | .loopOver item list body =>
    ⟨depth, "for (let " ++ item.text ++ " of " ++ list.text ++ ") \x7b"⟩ ::
      linesAll (depth + 1) body ++ [⟨depth, "\x7d"⟩]
  | .breakLoop => [⟨depth, "break;"⟩]

/-- The lines of the statements of a list. -/
def linesAll (depth : Nat) : List Stmt → List Line
  | [] => []
  | s :: ss => s.lines depth ++ linesAll depth ss

end

/-- The text of a script. -/
def text (stmts : List Stmt) : String :=
  "\n".intercalate ((linesAll 0 stmts).map (·.indented))

/-- The number of lines of a text. A line feed ends a line, and what follows the
    last one is a line if it is not empty. -/
def lineCount (s : String) : Nat :=
  let cs := s.toList
  cs.count '\n' + if cs.getLast?.all (· = '\n') then 0 else 1

end Toal.Script
