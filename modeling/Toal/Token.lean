import Toal.Source.Position

/-!
# Tokens

The text of a program is a sequence of tokens: punctuation, names, quoted words,
numerals, and the keywords, of which there are many since the language spells
out in English what others write in symbols. A token keeps its text and its
span; the text of a quoted word is what stands between the quotes, with its
escapes as written.
-/

namespace Toal

/-- The reserved words. -/
inductive Keyword
  | constantly
  | make
  | with_
  | change
  | to_
  | add
  | subtract
  | from_
  | multiply
  | divide
  | by_
  | raise
  | the
  | mod
  | print
  | automate
  | output
  | if_
  | ifNot
  | loop
  | while_
  | over_
  | in_
  | break_
  | plus
  | minus
  | times
  | divided
  | is
  | not
  | greater
  | less
  | than
  | or
  | equal
deriving DecidableEq, Repr

namespace Keyword

/-- All reserved words. -/
def all : List Keyword :=
  [.constantly, .make, .with_, .change, .to_, .add, .subtract, .from_, .multiply, .divide, .by_,
    .raise, .the, .mod, .print, .automate, .output, .if_, .ifNot, .loop, .while_, .over_, .in_,
    .break_, .plus, .minus, .times, .divided, .is, .not, .greater, .less, .than, .or, .equal]

/-- The spelling of a reserved word. -/
def text : Keyword → String
  | constantly => "constantly"
  | make => "make"
  | with_ => "with"
  | change => "change"
  | to_ => "to"
  | add => "add"
  | subtract => "subtract"
  | from_ => "from"
  | multiply => "multiply"
  | divide => "divide"
  | by_ => "by"
  | raise => "raise"
  | the => "the"
  | mod => "mod"
  | print => "print"
  | automate => "automate"
  | output => "output"
  | if_ => "if"
  | ifNot => "ifnot"
  | loop => "loop"
  | while_ => "while"
  | over_ => "over"
  | in_ => "in"
  | break_ => "break"
  | plus => "plus"
  | minus => "minus"
  | times => "times"
  | divided => "divided"
  | is => "is"
  | not => "not"
  | greater => "greater"
  | less => "less"
  | than => "than"
  | or => "or"
  | equal => "equal"

/-- The reserved word with the given spelling. -/
def ofText? (s : String) : Option Keyword :=
  all.find? (·.text == s)

/-- The name of a reserved word in outlines. -/
def label : Keyword → String
  | constantly => "Constantly"
  | make => "Make"
  | with_ => "With"
  | change => "Change"
  | to_ => "To"
  | add => "Add"
  | subtract => "Subtract"
  | from_ => "From"
  | multiply => "Multiply"
  | divide => "Divide"
  | by_ => "By"
  | raise => "Raise"
  | the => "The"
  | mod => "Mod"
  | print => "Print"
  | automate => "Automate"
  | output => "Output"
  | if_ => "If"
  | ifNot => "IfNot"
  | loop => "Loop"
  | while_ => "While"
  | over_ => "Over"
  | in_ => "In"
  | break_ => "Break"
  | plus => "Plus"
  | minus => "Minus"
  | times => "Times"
  | divided => "Divided"
  | is => "Is"
  | not => "Not"
  | greater => "Greater"
  | less => "Less"
  | than => "Than"
  | or => "Or"
  | equal => "Equal"

end Keyword

/-- The kinds of tokens. -/
inductive Token.Kind
  | openParen
  | closeParen
  | openBrace
  | closeBrace
  | openSquare
  | closeSquare
  | comma
  | semicolon
  | colon
  | arrow
  | ident
  /-- A quoted word. -/
  | word
  | numeral
  | keyword (k : Keyword)
deriving DecidableEq, Repr

/-- A token of a program. -/
structure Token where
  /-- What kind of token it is. -/
  kind : Token.Kind
  /-- Its text; for a quoted word, what stands between the quotes. -/
  text : String
  /-- Where it stands. -/
  span : Source.Span
deriving DecidableEq, Repr

namespace Token

/-- The token as it stands in the program. -/
def written (t : Token) : String :=
  match t.kind with
  | .word => "\"" ++ t.text ++ "\""
  | _ => t.text

end Token

end Toal
