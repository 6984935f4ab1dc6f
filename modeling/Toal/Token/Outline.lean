import Toal.Outline
import Toal.Text.Quoted
import Toal.Token

/-!
# Outlines of tokens

The kinds of tokens and the places of names, as outlines show them.
-/

namespace Toal

/-- A span. -/
def Source.Span.outline (s : Span) : Outline :=
  .record "Span" [("lo", .nat s.lo), ("hi", .nat s.hi)]

/-- The kind of a literal. -/
def Token.literalOutline (kind : String) : Outline :=
  .record "Literal" [("kind", .leaf kind)]

/-- The kind of a token. -/
def Token.Kind.outline : Token.Kind → Outline
  | .openParen => .leaf "OpenParen"
  | .closeParen => .leaf "CloseParen"
  | .openBrace => .leaf "OpenBrace"
  | .closeBrace => .leaf "CloseBrace"
  | .openSquare => .leaf "OpenSquare"
  | .closeSquare => .leaf "CloseSquare"
  | .comma => .leaf "Comma"
  | .semicolon => .leaf "SemiColon"
  | .colon => .leaf "Colon"
  | .arrow => .leaf "Arrow"
  | .ident => .leaf "Ident"
  | .word => literalOutline "Str"
  | .numeral => literalOutline "Num"
  | .keyword k => .leaf k.label

/-- A token. -/
def Token.outline (t : Token) : Outline :=
  .record "Token"
    [("kind", t.kind.outline), ("symbol", .leaf (Text.quote t.text)), ("span", t.span.outline)]

end Toal
