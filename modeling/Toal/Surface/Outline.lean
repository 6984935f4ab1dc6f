import Toal.Number.Text
import Toal.Surface
import Toal.Token.Outline

/-!
# Outlines of programs as written

The outline of a program before typing has a record for every node, with the
span of the node as its last field. A name is shown as the token it was read
from.
-/

namespace Toal.Surface

open Outline (record variant sequence optional)

/-- A name, shown as the token it is. -/
def Ident.outline (i : Ident) : Outline :=
  (Token.mk .ident i.text i.span).outline

/-- An expression and its span. -/
def exprRecord (kind : Outline) (span : Source.Span) : Outline :=
  record "Expr" [("kind", kind), ("span", span.outline)]

/-- A call. -/
def callRecord (callee : Ident) (args : List Outline) (span : Source.Span) : Outline :=
  variant "Call"
    (record "Call" [("callee", callee.outline), ("args", sequence args), ("span", span.outline)])

mutual

/-- An expression. -/
def Expr.outline : Expr → Outline
  | .binary op left right span =>
    exprRecord (record "Binary"
      [("op", .leaf op.label), ("left", left.outline), ("right", right.outline)]) span
  | .group inner span => exprRecord (variant "Grouping" inner.outline) span
  | .number value span =>
    exprRecord (variant "Literal" (variant "Num" (.leaf (Number.text .outline value)))) span
  | .word contents span =>
    exprRecord (variant "Literal" (variant "Str" (.leaf (Text.quote contents)))) span
  | .list elements span => exprRecord (variant "List" (sequence (exprOutlines elements))) span
  | .name ident => exprRecord (variant "Variable" ident.outline) ident.span
  | .call callee args span => exprRecord (callRecord callee (exprOutlines args) span) span

/-- The expressions of a list. -/
def exprOutlines : List Expr → List Outline
  | [] => []
  | e :: es => e.outline :: exprOutlines es

end

/-- A parameter. -/
def Param.outline (p : Param) : Outline :=
  record "Param" [("name", p.name.outline), ("ty", optional (p.ty.map (·.outline)))]

/-- A statement and its span. -/
def stmtRecord (kind : Outline) (span : Source.Span) : Outline :=
  record "Stmt" [("kind", kind), ("span", span.outline)]

mutual

/-- A statement. -/
def Stmt.outline : Stmt → Outline
  | .declare readOnly name init span =>
    stmtRecord (record "Let"
      [("read_only", .truth readOnly), ("name", name.outline), ("init", init.outline)]) span
  | .assign target value span =>
    stmtRecord (record "Assign" [("name", target.outline), ("val", value.outline)]) span
  | .change op target term span =>
    stmtRecord (record "OpAssign"
      [("op", .leaf op.label), ("target", target.outline), ("term", term.outline)]) span
  | .print value span => stmtRecord (variant "Print" value.outline) span
  | .automate name params output body span =>
    stmtRecord (variant "Automation" (record "Automation"
      [("name", name.outline), ("params", sequence (params.map (·.outline))),
        ("output", optional (output.map (·.outline))), ("body", body.outline)])) span
  | .call callee args callSpan span =>
    stmtRecord (callRecord callee (exprOutlines args) callSpan) span
  | .output value span =>
    stmtRecord (variant "Output" (optional (value.map (·.outline)))) span
  | .ifElse test body none span =>
    stmtRecord (record "If"
      [("cond", test.outline), ("then_clause", body.outline), ("else_clause", optional none)]) span
  | .ifElse test body (some alternate) span =>
    stmtRecord (record "If"
      [("cond", test.outline), ("then_clause", body.outline),
        ("else_clause", optional (some alternate.outline))]) span
  | .loopWhile test body span =>
    stmtRecord (record "While" [("cond", test.outline), ("body", body.outline)]) span
  | .loopOver item list body span =>
    stmtRecord (record "For"
      [("var", item.outline), ("list", list.outline), ("body", body.outline)]) span
  | .breakLoop span => stmtRecord (.leaf "Break") span

/-- A block. -/
def Block.outline : Block → Outline
  | .mk stmts span =>
    record "Block" [("stmts", sequence (stmtOutlines stmts)), ("span", span.outline)]

/-- The statements of a list. -/
def stmtOutlines : List Stmt → List Outline
  | [] => []
  | s :: ss => s.outline :: stmtOutlines ss

end

/-- A program as written. -/
def outline (stmts : List Stmt) : Outline :=
  record "Ast" [("stmts", sequence (stmtOutlines stmts))]

end Toal.Surface
