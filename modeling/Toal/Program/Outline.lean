import Toal.Number.Text
import Toal.Outline
import Toal.Program
import Toal.Text.Quoted

/-!
# Outlines of typed programs

The outline of a typed program shows, in the place of every name, all that is
known about the entity it stands for, except for the serial number of its
declaration.
-/

namespace Toal

open Outline (record variant sequence optional)

/-- A variable. -/
def Variable.outline (v : Variable) : Outline :=
  record "Variable"
    [("name", .leaf (Text.quote v.name)), ("read_only", .truth v.readOnly),
      ("ty", .leaf v.ty.label), ("builtin", .truth v.builtin)]

/-- A parameter. -/
def Param.outline (p : Param) : Outline :=
  record "Param" [("name", .leaf (Text.quote p.name)), ("ty", .leaf p.ty.label)]

/-- An automation. -/
def Automation.outline (a : Automation) : Outline :=
  record "Automation"
    [("name", .leaf (Text.quote a.name)), ("params", sequence (a.params.map (·.outline))),
      ("ty", .leaf a.ty.label), ("builtin", .truth a.builtin)]

/-- An entity. -/
def Entity.outline : Entity → Outline
  | .var v => variant "Variable" v.outline
  | .auto a => variant "Automation" a.outline

namespace Program

/-- A call. -/
def callRecord (callee : Automation) (args : List Outline) : Outline :=
  variant "Call" (record "Call" [("callee", callee.outline), ("args", sequence args)])

mutual

/-- An expression. -/
def Expr.outline : Expr → Outline
  | .num value => variant "Num" (.leaf (Number.text .outline value))
  | .bool value => variant "Bool" (.truth value)
  | .word contents =>
    variant "Str" (record "StringLiteral" [("contents", .leaf (Text.quote contents))])
  | .list elements =>
    variant "List" (record "List" [("elements", sequence (exprOutlines elements))])
  | .var v => variant "Variable" v.outline
  | .auto a => variant "Automation" a.outline
  | .arith op left right =>
    variant "Binary" (record "Expression"
      [("op", .leaf op.label), ("left", left.outline), ("right", right.outline)])
  | .compare op left right =>
    variant "Compare" (record "BooleanExpression"
      [("op", .leaf op.label), ("left", left.outline), ("right", right.outline)])
  | .paren inner =>
    variant "Paren" (record "ParenthesesExpression" [("contents", inner.outline)])
  | .call callee args => callRecord callee (exprOutlines args)

/-- The expressions of a list. -/
def exprOutlines : List Expr → List Outline
  | [] => []
  | e :: es => e.outline :: exprOutlines es

end

mutual

/-- A statement. -/
def Stmt.outline : Stmt → Outline
  | .declare v init =>
    variant "VarDecl" (record "VariableDeclaration"
      [("variable", v.outline), ("initializer", init.outline)])
  | .assign target source =>
    variant "Assign" (record "Assignment"
      [("target", target.outline), ("source", source.outline)])
  | .change op target term =>
    variant "Change" (record "ChangeVariable"
      [("op", .leaf op.label), ("term", term.outline), ("target", target.outline)])
  | .print argument =>
    variant "Print" (record "PrintStatement" [("argument", argument.outline)])
  | .automate a params body =>
    variant "AutoDecl" (record "AutomationDeclaration"
      [("name", .leaf (Text.quote a.name)), ("auto", a.outline),
        ("params", sequence (params.map (·.outline))), ("output", .leaf a.ty.label),
        ("body", sequence (stmtOutlines body))])
  | .call callee args => callRecord callee (exprOutlines args)
  | .output value ty =>
    variant "Output" (record "Output"
      [("value", optional (value.map (·.outline))), ("ty", .leaf ty.label)])
  | .ifElse test body none =>
    variant "If" (record "IfStatement"
      [("test", test.outline), ("body", sequence (stmtOutlines body)),
        ("alternate", optional none)])
  | .ifElse test body (some alternate) =>
    variant "If" (record "IfStatement"
      [("test", test.outline), ("body", sequence (stmtOutlines body)),
        ("alternate", optional (some
          (record "ElseStatement" [("body", sequence (stmtOutlines alternate))])))])
  | .loopWhile test body =>
    variant "While" (record "WhileLoop"
      [("test", test.outline), ("body", sequence (stmtOutlines body))])
  | .loopOver item list body =>
    variant "For" (record "ForLoop"
      [("temp_var", item.outline), ("list", list.outline),
        ("body", sequence (stmtOutlines body))])
  | .breakLoop => .leaf "Break"

/-- The statements of a list. -/
def stmtOutlines : List Stmt → List Outline
  | [] => []
  | s :: ss => s.outline :: stmtOutlines ss

end

/-- A typed program. -/
def outline (p : Program) : Outline :=
  record "Program" [("stmts", sequence (stmtOutlines p.stmts))]

end Program

end Toal
