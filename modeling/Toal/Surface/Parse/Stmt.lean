import Toal.Surface.Parse.Expr

/-!
# Parsing statements

Every statement begins with a keyword of its own, except a call, which begins
with a name and an opening parenthesis. Blocks hold statements up to their
closing brace; a program holds statements up to the end of its text, and
`parse` reads one.
-/

namespace Toal.Surface

open Source

/-- Reads a parameter: a type and a colon may stand before the name. -/
def param (ts : List Token) : Outcome Param ts :=
  match ts with
  | ⟨.ident, text, span⟩ :: ⟨.colon, _, _⟩ :: rest =>
    Outcome.after <| Outcome.after <| (ident .identifier rest).map fun name =>
      ⟨name, some ⟨text, span⟩⟩
  | ts => (ident .identifier ts).map fun name => ⟨name, none⟩

/-- Reads one or more parameters separated by commas. -/
def paramList (ts : List Token) : Outcome (List Param) ts :=
  (param ts).andMaybe fun head rest _ =>
    (token? .comma rest).andThen [head] fun _ rest _ => (paramList rest).map (head :: ·)
termination_by ts.length

/-- Reads the parameters of an automation, unless the closing parenthesis comes
    at once. -/
def params (ts : List Token) : Outcome? (List Param) ts :=
  if kind? ts = some .closeParen then .done [] ts else (paramList ts).weak

/-- Reads an arrow and the name of an output type, if the arrow is there. -/
def outputType? (ts : List Token) : Outcome? (Option Ident) ts :=
  (token? .arrow ts).andThen none fun _ rest _ => (ident .typeName rest).map some

/-- Reads the rest of a declaration that began at `start`. -/
def declaration (start : Span) (readOnly : Bool) (ts : List Token) : Outcome Stmt ts :=
  (ident .identifier ts).andThen fun name rest _ =>
    (keyword .with_ rest).andThen fun _ rest _ =>
      (expr rest).andThen fun init rest _ =>
        (semicolon rest).map fun close =>
          .declare readOnly name init (start.cover close.span)

/-- Reads the rest of a change that names the term first, then the given
    keyword and the target. -/
def changeTermFirst (start : Span) (op : ArithOp) (joint : Keyword) (ts : List Token) :
    Outcome Stmt ts :=
  (expr ts).andThen fun term rest _ =>
    (keyword joint rest).andThen fun _ rest _ =>
      (ident .identifier rest).andThen fun target rest _ =>
        (semicolon rest).map fun close => .change op target term (start.cover close.span)

/-- Reads the rest of a change that names the target first, then `by` and the
    term. -/
def changeTargetFirst (start : Span) (op : ArithOp) (ts : List Token) : Outcome Stmt ts :=
  (ident .identifier ts).andThen fun target rest _ =>
    (keyword .by_ rest).andThen fun _ rest _ =>
      (expr rest).andThen fun term rest _ =>
        (semicolon rest).map fun close => .change op target term (start.cover close.span)

/-- Reads the rest of an assignment. -/
def assignment (start : Span) (ts : List Token) : Outcome Stmt ts :=
  (ident .identifier ts).andThen fun target rest _ =>
    (keyword .to_ rest).andThen fun _ rest _ =>
      (expr rest).andThen fun value rest _ =>
        (semicolon rest).map fun close => .assign target value (start.cover close.span)

/-- Reads the rest of a raising to a power. -/
def raising (start : Span) (ts : List Token) : Outcome Stmt ts :=
  (ident .identifier ts).andThen fun target rest _ =>
    (keyword .to_ rest).andThen fun _ rest _ =>
      (keyword .the rest).andThen fun _ rest _ =>
        (expr rest).andThen fun term rest _ =>
          (semicolon rest).map fun close => .change .pow target term (start.cover close.span)

/-- Reads the value of an output, unless the semicolon comes at once. -/
def outputValue? (ts : List Token) : Outcome? (Option Expr) ts :=
  if kind? ts = some .semicolon then .done none ts else ((expr ts).map some).weak

/-- Reads the statements that consist of expressions and names only: all but
    automations, branches and loops. The first token has the keyword `k` and the
    span `start`. -/
def simple? (start : Span) (k : Keyword) (ts : List Token) : Option (Outcome Stmt ts) :=
  match k with
  | .constantly =>
    some ((keyword .make ts).andThen fun _ rest _ => declaration start true rest)
  | .make => some (declaration start false ts)
  | .change => some (assignment start ts)
  | .add => some (changeTermFirst start .add .to_ ts)
  | .subtract => some (changeTermFirst start .sub .from_ ts)
  | .multiply => some (changeTargetFirst start .mul ts)
  | .divide => some (changeTargetFirst start .div ts)
  | .mod => some (changeTargetFirst start .rem ts)
  | .raise => some (raising start ts)
  | .print =>
    some ((expr ts).andThen fun value rest _ =>
      (semicolon rest).map fun close => .print value (start.cover close.span))
  | .output =>
    some ((outputValue? ts).andThen fun value rest _ =>
      (semicolon rest).map fun close => .output value (start.cover close.span))
  | .break_ => some ((semicolon ts).map fun close => .breakLoop (start.cover close.span))
  | _ => none

mutual

/-- Reads a statement. -/
def stmt (ts : List Token) : Outcome Stmt ts :=
  match ts with
  | ⟨.keyword .automate, _, start⟩ :: rest =>
    Outcome.after <| (ident .identifier rest).andThen fun name rest _ =>
      (token .openParen (.text "(") rest).andThen fun _ rest _ =>
        (params rest).andThen fun params rest _ =>
          (token .closeParen (.text ")") rest).andThen fun _ rest _ =>
            (outputType? rest).andThen fun output rest _ =>
              (block rest).map fun body =>
                .automate name params output body (start.cover body.span)
  | ⟨.keyword .if_, _, start⟩ :: rest =>
    Outcome.after <| (expr rest).andThen fun test rest _ =>
      (block rest).andMaybe fun body rest _ =>
        (token? (.keyword .ifNot) rest).andThen
          (.ifElse test body none (start.cover body.span)) fun _ rest _ =>
            (block rest).map fun alternate =>
              .ifElse test body (some alternate) (start.cover alternate.span)
  | ⟨.keyword .loop, _, start⟩ :: ⟨.keyword .while_, _, _⟩ :: rest =>
    Outcome.after <| Outcome.after <| (expr rest).andThen fun test rest _ =>
      (block rest).map fun body => .loopWhile test body (start.cover body.span)
  | ⟨.keyword .loop, _, start⟩ :: ⟨.keyword .over_, _, _⟩ :: rest =>
    Outcome.after <| Outcome.after <| (ident .identifier rest).andThen fun item rest _ =>
      (keyword .in_ rest).andThen fun _ rest _ =>
        (expr rest).andThen fun list rest _ =>
          (block rest).map fun body => .loopOver item list body (start.cover body.span)
  | ⟨.keyword .loop, _, _⟩ :: rest => .error (.expected .loopKind rest)
  | ⟨.ident, text, start⟩ :: ⟨.openParen, _, _⟩ :: rest =>
    Outcome.after <| Outcome.after <| (callRest start rest).andThen fun (args, span) rest _ =>
      (semicolon rest).map fun close =>
        .call ⟨text, start⟩ args span (start.cover close.span)
  | ⟨.keyword k, text, start⟩ :: rest =>
    match simple? start k rest with
    | none => .error (.expected .statement (⟨.keyword k, text, start⟩ :: rest))
    | some outcome => outcome.after
  | ts => .error (.expected .statement ts)
termination_by 2 * ts.length

/-- Reads statements in braces. -/
def block (ts : List Token) : Outcome Block ts :=
  (token .openBrace (.text "\x7b") ts).andThen fun start rest _ =>
    (blockStmts rest).andThen fun stmts rest _ =>
      (token .closeBrace (.text "\x7d") rest).map fun close =>
        .mk stmts (start.span.cover close.span)
termination_by 2 * ts.length

/-- Reads statements up to a closing brace or the end of the text. -/
def blockStmts (ts : List Token) : Outcome? (List Stmt) ts :=
  if kind? ts = some .closeBrace ∨ kind? ts = none then .done [] ts
  else
    ((stmt ts).andMaybe fun head rest _ => (blockStmts rest).map (head :: ·)).weak
termination_by 2 * ts.length + 1

end

/-- Reads a whole program. -/
def parse (ts : List Token) : Except Stuck (List Stmt) :=
  match ts with
  | [] => .ok []
  | t :: ts =>
    match stmt (t :: ts) with
    | .error stuck => .error stuck
    | .ok ⟨head, rest, _⟩ => (parse rest).map (head :: ·)
termination_by ts.length
decreasing_by assumption

end Toal.Surface
