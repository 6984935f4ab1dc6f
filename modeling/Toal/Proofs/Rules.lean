import Toal.Surface
import Toal.Ty
import Mathlib.Data.List.Forall2

/-!
# The static rules

When a program as written is well formed, said without any computation. A place
of a program is known by the names visible there, whether it lies in a loop, and
the output type of the innermost automation around it (`Place`).

An expression has at most one type at a place (`HasType`). A statement is legal
at a place or not, and if it is, the names visible after it are those visible
before and the ones it declares (`Legal`): the branches of an `if` hand on what
they declare, the second one after the first, while the bodies of loops and
automations do not. A name may be declared only where it is not visible, so the
names visible at a place are all different.
-/

namespace Toal.Rules

open Surface

/-- What is known about a name. -/
inductive Binding
  | var (readOnly : Bool) (ty : Ty)
  /-- An automation, with the types of its parameters and of its output. -/
  | auto (params : List Ty) (output : Ty)
deriving DecidableEq, Repr

/-- The names visible at a place, the latest first. -/
abbrev Names := List (String × Binding)

/-- Whether the name is visible. -/
def Visible (names : Names) (x : String) : Prop := ∃ b, (x, b) ∈ names

/-- What matters about a place of a program. -/
structure Place where
  /-- The names visible there. -/
  names : Names
  /-- Whether it lies in a loop, be it around an automation. -/
  inLoop : Bool
  /-- The output type of the innermost automation around it. -/
  output : Option Ty

/-- The place after more names have been declared. -/
def Place.with (π : Place) (names : Names) : Place := { π with names }

/-! ## Types -/

/-- A value of the type may be a number. -/
def Numeric (τ : Ty) : Prop := τ = .num ∨ τ = .any

/-- A value of the type may be a number or a word. -/
def Comparable (τ : Ty) : Prop := τ = .num ∨ τ = .word ∨ τ = .any

/-- A value of the type may be a truth value. -/
def Truth (τ : Ty) : Prop := τ = .bool ∨ τ = .any

/-- A value of the type may be a list. -/
def Listed (τ : Ty) : Prop := τ = .list ∨ τ = .any

/-- A parameter of type `slot` takes arguments of type `τ`. -/
def Takes (slot τ : Ty) : Prop := slot = .any ∨ slot = τ

/-- The operands that an operator works on. -/
def Operand : BinOp → Ty → Prop
  | .arith _ => Numeric
  | .compare _ => Comparable

/-- The type of what an operator gives. -/
def resultTy : BinOp → Ty
  | .arith _ => .num
  | .compare _ => .bool

/-! ## Expressions -/

mutual

/-- The expression has the type where the names are visible. -/
inductive HasType (names : Names) : Expr → Ty → Prop
  | number {value span} : HasType names (.number value span) .num
  | word {contents span} : HasType names (.word contents span) .word
  | list {elements τs span} : HasTypes names elements τs → HasType names (.list elements span) .list
  | var {i readOnly τ} : (i.text, .var readOnly τ) ∈ names → HasType names (.name i) τ
  | auto {i params output} :
      (i.text, .auto params output) ∈ names → HasType names (.name i) .automation
  | group {inner τ span} : HasType names inner τ → HasType names (.group inner span) τ
  | binary {op left right τ τ' span} : HasType names left τ → HasType names right τ' →
      Operand op τ → Operand op τ' → HasType names (.binary op left right span) (resultTy op)
  | call {i params output args τs span} : (i.text, .auto params output) ∈ names →
      HasTypes names args τs → List.Forall₂ Takes params τs →
      HasType names (.call i args span) output

/-- The expressions have the types, one by one. -/
inductive HasTypes (names : Names) : List Expr → List Ty → Prop
  | nil : HasTypes names [] []
  | cons {e es τ τs} : HasType names e τ → HasTypes names es τs → HasTypes names (e :: es) (τ :: τs)

end

/-! ## Statements -/

/-- The statement is an output or holds one in a branch or a loop. What an
    automation declared in it does is none of its own. -/
inductive HasOutput : Stmt → Prop
  | output {value span} : HasOutput (.output value span)
  | body {s test body alternate span} : s ∈ Block.stmts body → HasOutput s →
      HasOutput (.ifElse test body alternate span)
  | alternate {s test body alternate span} : s ∈ Block.stmts alternate → HasOutput s →
      HasOutput (.ifElse test body (some alternate) span)
  | whileLoop {s test body span} : s ∈ Block.stmts body → HasOutput s →
      HasOutput (.loopWhile test body span)
  | overLoop {s item list body span} : s ∈ Block.stmts body → HasOutput s →
      HasOutput (.loopOver item list body span)

/-- The output type of an automation, as written: a type that is not `any`, and
    `none` if nothing is written. -/
inductive OutputType : Option Ident → Ty → Prop
  | none : OutputType none .none
  | some {i τ} : i.text = Ty.name τ → τ ≠ .any → OutputType (some i) τ

/-- The type of a parameter, as written: `any` if nothing is written. -/
inductive ParamType : Surface.Param → Ty → Prop
  | none {name} : ParamType ⟨name, none⟩ .any
  | some {name i τ} : i.text = Ty.name τ → ParamType ⟨name, some i⟩ τ

/-- The names visible in the body of an automation, given those visible around
    it: the parameters come one after the other, and none has type `none`. -/
inductive Params : Names → List Surface.Param → List Ty → Names → Prop
  | nil {names} : Params names [] [] names
  | cons {names p ps τ τs inner} : ParamType p τ → τ ≠ .none → ¬Visible names p.name.text →
      Params ((p.name.text, .var false τ) :: names) ps τs inner →
      Params names (p :: ps) (τ :: τs) inner

mutual

/-- The statement is legal at the place, and the names are visible after it. -/
inductive Legal : Place → Stmt → Names → Prop
  | declare {π readOnly x init τ span} : HasType π.names init τ → τ ≠ .none →
      ¬Visible π.names x.text →
      Legal π (.declare readOnly x init span) ((x.text, .var readOnly τ) :: π.names)
  | assign {π x value τ span} : (x.text, .var false τ) ∈ π.names → HasType π.names value τ →
      Legal π (.assign x value span) π.names
  | change {π op x term τ τ' span} : (x.text, .var false τ) ∈ π.names → Numeric τ →
      HasType π.names term τ' → Numeric τ' → Legal π (.change op x term span) π.names
  | print {π value τ span} : HasType π.names value τ → τ ≠ .none →
      Legal π (.print value span) π.names
  | automate {π f params output body τ τs inner after span} : OutputType output τ →
      ¬Visible π.names f.text →
      Params ((f.text, .auto τs τ) :: π.names) params τs inner →
      LegalAll ⟨inner, π.inLoop, some τ⟩ (Block.stmts body) after →
      (τ ≠ .none → ∃ s ∈ Block.stmts body, HasOutput s) →
      Legal π (.automate f params output body span) ((f.text, .auto τs τ) :: π.names)
  | call {π f params output args τs callSpan span} : (f.text, .auto params output) ∈ π.names →
      HasTypes π.names args τs → List.Forall₂ Takes params τs →
      Legal π (.call f args callSpan span) π.names
  | outputNone {π span} : π.output = some .none → Legal π (.output none span) π.names
  | output {π value τ span} : π.output = some τ → τ ≠ .none → HasType π.names value τ →
      Legal π (.output (some value) span) π.names
  | ifThen {π test body τ after span} : HasType π.names test τ → Truth τ →
      LegalAll π (Block.stmts body) after → Legal π (.ifElse test body none span) after
  | ifElse {π test body alternate τ between after span} : HasType π.names test τ → Truth τ →
      LegalAll π (Block.stmts body) between →
      LegalAll (π.with between) (Block.stmts alternate) after →
      Legal π (.ifElse test body (some alternate) span) after
  | loopWhile {π test body τ after span} : HasType π.names test τ → Truth τ →
      LegalAll ⟨π.names, true, π.output⟩ (Block.stmts body) after →
      Legal π (.loopWhile test body span) π.names
  | loopOver {π x list body τ after span} : HasType π.names list τ → Listed τ →
      ¬Visible π.names x.text →
      LegalAll ⟨(x.text, .var false .any) :: π.names, true, π.output⟩ (Block.stmts body) after →
      Legal π (.loopOver x list body span) π.names
  | breakLoop {π span} : π.inLoop = true → Legal π (.breakLoop span) π.names

/-- The statements are legal one after the other, each with the names visible
    after the ones before it. -/
inductive LegalAll : Place → List Stmt → Names → Prop
  | nil {π} : LegalAll π [] π.names
  | cons {π s ss between after} : Legal π s between → LegalAll (π.with between) ss after →
      LegalAll π (s :: ss) after

end

/-! ## Programs -/

/-- The names that come with the language. -/
def standard : Names :=
  [("append", .auto [.any, .list] .none),
    ("remove", .auto [.any, .list] .none),
    ("length", .auto [.any] .num),
    ("range", .auto [.num, .num] .list),
    ("type", .auto [.any] .word),
    ("π", .var true .num),
    ("inf", .var true .num),
    ("true", .var true .bool),
    ("false", .var true .bool)]

/-- The program is well formed: its statements are legal where only the names of
    the language are visible, outside of every loop and automation. -/
def WellFormed (program : List Stmt) : Prop :=
  ∃ after, LegalAll ⟨standard, false, none⟩ program after

end Toal.Rules
