import Toal.Number.Numeral
import Toal.Surface
import Toal.Token

/-!
# The grammar

A program is a sequence of statements, and what may stand in it is given by a
context-free grammar: the phrases (`Phrase`), the rules for each of them
(`Rule`), and the parts that a rule puts one after the other (`Rule.parts`). An
optional or repeated part is a phrase of its own with an empty rule, so that a
sum is a product and the rest of the sum, which is empty or an operator, a
product and again the rest of the sum.

A derivation says which rule stands behind every phrase, down to the tokens
(`Derivation`). Of a token only the kind matters: a list of tokens can be derived
if any other with the same kinds can (`Derivation.exists_tokens_eq`).

Every derivation has a tree (`Derivation.tree`), given rule by rule. The rest of
a sum or a product is a function of the operand to its left, which is what makes
these two group to the left, while a power groups to the right.
-/

namespace Toal.Grammar

open Source Surface

/-! ## Rules -/

/-- The phrases. -/
inductive Phrase
  | stmts
  | stmt
  /-- The value of an output, which may be left out. -/
  | outputValue
  /-- The second branch of an `if`, which may be left out. -/
  | alternate
  | block
  /-- The parameters between parentheses, of which there may be none. -/
  | params
  | paramList
  | paramRest
  | param
  /-- The output type of an automation, which may be left out. -/
  | outputType
  /-- The expressions between parentheses or square brackets, of which there may
      be none. -/
  | args
  | argList
  | argRest
  | exp
  /-- The second half of a comparison, which may be left out. -/
  | expRest
  | relOp
  /-- The words that make a comparison admit equality, which may be left out. -/
  | orEqual
  | sum
  | sumRest
  | sumOp
  | product
  | productRest
  | productOp
  | power
  /-- The exponent of a power, which may be left out. -/
  | powerRest
  | primary
deriving DecidableEq, Repr

/-- What a phrase consists of: tokens of given kinds, and phrases. -/
inductive Symbol
  | token (kind : Token.Kind)
  | phrase (p : Phrase)

/-- The reserved word. -/
abbrev Symbol.keyword (k : Keyword) : Symbol := .token (.keyword k)

/-- The rules for each phrase. -/
inductive Rule : Phrase → Type
  | noStmt : Rule .stmts
  | moreStmts : Rule .stmts
  | make : Rule .stmt
  | constantlyMake : Rule .stmt
  | change : Rule .stmt
  | add : Rule .stmt
  | subtract : Rule .stmt
  | multiply : Rule .stmt
  | divide : Rule .stmt
  | raise : Rule .stmt
  | mod : Rule .stmt
  | print : Rule .stmt
  | automate : Rule .stmt
  | call : Rule .stmt
  | output : Rule .stmt
  | ifThen : Rule .stmt
  | loopWhile : Rule .stmt
  | loopOver : Rule .stmt
  | breakLoop : Rule .stmt
  | noValue : Rule .outputValue
  | value : Rule .outputValue
  | noAlternate : Rule .alternate
  | ifNot : Rule .alternate
  | block : Rule .block
  | noParams : Rule .params
  | someParams : Rule .params
  | paramList : Rule .paramList
  | lastParam : Rule .paramRest
  | nextParam : Rule .paramRest
  | typed : Rule .param
  | untyped : Rule .param
  | noType : Rule .outputType
  | arrow : Rule .outputType
  | noArgs : Rule .args
  | someArgs : Rule .args
  | argList : Rule .argList
  | lastArg : Rule .argRest
  | nextArg : Rule .argRest
  | exp : Rule .exp
  | alone : Rule .expRest
  | compared : Rule .expRest
  | greater : Rule .relOp
  | less : Rule .relOp
  | isNot : Rule .relOp
  | is : Rule .relOp
  | strict : Rule .orEqual
  | orEqualTo : Rule .orEqual
  | sum : Rule .sum
  | sumEnd : Rule .sumRest
  | sumNext : Rule .sumRest
  | plus : Rule .sumOp
  | minus : Rule .sumOp
  | product : Rule .product
  | productEnd : Rule .productRest
  | productNext : Rule .productRest
  | times : Rule .productOp
  | dividedBy : Rule .productOp
  | modulo : Rule .productOp
  | power : Rule .power
  | noExponent : Rule .powerRest
  | toThe : Rule .powerRest
  | numeral : Rule .primary
  | word : Rule .primary
  | list : Rule .primary
  | callOf : Rule .primary
  | name : Rule .primary
  | group : Rule .primary
deriving DecidableEq

namespace Rule

/-- What a rule puts one after the other. -/
@[reducible]
def parts {p : Phrase} : Rule p → List Symbol
  | noStmt => []
  | moreStmts => [.phrase .stmt, .phrase .stmts]
  | make =>
    [.keyword .make, .token .ident, .keyword .with_, .phrase .exp, .token .semicolon]
  | constantlyMake =>
    [.keyword .constantly, .keyword .make, .token .ident, .keyword .with_, .phrase .exp,
      .token .semicolon]
  | change =>
    [.keyword .change, .token .ident, .keyword .to_, .phrase .exp, .token .semicolon]
  | add => [.keyword .add, .phrase .exp, .keyword .to_, .token .ident, .token .semicolon]
  | subtract =>
    [.keyword .subtract, .phrase .exp, .keyword .from_, .token .ident, .token .semicolon]
  | multiply =>
    [.keyword .multiply, .token .ident, .keyword .by_, .phrase .exp, .token .semicolon]
  | divide =>
    [.keyword .divide, .token .ident, .keyword .by_, .phrase .exp, .token .semicolon]
  | raise =>
    [.keyword .raise, .token .ident, .keyword .to_, .keyword .the, .phrase .exp,
      .token .semicolon]
  | mod => [.keyword .mod, .token .ident, .keyword .by_, .phrase .exp, .token .semicolon]
  | print => [.keyword .print, .phrase .exp, .token .semicolon]
  | automate =>
    [.keyword .automate, .token .ident, .token .openParen, .phrase .params, .token .closeParen,
      .phrase .outputType, .phrase .block]
  | call =>
    [.token .ident, .token .openParen, .phrase .args, .token .closeParen, .token .semicolon]
  | output => [.keyword .output, .phrase .outputValue, .token .semicolon]
  | ifThen => [.keyword .if_, .phrase .exp, .phrase .block, .phrase .alternate]
  | loopWhile => [.keyword .loop, .keyword .while_, .phrase .exp, .phrase .block]
  | loopOver =>
    [.keyword .loop, .keyword .over_, .token .ident, .keyword .in_, .phrase .exp,
      .phrase .block]
  | breakLoop => [.keyword .break_, .token .semicolon]
  | noValue => []
  | value => [.phrase .exp]
  | noAlternate => []
  | ifNot => [.keyword .ifNot, .phrase .block]
  | block => [.token .openBrace, .phrase .stmts, .token .closeBrace]
  | noParams => []
  | someParams => [.phrase .paramList]
  | paramList => [.phrase .param, .phrase .paramRest]
  | lastParam => []
  | nextParam => [.token .comma, .phrase .param, .phrase .paramRest]
  | typed => [.token .ident, .token .colon, .token .ident]
  | untyped => [.token .ident]
  | noType => []
  | arrow => [.token .arrow, .token .ident]
  | noArgs => []
  | someArgs => [.phrase .argList]
  | argList => [.phrase .exp, .phrase .argRest]
  | lastArg => []
  | nextArg => [.token .comma, .phrase .exp, .phrase .argRest]
  | exp => [.phrase .sum, .phrase .expRest]
  | alone => []
  | compared => [.phrase .relOp, .phrase .sum]
  | greater => [.keyword .is, .keyword .greater, .keyword .than, .phrase .orEqual]
  | less => [.keyword .is, .keyword .less, .keyword .than, .phrase .orEqual]
  | isNot => [.keyword .is, .keyword .not]
  | is => [.keyword .is]
  | strict => []
  | orEqualTo => [.keyword .or, .keyword .equal, .keyword .to_]
  | sum => [.phrase .product, .phrase .sumRest]
  | sumEnd => []
  | sumNext => [.phrase .sumOp, .phrase .product, .phrase .sumRest]
  | plus => [.keyword .plus]
  | minus => [.keyword .minus]
  | product => [.phrase .power, .phrase .productRest]
  | productEnd => []
  | productNext => [.phrase .productOp, .phrase .power, .phrase .productRest]
  | times => [.keyword .times]
  | dividedBy => [.keyword .divided, .keyword .by_]
  | modulo => [.keyword .mod]
  | power => [.phrase .primary, .phrase .powerRest]
  | noExponent => []
  | toThe => [.keyword .to_, .keyword .the, .phrase .power]
  | numeral => [.token .numeral]
  | word => [.token .word]
  | list => [.token .openSquare, .phrase .args, .token .closeSquare]
  | callOf => [.token .ident, .token .openParen, .phrase .args, .token .closeParen]
  | name => [.token .ident]
  | group => [.token .openParen, .phrase .exp, .token .closeParen]

end Rule

/-! ## Derivations -/

mutual

/-- A derivation of a symbol: a token of the right kind, or a rule for the phrase
    and derivations of its parts. -/
inductive Derivation : Symbol → Type
  | leaf {kind} (t : Token) (h : t.kind = kind) : Derivation (.token kind)
  | node {p} (rule : Rule p) (parts : Derivations rule.parts) : Derivation (.phrase p)

/-- Derivations of symbols, one after the other. -/
inductive Derivations : List Symbol → Type
  | nil : Derivations []
  | cons {s ss} (head : Derivation s) (tail : Derivations ss) : Derivations (s :: ss)

end

mutual

/-- The tokens at the leaves, from left to right. -/
def Derivation.tokens {s : Symbol} : Derivation s → List Token
  | .leaf t _ => [t]
  | .node _ parts => parts.tokens

/-- The tokens at the leaves, from left to right. -/
def Derivations.tokens {ss : List Symbol} : Derivations ss → List Token
  | .nil => []
  | .cons head tail => head.tokens ++ tail.tokens

end

/-- The kinds of the tokens at the leaves, from left to right. -/
def Derivation.kinds {s : Symbol} (d : Derivation s) : List Token.Kind :=
  d.tokens.map (·.kind)

/-- The kinds of the tokens at the leaves, from left to right. -/
def Derivations.kinds {ss : List Symbol} (ds : Derivations ss) : List Token.Kind :=
  ds.tokens.map (·.kind)

mutual

/-- Tokens of the same kinds have a derivation too. -/
theorem Derivation.exists_tokens_eq {s : Symbol} (d : Derivation s) {ts : List Token}
    (h : d.kinds = ts.map (·.kind)) : ∃ d' : Derivation s, d'.tokens = ts := by
  cases d with
  | leaf t ht =>
    obtain ⟨t', rfl, hkind⟩ := List.map_eq_singleton_iff.1 h.symm
    exact ⟨.leaf t' (hkind.trans ht), rfl⟩
  | node rule parts =>
    obtain ⟨parts', rfl⟩ := parts.exists_tokens_eq h
    exact ⟨.node rule parts', rfl⟩

theorem Derivations.exists_tokens_eq {ss : List Symbol} (ds : Derivations ss) {ts : List Token}
    (h : ds.kinds = ts.map (·.kind)) : ∃ ds' : Derivations ss, ds'.tokens = ts := by
  cases ds with
  | nil => exact ⟨.nil, (List.map_eq_nil_iff.1 h.symm).symm⟩
  | cons head tail =>
    rw [Derivations.kinds, Derivations.tokens, List.map_append] at h
    obtain ⟨ts₁, ts₂, rfl, hhead, htail⟩ := List.map_eq_append_iff.1 h.symm
    obtain ⟨head', rfl⟩ := head.exists_tokens_eq hhead.symm
    obtain ⟨tail', rfl⟩ := tail.exists_tokens_eq htail.symm
    exact ⟨.cons head' tail', rfl⟩

end

/-! ## Trees -/

/-- What a tree has for a phrase. -/
@[reducible]
def Phrase.Tree : Phrase → Type
  | stmts => List Stmt
  | stmt => Stmt
  | outputValue => Option Expr
  | alternate => Option Block
  | block => Block
  | params | paramList | paramRest => List Param
  | param => Param
  | outputType => Option Ident
  | args | argList | argRest => List Expr
  | exp | sum | product | power | primary => Expr
  | expRest | sumRest | productRest | powerRest => Expr → Expr
  | relOp => CompareOp
  | orEqual => Bool
  | sumOp | productOp => ArithOp

/-- What a tree has for a symbol. -/
@[reducible]
def Symbol.Tree : Symbol → Type
  | token _ => Token
  | phrase p => p.Tree

/-- What a tree has for symbols, one after the other. -/
def Trees : List Symbol → Type
  | [] => Unit
  | s :: ss => s.Tree × Trees ss

/-- The name that a token stands for. -/
def identOf (t : Token) : Ident := ⟨t.text, t.span⟩

/-- The expression with the given operands. -/
def binary (op : BinOp) (left right : Expr) : Expr :=
  .binary op left right (left.span.cover right.span)

/-- The span from one token to another. -/
def between (first last : Token) : Span := first.span.cover last.span

namespace Rule

/-- The tree that a rule builds from those of its parts. -/
def tree {p : Phrase} : (r : Rule p) → Trees r.parts → p.Tree
  | noStmt, _ => ([] : List Stmt)
  | moreStmts, (s, ss, _) => List.cons (α := Stmt) s ss
  | make, (start, x, _, init, close, _) =>
    Stmt.declare false (identOf x) init (between start close)
  | constantlyMake, (start, _, x, _, init, close, _) =>
    Stmt.declare true (identOf x) init (between start close)
  | change, (start, x, _, e, close, _) => Stmt.assign (identOf x) e (between start close)
  | add, (start, term, _, x, close, _) =>
    Stmt.change .add (identOf x) term (between start close)
  | subtract, (start, term, _, x, close, _) =>
    Stmt.change .sub (identOf x) term (between start close)
  | multiply, (start, x, _, term, close, _) =>
    Stmt.change .mul (identOf x) term (between start close)
  | divide, (start, x, _, term, close, _) =>
    Stmt.change .div (identOf x) term (between start close)
  | raise, (start, x, _, _, term, close, _) =>
    Stmt.change .pow (identOf x) term (between start close)
  | mod, (start, x, _, term, close, _) =>
    Stmt.change .rem (identOf x) term (between start close)
  | print, (start, e, close, _) => Stmt.print e (between start close)
  | automate, (start, f, _, ps, _, ty, body, _) =>
    Stmt.automate (identOf f) ps ty body (start.span.cover (Block.span body))
  | call, (f, _, es, last, close, _) =>
    Stmt.call (identOf f) es (between f last) (between f close)
  | output, (start, e, close, _) => Stmt.output e (between start close)
  | ifThen, (start, test, body, other, _) =>
    Stmt.ifElse test body other
      (start.span.cover (Block.span (Option.getD (α := Block) other body)))
  | loopWhile, (start, _, test, body, _) =>
    Stmt.loopWhile test body (start.span.cover (Block.span body))
  | loopOver, (start, _, x, _, e, body, _) =>
    Stmt.loopOver (identOf x) e body (start.span.cover (Block.span body))
  | breakLoop, (start, close, _) => Stmt.breakLoop (between start close)
  | noValue, _ => (none : Option Expr)
  | value, (e, _) => some (α := Expr) e
  | noAlternate, _ => (none : Option Block)
  | ifNot, (_, body, _) => some (α := Block) body
  | block, (start, ss, close, _) => Block.mk ss (between start close)
  | noParams, _ => ([] : List Param)
  | someParams, (ps, _) => ps
  | paramList, (p, ps, _) => List.cons (α := Param) p ps
  | lastParam, _ => ([] : List Param)
  | nextParam, (_, p, ps, _) => List.cons (α := Param) p ps
  | typed, (ty, _, x, _) => Param.mk (identOf x) (some (identOf ty))
  | untyped, (x, _) => Param.mk (identOf x) none
  | noType, _ => (none : Option Ident)
  | arrow, (_, ty, _) => some (identOf ty)
  | noArgs, _ => ([] : List Expr)
  | someArgs, (es, _) => es
  | argList, (e, es, _) => List.cons (α := Expr) e es
  | lastArg, _ => ([] : List Expr)
  | nextArg, (_, e, es, _) => List.cons (α := Expr) e es
  | exp, (left, rest, _) => rest left
  | alone, _ => fun left : Expr => left
  | compared, (op, right, _) => fun left : Expr => Grammar.binary (.compare op) left right
  | greater, (_, _, _, equal, _) => cond equal CompareOp.ge CompareOp.gt
  | less, (_, _, _, equal, _) => cond equal CompareOp.le CompareOp.lt
  | isNot, _ => CompareOp.ne
  | is, _ => CompareOp.eq
  | strict, _ => false
  | orEqualTo, _ => true
  | sum, (left, rest, _) => rest left
  | sumEnd, _ => fun left : Expr => left
  | sumNext, (op, right, rest, _) => fun left : Expr => rest (Grammar.binary (.arith op) left right)
  | plus, _ => ArithOp.add
  | minus, _ => ArithOp.sub
  | product, (left, rest, _) => rest left
  | productEnd, _ => fun left : Expr => left
  | productNext, (op, right, rest, _) =>
    fun left : Expr => rest (Grammar.binary (.arith op) left right)
  | times, _ => ArithOp.mul
  | dividedBy, _ => ArithOp.div
  | modulo, _ => ArithOp.rem
  | power, (base, rest, _) => rest base
  | noExponent, _ => fun base : Expr => base
  | toThe, (_, _, exponent, _) => fun base : Expr => Grammar.binary (.arith .pow) base exponent
  | numeral, (t, _) => Expr.number ((Number.numeralValue? t.text.toList).getD 0) t.span
  | word, (t, _) => Expr.word t.text t.span
  | list, (start, es, close, _) => Expr.list es (between start close)
  | callOf, (f, _, es, close, _) => Expr.call (identOf f) es (between f close)
  | name, (x, _) => Expr.name (identOf x)
  | group, (start, e, close, _) => Expr.group e (between start close)

end Rule

mutual

/-- The tree of a derivation. -/
def Derivation.tree {s : Symbol} : Derivation s → s.Tree
  | .leaf t _ => t
  | .node rule parts => rule.tree parts.trees

/-- The trees of derivations, one after the other. -/
def Derivations.trees {ss : List Symbol} : Derivations ss → Trees ss
  | .nil => ()
  | .cons head tail => (head.tree, tail.trees)

end

end Toal.Grammar
