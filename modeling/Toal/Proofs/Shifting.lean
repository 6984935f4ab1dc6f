import Toal.Proofs.CompileOutcome
import Toal.Proofs.ParseComplete
import Toal.Proofs.Rescanning

/-!
# Programs further on

Parsing looks at the spans of tokens only to give them to the tree. If all tokens stand so
many bytes further on, so do all parts of the tree, and nothing else changes
(`Surface.parse_shift`). Statements end by themselves, so what is parsed of tokens one
after the other are the statements of the first and then those of the second
(`Surface.parse_append`).

Both together make a text of two texts on lines of their own: it has the statements of the
first, and those of the second further on (`parseText_newline`).
-/

namespace Toal

open Source

/-- What covers shifted spans is what covers the spans, shifted. -/
theorem Source.Span.cover_shift (n : Nat) (a b : Span) :
    (a.shift n).cover (b.shift n) = (a.cover b).shift n := by
  rw [Span.cover, Span.cover, Span.shift, Span.shift, Span.shift, Nat.add_min_add_right,
    Nat.add_max_add_right]

/-! ## Trees further on -/

namespace Surface

/-- The name so many bytes further on. -/
def Ident.shift (n : Nat) (x : Ident) : Ident := ⟨x.text, x.span.shift n⟩

/-- The parameter so many bytes further on. -/
def Param.shift (n : Nat) (p : Param) : Param := ⟨p.name.shift n, p.ty.map (Ident.shift n)⟩

mutual

/-- The expression so many bytes further on. -/
def Expr.shift (n : Nat) : Expr → Expr
  | .binary op left right span => .binary op (left.shift n) (right.shift n) (span.shift n)
  | .group inner span => .group (inner.shift n) (span.shift n)
  | .number value span => .number value (span.shift n)
  | .word contents span => .word contents (span.shift n)
  | .list elements span => .list (Expr.shiftAll n elements) (span.shift n)
  | .name ident => .name (ident.shift n)
  | .call callee args span => .call (callee.shift n) (Expr.shiftAll n args) (span.shift n)

/-- The expressions so many bytes further on. -/
def Expr.shiftAll (n : Nat) : List Expr → List Expr
  | [] => []
  | e :: es => e.shift n :: Expr.shiftAll n es

end

mutual

/-- The statement so many bytes further on. -/
def Stmt.shift (n : Nat) : Stmt → Stmt
  | .declare readOnly name init span =>
    .declare readOnly (name.shift n) (init.shift n) (span.shift n)
  | .assign target value span => .assign (target.shift n) (value.shift n) (span.shift n)
  | .change op target term span => .change op (target.shift n) (term.shift n) (span.shift n)
  | .print value span => .print (value.shift n) (span.shift n)
  | .automate name params output body span =>
    .automate (name.shift n) (params.map (Param.shift n)) (output.map (Ident.shift n))
      (body.shift n) (span.shift n)
  | .call callee args callSpan span =>
    .call (callee.shift n) (Expr.shiftAll n args) (callSpan.shift n) (span.shift n)
  | .output value span => .output (value.map (Expr.shift n)) (span.shift n)
  | .ifElse test body none span => .ifElse (test.shift n) (body.shift n) none (span.shift n)
  | .ifElse test body (some alternate) span =>
    .ifElse (test.shift n) (body.shift n) (some (alternate.shift n)) (span.shift n)
  | .loopWhile test body span => .loopWhile (test.shift n) (body.shift n) (span.shift n)
  | .loopOver item list body span =>
    .loopOver (item.shift n) (list.shift n) (body.shift n) (span.shift n)
  | .breakLoop span => .breakLoop (span.shift n)

/-- The block so many bytes further on. -/
def Block.shift (n : Nat) : Block → Block
  | .mk stmts span => .mk (Stmt.shiftAll n stmts) (span.shift n)

/-- The statements so many bytes further on. -/
def Stmt.shiftAll (n : Nat) : List Stmt → List Stmt
  | [] => []
  | s :: ss => s.shift n :: Stmt.shiftAll n ss

end

/-- Statements are shifted one by one. -/
theorem Stmt.shiftAll_eq_map (n : Nat) (ss : List Stmt) :
    Stmt.shiftAll n ss = ss.map (Stmt.shift n) := by
  induction ss with
  | nil => rfl
  | cons s ss ih => rw [Stmt.shiftAll, ih, List.map_cons]

/-- The span of a shifted expression is the shifted span. -/
theorem Expr.span_shift (n : Nat) (e : Expr) : (e.shift n).span = e.span.shift n := by
  cases e <;> rfl

/-- The span of a shifted block is the shifted span. -/
theorem Block.span_shift (n : Nat) (b : Block) : (b.shift n).span = b.span.shift n := by
  cases b
  rfl

end Surface

/-! ## Derivations further on -/

namespace Grammar

open Surface

variable (n : Nat)

mutual

/-- The derivation of the tokens so many bytes further on. -/
def Derivation.shift {s : Symbol} : Derivation s → Derivation s
  | .leaf t h => .leaf (t.shift n) h
  | .node rule parts => .node rule parts.shift

/-- The derivations of the tokens so many bytes further on. -/
def Derivations.shift {ss : List Symbol} : Derivations ss → Derivations ss
  | .nil => .nil
  | .cons head tail => .cons head.shift tail.shift

end

mutual

/-- The tokens of a shifted derivation are the shifted tokens. -/
theorem Derivation.tokens_shift {s : Symbol} (d : Derivation s) :
    (d.shift n).tokens = d.tokens.map (Token.shift n) := by
  cases d with
  | leaf t h => rfl
  | node rule parts => exact parts.tokens_shift

/-- The tokens of shifted derivations are the shifted tokens. -/
theorem Derivations.tokens_shift {ss : List Symbol} (ds : Derivations ss) :
    (ds.shift n).tokens = ds.tokens.map (Token.shift n) := by
  cases ds with
  | nil => rfl
  | cons head tail =>
    rw [Derivations.shift, Derivations.tokens, head.tokens_shift, tail.tokens_shift,
      Derivations.tokens, List.map_append]

end

/-- The second tree for a phrase is the first one so many bytes further on. What a
    function makes of an operand further on is further on. -/
def Phrase.Shifted : (p : Phrase) → p.Tree → p.Tree → Prop
  | .stmts, ss, ss' => ss' = Stmt.shiftAll n ss
  | .stmt, s, s' => s' = Stmt.shift n s
  | .outputValue, e, e' => e' = Option.map (Expr.shift n) e
  | .alternate, b, b' => b' = Option.map (Block.shift n) b
  | .block, b, b' => b' = Block.shift n b
  | .params, ps, ps' => ps' = List.map (Param.shift n) ps
  | .paramList, ps, ps' => ps' = List.map (Param.shift n) ps
  | .paramRest, ps, ps' => ps' = List.map (Param.shift n) ps
  | .param, p, p' => p' = Param.shift n p
  | .outputType, x, x' => x' = Option.map (Ident.shift n) x
  | .args, es, es' => es' = Expr.shiftAll n es
  | .argList, es, es' => es' = Expr.shiftAll n es
  | .argRest, es, es' => es' = Expr.shiftAll n es
  | .exp, e, e' => e' = Expr.shift n e
  | .sum, e, e' => e' = Expr.shift n e
  | .product, e, e' => e' = Expr.shift n e
  | .power, e, e' => e' = Expr.shift n e
  | .primary, e, e' => e' = Expr.shift n e
  | .expRest, f, f' => ∀ l, f' (Expr.shift n l) = Expr.shift n (f l)
  | .sumRest, f, f' => ∀ l, f' (Expr.shift n l) = Expr.shift n (f l)
  | .productRest, f, f' => ∀ l, f' (Expr.shift n l) = Expr.shift n (f l)
  | .powerRest, f, f' => ∀ l, f' (Expr.shift n l) = Expr.shift n (f l)
  | .relOp, op, op' => op' = op
  | .orEqual, equal, equal' => equal' = equal
  | .sumOp, op, op' => op' = op
  | .productOp, op, op' => op' = op

/-- The second tree for a symbol is the first one so many bytes further on. -/
def Symbol.Shifted : (s : Symbol) → s.Tree → s.Tree → Prop
  | .token _, t, t' => t' = Token.shift n t
  | .phrase p, t, t' => p.Shifted n t t'

/-- The second trees are the first ones so many bytes further on. -/
def ShiftedAll : (ss : List Symbol) → Trees ss → Trees ss → Prop
  | [], _, _ => True
  | s :: ss, (t, ts), (t', ts') => s.Shifted n t t' ∧ ShiftedAll ss ts ts'

variable {n : Nat}

/-- The tree of an operation on shifted operands is the shifted tree. -/
theorem binary_shift (op : BinOp) (l r : Expr) :
    binary op (l.shift n) (r.shift n) = (binary op l r).shift n := by
  rw [binary, Expr.span_shift, Expr.span_shift, Span.cover_shift]
  rfl

theorem between_shift (a b : Token) : between (a.shift n) (b.shift n) = (between a b).shift n :=
  Span.cover_shift n a.span b.span

/-- From a token to a block, shifted. -/
theorem cover_block_shift (t : Token) (b : Block) :
    (t.shift n).span.cover (b.shift n).span = (t.span.cover b.span).shift n := by
  rw [Block.span_shift]
  exact Span.cover_shift n t.span b.span

/-- The tree of a branch with shifted parts is the shifted tree. -/
theorem ifElse_shift (start : Token) (test : Expr) (body : Block) (other : Option Block) :
    Stmt.ifElse (test.shift n) (body.shift n) (other.map (Block.shift n))
        ((start.shift n).span.cover ((other.map (Block.shift n)).getD (body.shift n)).span) =
      (Stmt.ifElse test body other (start.span.cover (other.getD body).span)).shift n := by
  cases other with
  | none => exact congrArg (Stmt.ifElse _ _ none) (cover_block_shift start body)
  | some b => exact congrArg (Stmt.ifElse _ _ (some _)) (cover_block_shift start b)

/-- Every rule makes a tree further on of trees further on. -/
theorem Rule.shifted {p : Phrase} : ∀ (r : Rule p) (ts ts' : Trees r.parts),
    ShiftedAll n r.parts ts ts' → p.Shifted n (r.tree ts) (r.tree ts')
  | .noStmt, _, _, _ => rfl
  | .moreStmts, (_, _, _), (_, _, _), ⟨rfl, rfl, _⟩ => rfl
  | .make, (start, _, _, _, close, _), (_, _, _, _, _, _), ⟨rfl, rfl, _, rfl, rfl, _⟩ =>
    congrArg (Stmt.declare false _ _) (between_shift start close)
  | .constantlyMake, (start, _, _, _, _, close, _), (_, _, _, _, _, _, _),
      ⟨rfl, _, rfl, _, rfl, rfl, _⟩ =>
    congrArg (Stmt.declare true _ _) (between_shift start close)
  | .change, (start, _, _, _, close, _), (_, _, _, _, _, _), ⟨rfl, rfl, _, rfl, rfl, _⟩ =>
    congrArg (Stmt.assign _ _) (between_shift start close)
  | .add, (start, _, _, _, close, _), (_, _, _, _, _, _), ⟨rfl, rfl, _, rfl, rfl, _⟩ =>
    congrArg (Stmt.change .add _ _) (between_shift start close)
  | .subtract, (start, _, _, _, close, _), (_, _, _, _, _, _), ⟨rfl, rfl, _, rfl, rfl, _⟩ =>
    congrArg (Stmt.change .sub _ _) (between_shift start close)
  | .multiply, (start, _, _, _, close, _), (_, _, _, _, _, _), ⟨rfl, rfl, _, rfl, rfl, _⟩ =>
    congrArg (Stmt.change .mul _ _) (between_shift start close)
  | .divide, (start, _, _, _, close, _), (_, _, _, _, _, _), ⟨rfl, rfl, _, rfl, rfl, _⟩ =>
    congrArg (Stmt.change .div _ _) (between_shift start close)
  | .raise, (start, _, _, _, _, close, _), (_, _, _, _, _, _, _), ⟨rfl, rfl, _, _, rfl, rfl, _⟩ =>
    congrArg (Stmt.change .pow _ _) (between_shift start close)
  | .mod, (start, _, _, _, close, _), (_, _, _, _, _, _), ⟨rfl, rfl, _, rfl, rfl, _⟩ =>
    congrArg (Stmt.change .rem _ _) (between_shift start close)
  | .print, (start, _, close, _), (_, _, _, _), ⟨rfl, rfl, rfl, _⟩ =>
    congrArg (Stmt.print _) (between_shift start close)
  | .automate, (start, _, _, _, _, _, body, _), (_, _, _, _, _, _, _, _),
      ⟨rfl, rfl, _, rfl, _, rfl, rfl, _⟩ =>
    congrArg (Stmt.automate _ _ _ _) (cover_block_shift start body)
  | .call, (f, _, _, last, close, _), (_, _, _, _, _, _), ⟨rfl, _, rfl, rfl, rfl, _⟩ =>
    congrArg₂ (Stmt.call _ _) (between_shift f last) (between_shift f close)
  | .output, (start, _, close, _), (_, _, _, _), ⟨rfl, rfl, rfl, _⟩ =>
    congrArg (Stmt.output _) (between_shift start close)
  | .ifThen, (start, _, body, other, _), (_, _, _, _, _), ⟨rfl, rfl, rfl, rfl, _⟩ =>
    ifElse_shift start _ body other
  | .loopWhile, (start, _, _, body, _), (_, _, _, _, _), ⟨rfl, _, rfl, rfl, _⟩ =>
    congrArg (Stmt.loopWhile _ _) (cover_block_shift start body)
  | .loopOver, (start, _, _, _, _, body, _), (_, _, _, _, _, _, _), ⟨rfl, _, rfl, _, rfl, rfl, _⟩ =>
    congrArg (Stmt.loopOver _ _ _) (cover_block_shift start body)
  | .breakLoop, (start, close, _), (_, _, _), ⟨rfl, rfl, _⟩ =>
    congrArg Stmt.breakLoop (between_shift start close)
  | .noValue, _, _, _ => rfl
  | .value, (_, _), (_, _), ⟨rfl, _⟩ => rfl
  | .noAlternate, _, _, _ => rfl
  | .ifNot, (_, _, _), (_, _, _), ⟨_, rfl, _⟩ => rfl
  | .block, (start, _, close, _), (_, _, _, _), ⟨rfl, rfl, rfl, _⟩ =>
    congrArg (Block.mk _) (between_shift start close)
  | .noParams, _, _, _ => rfl
  | .someParams, (_, _), (_, _), ⟨rfl, _⟩ => rfl
  | .paramList, (_, _, _), (_, _, _), ⟨rfl, rfl, _⟩ => rfl
  | .lastParam, _, _, _ => rfl
  | .nextParam, (_, _, _, _), (_, _, _, _), ⟨_, rfl, rfl, _⟩ => rfl
  | .typed, (_, _, _, _), (_, _, _, _), ⟨rfl, _, rfl, _⟩ => rfl
  | .untyped, (_, _), (_, _), ⟨rfl, _⟩ => rfl
  | .noType, _, _, _ => rfl
  | .arrow, (_, _, _), (_, _, _), ⟨_, rfl, _⟩ => rfl
  | .noArgs, _, _, _ => rfl
  | .someArgs, (_, _), (_, _), ⟨rfl, _⟩ => rfl
  | .argList, (_, _, _), (_, _, _), ⟨rfl, rfl, _⟩ => rfl
  | .lastArg, _, _, _ => rfl
  | .nextArg, (_, _, _, _), (_, _, _, _), ⟨_, rfl, rfl, _⟩ => rfl
  | .exp, (left, _, _), (_, _, _), ⟨rfl, hrest, _⟩ => hrest left
  | .alone, _, _, _ => fun _ => rfl
  | .compared, (op, right, _), (_, _, _), ⟨rfl, rfl, _⟩ => fun left =>
    binary_shift (.compare op) left right
  | .greater, (_, _, _, _, _), (_, _, _, _, _), ⟨_, _, _, rfl, _⟩ => rfl
  | .less, (_, _, _, _, _), (_, _, _, _, _), ⟨_, _, _, rfl, _⟩ => rfl
  | .isNot, _, _, _ => rfl
  | .is, _, _, _ => rfl
  | .strict, _, _, _ => rfl
  | .orEqualTo, _, _, _ => rfl
  | .sum, (left, _, _), (_, _, _), ⟨rfl, hrest, _⟩ => hrest left
  | .sumEnd, _, _, _ => fun _ => rfl
  | .sumNext, (op, right, _, _), (_, _, _, _), ⟨rfl, rfl, hrest, _⟩ => fun left => by
    have hbinary := hrest (binary (.arith op) left right)
    rwa [← binary_shift] at hbinary
  | .plus, _, _, _ => rfl
  | .minus, _, _, _ => rfl
  | .product, (left, _, _), (_, _, _), ⟨rfl, hrest, _⟩ => hrest left
  | .productEnd, _, _, _ => fun _ => rfl
  | .productNext, (op, right, _, _), (_, _, _, _), ⟨rfl, rfl, hrest, _⟩ => fun left => by
    have hbinary := hrest (binary (.arith op) left right)
    rwa [← binary_shift] at hbinary
  | .times, _, _, _ => rfl
  | .dividedBy, _, _, _ => rfl
  | .modulo, _, _, _ => rfl
  | .power, (left, _, _), (_, _, _), ⟨rfl, hrest, _⟩ => hrest left
  | .noExponent, _, _, _ => fun _ => rfl
  | .toThe, (_, _, exponent, _), (_, _, _, _), ⟨_, _, rfl, _⟩ => fun base =>
    binary_shift (.arith .pow) base exponent
  | .numeral, (_, _), (_, _), ⟨rfl, _⟩ => rfl
  | .word, (_, _), (_, _), ⟨rfl, _⟩ => rfl
  | .list, (start, _, close, _), (_, _, _, _), ⟨rfl, rfl, rfl, _⟩ =>
    congrArg (Expr.list _) (between_shift start close)
  | .callOf, (f, _, _, close, _), (_, _, _, _, _), ⟨rfl, _, rfl, rfl, _⟩ =>
    congrArg (Expr.call _ _) (between_shift f close)
  | .name, (_, _), (_, _), ⟨rfl, _⟩ => rfl
  | .group, (start, _, close, _), (_, _, _, _), ⟨rfl, rfl, rfl, _⟩ =>
    congrArg (Expr.group _) (between_shift start close)

mutual

/-- The tree of a derivation further on is further on. -/
theorem Derivation.shifted {s : Symbol} : ∀ d : Derivation s, s.Shifted n d.tree (d.shift n).tree
  | .leaf _ _ => rfl
  | .node rule parts => rule.shifted _ _ parts.shifted

/-- The trees of shifted derivations are the shifted trees. -/
theorem Derivations.shifted {ss : List Symbol} :
    ∀ ds : Derivations ss, ShiftedAll n ss ds.trees (ds.shift n).trees
  | .nil => trivial
  | .cons head tail => ⟨head.shifted, tail.shifted⟩

end

/-- Statements can be derived one after the other. -/
theorem exists_append : ∀ d d' : Derivation (.phrase .stmts),
    ∃ both : Derivation (.phrase .stmts), both.tokens = d.tokens ++ d'.tokens ∧
      both.tree = List.append d.tree d'.tree
  | .node .noStmt .nil, d' => ⟨d', rfl, rfl⟩
  | .node .moreStmts (.cons s (.cons ss .nil)), d' => by
    obtain ⟨both, htokens, htree⟩ := exists_append ss d'
    refine ⟨.node .moreStmts (.cons s (.cons both .nil)), ?_, congrArg (List.cons s.tree) htree⟩
    simp only [Derivation.tokens, Derivations.tokens, htokens, List.append_nil, List.append_assoc]

end Grammar

/-! ## Parsing -/

namespace Surface

open Grammar

variable {ts ts' : List Token} {ss ss' : List Stmt}

/-- What is parsed has a derivation. -/
theorem exists_derivation (h : parse ts = .ok ss) :
    ∃ d : Derivation (.phrase .stmts), d.tokens = ts ∧ d.tree = ss := by
  obtain ⟨d, htokens, htree⟩ := parse_sound ts h
  exact ⟨d, (List.append_nil _).symm.trans htokens, htree⟩

/-- Shifted numerals have values if the numerals do. -/
theorem Valued.shift (h : Valued ts) (n : Nat) : Valued (ts.map (Token.shift n)) := by
  intro t ht
  obtain ⟨u, hu, rfl⟩ := List.mem_map.1 ht
  exact h u hu

/-- What is parsed of tokens further on is further on. -/
theorem parse_shift (n : Nat) (hts : Valued ts) (h : parse ts = .ok ss) :
    parse (ts.map (Token.shift n)) = .ok (ss.map (Stmt.shift n)) := by
  obtain ⟨d, rfl, rfl⟩ := exists_derivation h
  have htree : (d.shift n).tree = Stmt.shiftAll n d.tree := d.shifted
  have hparse := parse_complete (d.shift n) (by
    rw [d.tokens_shift]
    exact hts.shift n)
  rwa [d.tokens_shift, htree, Stmt.shiftAll_eq_map] at hparse

/-- What is parsed of tokens one after the other are the statements of the first and those
    of the second. -/
theorem parse_append (hts : Valued ts) (hts' : Valued ts') (h : parse ts = .ok ss)
    (h' : parse ts' = .ok ss') : parse (ts ++ ts') = .ok (ss ++ ss') := by
  obtain ⟨d, rfl, rfl⟩ := exists_derivation h
  obtain ⟨d', rfl, rfl⟩ := exists_derivation h'
  obtain ⟨both, htokens, htree⟩ := exists_append d d'
  have hparse := parse_complete both (by
    rw [htokens]
    exact List.forall_mem_append.2 ⟨hts, hts'⟩)
  rwa [htokens, htree] at hparse

end Surface

/-- A text is parsed if it is scanned and its tokens are parsed. -/
theorem parseText_eq_ok_iff {text : List Char} {ss : List Surface.Stmt} :
    parseText text = .ok ss ↔ ∃ ts, Token.scan text = .ok ts ∧ Surface.parse ts = .ok ss := by
  unfold parseText
  cases Token.scan text with
  | error fault => exact ⟨nofun, nofun⟩
  | ok ts =>
    change (Surface.parse ts).mapError _ = _ ↔ _
    cases hparse : Surface.parse ts with
    | error stuck =>
      refine ⟨nofun, ?_⟩
      rintro ⟨ts', hts, hss⟩
      cases hts
      rw [hparse] at hss
      cases hss
    | ok ss' =>
      refine ⟨fun h => ?_, ?_⟩
      · cases h
        exact ⟨ts, rfl, hparse⟩
      · rintro ⟨ts', hts, hss⟩
        cases hts
        rw [hparse] at hss
        cases hss
        rfl

/-- A text of two texts on lines of their own has the tokens of the first and those of the
    second further on, and the statements of the first and those of the second further on.
    How far that is is the length of the first text and its line feed. -/
theorem parseText_newline {text text' : List Char} {ss ss' : List Surface.Stmt}
    (h : parseText text = .ok ss) (h' : parseText text' = .ok ss') :
    parseText (text ++ '\n' :: text') =
        .ok (ss ++ ss'.map (Surface.Stmt.shift (byteLength text + 1))) ∧
      ∃ ts ts', Token.scan text = .ok ts ∧ Token.scan text' = .ok ts' ∧
        Token.scan (text ++ '\n' :: text') =
          .ok (ts ++ ts'.map (Token.shift (byteLength text + 1))) := by
  obtain ⟨ts, hscan, hparse⟩ := parseText_eq_ok_iff.1 h
  obtain ⟨ts', hscan', hparse'⟩ := parseText_eq_ok_iff.1 h'
  have hboth := scan_newline hscan hscan'
  have hvalued := valued_of_scan hscan
  have hvalued' := valued_of_scan hscan'
  refine ⟨parseText_eq_ok_iff.2 ⟨_, hboth, ?_⟩, ts, ts', hscan, hscan', hboth⟩
  exact Surface.parse_append hvalued (hvalued'.shift _) hparse
    (Surface.parse_shift _ hvalued' hparse')

/-- A text that ends in a comment. -/
def remarkText : List Char := "print π; //é".toList

/-- A text with a loop. -/
def foreverText : List Char := "loop while true \x7b break; \x7d".toList

open Surface in
/-- The comment ends with its line, and a letter of two bytes counts as two. -/
theorem parseText_newline_remark :
    parseText remarkText = .ok [.print (.name ⟨"π", ⟨6, 8⟩⟩) ⟨0, 9⟩] ∧
      parseText foreverText =
        .ok [.loopWhile (.name ⟨"true", ⟨11, 15⟩⟩) (.mk [.breakLoop ⟨18, 24⟩] ⟨16, 26⟩) ⟨0, 26⟩] ∧
      parseText (remarkText ++ '\n' :: foreverText) =
        .ok [.print (.name ⟨"π", ⟨6, 8⟩⟩) ⟨0, 9⟩,
          .loopWhile (.name ⟨"true", ⟨26, 30⟩⟩) (.mk [.breakLoop ⟨33, 39⟩] ⟨31, 41⟩) ⟨15, 41⟩] := by
  have hscan : Token.scan remarkText = .ok [⟨.keyword .print, "print", ⟨0, 5⟩⟩,
      ⟨.ident, "π", ⟨6, 8⟩⟩, ⟨.semicolon, ";", ⟨8, 9⟩⟩] := by decide +kernel
  have hscan' : Token.scan foreverText = .ok [⟨.keyword .loop, "loop", ⟨0, 4⟩⟩,
      ⟨.keyword .while_, "while", ⟨5, 10⟩⟩, ⟨.ident, "true", ⟨11, 15⟩⟩,
      ⟨.openBrace, "\x7b", ⟨16, 17⟩⟩, ⟨.keyword .break_, "break", ⟨18, 23⟩⟩,
      ⟨.semicolon, ";", ⟨23, 24⟩⟩, ⟨.closeBrace, "\x7d", ⟨25, 26⟩⟩] := by decide +kernel
  have hparse : parseText remarkText = .ok [.print (.name ⟨"π", ⟨6, 8⟩⟩) ⟨0, 9⟩] :=
    parseText_eq_ok_iff.2 ⟨_, hscan, by cbv⟩
  have hparse' : parseText foreverText =
      .ok [.loopWhile (.name ⟨"true", ⟨11, 15⟩⟩) (.mk [.breakLoop ⟨18, 24⟩] ⟨16, 26⟩) ⟨0, 26⟩] :=
    parseText_eq_ok_iff.2 ⟨_, hscan', by cbv⟩
  have hlength : byteLength remarkText = 14 := by decide +kernel
  have hboth := (parseText_newline hparse hparse').1
  rw [hlength] at hboth
  exact ⟨hparse, hparse', hboth⟩

end Toal
