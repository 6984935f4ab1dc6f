import Toal.Proofs.Shifting
import Toal.Proofs.Unambiguous

/-!
# Spans are exact

The nodes of a tree are its statements, blocks and expressions and the names in them
(`Surface.Node`). Each of them is read from tokens of its own, that is, these tokens have
a derivation with the node as its tree (`Node.IsReadFrom`), and its span goes from the
first of them to the last (`extent_of_isReadFrom`). The parts of a node are read from
tokens within those of the node, one after the other (`lies_children`). So their spans lie
within the span of the node, and they do not overlap.

Statements stand on their own. The text of a statement, cut out of a program, is a program
with just this statement (`statement_of_slice`).
-/

namespace Toal

open Source

/-! ## Nodes -/

namespace Surface

/-- The nodes of a tree. -/
inductive Node
  | name (x : Ident)
  | expr (e : Expr)
  | block (b : Block)
  | stmt (s : Stmt)

/-- The names in a parameter, in the order in which they are written. -/
def Param.children (p : Param) : List Node := (p.ty.toList ++ [p.name]).map .name

/-- The parts of an expression, in the order in which they are written. -/
def Expr.children : Expr → List Node
  | .binary _ left right _ => [.expr left, .expr right]
  | .group inner _ => [.expr inner]
  | .number .. => []
  | .word .. => []
  | .list elements _ => elements.map .expr
  | .name x => [.name x]
  | .call callee args _ => .name callee :: args.map .expr

/-- The parts of a statement, in the order in which they are written. -/
def Stmt.children : Stmt → List Node
  | .declare _ x init _ => [.name x, .expr init]
  | .assign x value _ => [.name x, .expr value]
  -- `add e to x;` and `subtract e from x;`, but `multiply x by e;` and the like.
  | .change .add x term _ => [.expr term, .name x]
  | .change .sub x term _ => [.expr term, .name x]
  | .change _ x term _ => [.name x, .expr term]
  | .print value _ => [.expr value]
  | .automate f params ty body _ =>
    .name f :: (params.flatMap Param.children ++ (ty.toList.map .name ++ [.block body]))
  | .call callee args callSpan _ => [.expr (.call callee args callSpan)]
  | .output value _ => value.toList.map .expr
  | .ifElse test body alternate _ => .expr test :: .block body :: alternate.toList.map .block
  | .loopWhile test body _ => [.expr test, .block body]
  | .loopOver x list body _ => [.name x, .expr list, .block body]
  | .breakLoop _ => []

namespace Node

/-- Where a node stands. -/
def span : Node → Span
  | .name x => x.span
  | .expr e => e.span
  | .block b => b.span
  | .stmt s => s.span

/-- The parts of a node, in the order in which they are written. -/
def children : Node → List Node
  | .name _ => []
  | .expr e => e.children
  | .block b => b.stmts.map .stmt
  | .stmt s => s.children

/-- The node is one of the given ones, or lies in one of them at some depth. -/
inductive Under (ns : List Node) : Node → Prop
  | top {n} : n ∈ ns → Under ns n
  | child {m n} : Under ns m → n ∈ m.children → Under ns n

/-- What is under nodes that are under others is under those. -/
theorem Under.trans {ns ms : List Node} {n : Node} (h : Under ns n) (hns : ∀ m ∈ ns, Under ms m) :
    Under ms n := by
  induction h with
  | top hn => exact hns _ hn
  | child _ hn ih => exact .child ih hn

end Node

end Surface

/-! ## Where operands are read from -/

namespace Grammar

open Surface

/-- The tokens have a derivation with the given tree. -/
def Phrase.Reads (p : Phrase) (ts : List Token) (a : p.Tree) : Prop :=
  ∃ d : Derivation (.phrase p), d.tokens = ts ∧ d.tree = a

variable {ts us vs : List Token} {e l r : Expr}

theorem reads_power_of_primary (h : Phrase.primary.Reads ts e) : Phrase.power.Reads ts e := by
  obtain ⟨d, rfl, rfl⟩ := h
  exact ⟨.node .power (.cons d (.cons (.node .noExponent .nil) .nil)), List.append_nil _, rfl⟩

theorem reads_product_of_power (h : Phrase.power.Reads ts e) : Phrase.product.Reads ts e := by
  obtain ⟨d, rfl, rfl⟩ := h
  exact ⟨.node .product (.cons d (.cons (.node .productEnd .nil) .nil)), List.append_nil _, rfl⟩

theorem reads_sum_of_product (h : Phrase.product.Reads ts e) : Phrase.sum.Reads ts e := by
  obtain ⟨d, rfl, rfl⟩ := h
  exact ⟨.node .sum (.cons d (.cons (.node .sumEnd .nil) .nil)), List.append_nil _, rfl⟩

theorem reads_exp_of_sum (h : Phrase.sum.Reads ts e) : Phrase.exp.Reads ts e := by
  obtain ⟨d, rfl, rfl⟩ := h
  exact ⟨.node .exp (.cons d (.cons (.node .alone .nil) .nil)), List.append_nil _, rfl⟩

theorem reads_exp_of_product (h : Phrase.product.Reads ts e) : Phrase.exp.Reads ts e :=
  reads_exp_of_sum (reads_sum_of_product h)

theorem reads_exp_of_power (h : Phrase.power.Reads ts e) : Phrase.exp.Reads ts e :=
  reads_exp_of_product (reads_product_of_power h)

theorem reads_exp_of_primary (h : Phrase.primary.Reads ts e) : Phrase.exp.Reads ts e :=
  reads_exp_of_power (reads_power_of_primary h)

/-- The tokens are those of two expressions with an operator between them. -/
def Operation (ts : List Token) (e : Expr) : Prop :=
  ∃ op l r us ws vs, Phrase.exp.Reads us l ∧ Phrase.exp.Reads vs r ∧ us ++ (ws ++ vs) = ts ∧
    binary op l r = e

/-- The rest of a product is empty or ends with an operator and its operand. -/
theorem productRest_cases : ∀ rest : Derivation (.phrase .productRest),
    (rest.tokens = [] ∧ ∀ l, rest.tree l = l) ∨
      ∃ (rest' : Derivation (.phrase .productRest)) (op : Derivation (.phrase .productOp))
        (d : Derivation (.phrase .power)),
        rest.tokens = rest'.tokens ++ (op.tokens ++ d.tokens) ∧
          ∀ l, rest.tree l = binary (.arith op.tree) (rest'.tree l) d.tree
  | .node .productEnd .nil => .inl ⟨rfl, fun _ => rfl⟩
  | .node .productNext (.cons op (.cons d (.cons rest .nil))) => by
    right
    rcases productRest_cases rest with ⟨hnil, hsame⟩ | ⟨rest', op', d', htokens, htree⟩
    · refine ⟨.node .productEnd .nil, op, d, ?_, fun l => hsame _⟩
      simp [Derivation.tokens, Derivations.tokens, hnil]
    · refine ⟨.node .productNext (.cons op (.cons d (.cons rest' .nil))), op', d', ?_,
        fun l => htree _⟩
      simp [Derivation.tokens, Derivations.tokens, htokens]

/-- A product is a power or an operation. -/
theorem product_cases : Phrase.product.Reads ts e → Phrase.power.Reads ts e ∨ Operation ts e
  | ⟨.node .product (.cons d (.cons rest .nil)), htokens, htree⟩ => by
    have hall : d.tokens ++ rest.tokens = ts := by
      simpa [Derivation.tokens, Derivations.tokens] using htokens
    rcases productRest_cases rest with ⟨hnil, hsame⟩ | ⟨rest', op, d', hrest, hbinary⟩
    · rw [hnil, List.append_nil] at hall
      exact .inl ⟨d, hall, (hsame d.tree).symm.trans htree⟩
    · refine .inr ⟨.arith op.tree, rest'.tree d.tree, d'.tree, d.tokens ++ rest'.tokens, op.tokens,
        d'.tokens, reads_exp_of_product ⟨.node .product (.cons d (.cons rest' .nil)), ?_, rfl⟩,
        reads_exp_of_power ⟨d', rfl, rfl⟩, ?_, (hbinary d.tree).symm.trans htree⟩
      · simp [Derivation.tokens, Derivations.tokens]
      · rw [← hall, hrest, List.append_assoc]

/-- The rest of a sum is empty or ends with an operator and its operand. -/
theorem sumRest_cases : ∀ rest : Derivation (.phrase .sumRest),
    (rest.tokens = [] ∧ ∀ l, rest.tree l = l) ∨
      ∃ (rest' : Derivation (.phrase .sumRest)) (op : Derivation (.phrase .sumOp))
        (d : Derivation (.phrase .product)),
        rest.tokens = rest'.tokens ++ (op.tokens ++ d.tokens) ∧
          ∀ l, rest.tree l = binary (.arith op.tree) (rest'.tree l) d.tree
  | .node .sumEnd .nil => .inl ⟨rfl, fun _ => rfl⟩
  | .node .sumNext (.cons op (.cons d (.cons rest .nil))) => by
    right
    rcases sumRest_cases rest with ⟨hnil, hsame⟩ | ⟨rest', op', d', htokens, htree⟩
    · refine ⟨.node .sumEnd .nil, op, d, ?_, fun l => hsame _⟩
      simp [Derivation.tokens, Derivations.tokens, hnil]
    · refine ⟨.node .sumNext (.cons op (.cons d (.cons rest' .nil))), op', d', ?_, fun l => htree _⟩
      simp [Derivation.tokens, Derivations.tokens, htokens]

/-- A sum is a product or an operation. -/
theorem sum_cases : Phrase.sum.Reads ts e → Phrase.product.Reads ts e ∨ Operation ts e
  | ⟨.node .sum (.cons d (.cons rest .nil)), htokens, htree⟩ => by
    have hall : d.tokens ++ rest.tokens = ts := by
      simpa [Derivation.tokens, Derivations.tokens] using htokens
    rcases sumRest_cases rest with ⟨hnil, hsame⟩ | ⟨rest', op, d', hrest, hbinary⟩
    · rw [hnil, List.append_nil] at hall
      exact .inl ⟨d, hall, (hsame d.tree).symm.trans htree⟩
    · refine .inr ⟨.arith op.tree, rest'.tree d.tree, d'.tree, d.tokens ++ rest'.tokens, op.tokens,
        d'.tokens, reads_exp_of_sum ⟨.node .sum (.cons d (.cons rest' .nil)), ?_, rfl⟩,
        reads_exp_of_product ⟨d', rfl, rfl⟩, ?_, (hbinary d.tree).symm.trans htree⟩
      · simp [Derivation.tokens, Derivations.tokens]
      · rw [← hall, hrest, List.append_assoc]

/-- A power is a primary expression or an operation. -/
theorem power_cases : Phrase.power.Reads ts e → Phrase.primary.Reads ts e ∨ Operation ts e
  | ⟨.node .power (.cons d (.cons (.node .noExponent .nil) .nil)), htokens, htree⟩ =>
    .inl ⟨d, (List.append_nil _).symm.trans htokens, htree⟩
  | ⟨.node .power (.cons d (.cons (.node .toThe (.cons t (.cons t' (.cons d' .nil)))) .nil)),
      htokens, htree⟩ => by
    refine .inr ⟨.arith .pow, d.tree, d'.tree, d.tokens, t.tokens ++ t'.tokens, d'.tokens,
      reads_exp_of_primary ⟨d, rfl, rfl⟩, reads_exp_of_power ⟨d', rfl, rfl⟩, ?_, htree⟩
    simpa [Derivation.tokens, Derivations.tokens] using htokens

/-- What is read as an expression is an operation or has no operator outside of
    brackets. -/
theorem exp_cases : Phrase.exp.Reads ts e → Phrase.primary.Reads ts e ∨ Operation ts e
  | ⟨.node .exp (.cons d (.cons (.node .alone .nil) .nil)), htokens, htree⟩ => by
    have hsum : Phrase.sum.Reads ts e := ⟨d, (List.append_nil _).symm.trans htokens, htree⟩
    rcases sum_cases hsum with hproduct | hoperation
    · rcases product_cases hproduct with hpower | hoperation
      · exact power_cases hpower
      · exact .inr hoperation
    · exact .inr hoperation
  | ⟨.node .exp (.cons d (.cons (.node .compared (.cons op (.cons d' .nil))) .nil)), htokens,
      htree⟩ => by
    refine .inr ⟨.compare op.tree, d.tree, d'.tree, d.tokens, op.tokens, d'.tokens,
      reads_exp_of_sum ⟨d, rfl, rfl⟩, reads_exp_of_sum ⟨d', rfl, rfl⟩, ?_, htree⟩
    simpa [Derivation.tokens, Derivations.tokens] using htokens

end Grammar

/-! ## Where nodes are read from -/

open Grammar in
/-- The tokens are those of the node. -/
def Surface.Node.IsReadFrom : Node → List Token → Prop
  | .name x, ts => ∃ t : Token, t.kind = .ident ∧ identOf t = x ∧ [t] = ts
  | .expr e, ts => Phrase.exp.Reads ts e
  | .block b, ts => Phrase.block.Reads ts b
  | .stmt s, ts => Phrase.stmt.Reads ts s

namespace Grammar

open Surface

variable {ts us : List Token} {e : Expr}

/-- The nodes are read from parts of the tokens, one after the other. -/
inductive Lies : List Node → List Token → Prop
  | nil {all} : Lies [] all
  | gap {ns before rest} : Lies ns rest → Lies ns (before ++ rest)
  | cons {n ns part rest} : Node.IsReadFrom n part → Lies ns rest → Lies (n :: ns) (part ++ rest)

/-- A node lies in the tokens that it is read from. -/
theorem Lies.single {n : Node} (h : n.IsReadFrom ts) : Lies [n] ts := by
  have hcons := Lies.cons h (@Lies.nil [])
  rwa [List.append_nil] at hcons

/-- Nodes lie in the tokens of the one part and of the other. -/
theorem Lies.append {ns ms : List Node} (h : Lies ns ts) (h' : Lies ms us) :
    Lies (ns ++ ms) (ts ++ us) := by
  induction h with
  | nil => exact .gap h'
  | gap _ ih =>
    rw [List.append_assoc]
    exact .gap ih
  | cons hn _ ih =>
    rw [List.append_assoc]
    exact .cons hn ih

/-- The nodes in a tree for a phrase, in the order in which they are written. -/
def Phrase.nodes : (p : Phrase) → p.Tree → List Node
  | .stmts, ss => List.map Node.stmt ss
  | .stmt, s => [.stmt s]
  | .outputValue, e => (Option.toList e).map Node.expr
  | .alternate, b => (Option.toList b).map Node.block
  | .block, b => [.block b]
  | .params, ps => List.flatMap Param.children ps
  | .paramList, ps => List.flatMap Param.children ps
  | .paramRest, ps => List.flatMap Param.children ps
  | .param, p => Param.children p
  | .outputType, x => (Option.toList x).map Node.name
  | .args, es => List.map Node.expr es
  | .argList, es => List.map Node.expr es
  | .argRest, es => List.map Node.expr es
  | .exp, e => [.expr e]
  | .sum, e => [.expr e]
  | .product, e => [.expr e]
  | .power, e => [.expr e]
  | .primary, e => [.expr e]
  | _, _ => []

/-- The nodes in a tree for a symbol, in the order in which they are written. -/
def Symbol.nodes : (s : Symbol) → s.Tree → List Node
  | .token .ident, t => [.name (identOf t)]
  | .token _, _ => []
  | .phrase p, t => p.nodes t

/-- The nodes in trees for symbols, in the order in which they are written. -/
def nodesAll : (ss : List Symbol) → Trees ss → List Node
  | [], _ => []
  | s :: ss, ts => s.nodes ts.1 ++ nodesAll ss ts.2

/-- The nodes in the tree that a rule builds are read from the tokens of its parts. -/
theorem Rule.lies {p : Phrase} (r : Rule p) (parts : Derivations r.parts)
    (h : Lies (nodesAll r.parts parts.trees) parts.tokens) :
    Lies (p.nodes (r.tree parts.trees)) parts.tokens := by
  cases r with
  | noStmt | noValue | noAlternate | noParams | lastParam | noType | noArgs | lastArg => exact .nil
  | moreStmts | value | ifNot | someParams | paramList | nextParam | typed | untyped | arrow
  | someArgs | argList | nextArg =>
    simp only [nodesAll, List.append_nil] at h
    exact h
  | make | constantlyMake | change | add | subtract | multiply | divide | raise | mod | print
  | automate | call | output | ifThen | loopWhile | loopOver | breakLoop =>
    exact .single ⟨.node _ parts, rfl, rfl⟩
  | block => exact .single ⟨.node .block parts, rfl, rfl⟩
  | exp => exact .single ⟨.node .exp parts, rfl, rfl⟩
  | sum => exact .single (reads_exp_of_sum ⟨.node .sum parts, rfl, rfl⟩)
  | product => exact .single (reads_exp_of_product ⟨.node .product parts, rfl, rfl⟩)
  | power => exact .single (reads_exp_of_power ⟨.node .power parts, rfl, rfl⟩)
  | numeral | word | list | callOf | name | group =>
    exact .single (reads_exp_of_primary ⟨.node _ parts, rfl, rfl⟩)
  | alone | compared | greater | less | isNot | is | strict | orEqualTo | sumEnd | sumNext
  | plus | minus | productEnd | productNext | times | dividedBy | modulo | noExponent | toThe =>
    exact .nil

mutual

/-- The nodes in the tree of a derivation are read from its tokens, one after the
    other. -/
theorem Derivation.lies {s : Symbol} : ∀ d : Derivation s, Lies (s.nodes d.tree) d.tokens
  | @Derivation.leaf kind t h => by
    cases kind with
    | ident => exact .single ⟨t, h, rfl, rfl⟩
    | _ => exact .nil
  | .node rule parts => rule.lies parts parts.lies

/-- The nodes of a sequence of derivations lie in its tokens. -/
theorem Derivations.lies {ss : List Symbol} :
    ∀ ds : Derivations ss, Lies (nodesAll ss ds.trees) ds.tokens
  | .nil => .nil
  | .cons head tail => head.lies.append tail.lies

end

/-- The tokens of a call that is a statement, up to the semicolon, are those of the
    call. -/
theorem lies_call : ∀ parts : Derivations Rule.call.parts,
    Lies (Stmt.children (Rule.call.tree parts.trees)) parts.tokens
  | .cons f (.cons start (.cons args (.cons last (.cons close .nil)))) => by
    have hcall : Phrase.exp.Reads (f.tokens ++ (start.tokens ++ (args.tokens ++ last.tokens)))
        (.call (identOf f.tree) args.tree (between f.tree last.tree)) :=
      reads_exp_of_primary ⟨.node .callOf (.cons f (.cons start (.cons args (.cons last .nil)))),
        by simp [Derivation.tokens, Derivations.tokens], rfl⟩
    have hlies : Lies _ (_ ++ close.tokens) := .cons (n := .expr _) hcall .nil
    simp only [List.append_assoc] at hlies
    simp only [Derivations.tokens, List.append_nil]
    exact hlies

/-- The parts of a statement lie in its tokens. -/
theorem lies_stmt (d : Derivation (.phrase .stmt)) : Lies (Stmt.children d.tree) d.tokens := by
  cases d with
  | node rule parts =>
    have h := parts.lies
    cases rule with
    | call => exact lies_call parts
    | output | ifThen =>
      simp only [nodesAll, Symbol.nodes, List.append_nil] at h
      exact h
    | _ => exact h

/-- The statements of a block lie in its tokens. -/
theorem lies_block (d : Derivation (.phrase .block)) :
    Lies ((Block.stmts d.tree).map .stmt) d.tokens := by
  cases d with
  | node rule parts =>
    have h := parts.lies
    cases rule with
    | block =>
      simp only [nodesAll, Symbol.nodes, List.append_nil] at h
      exact h

/-- The parts of an expression lie in its tokens. -/
theorem lies_exp (h : Phrase.exp.Reads ts e) : Lies (Expr.children e) ts := by
  rcases exp_cases h with ⟨d, rfl, rfl⟩ | ⟨op, l, r, us, ws, vs, hl, hr, rfl, rfl⟩
  · cases d with
    | node rule parts =>
      have h := parts.lies
      cases rule with
      | list | callOf =>
        simp only [nodesAll, Symbol.nodes, List.append_nil] at h
        exact h
      | _ => exact h
  · exact .cons hl (.gap (.single hr))

/-- The parts of a node are read from its tokens, one after the other. -/
theorem lies_children {n : Node} (h : n.IsReadFrom ts) : Lies n.children ts := by
  cases n with
  | name x => exact .nil
  | expr e => exact lies_exp h
  | block b =>
    obtain ⟨d, rfl, rfl⟩ := h
    exact lies_block d
  | stmt s =>
    obtain ⟨d, rfl, rfl⟩ := h
    exact lies_stmt d

end Grammar

/-! ## From the first token to the last -/

/-- The tokens take up some bytes each, and stand one after the other. -/
structure Ordered (ts : List Token) : Prop where
  lo_lt_hi : ∀ t ∈ ts, t.span.lo < t.span.hi
  pairwise : ts.Pairwise fun t u => t.span.hi ≤ u.span.lo

/-- The span goes from the first byte of the first token to the last byte of the last
    token. -/
def Extent (ts : List Token) (span : Span) : Prop :=
  ∃ t u, ts.head? = some t ∧ ts.getLast? = some u ∧ span = ⟨t.span.lo, u.span.hi⟩

namespace Ordered

variable {ts us vs : List Token} {t u : Token}

/-- A stretch of tokens in order is in order. -/
theorem of_stretch (h : Ordered ts) (hus : us <:+: ts) : Ordered us :=
  ⟨fun t ht => h.lo_lt_hi t (hus.subset ht), h.pairwise.sublist hus.sublist⟩

/-- No token begins before the first. -/
theorem lo_head_le (h : Ordered ts) (ht : ts.head? = some t) (hu : u ∈ ts) :
    t.span.lo ≤ u.span.lo := by
  cases ts with
  | nil => cases ht
  | cons x ts =>
    cases ht
    rcases List.mem_cons.1 hu with rfl | hu
    · exact Nat.le_refl _
    · have hlt := h.lo_lt_hi t List.mem_cons_self
      have hle := (List.pairwise_cons.1 h.pairwise).1 u hu
      omega

/-- No token ends after the last. -/
theorem hi_le_getLast (h : Ordered ts) (ht : ts.getLast? = some t) (hu : u ∈ ts) :
    u.span.hi ≤ t.span.hi := by
  obtain ⟨us, rfl⟩ := List.getLast?_eq_some_iff.1 ht
  rcases List.mem_append.1 hu with hu | hu
  · have hlt := h.lo_lt_hi t (List.mem_append_right _ List.mem_cons_self)
    have hle := (List.pairwise_append.1 h.pairwise).2.2 u hu t List.mem_cons_self
    omega
  · rw [List.mem_singleton.1 hu]

end Ordered

namespace Extent

variable {ts us vs : List Token} {a b : Span}

theorem single (t : Token) : Extent [t] t.span := ⟨t, t, rfl, rfl, rfl⟩

/-- The span around the spans of a beginning and of an end is the span of all. -/
theorem cover (hus : Extent us a) (hvs : Extent vs b) (hts : Ordered ts) (hbegins : us <+: ts)
    (hends : vs <:+ ts) : Extent ts (a.cover b) := by
  obtain ⟨t, t', ht, ht', rfl⟩ := hus
  obtain ⟨u, u', hu, hu', rfl⟩ := hvs
  have hhead : ts.head? = some t := by
    obtain ⟨rest, rfl⟩ := hbegins
    rw [List.head?_append, ht, Option.some_or]
  have hlast : ts.getLast? = some u' := by
    obtain ⟨rest, rfl⟩ := hends
    rw [List.getLast?_append, hu', Option.some_or]
  have hlo := hts.lo_head_le hhead (hends.subset (List.mem_of_mem_head? hu))
  have hhi := hts.hi_le_getLast hlast (hbegins.subset (List.mem_of_mem_getLast? ht'))
  refine ⟨t, u', hhead, hlast, ?_⟩
  rw [Span.cover, Nat.min_eq_left hlo, Nat.max_eq_right hhi]

end Extent

namespace Grammar

open Surface

variable {ts : List Token} {e : Expr}

/-- The tokens of the last of several derivations. -/
def Derivations.lastTokens {ss : List Symbol} : Derivations ss → List Token
  | .nil => []
  | .cons head .nil => head.tokens
  | .cons _ tail => tail.lastTokens

/-- The tokens of the last parts end the tokens of all. -/
theorem Derivations.lastTokens_suffix {ss : List Symbol} :
    ∀ ds : Derivations ss, ds.lastTokens <:+ ds.tokens
  | .nil => List.suffix_rfl
  | .cons _ .nil => ⟨[], (List.append_nil _).symm⟩
  | .cons _ (.cons next tail) =>
    (Derivations.lastTokens_suffix (.cons next tail)).trans (List.suffix_append _ _)

theorem Derivations.suffix_of_lastTokens {ss : List Symbol} {ds : Derivations ss}
    {us : List Token} (h : ds.lastTokens = us) : us <:+ ds.tokens :=
  h ▸ ds.lastTokens_suffix

/-- The span from the first token to the last is the span of all tokens. -/
theorem extent_between {ss : List Symbol} (ds : Derivations ss) {start close : Token}
    (h : Ordered ds.tokens) (hbegins : [start] <+: ds.tokens) (hends : ds.lastTokens = [close]) :
    Extent ds.tokens (between start close) :=
  (Extent.single start).cover (Extent.single close) h hbegins
    (Derivations.suffix_of_lastTokens hends)

/-- A primary expression reaches from its first token to its last. -/
theorem extent_primary : ∀ d : Derivation (.phrase .primary), Ordered d.tokens →
    Extent d.tokens (Expr.span d.tree)
  | .node .numeral (.cons (.leaf t _) .nil), _ => .single t
  | .node .word (.cons (.leaf t _) .nil), _ => .single t
  | .node .name (.cons (.leaf t _) .nil), _ => .single t
  | .node .list (.cons (.leaf _ _) (.cons _ (.cons (.leaf _ _) .nil))), h =>
    extent_between _ h ⟨_, rfl⟩ rfl
  | .node .callOf (.cons (.leaf _ _) (.cons _ (.cons _ (.cons (.leaf _ _) .nil)))), h =>
    extent_between _ h ⟨_, rfl⟩ rfl
  | .node .group (.cons (.leaf _ _) (.cons _ (.cons (.leaf _ _) .nil))), h =>
    extent_between _ h ⟨_, rfl⟩ rfl

/-- An expression reaches from its first token to its last. -/
theorem extent_exp {e : Expr} {ts : List Token} (h : Phrase.exp.Reads ts e) (hts : Ordered ts) :
    Extent ts e.span := by
  rcases exp_cases h with ⟨d, rfl, rfl⟩ | ⟨op, l, r, us, ws, vs, hl, hr, rfl, heq⟩
  · exact extent_primary d hts
  · have hbegins : us <+: us ++ (ws ++ vs) := List.prefix_append _ _
    have hends : vs <:+ us ++ (ws ++ vs) :=
      (List.suffix_append _ _).trans (List.suffix_append _ _)
    have hleft := extent_exp hl (hts.of_stretch hbegins.isInfix)
    have hright := extent_exp hr (hts.of_stretch hends.isInfix)
    rw [← heq]
    exact hleft.cover hright hts hbegins hends
termination_by sizeOf e
decreasing_by
  all_goals
    rw [← heq, binary]
    simp only [Expr.binary.sizeOf_spec]
    omega

/-- A block reaches from its first token to its last. -/
theorem extent_block : ∀ d : Derivation (.phrase .block), Ordered d.tokens →
    Extent d.tokens (Block.span d.tree)
  | .node .block (.cons (.leaf _ _) (.cons _ (.cons (.leaf _ _) .nil))), h =>
    extent_between _ h ⟨_, rfl⟩ rfl

/-- A statement that ends with a block has the span from its first token to the block. -/
theorem extent_ended {ss : List Symbol} (ds : Derivations ss) {start : Token}
    (body : Derivation (.phrase .block)) (h : Ordered ds.tokens) (hbegins : [start] <+: ds.tokens)
    (hends : body.tokens <:+ ds.tokens) :
    Extent ds.tokens (start.span.cover (Block.span body.tree)) :=
  (Extent.single start).cover (extent_block body (h.of_stretch hends.isInfix)) h hbegins hends

/-- A statement reaches from its first token to its last. -/
theorem extent_stmt : ∀ d : Derivation (.phrase .stmt), Ordered d.tokens →
    Extent d.tokens (Stmt.span d.tree)
  | .node .make (.cons (.leaf _ _) (.cons _ (.cons _ (.cons _ (.cons (.leaf _ _) .nil))))), h =>
    extent_between _ h ⟨_, rfl⟩ rfl
  | .node .constantlyMake (.cons (.leaf _ _) (.cons _ (.cons _ (.cons _ (.cons _
      (.cons (.leaf _ _) .nil)))))), h =>
    extent_between _ h ⟨_, rfl⟩ rfl
  | .node .change (.cons (.leaf _ _) (.cons _ (.cons _ (.cons _ (.cons (.leaf _ _) .nil))))), h =>
    extent_between _ h ⟨_, rfl⟩ rfl
  | .node .add (.cons (.leaf _ _) (.cons _ (.cons _ (.cons _ (.cons (.leaf _ _) .nil))))), h =>
    extent_between _ h ⟨_, rfl⟩ rfl
  | .node .subtract (.cons (.leaf _ _) (.cons _ (.cons _ (.cons _ (.cons (.leaf _ _) .nil))))), h =>
    extent_between _ h ⟨_, rfl⟩ rfl
  | .node .multiply (.cons (.leaf _ _) (.cons _ (.cons _ (.cons _ (.cons (.leaf _ _) .nil))))), h =>
    extent_between _ h ⟨_, rfl⟩ rfl
  | .node .divide (.cons (.leaf _ _) (.cons _ (.cons _ (.cons _ (.cons (.leaf _ _) .nil))))), h =>
    extent_between _ h ⟨_, rfl⟩ rfl
  | .node .raise (.cons (.leaf _ _) (.cons _ (.cons _ (.cons _ (.cons _
      (.cons (.leaf _ _) .nil)))))), h =>
    extent_between _ h ⟨_, rfl⟩ rfl
  | .node .mod (.cons (.leaf _ _) (.cons _ (.cons _ (.cons _ (.cons (.leaf _ _) .nil))))), h =>
    extent_between _ h ⟨_, rfl⟩ rfl
  | .node .print (.cons (.leaf _ _) (.cons _ (.cons (.leaf _ _) .nil))), h =>
    extent_between _ h ⟨_, rfl⟩ rfl
  | .node .call (.cons (.leaf _ _) (.cons _ (.cons _ (.cons _ (.cons (.leaf _ _) .nil))))), h =>
    extent_between _ h ⟨_, rfl⟩ rfl
  | .node .output (.cons (.leaf _ _) (.cons _ (.cons (.leaf _ _) .nil))), h =>
    extent_between _ h ⟨_, rfl⟩ rfl
  | .node .breakLoop (.cons (.leaf _ _) (.cons (.leaf _ _) .nil)), h =>
    extent_between _ h ⟨_, rfl⟩ rfl
  | .node .automate (.cons (.leaf _ _) (.cons _ (.cons _ (.cons _ (.cons _ (.cons _
      (.cons body .nil))))))), h =>
    extent_ended _ body h ⟨_, rfl⟩ (Derivations.suffix_of_lastTokens rfl)
  | .node .loopWhile (.cons (.leaf _ _) (.cons _ (.cons _ (.cons body .nil)))), h =>
    extent_ended _ body h ⟨_, rfl⟩ (Derivations.suffix_of_lastTokens rfl)
  | .node .loopOver (.cons (.leaf _ _) (.cons _ (.cons _ (.cons _ (.cons _
      (.cons body .nil)))))), h =>
    extent_ended _ body h ⟨_, rfl⟩ (Derivations.suffix_of_lastTokens rfl)
  | .node .ifThen (.cons (.leaf start _) (.cons test (.cons body
      (.cons (.node .noAlternate .nil) .nil)))), h =>
    extent_ended _ body h ⟨_, rfl⟩
      ⟨start :: test.tokens, by simp [Derivation.tokens, Derivations.tokens]⟩
  | .node .ifThen (.cons (.leaf start _) (.cons test (.cons body (.cons (.node .ifNot
      (.cons word (.cons alternate .nil))) .nil)))), h =>
    extent_ended _ alternate h ⟨_, rfl⟩ ⟨start :: (test.tokens ++ (body.tokens ++ word.tokens)),
      by simp [Derivation.tokens, Derivations.tokens]⟩

end Grammar

/-! ## Parts and whole -/

open Surface Grammar

variable {text : List Char} {ts : List Token} {n m : Node} {ns : List Node}

/-- A node reaches from the first token that it is read from to the last. -/
theorem extent_of_isReadFrom (h : n.IsReadFrom ts) (hts : Ordered ts) : Extent ts n.span := by
  cases n with
  | name x =>
    obtain ⟨t, -, rfl, rfl⟩ := h
    exact .single t
  | expr e => exact extent_exp h hts
  | block b =>
    obtain ⟨d, rfl, rfl⟩ := h
    exact extent_block d hts
  | stmt s =>
    obtain ⟨d, rfl, rfl⟩ := h
    exact extent_stmt d hts

/-- A node that lies in tokens is read from a stretch of them. -/
theorem Grammar.Lies.exists_stretch (h : Lies ns ts) (hn : n ∈ ns) :
    ∃ part, part <:+: ts ∧ n.IsReadFrom part := by
  induction h with
  | nil => cases hn
  | gap _ ih =>
    obtain ⟨part, hpart, hread⟩ := ih hn
    exact ⟨part, hpart.trans (List.suffix_append _ _).isInfix, hread⟩
  | cons hread _ ih =>
    rcases List.mem_cons.1 hn with rfl | hn
    · exact ⟨_, (List.prefix_append _ _).isInfix, hread⟩
    · obtain ⟨part, hpart, hread⟩ := ih hn
      exact ⟨part, hpart.trans (List.suffix_append _ _).isInfix, hread⟩

/-- Nodes that are read one after the other stand one after the other. -/
theorem Grammar.Lies.pairwise (h : Lies ns ts) (hts : Ordered ts) :
    ns.Pairwise fun a b => a.span.hi ≤ b.span.lo := by
  induction h with
  | nil => exact .nil
  | gap _ ih => exact ih (hts.of_stretch (List.suffix_append _ _).isInfix)
  | @cons n ns part rest hread hrest ih =>
    have hsuffix : rest <:+: part ++ rest := (List.suffix_append _ _).isInfix
    refine List.pairwise_cons.2 ⟨fun m hm => ?_, ih (hts.of_stretch hsuffix)⟩
    obtain ⟨part', hpart', hread'⟩ := hrest.exists_stretch hm
    obtain ⟨_, u, _, hu, hn⟩ :=
      extent_of_isReadFrom hread (hts.of_stretch (List.prefix_append _ _).isInfix)
    obtain ⟨t, _, ht, _, hm⟩ := extent_of_isReadFrom hread' (hts.of_stretch (hpart'.trans hsuffix))
    rw [hn, hm]
    exact (List.pairwise_append.1 hts.pairwise).2.2 u (List.mem_of_mem_getLast? hu) t
      (hpart'.subset (List.mem_of_mem_head? ht))

/-- A part of a node lies within it. -/
theorem span_children (h : n.IsReadFrom ts) (hts : Ordered ts) (hm : m ∈ n.children) :
    n.span.lo ≤ m.span.lo ∧ m.span.hi ≤ n.span.hi := by
  obtain ⟨part, hpart, hread⟩ := (lies_children h).exists_stretch hm
  obtain ⟨t, u, ht, hu, hn⟩ := extent_of_isReadFrom h hts
  obtain ⟨t', u', ht', hu', hm⟩ := extent_of_isReadFrom hread (hts.of_stretch hpart)
  rw [hn, hm]
  exact ⟨hts.lo_head_le ht (hpart.subset (List.mem_of_mem_head? ht')),
    hts.hi_le_getLast hu (hpart.subset (List.mem_of_mem_getLast? hu'))⟩

/-- A node at any depth is read from a stretch of the tokens. -/
theorem Surface.Node.Under.exists_stretch (h : Under ns n) (hns : Lies ns ts) :
    ∃ part, part <:+: ts ∧ n.IsReadFrom part := by
  induction h with
  | top hn => exact hns.exists_stretch hn
  | child _ hn ih =>
    obtain ⟨part, hpart, hread⟩ := ih
    obtain ⟨part', hpart', hread'⟩ := (lies_children hread).exists_stretch hn
    exact ⟨part', hpart'.trans hpart, hread'⟩

/-! ## Tokens of a text -/

/-- Scanning comes upon tokens one after the other. -/
theorem Scanner.Scans.ordered {s t : Scanner} (h : Scans s ts t) :
    Ordered ts ∧ ∀ x ∈ ts, s.offset ≤ x.span.lo := by
  induction h with
  | nil => exact ⟨⟨List.forall_mem_nil _, .nil⟩, List.forall_mem_nil _⟩
  | skip _ _ _ _ ih => exact ⟨ih.1, fun x hx => Nat.le_trans (Nat.le_add_right _ _) (ih.2 x hx)⟩
  | @token s t kind text chars rest ts hstands _ _ ih =>
    obtain ⟨⟨hlt, hpairwise⟩, hle⟩ := ih
    have hpos : 0 < byteLength chars := by
      obtain ⟨c, cs, rfl⟩ := List.exists_cons_of_ne_nil hstands.ne_nil
      have hc := c.utf8Size_pos
      rw [byteLength]
      omega
    refine ⟨⟨List.forall_mem_cons.2 ⟨Nat.lt_add_of_pos_right hpos, hlt⟩,
      List.pairwise_cons.2 ⟨hle, hpairwise⟩⟩,
      List.forall_mem_cons.2 ⟨Nat.le_refl _, fun x hx => ?_⟩⟩
    exact Nat.le_trans (Nat.le_add_right _ _) (hle x hx)

/-- The tokens of a text are in order. -/
theorem ordered_of_scan (h : Token.scan text = .ok ts) : Ordered ts := by
  obtain ⟨t, hscans, -⟩ := Scanner.tokens_eq_ok_iff.1 h
  exact hscans.ordered.1

/-- The program of a single statement. -/
def Grammar.Derivation.single (d : Derivation (.phrase .stmt)) : Derivation (.phrase .stmts) :=
  .node .moreStmts (.cons d (.cons (.node .noStmt .nil) .nil))

theorem Grammar.Derivation.tokens_single (d : Derivation (.phrase .stmt)) :
    d.single.tokens = d.tokens :=
  List.append_nil _

/-- Tokens from which a statement is read further on are parsed to this statement alone. -/
theorem parse_of_reads_shift {n : Nat} {s : Stmt} (hts : Valued ts)
    (h : Phrase.stmt.Reads (ts.map (Token.shift n)) s) :
    ∃ s', parse ts = .ok [s'] ∧ s'.shift n = s := by
  obtain ⟨d, htokens, rfl⟩ := h
  have hkinds : d.kinds = ts.map (·.kind) := by
    rw [Derivation.kinds, htokens, List.map_map]
    rfl
  obtain ⟨d', rfl⟩ := d.exists_tokens_eq hkinds
  have hparse := parse_complete d'.single (by rwa [d'.tokens_single])
  rw [d'.tokens_single] at hparse
  -- Tokens have one derivation only, so that of the tokens further on is known.
  have hsame : (d'.shift n).single = d.single := Derivation.eq_of_tokens_eq (by
    rw [Derivation.tokens_single, Derivation.tokens_single, htokens, d'.tokens_shift])
  have htree : [(d'.shift n).tree] = [d.tree] := congrArg Derivation.tree hsame
  have hshifted : (d'.shift n).tree = Stmt.shift n d'.tree := d'.shifted
  exact ⟨d'.tree, hparse, hshifted.symm.trans (List.cons.inj htree).1⟩

/-- The text of a statement is a program with just this statement. -/
theorem statement_of_slice {part : List Token} {s : Stmt} (hscan : Token.scan text = .ok ts)
    (hpart : part <:+: ts) (h : Phrase.stmt.Reads part s) :
    ∃ slice s', IsSlice text s.span slice ∧ parseText slice = .ok [s'] ∧
      s'.shift s.span.lo = s := by
  have hordered := (ordered_of_scan hscan).of_stretch hpart
  obtain ⟨x, y, hx, hy, hspan⟩ := extent_of_isReadFrom (n := .stmt s) h hordered
  obtain ⟨before, after, rfl⟩ := hpart
  obtain ⟨slice, ts', hslice, hscan', rfl⟩ := exists_slice hscan hx hy
  obtain ⟨s', hparse, hs⟩ := parse_of_reads_shift (valued_of_scan hscan') h
  change s.span = ⟨x.span.lo, y.span.hi⟩ at hspan
  rw [hspan]
  exact ⟨slice, s', hslice, parseText_eq_ok_iff.2 ⟨ts', hscan', hparse⟩, hs⟩

/-- Spans are exact. The tokens of a program are those of its statements, one after the
    other, and each node at any depth is read from a stretch of them: its span goes from
    the first of these tokens to the last. Its parts lie within it, in the order in which
    they are written and without overlapping. And the text of a statement, cut out of the
    program, is a program with this statement alone, its spans counted from its own
    beginning. -/
theorem spans_exact {ss : List Stmt} (h : parseText text = .ok ss) :
    ∃ ts, Token.scan text = .ok ts ∧ (ss.Pairwise fun a b => a.span.hi ≤ b.span.lo) ∧
      ∀ n, Node.Under (ss.map .stmt) n →
        (∃ before part after, before ++ part ++ after = ts ∧ n.IsReadFrom part ∧
          Extent part n.span) ∧
        (∀ m ∈ n.children, n.span.lo ≤ m.span.lo ∧ m.span.hi ≤ n.span.hi) ∧
        (n.children.Pairwise fun a b => a.span.hi ≤ b.span.lo) ∧
        ∀ s, n = .stmt s → ∃ slice s', IsSlice text s.span slice ∧ parseText slice = .ok [s'] ∧
          s'.shift s.span.lo = s := by
  obtain ⟨ts, hscan, hparse⟩ := parseText_eq_ok_iff.1 h
  obtain ⟨d, rfl, rfl⟩ := exists_derivation hparse
  have hordered := ordered_of_scan hscan
  have hlies : Lies (List.map Node.stmt d.tree) d.tokens := d.lies
  refine ⟨d.tokens, hscan, List.pairwise_map.1 (hlies.pairwise hordered), fun n hn => ?_⟩
  obtain ⟨part, hpart, hread⟩ := hn.exists_stretch hlies
  have hpartOrdered := hordered.of_stretch hpart
  refine ⟨?_, fun m hm => span_children hread hpartOrdered hm,
    (lies_children hread).pairwise hpartOrdered, fun s hs => ?_⟩
  · obtain ⟨before, after, hall⟩ := hpart
    exact ⟨before, part, after, hall, hread, extent_of_isReadFrom hread hpartOrdered⟩
  · subst hs
    exact statement_of_slice hscan hpart hread

/-- A text with a statement in a block. -/
def nestedText : List Char := "if π \x7b print (x); \x7d".toList

/-- The statement in the block. -/
def innerStmt : Stmt := .print (.group (.name ⟨"x", ⟨15, 16⟩⟩) ⟨14, 17⟩) ⟨8, 18⟩

/-- The statement with the block. -/
def outerStmt : Stmt := .ifElse (.name ⟨"π", ⟨3, 5⟩⟩) (.mk [innerStmt] ⟨6, 20⟩) none ⟨0, 20⟩

/-- A statement within another, cut out and parsed by itself. -/
theorem spans_exact_nested :
    parseText nestedText = .ok [outerStmt] ∧
      ∃ slice s, IsSlice nestedText ⟨8, 18⟩ slice ∧ parseText slice = .ok [s] ∧
        s.shift 8 = innerStmt := by
  have hscan : Token.scan nestedText = .ok [⟨.keyword .if_, "if", ⟨0, 2⟩⟩, ⟨.ident, "π", ⟨3, 5⟩⟩,
      ⟨.openBrace, "\x7b", ⟨6, 7⟩⟩, ⟨.keyword .print, "print", ⟨8, 13⟩⟩,
      ⟨.openParen, "(", ⟨14, 15⟩⟩, ⟨.ident, "x", ⟨15, 16⟩⟩, ⟨.closeParen, ")", ⟨16, 17⟩⟩,
      ⟨.semicolon, ";", ⟨17, 18⟩⟩, ⟨.closeBrace, "\x7d", ⟨19, 20⟩⟩] := by decide +kernel
  have hparse : parseText nestedText = .ok [outerStmt] :=
    parseText_eq_ok_iff.2 ⟨_, hscan, by cbv⟩
  obtain ⟨ts, -, -, hnodes⟩ := spans_exact hparse
  have houter : Node.Under [.stmt outerStmt] (.stmt outerStmt) := .top List.mem_cons_self
  have hblock : Node.Under [.stmt outerStmt] (.block (.mk [innerStmt] ⟨6, 20⟩)) :=
    .child houter (.tail _ List.mem_cons_self)
  have hinner : Node.Under [.stmt outerStmt] (.stmt innerStmt) := .child hblock List.mem_cons_self
  exact ⟨hparse, (hnodes _ hinner).2.2.2 innerStmt rfl⟩

end Toal
