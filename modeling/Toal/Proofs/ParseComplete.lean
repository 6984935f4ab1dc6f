import Toal.Proofs.Numerals
import Toal.Proofs.ParseSound
import Toal.Proofs.Unambiguous

/-!
# What can be derived is parsed

For every phrase there is a parser, or a piece of one (`Parses`). The parsers
decide by looking ahead, and they decide as the grammar does: where the tokens
ahead call for a rule, and the parts of that rule are read one after the other,
the phrase is read (`followed`). Since the rule behind a derived phrase is the
one that the tokens call for, derived phrases are read whole and nothing more is
(`Derivation.parses`). The one thing that could go wrong is a numeral without a
value.
-/

namespace Toal.Surface

open Grammar

variable {α β : Type} {n : Nat} {ts mid rest : List Token}

/-! ## Reading step by step -/

/-- What is left after reading is shorter than the bound. -/
theorem Reads.lt {p : Except Stuck (Parsed α n)} {a : α} (h : Reads p a rest) : rest.length < n :=
  h.1

theorem Reads.map {p : Outcome α ts} {a : α} (f : α → β) (h : Reads p a rest) :
    Reads (p.map f) (f a) rest :=
  reads_map.2 ⟨a, h, rfl⟩

/-- One parser reads on where another one stops. -/
theorem Reads.andThen {p : Outcome α ts} {a : α} {b : β}
    {next : α → (rest : List Token) → rest.length < ts.length → Outcome β rest}
    (h : Reads p a mid) (hnext : ∀ hlt, Reads (next a mid hlt) b rest) :
    Reads (p.andThen next) b rest :=
  reads_andThen.2 ⟨a, mid, h.lt, h, hnext h.lt⟩

/-- A parser that may read nothing reads on where another one stops. -/
theorem Reads.andMaybe {p : Outcome α ts} {a : α} {b : β}
    {next : α → (rest : List Token) → rest.length < ts.length → Outcome? β rest}
    (h : Reads p a mid) (hnext : ∀ hlt, Reads (next a mid hlt) b rest) :
    Reads (p.andMaybe next) b rest :=
  reads_andMaybe.2 ⟨a, mid, h.lt, h, hnext h.lt⟩

/-- One parser reads on where another one stops that may have read nothing. -/
theorem Reads.andThen? {p : Outcome? α ts} {a : α} {b : β}
    {next : α → (rest : List Token) → rest.length < ts.length + 1 → Outcome β rest}
    (h : Reads p a mid) (hnext : ∀ hlt, Reads (next a mid hlt) b rest) :
    Reads (p.andThen next) b rest :=
  reads_andThen?.2 ⟨a, mid, h.lt, h, hnext h.lt⟩

theorem Reads.after {p : Outcome α ts} {a : α} (t : Token) (h : Reads p a rest) :
    Reads (p.after (t := t)) a rest :=
  reads_after.2 h

theorem Reads.done (a : α) (ts : List Token) : Reads (Outcome?.done a ts) a ts :=
  reads_done.2 ⟨rfl, rfl⟩

/-- What is not there is read as what stands for it. -/
theorem Reads.otherwise {p : Attempt α ts} {b : β}
    {next : α → (rest : List Token) → rest.length < ts.length → Outcome β rest}
    (h : p = .ok none) : Reads (p.andThen b next) b ts :=
  reads_andThen_attempt.2 (.inl ⟨h, rfl, rfl⟩)

/-- What is there is read, and then what follows it. -/
theorem Finds.andThen {p : Attempt α ts} {a : α} {b c : β}
    {next : α → (rest : List Token) → rest.length < ts.length → Outcome β rest}
    (h : Finds p a mid) (hnext : ∀ hlt, Reads (next a mid hlt) b rest) :
    Reads (p.andThen c next) b rest :=
  reads_andThen_attempt.2 (.inr ⟨a, mid, h.1, h, hnext h.1⟩)

/-- A token of the kind is read. -/
theorem Reads.token {kind : Token.Kind} {what : Expectation} {t : Token} (h : t.kind = kind) :
    Reads (token kind what (t :: rest)) t rest :=
  reads_token.2 ⟨rfl, h⟩

theorem Reads.ident {what : Expectation} {t : Token} (h : t.kind = .ident) :
    Reads (ident what (t :: rest)) (identOf t) rest :=
  reads_ident.2 ⟨t, ⟨rfl, h⟩, rfl⟩

theorem Finds.token? {kind : Token.Kind} {t : Token} (h : t.kind = kind) :
    Finds (token? kind (t :: rest)) t rest :=
  finds_token?.2 ⟨rfl, h⟩

/-! ## The parser of a phrase -/

/-- What it is for a phrase with the given tree to be read off the tokens `ts`,
    with `rest` left. -/
def Parses : (p : Phrase) → p.Tree → (ts rest : List Token) → Prop
  | .stmts, ss, ts, rest => Reads (blockStmts ts) ss rest
  | .stmt, s, ts, rest => Reads (stmt ts) s rest
  | .outputValue, value, ts, rest => Reads (outputValue? ts) value rest
  | .alternate, other, ts, rest => ∀ (start : Source.Span) (test : Expr) (body : Block),
    Reads ((token? (.keyword .ifNot) ts).andThen (.ifElse test body none (start.cover body.span))
      fun _ rest _ => (block rest).map fun alternate =>
        .ifElse test body (some alternate) (start.cover alternate.span))
      (Stmt.ifElse test body other
        (start.cover (Block.span (Option.getD (α := Block) other body)))) rest
  | .block, b, ts, rest => Reads (block ts) b rest
  | .params, ps, ts, rest => Reads (params ts) ps rest
  | .paramList, ps, ts, rest => Reads (paramList ts) ps rest
  | .paramRest, ps, ts, rest => ∀ head : Param,
    Reads ((token? .comma ts).andThen [head] fun _ rest _ => (paramList rest).map (head :: ·))
      (List.cons (α := Param) head ps) rest
  | .param, p, ts, rest => Reads (param ts) p rest
  | .outputType, ty, ts, rest => Reads (outputType? ts) ty rest
  -- Arguments end at a token that their parser is told about from outside.
  | .args, es, ts, rest => ∀ close, kind? rest = some close → Phrase.args.stops [close] = true →
    Reads (args close ts) es rest
  | .argList, es, ts, rest => Reads (argList ts) es rest
  | .argRest, es, ts, rest => ∀ head : Expr,
    Reads ((token? .comma ts).andThen [head] fun _ rest _ => (argList rest).map (head :: ·))
      (List.cons (α := Expr) head es) rest
  | .exp, e, ts, rest => Reads (expr ts) e rest
  | .expRest, f, ts, rest => ∀ left : Expr,
    Reads ((comparison? ts).andThen left fun op rest _ =>
      (sum rest).map fun right => .ofOperands (.compare op) left right) (f left) rest
  | .relOp, op, ts, rest => Finds (comparison? ts) op rest
  | .orEqual, equal, ts, rest => Reads (orEqualTo ts) equal rest
  | .sum, e, ts, rest => Reads (sum ts) e rest
  | .sumRest, f, ts, rest => ∀ left : Expr, Reads (sumRest left ts) (f left) rest
  | .sumOp, op, ts, rest => Finds (sumOp? ts) op rest
  | .product, e, ts, rest => Reads (product ts) e rest
  | .productRest, f, ts, rest => ∀ left : Expr, Reads (productRest left ts) (f left) rest
  | .productOp, op, ts, rest => Finds (productOp? ts) op rest
  | .power, e, ts, rest => Reads (power ts) e rest
  | .powerRest, f, ts, rest => ∀ base : Expr,
    Reads ((powerOp? ts).andThen base fun _ rest _ =>
      (power rest).map fun exponent => .ofOperands (.arith .pow) base exponent) (f base) rest
  | .primary, e, ts, rest => Reads (primary ts) e rest

/-- What it is for symbols with the given trees to be read one after the other off
    the tokens `ts`, with `rest` left. -/
def ParsesAll : (ss : List Symbol) → Trees ss → (ts rest : List Token) → Prop
  | [], _, ts, rest => ts = rest
  | .token kind :: ss, (t, as), ts, rest =>
    ∃ mid, ts = List.cons (α := Token) t mid ∧ t.kind = kind ∧ Token.HasValue t ∧
      ParsesAll ss as mid rest
  | .phrase p :: ss, (a, as), ts, rest =>
    ∃ mid, Parses p a ts mid ∧ ParsesAll ss as mid rest

/-- The parsers follow the rule: where the tokens ahead call for it and its parts
    are read one after the other, the phrase is read. -/
@[reducible]
def Followed {p : Phrase} (r : Rule p) : Prop :=
  ∀ (as : Trees r.parts) (ts rest : List Token), p.predict (ts.map (·.kind)) = some r →
    ParsesAll r.parts as ts rest → Parses p (r.tree as) ts rest

/-! ## Nothing there -/

/-- The next token is not of a kind that would call for another rule. -/
theorem kind?_ne_of_predict {p : Phrase} {r : Rule p} {k : Token.Kind}
    (h : p.predict (ts.map (·.kind)) = some r) (hk : ∀ ks, p.predict (k :: ks) ≠ some r) :
    kind? ts ≠ some k := by
  intro hkind
  cases ts with
  | nil => cases hkind
  | cons t ts =>
    cases hkind
    exact hk _ h

/-- The next token is of the kind that every call for the rule begins with. -/
theorem kind?_eq_of_predict {p : Phrase} {r : Rule p} {k : Token.Kind}
    (h : p.predict (ts.map (·.kind)) = some r)
    (hk : ∀ ks, p.predict ks = some r → ks.head? = some k) : kind? ts = some k := by
  have hhead := hk _ h
  rwa [List.head?_map] at hhead

/-- The next two tokens are not of kinds that would call for another rule. -/
theorem kind?_tail_ne_of_predict {p : Phrase} {r : Rule p} {k k' : Token.Kind}
    (h : p.predict (ts.map (·.kind)) = some r) (hk : ∀ ks, p.predict (k :: k' :: ks) ≠ some r)
    (hkind : kind? ts = some k) : kind? ts.tail ≠ some k' := by
  obtain ⟨_, _, rest, rfl⟩ := exists_of_kind? hkind
  intro (hkind' : kind? rest = some k')
  obtain ⟨_, _, rest, rfl⟩ := exists_of_kind? hkind'
  exact hk _ h

/-! ## Rules for expressions -/

theorem followed_relOp : ∀ r : Rule .relOp, Followed r
  | .greater, (⟨_, _, _⟩, ⟨_, _, _⟩, than, equal, ()), _, _, _,
      ⟨_, rfl, rfl, _, _, rfl, rfl, _, _, rfl, hthan, _, _, hequal, rfl⟩ => by
    refine finds_found.2 (reads_weak.2 (.after _ (.andMaybe (.token hthan) fun _ => ?_)))
    exact reads_map?.2 ⟨equal, hequal, by cases equal <;> rfl⟩
  | .less, (⟨_, _, _⟩, ⟨_, _, _⟩, than, equal, ()), _, _, _,
      ⟨_, rfl, rfl, _, _, rfl, rfl, _, _, rfl, hthan, _, _, hequal, rfl⟩ => by
    refine finds_found.2 (reads_weak.2 (.after _ (.andMaybe (.token hthan) fun _ => ?_)))
    exact reads_map?.2 ⟨equal, hequal, by cases equal <;> rfl⟩
  | .isNot, (⟨_, _, _⟩, ⟨_, _, _⟩, ()), _, _, _, ⟨_, rfl, rfl, _, _, rfl, rfl, _, rfl⟩ =>
    ⟨Nat.lt_succ_of_lt (Nat.lt_succ_self _), rfl⟩
  | .is, (⟨_, _, _⟩, ()), _, rest, h, ⟨_, rfl, rfl, _, rfl⟩ => by
    have hne (k : Keyword)
        (hk : ∀ ks, Phrase.relOp.predict (.keyword .is :: .keyword k :: ks) ≠ some .is) :
        kind? rest ≠ some (.keyword k) :=
      kind?_tail_ne_of_predict h hk rfl
    refine finds_found.2 (reads_after?.2 ?_)
    rw [relation_eq_done (hne .greater fun _ => nofun) (hne .less fun _ => nofun)
      (hne .not fun _ => nofun)]
    exact .done _ _

/-- The arguments of a call are read up to the parenthesis. -/
theorem reads_callRest {start : Source.Span} {es : List Expr} {close : Token}
    (hes : Parses .args es ts (close :: rest)) (hclose : close.kind = .closeParen) :
    Reads (callRest start ts) (es, start.cover close.span) rest := by
  rw [callRest]
  exact .andThen? (hes .closeParen (congrArg some hclose) rfl) fun _ => .map _ (.token hclose)

/-- The rules for primary expressions are followed. The next token decides between them,
    and for a name the one after it. -/
theorem followed_primary : ∀ r : Rule .primary, Followed r
  | .numeral, (⟨_, text, span⟩, ()), _, rest, _, ⟨_, rfl, rfl, hvalue, rfl⟩ => by
    obtain ⟨value, hv⟩ := Option.isSome_iff_exists.1 (hvalue rfl)
    change Reads (primary (⟨.numeral, text, span⟩ :: rest))
      (.number ((Number.numeralValue? text.toList).getD 0) span) rest
    rw [primary.eq_def]
    dsimp only
    rw [hv]
    exact .done _ _
  | .word, (⟨_, _, _⟩, ()), _, _, _, ⟨_, rfl, rfl, _, rfl⟩ => by
    change Reads (primary _) _ _
    rw [primary.eq_def]
    exact .done _ _
  | .list, (⟨_, _, _⟩, es, close, ()), _, _, _,
      ⟨_, rfl, rfl, _, _, hes, _, rfl, hclose, _, rfl⟩ => by
    change Reads (primary _) _ _
    rw [primary.eq_def]
    exact .after _ (.andThen? (hes .closeSquare (congrArg some hclose) rfl) fun _ =>
      .map _ (.token hclose))
  | .callOf, (⟨_, _, _⟩, ⟨_, _, _⟩, es, close, ()), _, _, _,
      ⟨_, rfl, rfl, _, _, rfl, rfl, _, _, hes, _, rfl, hclose, _, rfl⟩ => by
    change Reads (primary _) _ _
    rw [primary.eq_def]
    exact .after _ (.after _ (.map _ (reads_callRest hes hclose)))
  | .name, (⟨_, text, span⟩, ()), _, rest, h, ⟨_, rfl, rfl, _, rfl⟩ => by
    change Reads (primary (⟨.ident, text, span⟩ :: rest)) _ rest
    -- A parenthesis after the name would call for the rule of calls.
    have hne : kind? rest ≠ some .openParen :=
      kind?_tail_ne_of_predict (k := .ident) h (fun _ => nofun) rfl
    rw [primary_eq_done hne]
    exact .done _ _
  | .group, (⟨_, _, _⟩, e, close, ()), _, _, _,
      ⟨_, rfl, rfl, _, _, he, _, rfl, hclose, _, rfl⟩ => by
    change Reads (primary _) _ _
    rw [primary.eq_def]
    exact .after _ (.andThen he fun _ => .map _ (.token hclose))

theorem followed_orEqual : ∀ r : Rule .orEqual, Followed r
  | .strict, (), _, _, h, rfl =>
    .otherwise (token?_eq_none (kind?_ne_of_predict h fun _ => nofun))
  | .orEqualTo, (or, equal, to_, ()), _, _, _,
      ⟨_, rfl, hor, _, _, rfl, hequal, _, _, rfl, hto, _, rfl⟩ =>
    (Finds.token? hor).andThen fun _ => .andThen (.token hequal) fun _ => .map _ (.token hto)

theorem followed_exp : ∀ r : Rule .exp, Followed r
  | .exp, (left, f, ()), _, _, _, ⟨_, hleft, _, hf, rfl⟩ => by
    change Reads (expr _) _ _
    rw [expr]
    exact .andMaybe hleft fun _ => hf left

theorem followed_expRest : ∀ r : Rule .expRest, Followed r
  | .alone, (), _, _, h, rfl => fun _ =>
    .otherwise (comparison?_eq_none (kind?_ne_of_predict h fun _ => nofun))
  | .compared, (_, _, ()), _, _, _, ⟨_, hop, _, hright, rfl⟩ => fun _ =>
    Finds.andThen hop fun _ => .map _ hright

theorem followed_sum : ∀ r : Rule .sum, Followed r
  | .sum, (left, f, ()), _, _, _, ⟨_, hleft, _, hf, rfl⟩ => by
    change Reads (sum _) _ _
    rw [sum]
    exact .andMaybe hleft fun _ => hf left

theorem followed_sumRest : ∀ r : Rule .sumRest, Followed r
  | .sumEnd, (), _, _, h, rfl => fun _ => by
    rw [sumRest]
    exact .otherwise (sumOp?_eq_none (kind?_ne_of_predict h fun _ => nofun)
      (kind?_ne_of_predict h fun _ => nofun))
  | .sumNext, (op, right, f, ()), _, _, _, ⟨_, hop, _, hright, _, hf, rfl⟩ => fun _ => by
    rw [sumRest]
    exact Finds.andThen hop fun _ => .andMaybe hright fun _ => hf _

theorem followed_sumOp : ∀ r : Rule .sumOp, Followed r
  | .plus, (⟨_, _, _⟩, ()), _, _, _, ⟨_, rfl, rfl, _, rfl⟩ => ⟨Nat.lt_succ_self _, rfl⟩
  | .minus, (⟨_, _, _⟩, ()), _, _, _, ⟨_, rfl, rfl, _, rfl⟩ => ⟨Nat.lt_succ_self _, rfl⟩

theorem followed_product : ∀ r : Rule .product, Followed r
  | .product, (left, f, ()), _, _, _, ⟨_, hleft, _, hf, rfl⟩ => by
    change Reads (product _) _ _
    rw [product]
    exact .andMaybe hleft fun _ => hf left

theorem followed_productRest : ∀ r : Rule .productRest, Followed r
  | .productEnd, (), _, _, h, rfl => fun _ => by
    rw [productRest]
    exact .otherwise (productOp?_eq_none (kind?_ne_of_predict h fun _ => nofun)
      (kind?_ne_of_predict h fun _ => nofun) (kind?_ne_of_predict h fun _ => nofun))
  | .productNext, (op, right, f, ()), _, _, _, ⟨_, hop, _, hright, _, hf, rfl⟩ => fun _ => by
    rw [productRest]
    exact Finds.andThen hop fun _ => .andMaybe hright fun _ => hf _

theorem followed_productOp : ∀ r : Rule .productOp, Followed r
  | .times, (⟨_, _, _⟩, ()), _, _, _, ⟨_, rfl, rfl, _, rfl⟩ => ⟨Nat.lt_succ_self _, rfl⟩
  | .dividedBy, (⟨_, _, _⟩, by_, ()), _, _, _, ⟨_, rfl, rfl, _, _, rfl, hby, _, rfl⟩ =>
    finds_found.2 (.after _ (.map _ (.token hby)))
  | .modulo, (⟨_, _, _⟩, ()), _, _, _, ⟨_, rfl, rfl, _, rfl⟩ => ⟨Nat.lt_succ_self _, rfl⟩

theorem followed_power : ∀ r : Rule .power, Followed r
  | .power, (base, f, ()), _, _, _, ⟨_, hbase, _, hf, rfl⟩ => by
    change Reads (power _) _ _
    rw [power]
    exact .andMaybe hbase fun _ => hf base

theorem followed_powerRest : ∀ r : Rule .powerRest, Followed r
  | .noExponent, (), _, _, h, rfl => fun _ =>
    .otherwise (powerOp?_eq_none (kind?_tail_ne_of_predict h fun _ => nofun))
  | .toThe, (⟨_, _, _⟩, ⟨_, _, _⟩, _, ()), _, _, _,
      ⟨_, rfl, rfl, _, _, rfl, rfl, _, _, hexponent, rfl⟩ => fun _ =>
    Finds.andThen (p := powerOp? _) ⟨Nat.lt_succ_of_lt (Nat.lt_succ_self _), rfl⟩ fun _ =>
      .map _ hexponent

theorem followed_args : ∀ r : Rule .args, Followed r
  | .noArgs, (), ts, _, h, rfl => fun close hclose _ => by
    rw [args, if_pos hclose]
    exact .done _ _
  | .someArgs, (es, ()), ts, _, h, ⟨_, hes, rfl⟩ => fun close _ hclose => by
    have hne : kind? ts ≠ some close := kind?_ne_of_predict h fun _ => by
      match close, hclose with
      | .closeParen, _ => nofun
      | .closeSquare, _ => nofun
    rw [args, if_neg hne]
    exact reads_weak.2 hes

theorem followed_argList : ∀ r : Rule .argList, Followed r
  | .argList, (e, es, ()), _, _, _, ⟨_, he, _, hes, rfl⟩ => by
    change Reads (argList _) _ _
    rw [argList]
    exact .andMaybe he fun _ => hes _

theorem followed_argRest : ∀ r : Rule .argRest, Followed r
  | .lastArg, (), ts, _, h, rfl => fun _ =>
    .otherwise (token?_eq_none (kind?_ne_of_predict h fun _ => nofun))
  | .nextArg, (comma, e, es, ()), _, _, _, ⟨_, rfl, hcomma, _, _, he, _, hes, rfl⟩ => fun _ => by
    refine (Finds.token? hcomma).andThen fun _ => .map _ ?_
    rw [argList]
    exact .andMaybe he fun _ => hes _

/-! ## Rules for statements -/

/-- A declaration is read from its parts. -/
theorem reads_declaration {start : Source.Span} {readOnly : Bool} {x w close : Token} {e : Expr}
    (hx : x.kind = .ident) (hw : w.kind = .keyword .with_) (he : Reads (expr ts) e (close :: rest))
    (hclose : close.kind = .semicolon) :
    Reads (declaration start readOnly (x :: w :: ts))
      (.declare readOnly (identOf x) e (start.cover close.span)) rest :=
  .andThen (.ident hx) fun _ => .andThen (.token hw) fun _ => .andThen he fun _ =>
    .map _ (.token hclose)

/-- A change that names its term first is read from its parts. -/
theorem reads_changeTermFirst {start : Source.Span} {op : ArithOp} {joint : Keyword}
    {x k close : Token} {e : Expr} (he : Reads (expr ts) e (k :: x :: close :: rest))
    (hk : k.kind = .keyword joint) (hx : x.kind = .ident) (hclose : close.kind = .semicolon) :
    Reads (changeTermFirst start op joint ts)
      (.change op (identOf x) e (start.cover close.span)) rest :=
  .andThen he fun _ => .andThen (.token hk) fun _ => .andThen (.ident hx) fun _ =>
    .map _ (.token hclose)

/-- A change that names its target first is read from its parts. -/
theorem reads_changeTargetFirst {start : Source.Span} {op : ArithOp} {x k close : Token} {e : Expr}
    (hx : x.kind = .ident) (hk : k.kind = .keyword .by_) (he : Reads (expr ts) e (close :: rest))
    (hclose : close.kind = .semicolon) :
    Reads (changeTargetFirst start op (x :: k :: ts))
      (.change op (identOf x) e (start.cover close.span)) rest :=
  .andThen (.ident hx) fun _ => .andThen (.token hk) fun _ => .andThen he fun _ =>
    .map _ (.token hclose)

/-- A statement that begins with a keyword is read as the keyword says. -/
theorem reads_simple {start : Source.Span} {k : Keyword} {text : String} {s : Stmt}
    {outcome : Outcome Stmt ts} (hk : simple? start k ts = some outcome)
    (h : Reads outcome s rest) : Reads (stmt (⟨.keyword k, text, start⟩ :: ts)) s rest := by
  rw [stmt_eq_simple (by rintro rfl; cases hk) (by rintro rfl; cases hk)
    (by rintro rfl; cases hk), hk]
  exact .after _ h

theorem followed_stmt : ∀ r : Rule .stmt, Followed r
  | .make, (⟨_, _, _⟩, x, w, e, close, ()), _, _, _,
      ⟨_, rfl, rfl, _, _, rfl, hx, _, _, rfl, hw, _, _, he, _, rfl, hclose, _, rfl⟩ =>
    reads_simple rfl (reads_declaration hx hw he hclose)
  | .constantlyMake, (⟨_, _, _⟩, make, x, w, e, close, ()), _, _, _,
      ⟨_, rfl, rfl, _, _, rfl, hmake, _, _, rfl, hx, _, _, rfl, hw, _, _, he, _, rfl, hclose, _,
        rfl⟩ =>
    reads_simple rfl (.andThen (.token hmake) fun _ => reads_declaration hx hw he hclose)
  | .change, (⟨_, _, _⟩, x, to_, e, close, ()), _, _, _,
      ⟨_, rfl, rfl, _, _, rfl, hx, _, _, rfl, hto, _, _, he, _, rfl, hclose, _, rfl⟩ =>
    reads_simple rfl (.andThen (.ident hx) fun _ => .andThen (.token hto) fun _ =>
      .andThen he fun _ => .map _ (.token hclose))
  | .add, (⟨_, _, _⟩, e, to_, x, close, ()), _, _, _,
      ⟨_, rfl, rfl, _, _, he, _, rfl, hto, _, _, rfl, hx, _, _, rfl, hclose, _, rfl⟩ =>
    reads_simple rfl (reads_changeTermFirst he hto hx hclose)
  | .subtract, (⟨_, _, _⟩, e, from_, x, close, ()), _, _, _,
      ⟨_, rfl, rfl, _, _, he, _, rfl, hfrom, _, _, rfl, hx, _, _, rfl, hclose, _, rfl⟩ =>
    reads_simple rfl (reads_changeTermFirst he hfrom hx hclose)
  | .multiply, (⟨_, _, _⟩, x, by_, e, close, ()), _, _, _,
      ⟨_, rfl, rfl, _, _, rfl, hx, _, _, rfl, hby, _, _, he, _, rfl, hclose, _, rfl⟩ =>
    reads_simple rfl (reads_changeTargetFirst hx hby he hclose)
  | .divide, (⟨_, _, _⟩, x, by_, e, close, ()), _, _, _,
      ⟨_, rfl, rfl, _, _, rfl, hx, _, _, rfl, hby, _, _, he, _, rfl, hclose, _, rfl⟩ =>
    reads_simple rfl (reads_changeTargetFirst hx hby he hclose)
  | .mod, (⟨_, _, _⟩, x, by_, e, close, ()), _, _, _,
      ⟨_, rfl, rfl, _, _, rfl, hx, _, _, rfl, hby, _, _, he, _, rfl, hclose, _, rfl⟩ =>
    reads_simple rfl (reads_changeTargetFirst hx hby he hclose)
  | .raise, (⟨_, _, _⟩, x, to_, the, e, close, ()), _, _, _,
      ⟨_, rfl, rfl, _, _, rfl, hx, _, _, rfl, hto, _, _, rfl, hthe, _, _, he, _, rfl, hclose, _,
        rfl⟩ =>
    reads_simple rfl (.andThen (.ident hx) fun _ => .andThen (.token hto) fun _ =>
      .andThen (.token hthe) fun _ => .andThen he fun _ => .map _ (.token hclose))
  | .print, (⟨_, _, _⟩, e, close, ()), _, _, _,
      ⟨_, rfl, rfl, _, _, he, _, rfl, hclose, _, rfl⟩ =>
    reads_simple rfl (.andThen he fun _ => .map _ (.token hclose))
  | .automate, (⟨_, _, _⟩, f, paren, ps, close, ty, body, ()), _, _, _,
      ⟨_, rfl, rfl, _, _, rfl, hf, _, _, rfl, hparen, _, _, hps, _, rfl, hclose, _, _, hty, _,
        hbody, rfl⟩ => by
    change Reads (stmt _) _ _
    rw [stmt.eq_def]
    exact .after _ (.andThen (.ident hf) fun _ => .andThen (.token hparen) fun _ =>
      .andThen? hps fun _ => .andThen (.token hclose) fun _ => .andThen? hty fun _ => .map _ hbody)
  | .call, (⟨_, _, _⟩, ⟨_, _, _⟩, es, last, close, ()), _, _, _,
      ⟨_, rfl, rfl, _, _, rfl, rfl, _, _, hes, _, rfl, hlast, _, _, rfl, hclose, _, rfl⟩ => by
    change Reads (stmt _) _ _
    rw [stmt.eq_def]
    exact .after _ (.after _ (.andThen (reads_callRest hes hlast) fun _ =>
      .map _ (.token hclose)))
  | .output, (⟨_, _, _⟩, value, close, ()), _, _, _,
      ⟨_, rfl, rfl, _, _, hvalue, _, rfl, hclose, _, rfl⟩ =>
    reads_simple rfl (.andThen? hvalue fun _ => .map _ (.token hclose))
  | .ifThen, (⟨_, _, _⟩, test, body, other, ()), _, _, _,
      ⟨_, rfl, rfl, _, _, htest, _, hbody, _, hother, rfl⟩ => by
    change Reads (stmt _) _ _
    rw [stmt.eq_def]
    exact .after _ (.andThen htest fun _ => .andMaybe hbody fun _ => hother _ test body)
  | .loopWhile, (⟨_, _, _⟩, ⟨_, _, _⟩, test, body, ()), _, _, _,
      ⟨_, rfl, rfl, _, _, rfl, rfl, _, _, htest, _, hbody, rfl⟩ => by
    change Reads (stmt _) _ _
    rw [stmt.eq_def]
    exact .after _ (.after _ (.andThen htest fun _ => .map _ hbody))
  | .loopOver, (⟨_, _, _⟩, ⟨_, _, _⟩, x, in_, e, body, ()), _, _, _,
      ⟨_, rfl, rfl, _, _, rfl, rfl, _, _, rfl, hx, _, _, rfl, hin, _, _, he, _, hbody, rfl⟩ => by
    change Reads (stmt _) _ _
    rw [stmt.eq_def]
    exact .after _ (.after _ (.andThen (.ident hx) fun _ => .andThen (.token hin) fun _ =>
      .andThen he fun _ => .map _ hbody))
  | .breakLoop, (⟨_, _, _⟩, close, ()), _, _, _, ⟨_, rfl, rfl, _, _, rfl, hclose, _, rfl⟩ =>
    reads_simple rfl (.map _ (.token hclose))

theorem followed_stmts : ∀ r : Rule .stmts, Followed r
  | .noStmt, (), [], _, _, rfl => by
    change Reads (blockStmts []) _ _
    rw [blockStmts, if_pos (.inr rfl)]
    exact .done _ _
  | .noStmt, (), ⟨.closeBrace, _, _⟩ :: _, _, _, rfl => by
    change Reads (blockStmts _) _ _
    rw [blockStmts, if_pos (.inl rfl)]
    exact .done _ _
  | .moreStmts, (s, ss, ()), ts, _, h, ⟨_, hs, _, hss, rfl⟩ => by
    have hbrace : kind? ts ≠ some .closeBrace := kind?_ne_of_predict h fun _ => nofun
    have hnone : kind? ts ≠ none := by
      intro hnone
      rw [kind?, Option.map_eq_none_iff, List.head?_eq_none_iff] at hnone
      subst hnone
      cases h
    change Reads (blockStmts ts) _ _
    rw [blockStmts, if_neg (not_or.2 ⟨hbrace, hnone⟩)]
    exact reads_weak.2 (.andMaybe hs fun _ => reads_map?.2 ⟨ss, hss, rfl⟩)

theorem reads_noValue (h : kind? ts = some .semicolon) : Reads (outputValue? ts) none ts := by
  have heq : outputValue? ts = .done none ts := if_pos h
  rw [heq]
  exact .done _ _

theorem reads_someValue {e : Expr} (h : kind? ts ≠ some .semicolon) (he : Reads (expr ts) e rest) :
    Reads (outputValue? ts) (some e) rest := by
  have heq : outputValue? ts = ((expr ts).map some).weak := if_neg h
  rw [heq]
  exact reads_weak.2 (.map _ he)

theorem followed_outputValue : ∀ r : Rule .outputValue, Followed r
  | .noValue, (), ts, _, h, rfl => by
    have heq : kind? ts = some .semicolon := kind?_eq_of_predict h fun ks hks => by
      match ks, hks with
      | .semicolon :: _, _ => rfl
    exact reads_noValue heq
  | .value, (e, ()), ts, _, h, ⟨_, he, rfl⟩ => by
    have hne : kind? ts ≠ some .semicolon := kind?_ne_of_predict h fun _ => nofun
    exact reads_someValue hne he

theorem followed_alternate : ∀ r : Rule .alternate, Followed r
  | .noAlternate, (), _, _, h, rfl => fun _ _ _ =>
    .otherwise (token?_eq_none (kind?_ne_of_predict h fun _ => nofun))
  | .ifNot, (ifnot, _, ()), _, _, _, ⟨_, rfl, hifnot, _, _, hbody, rfl⟩ => fun _ _ _ =>
    (Finds.token? hifnot).andThen fun _ => .map _ hbody

theorem followed_block : ∀ r : Rule .block, Followed r
  | .block, (start, ss, close, ()), _, _, _,
      ⟨_, rfl, hstart, _, _, hss, _, rfl, hclose, _, rfl⟩ => by
    change Reads (block _) _ _
    rw [block]
    exact .andThen (.token hstart) fun _ => .andThen? hss fun _ => .map _ (.token hclose)

theorem reads_noParams (h : kind? ts = some .closeParen) : Reads (params ts) [] ts := by
  have heq : params ts = .done [] ts := if_pos h
  rw [heq]
  exact .done _ _

theorem reads_someParams {ps : List Param} (h : kind? ts ≠ some .closeParen)
    (hps : Reads (paramList ts) ps rest) : Reads (params ts) ps rest := by
  have heq : params ts = (paramList ts).weak := if_neg h
  rw [heq]
  exact reads_weak.2 hps

theorem followed_params : ∀ r : Rule .params, Followed r
  | .noParams, (), ts, _, h, rfl => by
    have heq : kind? ts = some .closeParen := kind?_eq_of_predict h fun ks hks => by
      match ks, hks with
      | .closeParen :: _, _ => rfl
    exact reads_noParams heq
  | .someParams, (ps, ()), ts, _, h, ⟨_, hps, rfl⟩ => by
    have hne : kind? ts ≠ some .closeParen := kind?_ne_of_predict h fun _ => nofun
    exact reads_someParams hne hps

theorem followed_paramList : ∀ r : Rule .paramList, Followed r
  | .paramList, (p, ps, ()), _, _, _, ⟨_, hp, _, hps, rfl⟩ => by
    change Reads (paramList _) _ _
    rw [paramList]
    exact .andMaybe hp fun _ => hps _

theorem followed_paramRest : ∀ r : Rule .paramRest, Followed r
  | .lastParam, (), ts, _, h, rfl => fun _ =>
    .otherwise (token?_eq_none (kind?_ne_of_predict h fun _ => nofun))
  | .nextParam, (comma, p, ps, ()), _, _, _, ⟨_, rfl, hcomma, _, _, hp, _, hps, rfl⟩ => fun _ => by
    refine (Finds.token? hcomma).andThen fun _ => .map _ ?_
    rw [paramList]
    exact .andMaybe hp fun _ => hps _

theorem followed_param : ∀ r : Rule .param, Followed r
  | .typed, (⟨_, _, _⟩, ⟨_, _, _⟩, x, ()), _, _, _,
      ⟨_, rfl, rfl, _, _, rfl, rfl, _, _, rfl, hx, _, rfl⟩ =>
    .after _ (.after _ (.map _ (.ident hx)))
  | .untyped, (x, ()), _, rest, h, ⟨_, rfl, hx, _, rfl⟩ => by
    change Reads (param (x :: rest)) _ rest
    rw [param_eq_ident (kind?_tail_ne_of_predict h fun _ => nofun)]
    exact .map _ (.ident hx)

theorem followed_outputType : ∀ r : Rule .outputType, Followed r
  | .noType, (), _, _, h, rfl =>
    .otherwise (token?_eq_none (kind?_ne_of_predict h fun _ => nofun))
  | .arrow, (arrow, ty, ()), _, _, _, ⟨_, rfl, harrow, _, _, rfl, hty, _, rfl⟩ =>
    (Finds.token? harrow).andThen fun _ => .map _ (.ident hty)

/-- The parsers follow all rules. -/
theorem followed : ∀ {p : Phrase} (r : Rule p), Followed r
  | .stmts, r => followed_stmts r
  | .stmt, r => followed_stmt r
  | .outputValue, r => followed_outputValue r
  | .alternate, r => followed_alternate r
  | .block, r => followed_block r
  | .params, r => followed_params r
  | .paramList, r => followed_paramList r
  | .paramRest, r => followed_paramRest r
  | .param, r => followed_param r
  | .outputType, r => followed_outputType r
  | .args, r => followed_args r
  | .argList, r => followed_argList r
  | .argRest, r => followed_argRest r
  | .exp, r => followed_exp r
  | .expRest, r => followed_expRest r
  | .relOp, r => followed_relOp r
  | .orEqual, r => followed_orEqual r
  | .sum, r => followed_sum r
  | .sumRest, r => followed_sumRest r
  | .sumOp, r => followed_sumOp r
  | .product, r => followed_product r
  | .productRest, r => followed_productRest r
  | .productOp, r => followed_productOp r
  | .power, r => followed_power r
  | .powerRest, r => followed_powerRest r
  | .primary, r => followed_primary r

/-! ## Derivations -/

mutual

/-- A derived phrase is read whole, and nothing more is read. -/
theorem Derivation.parses {p : Phrase} (rest : List Token)
    (hs : p.stops (rest.map (·.kind)) = true) :
    ∀ d : Derivation (.phrase p), (∀ t ∈ d.tokens, t.HasValue) →
      Parses p d.tree (d.tokens ++ rest) rest
  | .node r parts, hv => by
    have hpredict := parts.predict_eq r hs
    rw [Derivations.kinds, ← List.map_append] at hpredict
    exact followed r _ _ _ hpredict (Derivations.parsesAll parts (parts.stopped_of_stops r hs) hv)
termination_by d => sizeOf d

/-- The tokens of derivations are parsed into their trees, one after the other. -/
theorem Derivations.parsesAll {rest : List Token} :
    ∀ {ss : List Symbol} (ds : Derivations ss), ds.Stopped (rest.map (·.kind)) →
      (∀ t ∈ ds.tokens, t.HasValue) → ParsesAll ss ds.trees (ds.tokens ++ rest) rest
  | [], .nil, _, _ => rfl
  | .token _ :: _, .cons (.leaf t ht) tail, hs, hv =>
    ⟨tail.tokens ++ rest, rfl, ht, hv t List.mem_cons_self,
      Derivations.parsesAll tail hs fun u hu => hv u (List.mem_cons_of_mem t hu)⟩
  | .phrase _ :: _, .cons head tail, hs, hv => by
    have htail := Derivations.parsesAll tail hs.2 fun t ht =>
      hv t (List.mem_append_right head.tokens ht)
    have hhead := Derivation.parses (tail.tokens ++ rest) (by rw [List.map_append]; exact hs.1) head
      fun t ht => hv t (List.mem_append_left tail.tokens ht)
    refine ⟨tail.tokens ++ rest, ?_, htail⟩
    rw [Derivations.tokens, List.append_assoc]
    exact hhead
termination_by _ ds => sizeOf ds

end

/-! ## Programs -/

/-- Statements that take up all tokens are a program. -/
theorem parse_of_reads_blockStmts (ts : List Token) {ss : List Stmt}
    (h : Reads (blockStmts ts) ss []) : parse ts = .ok ss := by
  -- The two differ before a closing brace only, and that would be left over.
  rw [blockStmts] at h
  split at h
  · obtain ⟨rfl, rfl⟩ := reads_done.1 h
    rw [parse]
  · simp only [reads_weak, reads_andMaybe, reads_map?] at h
    obtain ⟨head, mid, hlt, ⟨_, hhead⟩, tail, htail, rfl⟩ := h
    cases ts with
    | nil => exact absurd hlt (Nat.not_lt_zero _)
    | cons t ts =>
      rw [parse, hhead]
      dsimp only
      rw [parse_of_reads_blockStmts mid htail]
      rfl
termination_by ts.length

/-- A program that can be derived is parsed, and the tree of the derivation is
    what is parsed. -/
theorem parse_complete (d : Derivation (.phrase .stmts)) (hv : ∀ t ∈ d.tokens, t.HasValue) :
    parse d.tokens = .ok d.tree := by
  have h := Derivation.parses [] rfl d hv
  rw [List.append_nil] at h
  exact parse_of_reads_blockStmts d.tokens h

end Toal.Surface
