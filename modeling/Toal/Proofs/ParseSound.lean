import Toal.Proofs.ParseSteps

/-!
# What is parsed can be derived

Whatever the parser of a phrase reads is the tree of a derivation of the tokens
it uses up (`expr_sound`, `stmt_sound`), so a program that is parsed can be
derived, with the tree that was parsed (`parse_sound`). The proofs go along with
the recursion of the parsers and name the rule that each of their branches
stands for.
-/

namespace Toal.Surface

open Grammar

variable {ts rest : List Token}

/-! ## Derivations from the beginning of some tokens -/

/-- The tokens `ts` begin with a phrase that has the tree `a`, and `rest` follows
    it. -/
def Derives (p : Phrase) (a : p.Tree) (ts rest : List Token) : Prop :=
  ∃ d : Derivation (.phrase p), d.tokens ++ rest = ts ∧ d.tree = a

/-- The tokens `ts` begin with symbols that have the trees `as`, and `rest`
    follows them. -/
def DerivesAll (ss : List Symbol) (as : Trees ss) (ts rest : List Token) : Prop :=
  ∃ ds : Derivations ss, ds.tokens ++ rest = ts ∧ ds.trees = as

theorem DerivesAll.nil : DerivesAll [] () rest rest := ⟨.nil, rfl, rfl⟩

/-- A token and what follows it are derived. -/
theorem DerivesAll.token {k : Token.Kind} {ss : List Symbol} {as : Trees ss} {t : Token}
    (ht : t.kind = k) (h : DerivesAll ss as ts rest) :
    DerivesAll (.token k :: ss) (t, as) (t :: ts) rest := by
  obtain ⟨ds, rfl, rfl⟩ := h
  exact ⟨.cons (.leaf t ht) ds, rfl, rfl⟩

/-- A phrase and what follows it are derived. -/
theorem DerivesAll.phrase {p : Phrase} {a : p.Tree} {ss : List Symbol} {as : Trees ss}
    {mid : List Token} (hp : Derives p a ts mid) (h : DerivesAll ss as mid rest) :
    DerivesAll (.phrase p :: ss) (a, as) ts rest := by
  obtain ⟨d, rfl, rfl⟩ := hp
  obtain ⟨ds, rfl, rfl⟩ := h
  exact ⟨.cons d ds, List.append_assoc _ _ _, rfl⟩

/-- What a rule's parts are derived from, its tree is derived from. -/
theorem Derives.rule {p : Phrase} (r : Rule p) {as : Trees r.parts} {a : p.Tree}
    (h : DerivesAll r.parts as ts rest) (ha : r.tree as = a) : Derives p a ts rest := by
  obtain ⟨ds, rfl, rfl⟩ := h
  exact ⟨.node r ds, rfl, ha⟩

/-! ## Operators -/

theorem orEqualTo_sound {equal : Bool} (h : Reads (orEqualTo ts) equal rest) :
    Derives .orEqual equal ts rest := by
  rw [orEqualTo, reads_andThen_attempt] at h
  rcases h with ⟨-, rfl, rfl⟩ | ⟨or, mid, -, hfinds, h⟩
  · exact .rule .strict .nil rfl
  · obtain ⟨rfl, hor⟩ := finds_token?.1 hfinds
    simp only [reads_andThen, reads_map, reads_keyword] at h
    obtain ⟨equal, _, -, ⟨rfl, hequal⟩, to_, ⟨rfl, hto⟩, rfl⟩ := h
    exact .rule .orEqualTo (.token hor (.token hequal (.token hto .nil))) rfl

/-- What is read as a comparison is derived as a relation. -/
theorem comparison?_sound {op : CompareOp} (h : Finds (comparison? ts) op rest) :
    Derives .relOp op ts rest := by
  unfold comparison? at h
  split at h
  · rw [finds_found, reads_after?] at h
    unfold relation at h
    split at h
    · simp only [reads_weak, reads_after, reads_andMaybe, reads_map?, reads_keyword] at h
      obtain ⟨than, _, -, ⟨rfl, hthan⟩, equal, hequal, rfl⟩ := h
      refine .rule .greater
        (.token rfl (.token rfl (.token hthan (.phrase (orEqualTo_sound hequal) .nil)))) ?_
      cases equal <;> rfl
    · simp only [reads_weak, reads_after, reads_andMaybe, reads_map?, reads_keyword] at h
      obtain ⟨than, _, -, ⟨rfl, hthan⟩, equal, hequal, rfl⟩ := h
      refine .rule .less
        (.token rfl (.token rfl (.token hthan (.phrase (orEqualTo_sound hequal) .nil)))) ?_
      cases equal <;> rfl
    · simp only [reads_weak, reads_after?, reads_done] at h
      obtain ⟨rfl, rfl⟩ := h
      exact .rule .isNot (.token rfl (.token rfl .nil)) rfl
    · obtain ⟨rfl, rfl⟩ := reads_done.1 h
      exact .rule .is (.token rfl .nil) rfl
  · exact absurd h finds_none

theorem sumOp?_sound {op : ArithOp} (h : Finds (sumOp? ts) op rest) :
    Derives .sumOp op ts rest := by
  unfold sumOp? at h
  split at h
  · simp only [finds_found, reads_after?, reads_done] at h
    obtain ⟨rfl, rfl⟩ := h
    exact .rule .plus (.token rfl .nil) rfl
  · simp only [finds_found, reads_after?, reads_done] at h
    obtain ⟨rfl, rfl⟩ := h
    exact .rule .minus (.token rfl .nil) rfl
  · exact absurd h finds_none

theorem productOp?_sound {op : ArithOp} (h : Finds (productOp? ts) op rest) :
    Derives .productOp op ts rest := by
  unfold productOp? at h
  split at h
  · simp only [finds_found, reads_after?, reads_done] at h
    obtain ⟨rfl, rfl⟩ := h
    exact .rule .times (.token rfl .nil) rfl
  · simp only [finds_found, reads_after, reads_map, reads_keyword] at h
    obtain ⟨by_, ⟨rfl, hby⟩, rfl⟩ := h
    exact .rule .dividedBy (.token rfl (.token hby .nil)) rfl
  · simp only [finds_found, reads_after?, reads_done] at h
    obtain ⟨rfl, rfl⟩ := h
    exact .rule .modulo (.token rfl .nil) rfl
  · exact absurd h finds_none

/-- What is read before an exponent is the two words for it. -/
theorem powerOp?_sound (h : Finds (powerOp? ts) () rest) :
    ∃ to_ the : Token, ts = to_ :: the :: rest ∧ to_.kind = .keyword .to_ ∧
      the.kind = .keyword .the := by
  unfold powerOp? at h
  split at h
  · simp only [finds_found, reads_after, reads_after?, reads_done] at h
    obtain ⟨-, rfl⟩ := h
    exact ⟨_, _, rfl, rfl, rfl⟩
  · exact absurd h finds_none

/-! ## Expressions -/

/-- A comma and one or more arguments are what may follow an argument. -/
theorem Derives.nextArg {es : List Expr} {comma : Token} (hcomma : comma.kind = .comma)
    (h : Derives .argList es ts rest) : Derives .argRest es (comma :: ts) rest := by
  obtain ⟨d, rfl, rfl⟩ := h
  match d with
  | .node .argList parts => exact ⟨.node .nextArg (.cons (.leaf comma hcomma) parts), rfl, rfl⟩

mutual

theorem expr_sound (ts : List Token) {rest : List Token} {e : Expr} (h : Reads (expr ts) e rest) :
    Derives .exp e ts rest := by
  rw [expr, reads_andMaybe] at h
  obtain ⟨left, mid, hmid, hleft, h⟩ := h
  have hsum := sum_sound ts hleft
  rw [reads_andThen_attempt] at h
  rcases h with ⟨-, rfl, rfl⟩ | ⟨op, mid', hmid', hop, h⟩
  · exact .rule .exp (.phrase hsum (.phrase (.rule .alone .nil rfl) .nil)) rfl
  · obtain ⟨right, hright, rfl⟩ := reads_map.1 h
    have hcompared : Derives .expRest _ mid rest := .rule .compared
      (.phrase (comparison?_sound hop) (.phrase (sum_sound mid' hright) .nil)) rfl
    exact .rule .exp (.phrase hsum (.phrase hcompared .nil)) rfl
termination_by 10 * ts.length + 6
decreasing_by all_goals omega

theorem sum_sound (ts : List Token) {rest : List Token} {e : Expr} (h : Reads (sum ts) e rest) :
    Derives .sum e ts rest := by
  rw [sum, reads_andMaybe] at h
  obtain ⟨left, mid, hmid, hleft, h⟩ := h
  obtain ⟨f, hf, rfl⟩ := sumRest_sound left mid h
  exact .rule .sum (.phrase (product_sound ts hleft) (.phrase hf .nil)) rfl
termination_by 10 * ts.length + 5
decreasing_by all_goals omega

/-- What is read as the rest of a sum is derived as one, and has been applied to what was
    read before. -/
theorem sumRest_sound (left : Expr) (ts : List Token) {rest : List Token} {e : Expr}
    (h : Reads (sumRest left ts) e rest) :
    ∃ f : Expr → Expr, Derives .sumRest f ts rest ∧ f left = e := by
  -- The parser carries the operand on the left along, while the tree of the phrase
  -- is a function of it.
  rw [sumRest, reads_andThen_attempt] at h
  rcases h with ⟨-, rfl, rfl⟩ | ⟨op, mid, hmid, hop, h⟩
  · exact ⟨_, .rule .sumEnd .nil rfl, rfl⟩
  · obtain ⟨right, mid', hmid', hright, h⟩ := reads_andMaybe.1 h
    obtain ⟨f, hf, rfl⟩ := sumRest_sound _ mid' h
    exact ⟨_, .rule .sumNext (.phrase (sumOp?_sound hop)
      (.phrase (product_sound mid hright) (.phrase hf .nil))) rfl, rfl⟩
termination_by 10 * ts.length
decreasing_by all_goals omega

theorem product_sound (ts : List Token) {rest : List Token} {e : Expr}
    (h : Reads (product ts) e rest) : Derives .product e ts rest := by
  rw [product, reads_andMaybe] at h
  obtain ⟨left, mid, hmid, hleft, h⟩ := h
  obtain ⟨f, hf, rfl⟩ := productRest_sound left mid h
  exact .rule .product (.phrase (power_sound ts hleft) (.phrase hf .nil)) rfl
termination_by 10 * ts.length + 4
decreasing_by all_goals omega

/-- What is read as the rest of a product is derived as one, and has been applied to what
    was read before. -/
theorem productRest_sound (left : Expr) (ts : List Token) {rest : List Token} {e : Expr}
    (h : Reads (productRest left ts) e rest) :
    ∃ f : Expr → Expr, Derives .productRest f ts rest ∧ f left = e := by
  rw [productRest, reads_andThen_attempt] at h
  rcases h with ⟨-, rfl, rfl⟩ | ⟨op, mid, hmid, hop, h⟩
  · exact ⟨_, .rule .productEnd .nil rfl, rfl⟩
  · obtain ⟨right, mid', hmid', hright, h⟩ := reads_andMaybe.1 h
    obtain ⟨f, hf, rfl⟩ := productRest_sound _ mid' h
    exact ⟨_, .rule .productNext (.phrase (productOp?_sound hop)
      (.phrase (power_sound mid hright) (.phrase hf .nil))) rfl, rfl⟩
termination_by 10 * ts.length
decreasing_by all_goals omega

theorem power_sound (ts : List Token) {rest : List Token} {e : Expr} (h : Reads (power ts) e rest) :
    Derives .power e ts rest := by
  rw [power, reads_andMaybe] at h
  obtain ⟨base, mid, hmid, hbase, h⟩ := h
  have hprimary := primary_sound ts hbase
  rw [reads_andThen_attempt] at h
  rcases h with ⟨-, rfl, rfl⟩ | ⟨_, mid', hmid', hop, h⟩
  · exact .rule .power (.phrase hprimary (.phrase (.rule .noExponent .nil rfl) .nil)) rfl
  · obtain ⟨exponent, hexponent, rfl⟩ := reads_map.1 h
    obtain ⟨to_, the, rfl, hto, hthe⟩ := powerOp?_sound hop
    have hrest : Derives .powerRest _ (to_ :: the :: mid') rest := .rule .toThe
      (.token hto (.token hthe (.phrase (power_sound mid' hexponent) .nil))) rfl
    exact .rule .power (.phrase hprimary (.phrase hrest .nil)) rfl
termination_by 10 * ts.length + 3
decreasing_by all_goals omega

theorem primary_sound (ts : List Token) {rest : List Token} {e : Expr}
    (h : Reads (primary ts) e rest) : Derives .primary e ts rest := by
  rw [primary.eq_def] at h
  split at h
  · split at h
    · next value hvalue =>
      simp only [reads_after?, reads_done] at h
      obtain ⟨rfl, rfl⟩ := h
      exact .rule .numeral (.token rfl .nil)
        (congrArg (fun v : Option Float => Expr.number (v.getD 0) _) hvalue)
    · exact absurd h not_reads_error
  · simp only [reads_after?, reads_done] at h
    obtain ⟨rfl, rfl⟩ := h
    exact .rule .word (.token rfl .nil) rfl
  · simp only [reads_after, reads_andThen?, reads_map, reads_token] at h
    obtain ⟨es, _, -, hes, close, ⟨rfl, hclose⟩, rfl⟩ := h
    exact .rule .list (.token rfl (.phrase (args_sound .closeSquare _ hes)
      (.token hclose .nil))) rfl
  · simp only [reads_after, reads_map] at h
    obtain ⟨⟨es, span⟩, hcall, rfl⟩ := h
    obtain ⟨close, hes, hclose, rfl⟩ := callRest_sound _ _ hcall
    exact .rule .callOf (.token rfl (.token rfl (.phrase hes (.token hclose .nil)))) rfl
  · simp only [reads_after?, reads_done] at h
    obtain ⟨rfl, rfl⟩ := h
    exact .rule .name (.token rfl .nil) rfl
  · simp only [reads_after, reads_andThen, reads_map, reads_token] at h
    obtain ⟨inner, _, -, hinner, close, ⟨rfl, hclose⟩, rfl⟩ := h
    exact .rule .group (.token rfl (.phrase (expr_sound _ hinner) (.token hclose .nil))) rfl
  · exact absurd h not_reads_error
termination_by 10 * ts.length + 2
decreasing_by
  all_goals
    subst_vars
    simp only [List.length_cons]
    omega

/-- What is read after the name of a call is derived as arguments and a parenthesis. -/
theorem callRest_sound (start : Source.Span) (ts : List Token) {rest : List Token}
    {es : List Expr} {span : Source.Span} (h : Reads (callRest start ts) (es, span) rest) :
    ∃ close, Derives .args es ts (close :: rest) ∧ close.kind = .closeParen ∧
      start.cover close.span = span := by
  simp only [callRest, reads_andThen?, reads_map, reads_token] at h
  obtain ⟨es, _, -, hes, close, ⟨rfl, hclose⟩, heq⟩ := h
  cases heq
  exact ⟨close, args_sound .closeParen ts hes, hclose, rfl⟩
termination_by 10 * ts.length + 9
decreasing_by all_goals omega

theorem args_sound (close : Token.Kind) (ts : List Token) {rest : List Token} {es : List Expr}
    (h : Reads (args close ts) es rest) : Derives .args es ts rest := by
  rw [args] at h
  split at h
  · obtain ⟨rfl, rfl⟩ := reads_done.1 h
    exact .rule .noArgs .nil rfl
  · exact .rule .someArgs (.phrase (argList_sound ts (reads_weak.1 h)) .nil) rfl
termination_by 10 * ts.length + 8
decreasing_by all_goals omega

theorem argList_sound (ts : List Token) {rest : List Token} {es : List Expr}
    (h : Reads (argList ts) es rest) : Derives .argList es ts rest := by
  rw [argList, reads_andMaybe] at h
  obtain ⟨head, mid, hmid, hhead, h⟩ := h
  have hexp := expr_sound ts hhead
  rw [reads_andThen_attempt] at h
  rcases h with ⟨-, rfl, rfl⟩ | ⟨comma, mid', hmid', hfinds, h⟩
  · exact .rule .argList (.phrase hexp (.phrase (.rule .lastArg .nil rfl) .nil)) rfl
  · obtain ⟨tail, htail, rfl⟩ := reads_map.1 h
    obtain ⟨rfl, hcomma⟩ := finds_token?.1 hfinds
    have hnext := (argList_sound mid' htail).nextArg hcomma
    exact .rule .argList (.phrase hexp (.phrase hnext .nil)) rfl
termination_by 10 * ts.length + 7
decreasing_by all_goals omega

end

/-! ## Parameters -/

theorem param_sound {p : Param} (h : Reads (param ts) p rest) : Derives .param p ts rest := by
  unfold param at h
  split at h
  · simp only [reads_after, reads_map, reads_ident] at h
    obtain ⟨_, ⟨x, ⟨rfl, hx⟩, rfl⟩, rfl⟩ := h
    exact .rule .typed (.token rfl (.token rfl (.token hx .nil))) rfl
  · simp only [reads_map, reads_ident] at h
    obtain ⟨_, ⟨x, ⟨rfl, hx⟩, rfl⟩, rfl⟩ := h
    exact .rule .untyped (.token hx .nil) rfl

/-- A comma and one or more parameters are what may follow a parameter. -/
theorem Derives.nextParam {ps : List Param} {comma : Token} (hcomma : comma.kind = .comma)
    (h : Derives .paramList ps ts rest) : Derives .paramRest ps (comma :: ts) rest := by
  obtain ⟨d, rfl, rfl⟩ := h
  match d with
  | .node .paramList parts => exact ⟨.node .nextParam (.cons (.leaf comma hcomma) parts), rfl, rfl⟩

theorem paramList_sound (ts : List Token) {rest : List Token} {ps : List Param}
    (h : Reads (paramList ts) ps rest) : Derives .paramList ps ts rest := by
  rw [paramList, reads_andMaybe] at h
  obtain ⟨head, mid, hmid, hhead, h⟩ := h
  have hparam := param_sound hhead
  rw [reads_andThen_attempt] at h
  rcases h with ⟨-, rfl, rfl⟩ | ⟨comma, mid', hmid', hfinds, h⟩
  · exact .rule .paramList (.phrase hparam (.phrase (.rule .lastParam .nil rfl) .nil)) rfl
  · obtain ⟨tail, htail, rfl⟩ := reads_map.1 h
    obtain ⟨rfl, hcomma⟩ := finds_token?.1 hfinds
    have hnext := (paramList_sound mid' htail).nextParam hcomma
    exact .rule .paramList (.phrase hparam (.phrase hnext .nil)) rfl
termination_by ts.length

theorem params_sound {ps : List Param} (h : Reads (params ts) ps rest) :
    Derives .params ps ts rest := by
  rw [params] at h
  split at h
  · obtain ⟨rfl, rfl⟩ := reads_done.1 h
    exact .rule .noParams .nil rfl
  · exact .rule .someParams (.phrase (paramList_sound ts (reads_weak.1 h)) .nil) rfl

theorem outputType?_sound {ty : Option Ident} (h : Reads (outputType? ts) ty rest) :
    Derives .outputType ty ts rest := by
  rw [outputType?, reads_andThen_attempt] at h
  rcases h with ⟨-, rfl, rfl⟩ | ⟨arrow, mid, -, hfinds, h⟩
  · exact .rule .noType .nil rfl
  · obtain ⟨rfl, harrow⟩ := finds_token?.1 hfinds
    simp only [reads_map, reads_ident] at h
    obtain ⟨_, ⟨x, ⟨rfl, hx⟩, rfl⟩, rfl⟩ := h
    exact .rule .arrow (.token harrow (.token hx .nil)) rfl

theorem outputValue?_sound {value : Option Expr} (h : Reads (outputValue? ts) value rest) :
    Derives .outputValue value ts rest := by
  rw [outputValue?] at h
  split at h
  · obtain ⟨rfl, rfl⟩ := reads_done.1 h
    exact .rule .noValue .nil rfl
  · simp only [reads_weak, reads_map] at h
    obtain ⟨e, he, rfl⟩ := h
    exact .rule .value (.phrase (expr_sound ts he) .nil) rfl

/-! ## Statements -/

/-- The parts of a change that names its target first. -/
theorem changeTargetFirst_sound {start : Source.Span} {op : ArithOp} {s : Stmt}
    (h : Reads (changeTargetFirst start op ts) s rest) :
    ∃ x by_ e close, DerivesAll [.token .ident, .keyword .by_, .phrase .exp, .token .semicolon]
      (x, by_, e, close, ()) ts rest ∧
        Stmt.change op (identOf x) e (start.cover close.span) = s := by
  simp only [changeTargetFirst, reads_andThen, reads_map, reads_ident, reads_keyword,
    reads_semicolon] at h
  obtain ⟨_, _, -, ⟨x, ⟨rfl, hx⟩, rfl⟩, by_, _, -, ⟨rfl, hby⟩, e, _, -, he, close, ⟨rfl, hclose⟩,
    rfl⟩ := h
  exact ⟨x, by_, e, close,
    .token hx (.token hby (.phrase (expr_sound _ he) (.token hclose .nil))), rfl⟩

/-- The parts of a change that names its term first. -/
theorem changeTermFirst_sound {start : Source.Span} {op : ArithOp} {joint : Keyword} {s : Stmt}
    (h : Reads (changeTermFirst start op joint ts) s rest) :
    ∃ e k x close, DerivesAll [.phrase .exp, .keyword joint, .token .ident, .token .semicolon]
      (e, k, x, close, ()) ts rest ∧ Stmt.change op (identOf x) e (start.cover close.span) = s := by
  simp only [changeTermFirst, reads_andThen, reads_map, reads_ident, reads_keyword,
    reads_semicolon] at h
  obtain ⟨e, _, -, he, k, _, -, ⟨rfl, hk⟩, _, _, -, ⟨x, ⟨rfl, hx⟩, rfl⟩, close, ⟨rfl, hclose⟩,
    rfl⟩ := h
  exact ⟨e, k, x, close, .phrase (expr_sound _ he) (.token hk (.token hx (.token hclose .nil))),
    rfl⟩

/-- The parts of a declaration. -/
theorem declaration_sound {start : Source.Span} {readOnly : Bool} {s : Stmt}
    (h : Reads (declaration start readOnly ts) s rest) :
    ∃ x w e close, DerivesAll [.token .ident, .keyword .with_, .phrase .exp, .token .semicolon]
      (x, w, e, close, ()) ts rest ∧
        Stmt.declare readOnly (identOf x) e (start.cover close.span) = s := by
  simp only [declaration, reads_andThen, reads_map, reads_ident, reads_keyword,
    reads_semicolon] at h
  obtain ⟨_, _, -, ⟨x, ⟨rfl, hx⟩, rfl⟩, w, _, -, ⟨rfl, hw⟩, e, _, -, he, close, ⟨rfl, hclose⟩,
    rfl⟩ := h
  exact ⟨x, w, e, close,
    .token hx (.token hw (.phrase (expr_sound _ he) (.token hclose .nil))), rfl⟩

/-- What is read after a keyword is derived as a statement with that keyword. -/
theorem simple?_sound {start : Source.Span} {k : Keyword} {text : String}
    {outcome : Outcome Stmt ts} {s : Stmt} (hk : simple? start k ts = some outcome)
    (h : Reads outcome s rest) :
    Derives .stmt s (⟨.keyword k, text, start⟩ :: ts) rest := by
  unfold simple? at hk
  split at hk <;> cases hk
  · simp only [reads_andThen, reads_keyword] at h
    obtain ⟨make, _, -, ⟨rfl, hmake⟩, h⟩ := h
    obtain ⟨x, w, e, close, hparts, rfl⟩ := declaration_sound h
    exact .rule .constantlyMake (.token rfl (.token hmake hparts)) rfl
  · obtain ⟨x, w, e, close, hparts, rfl⟩ := declaration_sound h
    exact .rule .make (.token rfl hparts) rfl
  · simp only [assignment, reads_andThen, reads_map, reads_ident, reads_keyword,
      reads_semicolon] at h
    obtain ⟨_, _, -, ⟨x, ⟨rfl, hx⟩, rfl⟩, to_, _, -, ⟨rfl, hto⟩, e, _, -, he, close,
      ⟨rfl, hclose⟩, rfl⟩ := h
    exact .rule .change (.token rfl (.token hx (.token hto (.phrase (expr_sound _ he)
      (.token hclose .nil))))) rfl
  · obtain ⟨e, to_, x, close, hparts, rfl⟩ := changeTermFirst_sound h
    exact .rule .add (.token rfl hparts) rfl
  · obtain ⟨e, from_, x, close, hparts, rfl⟩ := changeTermFirst_sound h
    exact .rule .subtract (.token rfl hparts) rfl
  · obtain ⟨x, by_, e, close, hparts, rfl⟩ := changeTargetFirst_sound h
    exact .rule .multiply (.token rfl hparts) rfl
  · obtain ⟨x, by_, e, close, hparts, rfl⟩ := changeTargetFirst_sound h
    exact .rule .divide (.token rfl hparts) rfl
  · obtain ⟨x, by_, e, close, hparts, rfl⟩ := changeTargetFirst_sound h
    exact .rule .mod (.token rfl hparts) rfl
  · simp only [raising, reads_andThen, reads_map, reads_ident, reads_keyword,
      reads_semicolon] at h
    obtain ⟨_, _, -, ⟨x, ⟨rfl, hx⟩, rfl⟩, to_, _, -, ⟨rfl, hto⟩, the, _, -, ⟨rfl, hthe⟩, e, _, -,
      he, close, ⟨rfl, hclose⟩, rfl⟩ := h
    exact .rule .raise (.token rfl (.token hx (.token hto (.token hthe (.phrase (expr_sound _ he)
      (.token hclose .nil)))))) rfl
  · simp only [reads_andThen, reads_map, reads_semicolon] at h
    obtain ⟨e, _, -, he, close, ⟨rfl, hclose⟩, rfl⟩ := h
    exact .rule .print (.token rfl (.phrase (expr_sound _ he) (.token hclose .nil))) rfl
  · simp only [reads_andThen?, reads_map, reads_semicolon] at h
    obtain ⟨value, _, -, hvalue, close, ⟨rfl, hclose⟩, rfl⟩ := h
    exact .rule .output (.token rfl (.phrase (outputValue?_sound hvalue) (.token hclose .nil))) rfl
  · simp only [reads_map, reads_semicolon] at h
    obtain ⟨close, ⟨rfl, hclose⟩, rfl⟩ := h
    exact .rule .breakLoop (.token rfl (.token hclose .nil)) rfl

mutual

theorem stmt_sound (ts : List Token) {rest : List Token} {s : Stmt} (h : Reads (stmt ts) s rest) :
    Derives .stmt s ts rest := by
  rw [stmt.eq_def] at h
  split at h
  · simp only [reads_after, reads_andThen, reads_andThen?, reads_map, reads_ident, reads_token] at h
    obtain ⟨_, _, -, ⟨f, ⟨rfl, hf⟩, rfl⟩, paren, _, -, ⟨rfl, hparen⟩, ps, _, hlt, hps, close, _, -,
      ⟨rfl, hclose⟩, ty, mid, hlt', hty, body, hbody, rfl⟩ := h
    exact .rule .automate (.token rfl (.token hf (.token hparen (.phrase (params_sound hps)
      (.token hclose (.phrase (outputType?_sound hty) (.phrase (block_sound _ hbody) .nil)))))))
      rfl
  · simp only [reads_after, reads_andThen, reads_andMaybe] at h
    obtain ⟨test, mid, hlt₁, htest, body, mid', hlt₂, hbody, h⟩ := h
    have hexp := expr_sound _ htest
    have hblock := block_sound _ hbody
    rw [reads_andThen_attempt] at h
    rcases h with ⟨-, rfl, rfl⟩ | ⟨ifnot, mid'', hlt₃, hfinds, h⟩
    · exact .rule .ifThen (.token rfl (.phrase hexp (.phrase hblock
        (.phrase (.rule .noAlternate .nil rfl) .nil)))) rfl
    · obtain ⟨rfl, hifnot⟩ := finds_token?.1 hfinds
      obtain ⟨other, hother, rfl⟩ := reads_map.1 h
      have halternate : Derives .alternate _ (ifnot :: mid'') rest :=
        .rule .ifNot (.token hifnot (.phrase (block_sound _ hother) .nil)) rfl
      exact .rule .ifThen (.token rfl (.phrase hexp (.phrase hblock (.phrase halternate .nil))))
        rfl
  · simp only [reads_after, reads_andThen, reads_map] at h
    obtain ⟨test, mid, hlt, htest, body, hbody, rfl⟩ := h
    exact .rule .loopWhile (.token rfl (.token rfl (.phrase (expr_sound _ htest)
      (.phrase (block_sound _ hbody) .nil)))) rfl
  · simp only [reads_after, reads_andThen, reads_map, reads_ident, reads_keyword] at h
    obtain ⟨_, _, hlt₁, ⟨x, ⟨rfl, hx⟩, rfl⟩, in_, _, hlt₂, ⟨rfl, hin⟩, e, mid, hlt₃, he, body,
      hbody, rfl⟩ := h
    exact .rule .loopOver (.token rfl (.token rfl (.token hx (.token hin
      (.phrase (expr_sound _ he) (.phrase (block_sound _ hbody) .nil)))))) rfl
  · exact absurd h not_reads_error
  · simp only [reads_after, reads_andThen, reads_map, reads_semicolon] at h
    obtain ⟨⟨es, span⟩, mid, -, hcall, close, ⟨rfl, hclose⟩, rfl⟩ := h
    obtain ⟨last, hes, hlast, rfl⟩ := callRest_sound _ _ hcall
    exact .rule .call (.token rfl (.token rfl (.phrase hes (.token hlast
      (.token hclose .nil))))) rfl
  · split at h
    · exact absurd h not_reads_error
    · next outcome houtcome => exact simple?_sound houtcome (reads_after.1 h)
  · exact absurd h not_reads_error
termination_by 2 * ts.length
-- The parts of a statement begin after tokens that were taken apart above; put back,
-- they show that the parts are shorter.
decreasing_by
  all_goals
    subst_vars
    simp only [List.length_cons] at *
    omega

theorem block_sound (ts : List Token) {rest : List Token} {b : Block}
    (h : Reads (block ts) b rest) : Derives .block b ts rest := by
  simp only [block, reads_andThen, reads_andThen?, reads_map, reads_token] at h
  obtain ⟨start, _, hlt, ⟨rfl, hstart⟩, ss, _, -, hss, close, ⟨rfl, hclose⟩, rfl⟩ := h
  exact .rule .block (.token hstart (.phrase (blockStmts_sound _ hss) (.token hclose .nil))) rfl
termination_by 2 * ts.length

theorem blockStmts_sound (ts : List Token) {rest : List Token} {ss : List Stmt}
    (h : Reads (blockStmts ts) ss rest) : Derives .stmts ss ts rest := by
  rw [blockStmts] at h
  split at h
  · obtain ⟨rfl, rfl⟩ := reads_done.1 h
    exact .rule .noStmt .nil rfl
  · simp only [reads_weak, reads_andMaybe, reads_map?] at h
    obtain ⟨head, mid, hlt, hhead, tail, htail, rfl⟩ := h
    exact .rule .moreStmts (.phrase (stmt_sound ts hhead) (.phrase (blockStmts_sound mid htail)
      .nil)) rfl
termination_by 2 * ts.length + 1

end

/-- A program that is parsed can be derived, with the tree that was parsed. -/
theorem parse_sound (ts : List Token) {ss : List Stmt} (h : parse ts = .ok ss) :
    Derives .stmts ss ts [] := by
  rw [parse.eq_def] at h
  split at h
  · cases h
    exact .rule .noStmt .nil rfl
  · split at h
    · cases h
    · next head rest hlt hhead =>
      cases hrest : parse rest with
      | error stuck =>
        rw [hrest] at h
        cases h
      | ok tail =>
        rw [hrest] at h
        cases h
        exact .rule .moreStmts (.phrase (stmt_sound _ ⟨hlt, hhead⟩)
          (.phrase (parse_sound rest hrest) .nil)) rfl
termination_by ts.length

end Toal.Surface
