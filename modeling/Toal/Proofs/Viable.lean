import Toal.Proofs.ParseSteps

/-!
# How far the parser gets

Wherever a parser stops, the tokens it has passed make sense: if it succeeds they
are a phrase, and if it gets stuck they are the beginning of one (`Covers`). Some
tokens are the beginning of a phrase if the phrase can be derived from tokens that
begin with them (`Viable`); since every phrase can be derived from some tokens, what
is still missing can always be supplied. So the parsers of all phrases cover what
they pass (`expr_covers`, `stmt_covers`), and the tokens before the place where the
parser of programs gets stuck are the beginning of a program (`viable_of_parse`).
-/

namespace Toal.Grammar

open Surface

/-! ## Every phrase can be derived -/

/-- A token of the kind. If it is a numeral it has a value. -/
def tokenOf (k : Token.Kind) : Token :=
  ⟨k, "0", ⟨0, 0⟩⟩

/-- A token of the kind, derived. -/
def Derivation.ofKind (k : Token.Kind) : Derivation (.token k) :=
  .leaf (tokenOf k) rfl

/-- Every phrase can be derived. -/
theorem Phrase.nonempty_derivation (p : Phrase) : Nonempty (Derivation (.phrase p)) := by
  have primary : Derivation (.phrase .primary) := .node .name (.cons (.ofKind _) .nil)
  have power : Derivation (.phrase .power) :=
    .node .power (.cons primary (.cons (.node .noExponent .nil) .nil))
  have product : Derivation (.phrase .product) :=
    .node .product (.cons power (.cons (.node .productEnd .nil) .nil))
  have sum : Derivation (.phrase .sum) :=
    .node .sum (.cons product (.cons (.node .sumEnd .nil) .nil))
  have exp : Derivation (.phrase .exp) :=
    .node .exp (.cons sum (.cons (.node .alone .nil) .nil))
  have param : Derivation (.phrase .param) := .node .untyped (.cons (.ofKind _) .nil)
  cases p with
  | stmts => exact ⟨.node .noStmt .nil⟩
  | stmt => exact ⟨.node .breakLoop (.cons (.ofKind _) (.cons (.ofKind _) .nil))⟩
  | outputValue => exact ⟨.node .noValue .nil⟩
  | alternate => exact ⟨.node .noAlternate .nil⟩
  | block =>
    exact ⟨.node .block (.cons (.ofKind _) (.cons (.node .noStmt .nil) (.cons (.ofKind _) .nil)))⟩
  | params => exact ⟨.node .noParams .nil⟩
  | paramList => exact ⟨.node .paramList (.cons param (.cons (.node .lastParam .nil) .nil))⟩
  | paramRest => exact ⟨.node .lastParam .nil⟩
  | param => exact ⟨param⟩
  | outputType => exact ⟨.node .noType .nil⟩
  | args => exact ⟨.node .noArgs .nil⟩
  | argList => exact ⟨.node .argList (.cons exp (.cons (.node .lastArg .nil) .nil))⟩
  | argRest => exact ⟨.node .lastArg .nil⟩
  | exp => exact ⟨exp⟩
  | expRest => exact ⟨.node .alone .nil⟩
  | relOp => exact ⟨.node .is (.cons (.ofKind _) .nil)⟩
  | orEqual => exact ⟨.node .strict .nil⟩
  | sum => exact ⟨sum⟩
  | sumRest => exact ⟨.node .sumEnd .nil⟩
  | sumOp => exact ⟨.node .plus (.cons (.ofKind _) .nil)⟩
  | product => exact ⟨product⟩
  | productRest => exact ⟨.node .productEnd .nil⟩
  | productOp => exact ⟨.node .times (.cons (.ofKind _) .nil)⟩
  | power => exact ⟨power⟩
  | powerRest => exact ⟨.node .noExponent .nil⟩
  | primary => exact ⟨primary⟩

/-- All symbols can be derived. -/
theorem nonempty_derivations (ss : List Symbol) : Nonempty (Derivations ss) := by
  induction ss with
  | nil => exact ⟨.nil⟩
  | cons s ss ih =>
    obtain ⟨tail⟩ := ih
    cases s with
    | token k => exact ⟨.cons (.ofKind k) tail⟩
    | phrase p =>
      obtain ⟨head⟩ := p.nonempty_derivation
      exact ⟨.cons head tail⟩

/-- The symbols of both lists, derived one after the other. -/
def Derivations.append {ss ss' : List Symbol} :
    Derivations ss → Derivations ss' → Derivations (ss ++ ss')
  | .nil, ds' => ds'
  | .cons head tail, ds' => .cons head (tail.append ds')

/-- The tokens of two rows of derivations are those of the first and then those of the
    second. -/
theorem Derivations.tokens_append {ss ss' : List Symbol} :
    ∀ (ds : Derivations ss) (ds' : Derivations ss'),
      (ds.append ds').tokens = ds.tokens ++ ds'.tokens
  | .nil, _ => rfl
  | .cons head tail, ds' => by
    rw [append, tokens, tokens, tail.tokens_append ds', List.append_assoc]

/-! ## Beginnings of phrases -/

/-- The symbols can be derived from tokens that begin with `used`. -/
def Viable (ss : List Symbol) (used : List Token) : Prop :=
  ∃ ds : Derivations ss, used <+: ds.tokens

variable {ss ss' : List Symbol} {used : List Token}

/-- Every phrase begins with nothing. -/
theorem viable_nil (ss : List Symbol) : Viable ss [] := by
  obtain ⟨ds⟩ := nonempty_derivations ss
  exact ⟨ds, List.nil_prefix⟩

/-- After what is derived from some symbols, what begins the others may follow. -/
theorem Derivations.viable_append (ds : Derivations ss) (h : Viable ss' used) :
    Viable (ss ++ ss') (ds.tokens ++ used) := by
  obtain ⟨ds', hbegin⟩ := h
  refine ⟨ds.append ds', ?_⟩
  rw [ds.tokens_append ds']
  exact (List.prefix_append_right_inj _).2 hbegin

/-- What is still missing can be supplied. -/
theorem Viable.extend (h : Viable ss used) (ss' : List Symbol) : Viable (ss ++ ss') used := by
  obtain ⟨ds, hbegin⟩ := h
  obtain ⟨ds'⟩ := nonempty_derivations ss'
  refine ⟨ds.append ds', hbegin.trans ?_⟩
  rw [ds.tokens_append ds']
  exact List.prefix_append _ _

/-- After a token of the kind, what begins the rest may follow. -/
theorem Viable.token {k : Token.Kind} {t : Token} (ht : t.kind = k) (h : Viable ss used) :
    Viable (.token k :: ss) (t :: used) :=
  (Derivations.cons (.leaf t ht) .nil).viable_append h

theorem Derivations.tokens_single {p : Phrase} (r : Rule p) (ds : Derivations r.parts) :
    (Derivations.cons (.node r ds) .nil).tokens = ds.tokens :=
  List.append_nil _

/-- What begins the parts of a rule begins its phrase. -/
theorem Viable.rule {p : Phrase} (r : Rule p) (h : Viable r.parts used) :
    Viable [.phrase p] used := by
  obtain ⟨ds, hbegin⟩ := h
  refine ⟨.cons (.node r ds) .nil, ?_⟩
  rwa [Derivations.tokens_single]

end Toal.Grammar

namespace Toal.Surface

open Grammar

variable {α β : Type} {n : Nat} {ts : List Token} {ss ss' : List Symbol}

/-! ## Combinations -/

/-- If the parser succeeds, it has passed tokens of the symbols. If it gets stuck, what
    it has passed is the beginning of such tokens. -/
def Covers (ss : List Symbol) (ts : List Token) (p : Except Stuck (Parsed α n)) : Prop :=
  match p with
  | .ok parsed => ∃ ds : Derivations ss, ds.tokens ++ parsed.rest = ts
  | .error stuck => ∃ used, used ++ stuck.rest = ts ∧ Viable ss used

/-- The same about something that may be there or not. -/
def CoversIf (ss : List Symbol) (p : Attempt α ts) : Prop :=
  match p with
  | .ok none => True
  | .ok (some parsed) => ∃ ds : Derivations ss, ds.tokens ++ parsed.rest = ts
  | .error stuck => ∃ used, used ++ stuck.rest = ts ∧ Viable ss used

/-- Where nothing is read, nothing is covered. -/
theorem covers_done (a : α) (ts : List Token) : Covers [] ts (Outcome?.done a ts) :=
  ⟨.nil, rfl⟩

/-- A parser that is stuck at the beginning has read nothing. -/
theorem covers_expected (what : Expectation) (ss : List Symbol) (ts : List Token) :
    Covers ss ts (.error (.expected what ts) : Except Stuck (Parsed α n)) :=
  ⟨[], rfl, viable_nil ss⟩

/-- What covers the parts of a rule covers its phrase. -/
theorem Covers.rule {p : Phrase} (r : Rule p) {q : Except Stuck (Parsed α n)}
    (h : Covers r.parts ts q) : Covers [.phrase p] ts q := by
  cases q with
  | error stuck =>
    obtain ⟨used, hused, hviable⟩ := h
    exact ⟨used, hused, hviable.rule r⟩
  | ok parsed =>
    obtain ⟨ds, hds⟩ := h
    exact ⟨.cons (.node r ds) .nil, by rw [Derivations.tokens_single, hds]⟩

/-- A parser covers the same whatever becomes of what it reads. -/
theorem Covers.change {m : Nat} {f : α → β} {hle : n ≤ m} {p : Except Stuck (Parsed α n)}
    (h : Covers ss ts p) : Covers ss ts (p.map (Parsed.change f hle)) := by
  cases p with
  | error stuck => exact h
  | ok parsed => exact h

/-- A token and what is covered after it are covered. -/
theorem Covers.token {m : Nat} {k : Token.Kind} {t : Token} {hle : n ≤ m}
    {p : Except Stuck (Parsed α n)} (ht : t.kind = k) (h : Covers ss ts p) :
    Covers (.token k :: ss) (t :: ts) (p.map (Parsed.change id hle)) := by
  cases p with
  | error stuck =>
    obtain ⟨used, rfl, hviable⟩ := h
    exact ⟨t :: used, rfl, hviable.token ht⟩
  | ok parsed =>
    obtain ⟨ds, rfl⟩ := h
    exact ⟨.cons (.leaf t ht) ds, rfl⟩

/-- If a parser covers some symbols, and what goes on from where it ends covers others,
    then the two in sequence cover the first and then the others. -/
theorem Covers.chain {k : Nat} {m : List Token → Nat} {p : Except Stuck (Parsed α n)}
    {next : α → (rest : List Token) → rest.length < n → Except Stuck (Parsed β (m rest))}
    {hle : ∀ rest : List Token, rest.length < n → m rest ≤ k} (hp : Covers ss ts p)
    (hnext : ∀ a rest h, Covers ss' rest (next a rest h)) :
    Covers (ss ++ ss') ts (chain p next hle) := by
  cases p with
  | error stuck =>
    obtain ⟨used, hused, hviable⟩ := hp
    exact ⟨used, hused, hviable.extend ss'⟩
  | ok parsed =>
    obtain ⟨a, mid, hmid⟩ := parsed
    obtain ⟨ds, rfl⟩ := hp
    have h := hnext a mid hmid
    -- What the first parser passed is a phrase, and the second adds to it.
    change Covers _ _ ((next a mid hmid).map _)
    cases hq : next a mid hmid with
    | error stuck =>
      rw [hq] at h
      obtain ⟨used, rfl, hviable⟩ := h
      exact ⟨ds.tokens ++ used, List.append_assoc _ _ _, ds.viable_append hviable⟩
    | ok parsed =>
      rw [hq] at h
      obtain ⟨ds', hds'⟩ := h
      refine ⟨ds.append ds', ?_⟩
      rw [ds.tokens_append ds', List.append_assoc]
      exact congrArg (ds.tokens ++ ·) hds'

theorem Covers.map {f : α → β} {p : Outcome α ts} (h : Covers ss ts p) :
    Covers ss ts (p.map f) := by
  rw [Outcome.map_eq_change]
  exact h.change

theorem Covers.map? {f : α → β} {p : Outcome? α ts} (h : Covers ss ts p) :
    Covers ss ts (p.map f) := by
  rw [Outcome?.map_eq_change]
  exact h.change

theorem Covers.after {k : Token.Kind} {t : Token} {p : Outcome α ts} (ht : t.kind = k)
    (h : Covers ss ts p) : Covers (.token k :: ss) (t :: ts) (p.after (t := t)) := by
  rw [Outcome.after_eq_change]
  exact h.token ht

theorem Covers.after? {k : Token.Kind} {t : Token} {p : Outcome? α ts} (ht : t.kind = k)
    (h : Covers ss ts p) : Covers (.token k :: ss) (t :: ts) (p.after (t := t)) := by
  rw [Outcome?.after_eq_change]
  exact h.token ht

theorem Covers.weak {p : Outcome α ts} (h : Covers ss ts p) : Covers ss ts p.weak := by
  rw [Outcome.weak_eq_change]
  exact h.change

/-- In sequence, parsers cover what the first covers and then what the second does. -/
theorem Covers.andThen {p : Outcome α ts}
    {next : α → (rest : List Token) → rest.length < ts.length → Outcome β rest}
    (hp : Covers ss ts p) (hnext : ∀ a rest h, Covers ss' rest (next a rest h)) :
    Covers (ss ++ ss') ts (p.andThen next) := by
  rw [Outcome.andThen_eq_chain]
  exact hp.chain hnext

/-- In sequence, parsers cover what the first covers and then what the second does, where
    the second may read nothing. -/
theorem Covers.andMaybe {p : Outcome α ts}
    {next : α → (rest : List Token) → rest.length < ts.length → Outcome? β rest}
    (hp : Covers ss ts p) (hnext : ∀ a rest h, Covers ss' rest (next a rest h)) :
    Covers (ss ++ ss') ts (p.andMaybe next) := by
  rw [Outcome.andMaybe_eq_chain]
  exact hp.chain hnext

/-- In sequence, parsers cover what the first covers and then what the second does, where
    the first may read nothing. -/
theorem Covers.andThen? {p : Outcome? α ts}
    {next : α → (rest : List Token) → rest.length < ts.length + 1 → Outcome β rest}
    (hp : Covers ss ts p) (hnext : ∀ a rest h, Covers ss' rest (next a rest h)) :
    Covers (ss ++ ss') ts (p.andThen next) := by
  rw [Outcome?.andThen_eq_chain]
  exact hp.chain hnext

theorem coversIf_none (ss : List Symbol) : CoversIf ss (.ok none : Attempt α ts) :=
  trivial

theorem Covers.found {p : Outcome α ts} (h : Covers ss ts p) : CoversIf ss (.found p) := by
  cases p with
  | error stuck => exact h
  | ok parsed => exact h

/-- A phrase with a rule for nothing, and one that begins with what may be there. -/
theorem CoversIf.andThen {p : Attempt α ts} {otherwise : β}
    {next : α → (rest : List Token) → rest.length < ts.length → Outcome β rest} {q : Phrase}
    (hp : CoversIf ss p) (empty : Rule q) (hempty : empty.parts = []) (full : Rule q)
    (hfull : full.parts = ss ++ ss') (hnext : ∀ a rest h, Covers ss' rest (next a rest h)) :
    Covers [.phrase q] ts (p.andThen otherwise next) := by
  match p with
  | .error stuck =>
    -- Stuck within what was there, so it is not left out.
    obtain ⟨used, hused, hviable⟩ := hp
    refine ⟨used, hused, Viable.rule full ?_⟩
    rw [hfull]
    exact hviable.extend ss'
  | .ok none =>
    refine Covers.rule empty ?_
    rw [hempty]
    exact covers_done otherwise ts
  | .ok (some parsed) =>
    have hparsed : Covers ss ts (.ok parsed : Outcome α ts) := hp
    refine Covers.rule full ?_
    rw [hfull]
    exact (hparsed.andThen hnext).weak

/-! ## Tokens -/

/-- Reading a token covers it. -/
theorem token_covers (k : Token.Kind) (what : Expectation) (ts : List Token) :
    Covers [.token k] ts (token k what ts) := by
  cases ts with
  | nil => exact covers_expected what _ _
  | cons t ts =>
    rw [token]
    split
    · exact (covers_done t ts).after? ‹_›
    · exact covers_expected what _ _

theorem token?_covers (k : Token.Kind) (ts : List Token) : CoversIf [.token k] (token? k ts) := by
  cases ts with
  | nil => exact coversIf_none _
  | cons t ts =>
    rw [token?]
    split
    · exact ((covers_done t ts).after? ‹_›).found
    · exact coversIf_none _

theorem keyword_covers (k : Keyword) (ts : List Token) : Covers [.keyword k] ts (keyword k ts) :=
  token_covers _ _ ts

theorem semicolon_covers (ts : List Token) : Covers [.token .semicolon] ts (semicolon ts) :=
  token_covers _ _ ts

theorem ident_covers (what : Expectation) (ts : List Token) :
    Covers [.token .ident] ts (ident what ts) :=
  (token_covers _ _ ts).map

/-! ## Expressions -/

theorem orEqualTo_covers (ts : List Token) : Covers [.phrase .orEqual] ts (orEqualTo ts) :=
  (token?_covers _ ts).andThen .strict rfl .orEqualTo rfl fun _ rest _ =>
    (keyword_covers .equal rest).andThen fun _ rest _ => (keyword_covers .to_ rest).map

/-- Reading a comparison that may be there covers a relation. -/
theorem comparison?_covers (ts : List Token) : CoversIf [.phrase .relOp] (comparison? ts) := by
  unfold comparison?
  split
  · refine Covers.found ?_
    unfold relation
    split
    · exact .rule .greater (.after? rfl (.weak (.after rfl ((keyword_covers .than _).andMaybe
        fun _ rest _ => (orEqualTo_covers rest).map?))))
    · exact .rule .less (.after? rfl (.weak (.after rfl ((keyword_covers .than _).andMaybe
        fun _ rest _ => (orEqualTo_covers rest).map?))))
    · exact .rule .isNot (.after? rfl (.weak (.after? rfl (covers_done _ _))))
    · exact .rule .is (.after? rfl (covers_done _ _))
  · exact coversIf_none _

theorem sumOp?_covers (ts : List Token) : CoversIf [.phrase .sumOp] (sumOp? ts) := by
  unfold sumOp?
  split
  · exact Covers.found (.rule .plus (.after? rfl (covers_done _ _)))
  · exact Covers.found (.rule .minus (.after? rfl (covers_done _ _)))
  · exact coversIf_none _

theorem productOp?_covers (ts : List Token) : CoversIf [.phrase .productOp] (productOp? ts) := by
  unfold productOp?
  split
  · exact Covers.found (.rule .times (.after? rfl (covers_done _ _)))
  · exact Covers.found (.rule .dividedBy (.after rfl (keyword_covers .by_ _).map))
  · exact Covers.found (.rule .modulo (.after? rfl (covers_done _ _)))
  · exact coversIf_none _

theorem powerOp?_covers (ts : List Token) :
    CoversIf [.keyword .to_, .keyword .the] (powerOp? ts) := by
  unfold powerOp?
  split
  · exact Covers.found (.after rfl (.after? rfl (covers_done _ _)))
  · exact coversIf_none _

mutual

theorem expr_covers (ts : List Token) : Covers [.phrase .exp] ts (expr ts) := by
  rw [expr]
  exact .rule .exp ((sum_covers ts).andMaybe fun _ rest _ =>
    (comparison?_covers rest).andThen .alone rfl .compared rfl fun _ rest _ =>
      (sum_covers rest).map)
termination_by 10 * ts.length + 6
decreasing_by all_goals omega

theorem sum_covers (ts : List Token) : Covers [.phrase .sum] ts (sum ts) := by
  rw [sum]
  exact .rule .sum ((product_covers ts).andMaybe fun left rest _ => sumRest_covers left rest)
termination_by 10 * ts.length + 5
decreasing_by all_goals omega

theorem sumRest_covers (left : Expr) (ts : List Token) :
    Covers [.phrase .sumRest] ts (sumRest left ts) := by
  rw [sumRest]
  exact (sumOp?_covers ts).andThen .sumEnd rfl .sumNext rfl fun _ rest _ =>
    (product_covers rest).andMaybe fun _ rest _ => sumRest_covers _ rest
termination_by 10 * ts.length
decreasing_by all_goals omega

theorem product_covers (ts : List Token) : Covers [.phrase .product] ts (product ts) := by
  rw [product]
  exact .rule .product ((power_covers ts).andMaybe fun left rest _ => productRest_covers left rest)
termination_by 10 * ts.length + 4
decreasing_by all_goals omega

theorem productRest_covers (left : Expr) (ts : List Token) :
    Covers [.phrase .productRest] ts (productRest left ts) := by
  rw [productRest]
  exact (productOp?_covers ts).andThen .productEnd rfl .productNext rfl fun _ rest _ =>
    (power_covers rest).andMaybe fun _ rest _ => productRest_covers _ rest
termination_by 10 * ts.length
decreasing_by all_goals omega

theorem power_covers (ts : List Token) : Covers [.phrase .power] ts (power ts) := by
  rw [power]
  exact .rule .power ((primary_covers ts).andMaybe fun _ rest _ =>
    (powerOp?_covers rest).andThen .noExponent rfl .toThe rfl fun _ rest _ =>
      (power_covers rest).map)
termination_by 10 * ts.length + 3
decreasing_by all_goals omega

theorem primary_covers (ts : List Token) : Covers [.phrase .primary] ts (primary ts) := by
  rw [primary.eq_def]
  split
  · split
    · exact .rule .numeral (.after? rfl (covers_done _ _))
    -- A numeral without a value has been passed too.
    · exact ⟨[_], rfl, .rule .numeral (.token rfl (viable_nil []))⟩
  · exact .rule .word (.after? rfl (covers_done _ _))
  · exact .rule .list (.after rfl ((args_covers .closeSquare _).andThen? fun _ rest _ =>
      (token_covers .closeSquare _ rest).map))
  · exact .rule .callOf (.after rfl (.after rfl (callRest_covers _ _).map))
  · exact .rule .name (.after? rfl (covers_done _ _))
  · exact .rule .group (.after rfl ((expr_covers _).andThen fun _ rest _ =>
      (token_covers .closeParen _ rest).map))
  · exact covers_expected _ _ _
termination_by 10 * ts.length + 2
decreasing_by
  all_goals
    subst_vars
    simp only [List.length_cons]
    omega

/-- Reading on after the name of a call covers its arguments and the parenthesis. -/
theorem callRest_covers (start : Source.Span) (ts : List Token) :
    Covers [.phrase .args, .token .closeParen] ts (callRest start ts) := by
  rw [callRest]
  exact (args_covers .closeParen ts).andThen? fun _ rest _ => (token_covers .closeParen _ rest).map
termination_by 10 * ts.length + 9
decreasing_by all_goals omega

theorem args_covers (close : Token.Kind) (ts : List Token) :
    Covers [.phrase .args] ts (args close ts) := by
  rw [args]
  split
  · exact .rule .noArgs (covers_done _ _)
  · exact .rule .someArgs (.rule .argList (argList_covers ts).weak)
termination_by 10 * ts.length + 8
decreasing_by all_goals omega

/-- After a comma come an argument and what may follow it, as at the beginning. -/
theorem argList_covers (ts : List Token) :
    Covers [.phrase .exp, .phrase .argRest] ts (argList ts) := by
  rw [argList]
  exact (expr_covers ts).andMaybe fun _ rest _ =>
    (token?_covers .comma rest).andThen .lastArg rfl .nextArg rfl fun _ rest _ =>
      (argList_covers rest).map
termination_by 10 * ts.length + 7
decreasing_by all_goals omega

end

/-! ## Statements -/

theorem param_covers (ts : List Token) : Covers [.phrase .param] ts (param ts) := by
  unfold param
  split
  · exact .rule .typed (.after rfl (.after rfl (ident_covers _ _).map))
  · exact .rule .untyped (ident_covers _ _).map

theorem paramList_covers (ts : List Token) :
    Covers [.phrase .param, .phrase .paramRest] ts (paramList ts) := by
  rw [paramList]
  exact (param_covers ts).andMaybe fun _ rest _ =>
    (token?_covers .comma rest).andThen .lastParam rfl .nextParam rfl fun _ rest _ =>
      (paramList_covers rest).map
termination_by ts.length

theorem params_covers (ts : List Token) : Covers [.phrase .params] ts (params ts) := by
  rw [params]
  split
  · exact .rule .noParams (covers_done _ _)
  · exact .rule .someParams (.rule .paramList (paramList_covers ts).weak)

theorem outputType?_covers (ts : List Token) : Covers [.phrase .outputType] ts (outputType? ts) :=
  (token?_covers .arrow ts).andThen .noType rfl .arrow rfl fun _ rest _ => (ident_covers _ rest).map

theorem outputValue?_covers (ts : List Token) :
    Covers [.phrase .outputValue] ts (outputValue? ts) := by
  rw [outputValue?]
  split
  · exact .rule .noValue (covers_done _ _)
  · exact .rule .value (expr_covers ts).map.weak

/-- Reading a declaration covers what follows its keyword. -/
theorem declaration_covers (start : Source.Span) (readOnly : Bool) (ts : List Token) :
    Covers [.token .ident, .keyword .with_, .phrase .exp, .token .semicolon] ts
      (declaration start readOnly ts) :=
  (ident_covers _ ts).andThen fun _ rest _ => (keyword_covers .with_ rest).andThen
    fun _ rest _ => (expr_covers rest).andThen fun _ rest _ => (semicolon_covers rest).map

theorem changeTermFirst_covers (start : Source.Span) (op : ArithOp) (joint : Keyword)
    (ts : List Token) :
    Covers [.phrase .exp, .keyword joint, .token .ident, .token .semicolon] ts
      (changeTermFirst start op joint ts) :=
  (expr_covers ts).andThen fun _ rest _ => (keyword_covers joint rest).andThen
    fun _ rest _ => (ident_covers _ rest).andThen fun _ rest _ => (semicolon_covers rest).map

theorem changeTargetFirst_covers (start : Source.Span) (op : ArithOp) (ts : List Token) :
    Covers [.token .ident, .keyword .by_, .phrase .exp, .token .semicolon] ts
      (changeTargetFirst start op ts) :=
  (ident_covers _ ts).andThen fun _ rest _ => (keyword_covers .by_ rest).andThen
    fun _ rest _ => (expr_covers rest).andThen fun _ rest _ => (semicolon_covers rest).map

theorem assignment_covers (start : Source.Span) (ts : List Token) :
    Covers [.token .ident, .keyword .to_, .phrase .exp, .token .semicolon] ts
      (assignment start ts) :=
  (ident_covers _ ts).andThen fun _ rest _ => (keyword_covers .to_ rest).andThen
    fun _ rest _ => (expr_covers rest).andThen fun _ rest _ => (semicolon_covers rest).map

theorem raising_covers (start : Source.Span) (ts : List Token) :
    Covers [.token .ident, .keyword .to_, .keyword .the, .phrase .exp, .token .semicolon] ts
      (raising start ts) :=
  (ident_covers _ ts).andThen fun _ rest _ => (keyword_covers .to_ rest).andThen
    fun _ rest _ => (keyword_covers .the rest).andThen fun _ rest _ => (expr_covers rest).andThen
      fun _ rest _ => (semicolon_covers rest).map

theorem simple?_covers {start : Source.Span} {k : Keyword} {t : Token} {outcome : Outcome Stmt ts}
    (ht : t.kind = .keyword k) (h : simple? start k ts = some outcome) :
    Covers [.phrase .stmt] (t :: ts) (outcome.after (t := t)) := by
  unfold simple? at h
  split at h <;> cases h
  · exact .rule .constantlyMake (.after ht ((keyword_covers .make ts).andThen fun _ rest _ =>
      declaration_covers start true rest))
  · exact .rule .make (.after ht (declaration_covers start false ts))
  · exact .rule .change (.after ht (assignment_covers start ts))
  · exact .rule .add (.after ht (changeTermFirst_covers start _ _ ts))
  · exact .rule .subtract (.after ht (changeTermFirst_covers start _ _ ts))
  · exact .rule .multiply (.after ht (changeTargetFirst_covers start _ ts))
  · exact .rule .divide (.after ht (changeTargetFirst_covers start _ ts))
  · exact .rule .mod (.after ht (changeTargetFirst_covers start _ ts))
  · exact .rule .raise (.after ht (raising_covers start ts))
  · exact .rule .print (.after ht ((expr_covers ts).andThen fun _ rest _ =>
      (semicolon_covers rest).map))
  · exact .rule .output (.after ht ((outputValue?_covers ts).andThen? fun _ rest _ =>
      (semicolon_covers rest).map))
  · exact .rule .breakLoop (.after ht (semicolon_covers ts).map)

mutual

theorem stmt_covers (ts : List Token) : Covers [.phrase .stmt] ts (stmt ts) := by
  rw [stmt.eq_def]
  split
  · exact .rule .automate (.after rfl ((ident_covers _ _).andThen fun _ rest _ =>
      (token_covers _ _ rest).andThen fun _ rest _ => (params_covers rest).andThen?
        fun _ rest _ => (token_covers _ _ rest).andThen fun _ rest _ =>
          (outputType?_covers rest).andThen? fun _ rest _ => (block_covers rest).map))
  · exact .rule .ifThen (.after rfl ((expr_covers _).andThen fun _ rest _ =>
      (block_covers rest).andMaybe fun _ rest _ =>
        (token?_covers _ rest).andThen .noAlternate rfl .ifNot rfl fun _ rest _ =>
          (block_covers rest).map))
  · exact .rule .loopWhile (.after rfl (.after rfl ((expr_covers _).andThen fun _ rest _ =>
      (block_covers rest).map)))
  · exact .rule .loopOver (.after rfl (.after rfl ((ident_covers _ _).andThen fun _ rest _ =>
      (keyword_covers .in_ rest).andThen fun _ rest _ => (expr_covers rest).andThen
        fun _ rest _ => (block_covers rest).map)))
  -- One kind of loop would have done.
  · exact ⟨[_], rfl, .rule .loopWhile (.token rfl (viable_nil _))⟩
  · exact .rule .call (.after rfl (.after rfl ((callRest_covers _ _).andThen fun _ rest _ =>
      (semicolon_covers rest).map)))
  · split
    · exact covers_expected _ _ _
    · next outcome hsimple => exact simple?_covers rfl hsimple
  · exact covers_expected _ _ _
termination_by 2 * ts.length
decreasing_by
  all_goals
    subst_vars
    simp only [List.length_cons]
    omega

theorem block_covers (ts : List Token) : Covers [.phrase .block] ts (block ts) := by
  rw [block]
  exact .rule .block ((token_covers _ _ ts).andThen fun _ rest _ =>
    (blockStmts_covers rest).andThen? fun _ rest _ => (token_covers _ _ rest).map)
termination_by 2 * ts.length

theorem blockStmts_covers (ts : List Token) : Covers [.phrase .stmts] ts (blockStmts ts) := by
  rw [blockStmts]
  split
  · exact .rule .noStmt (covers_done _ _)
  · exact .rule .moreStmts ((stmt_covers ts).andMaybe fun _ rest _ =>
      (blockStmts_covers rest).map?).weak
termination_by 2 * ts.length + 1

end

/-! ## Programs -/

/-- The tokens before the place where the parser of programs gets stuck are the
    beginning of a program. -/
theorem viable_of_parse {stuck : Stuck} (h : parse ts = .error stuck) :
    ∃ used, used ++ stuck.rest = ts ∧ Viable [.phrase .stmts] used := by
  fun_induction parse ts with
  | case1 => cases h
  | case2 t ts stuck' hstmt =>
    cases h
    have hcovers := stmt_covers (t :: ts)
    rw [hstmt] at hcovers
    obtain ⟨used, hused, hviable⟩ := hcovers
    exact ⟨used, hused, .rule .moreStmts (hviable.extend _)⟩
  | case3 t ts head rest hlt hstmt ih =>
    -- The statements before the one at fault are derived in full.
    have hcovers := stmt_covers (t :: ts)
    rw [hstmt] at hcovers
    obtain ⟨ds, hds⟩ := hcovers
    cases htail : parse rest with
    | ok ss =>
      rw [htail] at h
      cases h
    | error stuck' =>
      rw [htail] at h
      cases h
      obtain ⟨used, hused, hviable⟩ := ih htail
      refine ⟨ds.tokens ++ used, ?_, .rule .moreStmts (ds.viable_append hviable)⟩
      rw [List.append_assoc, hused]
      exact hds

end Toal.Surface
