import Toal.Proofs.Grammar

/-!
# The grammar is unambiguous

A list of tokens has at most one derivation (`Derivation.eq_of_tokens_eq`). Two
facts about the rules carry this.

The first is about what may come after a phrase. A phrase *stops* before some
tokens if these cannot be taken for its continuation (`Phrase.stops`): an
expression stops before a semicolon, but not before `plus`. If a phrase stops
before what follows it, then so do all the parts of its derivation
(`Derivations.stopped_of_stops`). This is where the grammar could have gone
wrong: the word `to` ends the term of `add e to x` but is half of an operator in
`e to the f`, and it takes the word after it to tell the two apart.

The second is that two tokens of lookahead determine the rule
(`Derivations.predict_eq`), provided that the phrase stops before what follows it.
-/

namespace Toal.Grammar

/-! ## Where phrases stop -/

/-- Whether a name stops before the given kinds: it does not before a parenthesis,
    which would make it a call. -/
def primaryStops : List Token.Kind → Bool
  | .openParen :: _ => false
  | _ => true

/-- Whether a power stops before the given kinds. -/
def powerStops : List Token.Kind → Bool
  | .keyword .to_ :: .keyword .the :: _ => false
  | ks => primaryStops ks

/-- Whether a product stops before the given kinds. -/
def productStops : List Token.Kind → Bool
  | .keyword .times :: _ | .keyword .divided :: _ | .keyword .mod :: _ => false
  | ks => powerStops ks

/-- Whether a sum stops before the given kinds. -/
def sumStops : List Token.Kind → Bool
  | .keyword .plus :: _ | .keyword .minus :: _ => false
  | ks => productStops ks

/-- Whether an expression stops before the given kinds. -/
def expStops : List Token.Kind → Bool
  | .keyword .is :: _ => false
  | ks => sumStops ks

namespace Phrase

/-- Whether a phrase stops before the given kinds. -/
def stops : Phrase → List Token.Kind → Bool
  | stmts => fun
    | [] | .closeBrace :: _ => true
    | _ => false
  | stmt | alternate => fun
    | .keyword .ifNot :: _ => false
    | _ => true
  | outputValue => fun
    | .semicolon :: _ => true
    | _ => false
  | params | paramList | paramRest => fun
    | .closeParen :: _ => true
    | _ => false
  | param => fun
    | .colon :: _ => false
    | _ => true
  | outputType => fun
    | .arrow :: _ => false
    | _ => true
  | args | argList | argRest => fun
    | .closeParen :: _ | .closeSquare :: _ => true
    | _ => false
  | exp | expRest => expStops
  | relOp => fun
    | .keyword .or :: _ | .keyword .greater :: _ | .keyword .less :: _ | .keyword .not :: _ => false
    | _ => true
  | orEqual => fun
    | .keyword .or :: _ => false
    | _ => true
  | sum | sumRest => sumStops
  | product | productRest => productStops
  | power | powerRest => powerStops
  | primary => primaryStops
  | block | sumOp | productOp => fun _ => true

/-- The rule for a phrase that begins with the given kinds. -/
def predict : (p : Phrase) → List Token.Kind → Option (Rule p)
  | stmts => fun
    | [] | .closeBrace :: _ => some .noStmt
    | _ => some .moreStmts
  | stmt => fun
    | .keyword .make :: _ => some .make
    | .keyword .constantly :: _ => some .constantlyMake
    | .keyword .change :: _ => some .change
    | .keyword .add :: _ => some .add
    | .keyword .subtract :: _ => some .subtract
    | .keyword .multiply :: _ => some .multiply
    | .keyword .divide :: _ => some .divide
    | .keyword .raise :: _ => some .raise
    | .keyword .mod :: _ => some .mod
    | .keyword .print :: _ => some .print
    | .keyword .automate :: _ => some .automate
    | .keyword .output :: _ => some .output
    | .keyword .if_ :: _ => some .ifThen
    | .keyword .loop :: .keyword .while_ :: _ => some .loopWhile
    | .keyword .loop :: .keyword .over_ :: _ => some .loopOver
    | .keyword .break_ :: _ => some .breakLoop
    | .ident :: _ => some .call
    | _ => none
  | outputValue => fun
    | .semicolon :: _ => some .noValue
    | _ => some .value
  | alternate => fun
    | .keyword .ifNot :: _ => some .ifNot
    | _ => some .noAlternate
  | block => fun _ => some .block
  | params => fun
    | .closeParen :: _ => some .noParams
    | _ => some .someParams
  | paramList => fun _ => some .paramList
  | paramRest => fun
    | .comma :: _ => some .nextParam
    | _ => some .lastParam
  | param => fun
    | .ident :: .colon :: _ => some .typed
    | _ => some .untyped
  | outputType => fun
    | .arrow :: _ => some .arrow
    | _ => some .noType
  | args => fun
    | .closeParen :: _ | .closeSquare :: _ => some .noArgs
    | _ => some .someArgs
  | argList => fun _ => some .argList
  | argRest => fun
    | .comma :: _ => some .nextArg
    | _ => some .lastArg
  | exp => fun _ => some .exp
  | expRest => fun
    | .keyword .is :: _ => some .compared
    | _ => some .alone
  | relOp => fun
    | .keyword .is :: .keyword .greater :: _ => some .greater
    | .keyword .is :: .keyword .less :: _ => some .less
    | .keyword .is :: .keyword .not :: _ => some .isNot
    | _ => some .is
  | orEqual => fun
    | .keyword .or :: _ => some .orEqualTo
    | _ => some .strict
  | sum => fun _ => some .sum
  | sumRest => fun
    | .keyword .plus :: _ | .keyword .minus :: _ => some .sumNext
    | _ => some .sumEnd
  | sumOp => fun
    | .keyword .plus :: _ => some .plus
    | _ => some .minus
  | product => fun _ => some .product
  | productRest => fun
    | .keyword .times :: _ | .keyword .divided :: _ | .keyword .mod :: _ => some .productNext
    | _ => some .productEnd
  | productOp => fun
    | .keyword .times :: _ => some .times
    | .keyword .divided :: _ => some .dividedBy
    | _ => some .modulo
  | power => fun _ => some .power
  | powerRest => fun
    | .keyword .to_ :: .keyword .the :: _ => some .toThe
    | _ => some .noExponent
  | primary => fun
    | .numeral :: _ => some .numeral
    | .word :: _ => some .word
    | .openSquare :: _ => some .list
    | .ident :: .openParen :: _ => some .callOf
    | .ident :: _ => some .name
    | .openParen :: _ => some .group
    | _ => none

end Phrase

/-- Every phrase among the derivations stops before what follows it, with the
    given kinds after the last. -/
def Derivations.Stopped : {ss : List Symbol} → Derivations ss → List Token.Kind → Prop
  | [], _, _ => True
  | .token _ :: _, .cons _ tail, ks => tail.Stopped ks
  | .phrase p :: _, .cons _ tail, ks => p.stops (tail.kinds ++ ks) = true ∧ tail.Stopped ks

@[simp]
theorem Derivations.kinds_cons {s : Symbol} {ss : List Symbol} (head : Derivation s)
    (tail : Derivations ss) : (Derivations.cons head tail).kinds = head.kinds ++ tail.kinds :=
  List.map_append

/-! ## How phrases begin -/

/-- Whether an expression may begin with a token of the kind. -/
def opensExp : Token.Kind → Bool
  | .numeral | .word | .openSquare | .ident | .openParen => true
  | _ => false

/-- The derivation begins with a token with which an expression may begin. -/
def Opens {s : Symbol} (d : Derivation s) : Prop :=
  ∃ k ks, d.kinds = k :: ks ∧ opensExp k = true

/-- What is derived from a token and more begins with the token. -/
theorem Derivations.exists_kinds {k : Token.Kind} {ss : List Symbol} :
    ∀ ds : Derivations (.token k :: ss), ∃ ks, ds.kinds = k :: ks
  | .cons (.leaf ⟨_, _, _⟩ rfl) _ => ⟨_, rfl⟩

/-- A primary expression begins as expressions do. -/
theorem opens_primary (d : Derivation (.phrase .primary)) : Opens d := by
  cases d with
  | node r parts =>
    cases r <;>
    · obtain ⟨ks, hks⟩ := parts.exists_kinds
      exact ⟨_, ks, hks, rfl⟩

/-- What begins as expressions do still does with more after it. -/
theorem Opens.cons {s : Symbol} {ss : List Symbol} {head : Derivation s} (h : Opens head)
    (tail : Derivations ss) :
    ∃ k ks, (Derivations.cons head tail).kinds = k :: ks ∧ opensExp k = true := by
  obtain ⟨k, ks, hkinds, hk⟩ := h
  exact ⟨k, ks ++ tail.kinds, by rw [Derivations.kinds_cons, hkinds, List.cons_append], hk⟩

theorem opens_power : ∀ d : Derivation (.phrase .power), Opens d
  | .node .power (.cons base tail) => (opens_primary base).cons tail

theorem opens_product : ∀ d : Derivation (.phrase .product), Opens d
  | .node .product (.cons left tail) => (opens_power left).cons tail

theorem opens_sum : ∀ d : Derivation (.phrase .sum), Opens d
  | .node .sum (.cons left tail) => (opens_product left).cons tail

/-- An expression begins as expressions do. -/
theorem opens_exp : ∀ d : Derivation (.phrase .exp), Opens d
  | .node .exp (.cons left tail) => (opens_sum left).cons tail

theorem opens_argList : ∀ d : Derivation (.phrase .argList), Opens d
  | .node .argList (.cons e tail) => (opens_exp e).cons tail

/-- Parameters begin with a name. -/
theorem exists_kinds_paramList :
    ∀ d : Derivation (.phrase .paramList), ∃ ks, d.kinds = .ident :: ks
  | .node .paramList (.cons (.node .typed (.cons (.leaf ⟨_, _, _⟩ rfl) _)) _) => ⟨_, rfl⟩
  | .node .paramList (.cons (.node .untyped (.cons (.leaf ⟨_, _, _⟩ rfl) _)) _) => ⟨_, rfl⟩

/-- A relation begins with its first word. -/
theorem exists_kinds_relOp (d : Derivation (.phrase .relOp)) :
    ∃ ks, d.kinds = .keyword .is :: ks := by
  cases d with
  | node r parts => cases r <;> exact parts.exists_kinds

/-- The first token of a statement neither continues the statement before it nor
    ends the statements. -/
theorem exists_kinds_stmt (d : Derivation (.phrase .stmt)) :
    ∃ k ks, d.kinds = k :: ks ∧
      ∀ ks', Phrase.stmt.stops (k :: ks') = true ∧
        Phrase.stmts.predict (k :: ks') = some .moreStmts := by
  cases d with
  | node r parts =>
    cases r <;>
    · obtain ⟨ks, hks⟩ := parts.exists_kinds
      exact ⟨_, ks, hks, fun _ => ⟨rfl, rfl⟩⟩

/-! ## Parts stop -/

/-- An expression stops before the semicolon of its statement. -/
theorem stopped_semicolon :
    ∀ (ds : Derivations [.phrase .exp, .token .semicolon]) (ks : List Token.Kind), ds.Stopped ks
  | .cons _ (.cons (.leaf ⟨_, _, _⟩ rfl) .nil), _ => ⟨rfl, trivial⟩

/-- A phrase that stops before an opening brace stops before a block. -/
theorem stops_block {p : Phrase} (hp : ∀ ks, p.stops (.openBrace :: ks) = true) :
    ∀ {ss : List Symbol} (d : Derivation (.phrase .block)) (ds : Derivations ss)
      (ks : List Token.Kind), p.stops ((Derivations.cons d ds).kinds ++ ks) = true
  | _, .node .block (.cons (.leaf ⟨_, _, _⟩ rfl) _), _, _ => hp _

/-- Whatever stops a looser phrase stops the tighter ones in it. -/
theorem sumStops_of_expStops {ks : List Token.Kind} (h : expStops ks = true) :
    sumStops ks = true := by
  rw [expStops.eq_def] at h
  split at h
  · cases h
  · exact h

/-- What stops a sum stops a product. -/
theorem productStops_of_sumStops {ks : List Token.Kind} (h : sumStops ks = true) :
    productStops ks = true := by
  rw [sumStops.eq_def] at h
  split at h
  · cases h
  · cases h
  · exact h

/-- What stops a product stops a power. -/
theorem powerStops_of_productStops {ks : List Token.Kind} (h : productStops ks = true) :
    powerStops ks = true := by
  rw [productStops.eq_def] at h
  split at h
  · cases h
  · cases h
  · cases h
  · exact h

/-- What stops a power stops a primary expression. -/
theorem primaryStops_of_powerStops {ks : List Token.Kind} (h : powerStops ks = true) :
    primaryStops ks = true := by
  rw [powerStops.eq_def] at h
  split at h
  · cases h
  · exact h

/-- What stops a relation stops its end. -/
theorem orEqual_stops_of_relOp_stops {ks : List Token.Kind} (h : Phrase.relOp.stops ks = true) :
    Phrase.orEqual.stops ks = true := by
  dsimp only [Phrase.stops]
  split
  · cases h
  · rfl

/-- What stops arguments stops an expression. -/
theorem exp_stops_of_args_stops {ks : List Token.Kind} (h : Phrase.args.stops ks = true) :
    expStops ks = true :=
  match ks, h with
  | .closeParen :: _, _ => rfl
  | .closeSquare :: _, _ => rfl

/-- The words of a comparison stop before its second operand. -/
theorem relOp_stops (d : Derivation (.phrase .sum)) (ks : List Token.Kind) :
    Phrase.relOp.stops ((Derivations.cons d .nil).kinds ++ ks) = true := by
  obtain ⟨k, ks', hkinds, hk⟩ := (opens_sum d).cons .nil
  rw [hkinds]
  cases k with
  | keyword k => cases hk
  | _ => rfl

/-! The first operand of a comparison, a sum, a product or a power stops before
what is left of it, and so do the first of several arguments, parameters and
statements. -/

/-- A sum stops before the rest of an expression. -/
theorem sum_stops (d : Derivation (.phrase .expRest)) {ks : List Token.Kind}
    (h : expStops ks = true) : sumStops ((Derivations.cons d .nil).kinds ++ ks) = true :=
  match d with
  | .node .alone .nil => sumStops_of_expStops h
  | .node .compared (.cons op _) =>
    match op with
    | .node .greater (.cons (.leaf ⟨_, _, _⟩ rfl) _) => rfl
    | .node .less (.cons (.leaf ⟨_, _, _⟩ rfl) _) => rfl
    | .node .isNot (.cons (.leaf ⟨_, _, _⟩ rfl) _) => rfl
    | .node .is (.cons (.leaf ⟨_, _, _⟩ rfl) _) => rfl

/-- A product stops before the rest of a sum. -/
theorem product_stops (d : Derivation (.phrase .sumRest)) {ks : List Token.Kind}
    (h : sumStops ks = true) : productStops ((Derivations.cons d .nil).kinds ++ ks) = true :=
  match d with
  | .node .sumEnd .nil => productStops_of_sumStops h
  | .node .sumNext (.cons (.node .plus (.cons (.leaf ⟨_, _, _⟩ rfl) _)) _) => rfl
  | .node .sumNext (.cons (.node .minus (.cons (.leaf ⟨_, _, _⟩ rfl) _)) _) => rfl

/-- A power stops before the rest of a product. -/
theorem power_stops (d : Derivation (.phrase .productRest)) {ks : List Token.Kind}
    (h : productStops ks = true) : powerStops ((Derivations.cons d .nil).kinds ++ ks) = true :=
  match d with
  | .node .productEnd .nil => powerStops_of_productStops h
  | .node .productNext (.cons (.node .times (.cons (.leaf ⟨_, _, _⟩ rfl) _)) _) => rfl
  | .node .productNext (.cons (.node .dividedBy (.cons (.leaf ⟨_, _, _⟩ rfl) _)) _) => rfl
  | .node .productNext (.cons (.node .modulo (.cons (.leaf ⟨_, _, _⟩ rfl) _)) _) => rfl

/-- A primary expression stops before the rest of a power. -/
theorem primary_stops (d : Derivation (.phrase .powerRest)) {ks : List Token.Kind}
    (h : powerStops ks = true) : primaryStops ((Derivations.cons d .nil).kinds ++ ks) = true :=
  match d with
  | .node .noExponent .nil => primaryStops_of_powerStops h
  | .node .toThe (.cons (.leaf ⟨_, _, _⟩ rfl) _) => rfl

/-- An expression stops before further arguments. -/
theorem exp_stops (d : Derivation (.phrase .argRest)) {ks : List Token.Kind}
    (h : Phrase.args.stops ks = true) :
    expStops ((Derivations.cons d .nil).kinds ++ ks) = true :=
  match d with
  | .node .lastArg .nil => exp_stops_of_args_stops h
  | .node .nextArg (.cons (.leaf ⟨_, _, _⟩ rfl) _) => rfl

/-- A parameter stops before further parameters. -/
theorem param_stops (d : Derivation (.phrase .paramRest)) {ks : List Token.Kind}
    (h : Phrase.params.stops ks = true) :
    Phrase.param.stops ((Derivations.cons d .nil).kinds ++ ks) = true :=
  match d, ks, h with
  | .node .lastParam .nil, .closeParen :: _, _ => rfl
  | .node .nextParam (.cons (.leaf ⟨_, _, _⟩ rfl) _), _, _ => rfl

/-- A statement stops before further statements. -/
theorem stmt_stops (d : Derivation (.phrase .stmts)) {ks : List Token.Kind}
    (h : Phrase.stmts.stops ks = true) :
    Phrase.stmt.stops ((Derivations.cons d .nil).kinds ++ ks) = true := by
  match d, ks with
  | .node .noStmt .nil, [] => rfl
  | .node .noStmt .nil, .closeBrace :: _ => rfl
  | .node .moreStmts (.cons s ss), ks =>
    obtain ⟨k, ks', hkinds, hk⟩ := exists_kinds_stmt s
    change Phrase.stmt.stops
      ((Derivations.cons (.node .moreStmts (.cons s ss)) .nil).kinds ++ ks) = true
    have hcons : (Derivation.node .moreStmts (.cons s ss)).kinds = s.kinds ++ ss.kinds :=
      Derivations.kinds_cons s ss
    rw [Derivations.kinds_cons, hcons, hkinds]
    exact (hk _).1

/-- All parts of a statement stop if the statement does. -/
theorem stopped_stmt {ks : List Token.Kind} (h : Phrase.stmt.stops ks = true) :
    ∀ (r : Rule .stmt) (parts : Derivations r.parts), parts.Stopped ks
  | .make, .cons _ (.cons _ (.cons _ ds)) => stopped_semicolon ds ks
  | .constantlyMake, .cons _ (.cons _ (.cons _ (.cons _ ds))) => stopped_semicolon ds ks
  | .change, .cons _ (.cons _ (.cons _ ds)) => stopped_semicolon ds ks
  -- The word after `to` is a name here, and not the `the` of a power.
  | .add, .cons _ (.cons _ (.cons (.leaf ⟨_, _, _⟩ rfl) (.cons (.leaf ⟨_, _, _⟩ rfl) ds))) =>
    match ds with
    | .cons _ .nil => ⟨rfl, trivial⟩
  | .subtract, .cons _ (.cons _ (.cons (.leaf ⟨_, _, _⟩ rfl) (.cons _ (.cons _ .nil)))) =>
    ⟨rfl, trivial⟩
  | .multiply, .cons _ (.cons _ (.cons _ ds)) => stopped_semicolon ds ks
  | .divide, .cons _ (.cons _ (.cons _ ds)) => stopped_semicolon ds ks
  | .raise, .cons _ (.cons _ (.cons _ (.cons _ ds))) => stopped_semicolon ds ks
  | .mod, .cons _ (.cons _ (.cons _ ds)) => stopped_semicolon ds ks
  | .print, .cons _ ds => stopped_semicolon ds ks
  | .automate, .cons _ (.cons _ (.cons _ (.cons _ (.cons (.leaf ⟨_, _, _⟩ rfl) ds)))) =>
    match ds with
    | .cons _ (.cons body .nil) => ⟨rfl, stops_block (fun _ => rfl) body .nil ks, rfl, trivial⟩
  | .call, .cons _ (.cons _ (.cons _ (.cons (.leaf ⟨_, _, _⟩ rfl) (.cons _ .nil)))) =>
    ⟨rfl, trivial⟩
  | .output, .cons _ (.cons _ (.cons (.leaf ⟨_, _, _⟩ rfl) .nil)) => ⟨rfl, trivial⟩
  | .ifThen, .cons _ (.cons _ (.cons body (.cons alternate .nil))) =>
    ⟨stops_block (fun _ => rfl) body (.cons alternate .nil) ks, rfl, h, trivial⟩
  | .loopWhile, .cons _ (.cons _ (.cons _ (.cons body .nil))) =>
    ⟨stops_block (fun _ => rfl) body .nil ks, rfl, trivial⟩
  | .loopOver, .cons _ (.cons _ (.cons _ (.cons _ (.cons _ (.cons body .nil))))) =>
    ⟨stops_block (fun _ => rfl) body .nil ks, rfl, trivial⟩
  | .breakLoop, .cons _ (.cons _ .nil) => trivial

/-- If a phrase stops before what follows it, then so do all its parts. -/
theorem Derivations.stopped_of_stops :
    ∀ {p : Phrase} (r : Rule p) (parts : Derivations r.parts) {ks : List Token.Kind},
      p.stops ks = true → parts.Stopped ks
  | .stmt, r, parts, _, h => stopped_stmt h r parts
  | _, .noStmt, .nil, _, _ => trivial
  | _, .moreStmts, .cons _ (.cons ss .nil), _, h => ⟨stmt_stops ss h, h, trivial⟩
  | _, .noValue, .nil, _, _ => trivial
  | _, .value, .cons _ .nil, .semicolon :: _, _ => ⟨rfl, trivial⟩
  | _, .noAlternate, .nil, _, _ => trivial
  | _, .ifNot, .cons _ (.cons _ .nil), _, _ => ⟨rfl, trivial⟩
  | _, .block, .cons _ (.cons _ (.cons (.leaf ⟨_, _, _⟩ rfl) .nil)), _, _ => ⟨rfl, trivial⟩
  | _, .noParams, .nil, _, _ => trivial
  | _, .someParams, .cons _ .nil, _, h => ⟨h, trivial⟩
  | _, .paramList, .cons _ (.cons rest .nil), _, h => ⟨param_stops rest h, h, trivial⟩
  | _, .lastParam, .nil, _, _ => trivial
  | _, .nextParam, .cons _ (.cons _ (.cons rest .nil)), _, h => ⟨param_stops rest h, h, trivial⟩
  | _, .typed, .cons _ (.cons _ (.cons _ .nil)), _, _ => trivial
  | _, .untyped, .cons _ .nil, _, _ => trivial
  | _, .noType, .nil, _, _ => trivial
  | _, .arrow, .cons _ (.cons _ .nil), _, _ => trivial
  | _, .noArgs, .nil, _, _ => trivial
  | _, .someArgs, .cons _ .nil, _, h => ⟨h, trivial⟩
  | _, .argList, .cons _ (.cons rest .nil), _, h => ⟨exp_stops rest h, h, trivial⟩
  | _, .lastArg, .nil, _, _ => trivial
  | _, .nextArg, .cons _ (.cons _ (.cons rest .nil)), _, h => ⟨exp_stops rest h, h, trivial⟩
  | _, .exp, .cons _ (.cons rest .nil), _, h => ⟨sum_stops rest h, h, trivial⟩
  | _, .alone, .nil, _, _ => trivial
  | _, .compared, .cons _ (.cons right .nil), ks, h =>
    ⟨relOp_stops right ks, sumStops_of_expStops h, trivial⟩
  | _, .greater, .cons _ (.cons _ (.cons _ (.cons _ .nil))), _, h =>
    ⟨orEqual_stops_of_relOp_stops h, trivial⟩
  | _, .less, .cons _ (.cons _ (.cons _ (.cons _ .nil))), _, h =>
    ⟨orEqual_stops_of_relOp_stops h, trivial⟩
  | _, .isNot, .cons _ (.cons _ .nil), _, _ => trivial
  | _, .is, .cons _ .nil, _, _ => trivial
  | _, .strict, .nil, _, _ => trivial
  | _, .orEqualTo, .cons _ (.cons _ (.cons _ .nil)), _, _ => trivial
  | _, .sum, .cons _ (.cons rest .nil), _, h => ⟨product_stops rest h, h, trivial⟩
  | _, .sumEnd, .nil, _, _ => trivial
  | _, .sumNext, .cons _ (.cons _ (.cons rest .nil)), _, h =>
    ⟨rfl, product_stops rest h, h, trivial⟩
  | _, .plus, .cons _ .nil, _, _ => trivial
  | _, .minus, .cons _ .nil, _, _ => trivial
  | _, .product, .cons _ (.cons rest .nil), _, h => ⟨power_stops rest h, h, trivial⟩
  | _, .productEnd, .nil, _, _ => trivial
  | _, .productNext, .cons _ (.cons _ (.cons rest .nil)), _, h =>
    ⟨rfl, power_stops rest h, h, trivial⟩
  | _, .times, .cons _ .nil, _, _ => trivial
  | _, .dividedBy, .cons _ (.cons _ .nil), _, _ => trivial
  | _, .modulo, .cons _ .nil, _, _ => trivial
  | _, .power, .cons _ (.cons rest .nil), _, h => ⟨primary_stops rest h, h, trivial⟩
  | _, .noExponent, .nil, _, _ => trivial
  | _, .toThe, .cons _ (.cons _ (.cons _ .nil)), _, h => ⟨h, trivial⟩
  | _, .numeral, .cons _ .nil, _, _ => trivial
  | _, .word, .cons _ .nil, _, _ => trivial
  | _, .list, .cons _ (.cons _ (.cons (.leaf ⟨_, _, _⟩ rfl) .nil)), _, _ => ⟨rfl, trivial⟩
  | _, .callOf, .cons _ (.cons _ (.cons _ (.cons (.leaf ⟨_, _, _⟩ rfl) .nil))), _, _ =>
    ⟨rfl, trivial⟩
  | _, .name, .cons _ .nil, _, _ => trivial
  | _, .group, .cons _ (.cons _ (.cons (.leaf ⟨_, _, _⟩ rfl) .nil)), _, _ => ⟨rfl, trivial⟩

/-! ## Two tokens determine the rule -/

/-! What stops a phrase that may be left out makes the empty rule the right one. -/

theorem predict_alternate {ks : List Token.Kind} (h : Phrase.alternate.stops ks = true) :
    Phrase.alternate.predict ks = some .noAlternate := by
  dsimp only [Phrase.predict]
  split
  · cases h
  · rfl

theorem predict_outputType {ks : List Token.Kind} (h : Phrase.outputType.stops ks = true) :
    Phrase.outputType.predict ks = some .noType := by
  dsimp only [Phrase.predict]
  split
  · cases h
  · rfl

theorem predict_expRest {ks : List Token.Kind} (h : expStops ks = true) :
    Phrase.expRest.predict ks = some .alone := by
  dsimp only [Phrase.predict]
  split
  · cases h
  · rfl

theorem predict_orEqual {ks : List Token.Kind} (h : Phrase.orEqual.stops ks = true) :
    Phrase.orEqual.predict ks = some .strict := by
  dsimp only [Phrase.predict]
  split
  · cases h
  · rfl

theorem predict_sumRest {ks : List Token.Kind} (h : sumStops ks = true) :
    Phrase.sumRest.predict ks = some .sumEnd := by
  dsimp only [Phrase.predict]
  split
  · cases h
  · cases h
  · rfl

theorem predict_productRest {ks : List Token.Kind} (h : productStops ks = true) :
    Phrase.productRest.predict ks = some .productEnd := by
  dsimp only [Phrase.predict]
  split
  · cases h
  · cases h
  · cases h
  · rfl

theorem predict_powerRest {ks : List Token.Kind} (h : powerStops ks = true) :
    Phrase.powerRest.predict ks = some .noExponent := by
  dsimp only [Phrase.predict]
  split
  · cases h
  · rfl

/-- The word `is` by itself is the whole operator if no other word of a
    comparison follows. -/
theorem predict_is {ks : List Token.Kind} (h : Phrase.relOp.stops ks = true) :
    Phrase.relOp.predict (.keyword .is :: ks) = some .is := by
  dsimp only [Phrase.predict]
  split
  · next heq =>
    cases heq
    cases h
  · next heq =>
    cases heq
    cases h
  · next heq =>
    cases heq
    cases h
  · rfl

/-- A name that no type follows is a parameter without a type. -/
theorem predict_param {ks : List Token.Kind} (h : Phrase.param.stops ks = true) :
    Phrase.param.predict (.ident :: ks) = some .untyped := by
  dsimp only [Phrase.predict]
  split
  · next heq =>
    cases heq
    cases h
  · rfl

/-- A name that no call follows is a name. -/
theorem predict_name {ks : List Token.Kind} (h : primaryStops ks = true) :
    Phrase.primary.predict (.ident :: ks) = some .name :=
  match ks, h with
  | [], _ => rfl
  | k :: ks, h => by
    cases k with
    | openParen => cases h
    | _ => rfl

/-- A phrase that may be left out is there if an expression begins. -/
theorem predict_of_opens {k : Token.Kind} (hk : opensExp k = true) (ks : List Token.Kind) :
    Phrase.outputValue.predict (k :: ks) = some .value ∧
      Phrase.args.predict (k :: ks) = some .someArgs := by
  cases k with
  | semicolon | closeParen | closeSquare => cases hk
  | _ => exact ⟨rfl, rfl⟩

/-- The first two tokens of a statement determine its rule. -/
theorem predict_stmt :
    ∀ (r : Rule .stmt) (parts : Derivations r.parts) (ks : List Token.Kind),
      Phrase.stmt.predict (parts.kinds ++ ks) = some r
  | .make, .cons (.leaf ⟨_, _, _⟩ rfl) _, _ => rfl
  | .constantlyMake, .cons (.leaf ⟨_, _, _⟩ rfl) _, _ => rfl
  | .change, .cons (.leaf ⟨_, _, _⟩ rfl) _, _ => rfl
  | .add, .cons (.leaf ⟨_, _, _⟩ rfl) _, _ => rfl
  | .subtract, .cons (.leaf ⟨_, _, _⟩ rfl) _, _ => rfl
  | .multiply, .cons (.leaf ⟨_, _, _⟩ rfl) _, _ => rfl
  | .divide, .cons (.leaf ⟨_, _, _⟩ rfl) _, _ => rfl
  | .raise, .cons (.leaf ⟨_, _, _⟩ rfl) _, _ => rfl
  | .mod, .cons (.leaf ⟨_, _, _⟩ rfl) _, _ => rfl
  | .print, .cons (.leaf ⟨_, _, _⟩ rfl) _, _ => rfl
  | .automate, .cons (.leaf ⟨_, _, _⟩ rfl) _, _ => rfl
  | .call, .cons (.leaf ⟨_, _, _⟩ rfl) _, _ => rfl
  | .output, .cons (.leaf ⟨_, _, _⟩ rfl) _, _ => rfl
  | .ifThen, .cons (.leaf ⟨_, _, _⟩ rfl) _, _ => rfl
  | .loopWhile, .cons (.leaf ⟨_, _, _⟩ rfl) (.cons (.leaf ⟨_, _, _⟩ rfl) _), _ => rfl
  | .loopOver, .cons (.leaf ⟨_, _, _⟩ rfl) (.cons (.leaf ⟨_, _, _⟩ rfl) _), _ => rfl
  | .breakLoop, .cons (.leaf ⟨_, _, _⟩ rfl) _, _ => rfl

/-- The rule of a phrase is the one that its first two tokens, or those after it,
    call for. -/
theorem Derivations.predict_eq :
    ∀ {p : Phrase} (r : Rule p) (parts : Derivations r.parts) {ks : List Token.Kind},
      p.stops ks = true → p.predict (parts.kinds ++ ks) = some r
  | .stmt, r, parts, ks, _ => predict_stmt r parts ks
  | _, .noStmt, .nil, [], _ => rfl
  | _, .noStmt, .nil, .closeBrace :: _, _ => rfl
  | _, .moreStmts, .cons s ss, _, _ => by
    obtain ⟨k, ks', hkinds, hk⟩ := exists_kinds_stmt s
    rw [kinds_cons, hkinds]
    exact (hk _).2
  | _, .noValue, .nil, .semicolon :: _, _ => rfl
  | _, .value, .cons e .nil, _, _ => by
    obtain ⟨k, ks', hkinds, hk⟩ := (opens_exp e).cons .nil
    rw [hkinds]
    exact (predict_of_opens hk _).1
  | _, .noAlternate, .nil, _, h => predict_alternate h
  | _, .ifNot, .cons (.leaf ⟨_, _, _⟩ rfl) _, _, _ => rfl
  | _, .block, _, _, _ => rfl
  | _, .noParams, .nil, .closeParen :: _, _ => rfl
  | _, .someParams, .cons ps .nil, _, _ => by
    obtain ⟨ks', hkinds⟩ := exists_kinds_paramList ps
    rw [kinds_cons, hkinds]
    rfl
  | _, .paramList, _, _, _ => rfl
  | _, .lastParam, .nil, .closeParen :: _, _ => rfl
  | _, .nextParam, .cons (.leaf ⟨_, _, _⟩ rfl) _, _, _ => rfl
  | _, .typed, .cons (.leaf ⟨_, _, _⟩ rfl) (.cons (.leaf ⟨_, _, _⟩ rfl) _), _, _ => rfl
  | _, .untyped, .cons (.leaf ⟨_, _, _⟩ rfl) .nil, _, h => predict_param h
  | _, .noType, .nil, _, h => predict_outputType h
  | _, .arrow, .cons (.leaf ⟨_, _, _⟩ rfl) _, _, _ => rfl
  | _, .noArgs, .nil, .closeParen :: _, _ => rfl
  | _, .noArgs, .nil, .closeSquare :: _, _ => rfl
  | _, .someArgs, .cons es .nil, _, _ => by
    obtain ⟨k, ks', hkinds, hk⟩ := (opens_argList es).cons .nil
    rw [hkinds]
    exact (predict_of_opens hk _).2
  | _, .argList, _, _, _ => rfl
  | _, .lastArg, .nil, .closeParen :: _, _ => rfl
  | _, .lastArg, .nil, .closeSquare :: _, _ => rfl
  | _, .nextArg, .cons (.leaf ⟨_, _, _⟩ rfl) _, _, _ => rfl
  | _, .exp, _, _, _ => rfl
  | _, .alone, .nil, _, h => predict_expRest h
  | _, .compared, .cons op _, _, _ => by
    obtain ⟨ks', hkinds⟩ := exists_kinds_relOp op
    rw [kinds_cons, hkinds]
    rfl
  | _, .greater, .cons (.leaf ⟨_, _, _⟩ rfl) (.cons (.leaf ⟨_, _, _⟩ rfl) _), _, _ => rfl
  | _, .less, .cons (.leaf ⟨_, _, _⟩ rfl) (.cons (.leaf ⟨_, _, _⟩ rfl) _), _, _ => rfl
  | _, .isNot, .cons (.leaf ⟨_, _, _⟩ rfl) (.cons (.leaf ⟨_, _, _⟩ rfl) _), _, _ => rfl
  | _, .is, .cons (.leaf ⟨_, _, _⟩ rfl) .nil, _, h => predict_is h
  | _, .strict, .nil, _, h => predict_orEqual h
  | _, .orEqualTo, .cons (.leaf ⟨_, _, _⟩ rfl) _, _, _ => rfl
  | _, .sum, _, _, _ => rfl
  | _, .sumEnd, .nil, _, h => predict_sumRest h
  | _, .sumNext, .cons (.node .plus (.cons (.leaf ⟨_, _, _⟩ rfl) _)) _, _, _ => rfl
  | _, .sumNext, .cons (.node .minus (.cons (.leaf ⟨_, _, _⟩ rfl) _)) _, _, _ => rfl
  | _, .plus, .cons (.leaf ⟨_, _, _⟩ rfl) _, _, _ => rfl
  | _, .minus, .cons (.leaf ⟨_, _, _⟩ rfl) _, _, _ => rfl
  | _, .product, _, _, _ => rfl
  | _, .productEnd, .nil, _, h => predict_productRest h
  | _, .productNext, .cons (.node .times (.cons (.leaf ⟨_, _, _⟩ rfl) _)) _, _, _ => rfl
  | _, .productNext, .cons (.node .dividedBy (.cons (.leaf ⟨_, _, _⟩ rfl) _)) _, _, _ => rfl
  | _, .productNext, .cons (.node .modulo (.cons (.leaf ⟨_, _, _⟩ rfl) _)) _, _, _ => rfl
  | _, .times, .cons (.leaf ⟨_, _, _⟩ rfl) _, _, _ => rfl
  | _, .dividedBy, .cons (.leaf ⟨_, _, _⟩ rfl) _, _, _ => rfl
  | _, .modulo, .cons (.leaf ⟨_, _, _⟩ rfl) _, _, _ => rfl
  | _, .power, _, _, _ => rfl
  | _, .noExponent, .nil, _, h => predict_powerRest h
  | _, .toThe, .cons (.leaf ⟨_, _, _⟩ rfl) (.cons (.leaf ⟨_, _, _⟩ rfl) _), _, _ => rfl
  | _, .numeral, .cons (.leaf ⟨_, _, _⟩ rfl) _, _, _ => rfl
  | _, .word, .cons (.leaf ⟨_, _, _⟩ rfl) _, _, _ => rfl
  | _, .list, .cons (.leaf ⟨_, _, _⟩ rfl) _, _, _ => rfl
  | _, .callOf, .cons (.leaf ⟨_, _, _⟩ rfl) (.cons (.leaf ⟨_, _, _⟩ rfl) _), _, _ => rfl
  | _, .name, .cons (.leaf ⟨_, _, _⟩ rfl) .nil, _, h => predict_name h
  | _, .group, .cons (.leaf ⟨_, _, _⟩ rfl) _, _, _ => rfl

/-! ## Unique derivations -/

mutual

/-- Two derivations of a phrase from the beginning of the same tokens are the
    same, if the phrase stops before what each of them leaves. -/
theorem Derivation.eq_of_append_eq {p : Phrase} {ts ts' : List Token}
    (hs : p.stops (ts.map (·.kind)) = true) (hs' : p.stops (ts'.map (·.kind)) = true) :
    ∀ d d' : Derivation (.phrase p), d.tokens ++ ts = d'.tokens ++ ts' → d = d' ∧ ts = ts'
  | .node r parts, .node r' parts', heq => by
    have hkinds : parts.kinds ++ ts.map (·.kind) = parts'.kinds ++ ts'.map (·.kind) := by
      rw [Derivations.kinds, Derivations.kinds, ← List.map_append, ← List.map_append]
      exact congrArg _ heq
    -- The kinds of the tokens are all that a rule is chosen by, so the rules agree
    -- before anything is known about the parts.
    have hrule : some r = some r' := by
      rw [← parts.predict_eq r hs, hkinds, parts'.predict_eq r' hs']
    cases hrule
    obtain ⟨rfl, rfl⟩ := Derivations.eq_of_append_eq parts parts' (parts.stopped_of_stops r hs)
      (parts'.stopped_of_stops r hs') heq
    exact ⟨rfl, rfl⟩
termination_by d => sizeOf d

/-- Derivations of the same symbols from the same tokens are the same, if both stop. -/
theorem Derivations.eq_of_append_eq :
    ∀ {ss : List Symbol} (ds ds' : Derivations ss) {ts ts' : List Token},
      ds.Stopped (ts.map (·.kind)) → ds'.Stopped (ts'.map (·.kind)) →
      ds.tokens ++ ts = ds'.tokens ++ ts' → ds = ds' ∧ ts = ts'
  | [], .nil, .nil, _, _, _, _, heq => ⟨rfl, heq⟩
  | .token _ :: _, .cons (.leaf t _) tail, .cons (.leaf t' _) tail', _, _, hs, hs', heq => by
    obtain ⟨rfl, htail⟩ := List.cons.inj heq
    obtain ⟨rfl, rfl⟩ := Derivations.eq_of_append_eq tail tail' hs hs' htail
    exact ⟨rfl, rfl⟩
  | .phrase _ :: _, .cons head tail, .cons head' tail', ts, ts', hs, hs', heq => by
    rw [Derivations.tokens, Derivations.tokens, List.append_assoc, List.append_assoc] at heq
    -- What follows the head includes the tail, which may differ as yet; that the head
    -- stops before each of the two is enough.
    obtain ⟨rfl, htail⟩ := Derivation.eq_of_append_eq
      (by rw [List.map_append]; exact hs.1) (by rw [List.map_append]; exact hs'.1) head head' heq
    obtain ⟨rfl, rfl⟩ := Derivations.eq_of_append_eq tail tail' hs.2 hs'.2 htail
    exact ⟨rfl, rfl⟩
termination_by _ ds => sizeOf ds

end

/-- Tokens have at most one derivation as a program. -/
theorem Derivation.eq_of_tokens_eq {d d' : Derivation (.phrase .stmts)}
    (h : d.tokens = d'.tokens) : d = d' := by
  have hstops : Phrase.stmts.stops (([] : List Token).map (·.kind)) = true := rfl
  exact (Derivation.eq_of_append_eq hstops hstops d d' (congrArg (· ++ []) h)).1

end Toal.Grammar
