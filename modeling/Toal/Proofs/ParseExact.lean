import Toal.Proofs.ParseComplete

/-!
# Parsing follows the grammar

The tokens that are parsed are those that can be derived by the grammar, and what
is parsed is the tree of their only derivation (`parse_iff_derivation`). The
tokens need not come from a text; all that is asked of them is that the scanner
could have produced the numerals among them.
-/

namespace Toal.Surface

open Grammar

/-- The scanner produces a token of the same kind and with the same text
    somewhere. -/
def Scannable (t : Token) : Prop :=
  ∃ s place t', Scanner.next s = (.ok (some t'), place) ∧ t'.kind = t.kind ∧ t'.text = t.text

/-- A numeral that the scanner produces has a value. -/
theorem hasValue_of_scannable {t : Token} (h : t.kind = .numeral → Scannable t) : t.HasValue := by
  intro ht
  obtain ⟨s, place, t', hnext, hkind, htext⟩ := h ht
  rw [← htext]
  exact Scanner.hasValue_of_next hnext (hkind.trans ht)

/-- Parsing follows the grammar: tokens are parsed if and only if tokens of their
    kinds can be derived, and then they have one derivation, the tree of which is
    what is parsed. -/
theorem parse_iff_derivation (ts : List Token) (h : ∀ t ∈ ts, t.kind = .numeral → Scannable t) :
    ((∃ ss, parse ts = .ok ss) ↔
      ∃ d : Derivation (.phrase .stmts), d.kinds = ts.map (·.kind)) ∧
    ∀ ss, parse ts = .ok ss → ∃ d : Derivation (.phrase .stmts),
      (d.tokens = ts ∧ d.tree = ss) ∧
        ∀ d' : Derivation (.phrase .stmts), d'.tokens = ts → d' = d := by
  have hv : ∀ t ∈ ts, t.HasValue := fun t ht => hasValue_of_scannable (h t ht)
  have hsound : ∀ ss, parse ts = .ok ss →
      ∃ d : Derivation (.phrase .stmts), d.tokens = ts ∧ d.tree = ss := by
    intro ss hss
    obtain ⟨d, htokens, htree⟩ := parse_sound ts hss
    exact ⟨d, (List.append_nil _).symm.trans htokens, htree⟩
  refine ⟨⟨?_, ?_⟩, ?_⟩
  · rintro ⟨ss, hss⟩
    obtain ⟨d, rfl, -⟩ := hsound ss hss
    exact ⟨d, rfl⟩
  · rintro ⟨d, hd⟩
    obtain ⟨d', rfl⟩ := d.exists_tokens_eq hd
    exact ⟨d'.tree, parse_complete d' hv⟩
  · intro ss hss
    obtain ⟨d, htokens, htree⟩ := hsound ss hss
    refine ⟨d, ⟨htokens, htree⟩, fun d' hd' => ?_⟩
    exact Derivation.eq_of_tokens_eq (hd'.trans htokens.symm)

/-- The tokens of `add 2 to the 3 to x;`. -/
def addTokens : List Token :=
  [⟨.keyword .add, "add", ⟨0, 3⟩⟩, ⟨.numeral, "2", ⟨4, 5⟩⟩, ⟨.keyword .to_, "to", ⟨6, 8⟩⟩,
    ⟨.keyword .the, "the", ⟨9, 12⟩⟩, ⟨.numeral, "3", ⟨13, 14⟩⟩, ⟨.keyword .to_, "to", ⟨15, 17⟩⟩,
    ⟨.ident, "x", ⟨18, 19⟩⟩, ⟨.semicolon, ";", ⟨19, 20⟩⟩]

/-- Their derivation, in which the first `to` belongs to the power and the second does
    not. -/
def addDerivation : Derivation (.phrase .stmts) :=
  let power (base : Token) (h : base.kind = .numeral) (rest : Derivation (.phrase .powerRest)) :
      Derivation (.phrase .power) :=
    .node .power (.cons (.node .numeral (.cons (.leaf base h) .nil)) (.cons rest .nil))
  let toThe : Derivation (.phrase .powerRest) :=
    .node .toThe (.cons (.leaf ⟨.keyword .to_, "to", ⟨6, 8⟩⟩ rfl)
      (.cons (.leaf ⟨.keyword .the, "the", ⟨9, 12⟩⟩ rfl)
        (.cons (power ⟨.numeral, "3", ⟨13, 14⟩⟩ rfl (.node .noExponent .nil)) .nil)))
  let product : Derivation (.phrase .product) :=
    .node .product (.cons (power ⟨.numeral, "2", ⟨4, 5⟩⟩ rfl toThe)
      (.cons (.node .productEnd .nil) .nil))
  let exp : Derivation (.phrase .exp) :=
    .node .exp (.cons (.node .sum (.cons product (.cons (.node .sumEnd .nil) .nil)))
      (.cons (.node .alone .nil) .nil))
  let stmt : Derivation (.phrase .stmt) :=
    .node .add (.cons (.leaf ⟨.keyword .add, "add", ⟨0, 3⟩⟩ rfl)
      (.cons exp (.cons (.leaf ⟨.keyword .to_, "to", ⟨15, 17⟩⟩ rfl)
        (.cons (.leaf ⟨.ident, "x", ⟨18, 19⟩⟩ rfl)
          (.cons (.leaf ⟨.semicolon, ";", ⟨19, 20⟩⟩ rfl) .nil)))))
  .node .moreStmts (.cons stmt (.cons (.node .noStmt .nil) .nil))

/-- Its tree. -/
def addStmts : List Stmt :=
  [.change .add ⟨"x", ⟨18, 19⟩⟩
    (.binary (.arith .pow) (.number 2 ⟨4, 5⟩) (.number 3 ⟨13, 14⟩) ⟨4, 14⟩) ⟨0, 20⟩]

/-- The power is what is added. -/
theorem parse_iff_derivation_add :
    (∀ t ∈ addTokens, t.kind = .numeral → Scannable t) ∧
      addDerivation.tokens = addTokens ∧ addDerivation.tree = addStmts ∧
      parse addTokens = .ok addStmts ∧
      ∀ d : Derivation (.phrase .stmts), d.tokens = addTokens → d = addDerivation := by
  have hscan : ∀ t ∈ addTokens, t.kind = .numeral → Scannable t := by
    have htwo : Scanner.next ⟨4, ['2']⟩ = (.ok (some ⟨.numeral, "2", ⟨4, 5⟩⟩), ⟨5, []⟩) := by
      rw [Scanner.next]
      rfl
    have hthree : Scanner.next ⟨13, ['3']⟩ = (.ok (some ⟨.numeral, "3", ⟨13, 14⟩⟩), ⟨14, []⟩) := by
      rw [Scanner.next]
      rfl
    simp only [addTokens, List.forall_mem_cons, reduceCtorEq, false_implies, true_implies,
      true_and, List.not_mem_nil, implies_true, and_true]
    exact ⟨⟨_, _, _, htwo, rfl, rfl⟩, ⟨_, _, _, hthree, rfl, rfl⟩⟩
  have htokens : addDerivation.tokens = addTokens := rfl
  have htree : addDerivation.tree = addStmts := by
    have htwo : Number.numeralValue? "2".toList = some 2 := by decide +kernel
    have hthree : Number.numeralValue? "3".toList = some 3 := by decide +kernel
    simp only [addDerivation, Derivation.tree, Derivations.trees, Rule.tree, htwo, hthree]
    rfl
  obtain ⟨hparses, honly⟩ := parse_iff_derivation addTokens hscan
  obtain ⟨ss, hss⟩ := hparses.2 ⟨addDerivation, rfl⟩
  obtain ⟨d, ⟨-, rfl⟩, hunique⟩ := honly ss hss
  obtain rfl := hunique addDerivation htokens
  exact ⟨hscan, htokens, htree, hss.trans (congrArg _ htree), hunique⟩

end Toal.Surface
