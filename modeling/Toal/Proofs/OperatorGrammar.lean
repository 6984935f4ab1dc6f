import Toal.Proofs.TermGrammar

/-!
# How scripts group operators

The grammar of the expressions that occur in scripts, over symbols that are atoms,
operators, brackets and commas (`Parses`). Expressions have levels, from the loosest to
the tightest:

* `0`: equality, `1`: order, `2`: sums, `3`: products, all of which group to the
  left;
* `4`: powers, which group to the right and whose base is of level `6`;
* `5`: signs;
* `6`: atoms, groups in parentheses, lists in square brackets, and calls.

A tree is a way to read symbols if they are its own and its operands have the levels
that their operators ask for (`Tree.Grouped`, `parses_iff`). There is no other way to read
them (`parses_symbols_iff`): a tree is a term (`Tree.term`) with the same symbols for marks,
and marks can be read in one way only.
-/

namespace Toal.Script

/-! ## Trees and symbols -/

/-- The signs in front of an expression. -/
inductive Sign
  | plus
  | minus
deriving DecidableEq

/-- The operator that is written like a sign. -/
def Sign.op : Sign → BinOp
  | plus => .arith .add
  | minus => .arith .sub

/-- How an expression is read. -/
inductive Tree
  | atom (text : String)
  | group (inner : Tree)
  | array (elements : List Tree)
  | call (callee : Tree) (args : List Tree)
  | sign (s : Sign) (operand : Tree)
  | binary (op : BinOp) (left right : Tree)

/-- The symbols that expressions are written with. -/
inductive Sym
  | atom (text : String)
  | op (op : BinOp)
  | openParen
  | closeParen
  | openSquare
  | closeSquare
  | comma
deriving DecidableEq

/-! ## The grammar -/

mutual

/-- The symbols are an expression of the given level that is read as the tree. -/
inductive Parses : Nat → List Sym → Tree → Prop
  | loosen {level ss t} : level < 6 → Parses (level + 1) ss t → Parses level ss t
  | binary {op ls rs l r} : Parses (BinOp.leftLevel op) ls l → Parses (BinOp.rightLevel op) rs r →
      Parses (BinOp.level op) (ls ++ .op op :: rs) (.binary op l r)
  | sign {s ss t} : Parses 5 ss t → Parses 5 (.op (Sign.op s) :: ss) (.sign s t)
  | atom {text} : Parses 6 [.atom text] (.atom text)
  | group {ss t} : Parses 0 ss t → Parses 6 (.openParen :: ss ++ [.closeParen]) (.group t)
  | noElement : Parses 6 [.openSquare, .closeSquare] (.array [])
  | array {ss ts} : ParsesAll ss ts → Parses 6 (.openSquare :: ss ++ [.closeSquare]) (.array ts)
  | noArg {fs f} : Parses 6 fs f → Parses 6 (fs ++ [.openParen, .closeParen]) (.call f [])
  | call {fs f ss ts} : Parses 6 fs f → ParsesAll ss ts →
      Parses 6 (fs ++ (.openParen :: ss ++ [.closeParen])) (.call f ts)

/-- The symbols are expressions of any level, separated by commas. -/
inductive ParsesAll : List Sym → List Tree → Prop
  | last {ss t} : Parses 0 ss t → ParsesAll ss [t]
  | next {ss t ss' ts} : Parses 0 ss t → ParsesAll ss' ts →
      ParsesAll (ss ++ .comma :: ss') (t :: ts)

end

/-- What parses at a level parses at a looser one. -/
theorem Parses.mono {level level' : Nat} {ss : List Sym} {t : Tree} (h : Parses level ss t)
    (hlevel : level ≤ 6) (hle : level' ≤ level) : Parses level' ss t := by
  induction level with
  | zero => rwa [Nat.le_zero.1 hle]
  | succ n ih =>
    rcases Nat.lt_or_eq_of_le hle with hlt | rfl
    · exact ih (.loosen (by omega) h) (by omega) (by omega)
    · exact h

namespace Tree

/-- The level of a tree. -/
def level : Tree → Nat
  | .binary op _ _ => op.level
  | .sign _ _ => 5
  | _ => 6

theorem level_le (t : Tree) : t.level ≤ 6 := by
  cases t with
  | binary op l r => exact Nat.le_trans op.level_le (by decide)
  | _ => exact Nat.le_of_ble_eq_true rfl

mutual

/-- The symbols of a tree. -/
def symbols : Tree → List Sym
  | .atom text => [.atom text]
  | .group inner => .openParen :: inner.symbols ++ [.closeParen]
  | .array elements => .openSquare :: symbolsAll elements ++ [.closeSquare]
  | .call callee args => callee.symbols ++ (.openParen :: symbolsAll args ++ [.closeParen])
  | .sign s operand => .op s.op :: operand.symbols
  | .binary op left right => left.symbols ++ .op op :: right.symbols

/-- The symbols of trees, separated by commas. -/
def symbolsAll : List Tree → List Sym
  | [] => []
  | [t] => t.symbols
  | t :: ts => t.symbols ++ .comma :: symbolsAll ts

end

mutual

/-- All operands have the levels that their operators ask for. -/
def Grouped : Tree → Prop
  | .atom _ => True
  | .group inner => inner.Grouped
  | .array elements => GroupedAll elements
  | .call callee args => 6 ≤ callee.level ∧ callee.Grouped ∧ GroupedAll args
  | .sign _ operand => 5 ≤ operand.level ∧ operand.Grouped
  | .binary op left right =>
    op.leftLevel ≤ left.level ∧ op.rightLevel ≤ right.level ∧ left.Grouped ∧ right.Grouped

/-- All operands in the trees have the levels that their operators ask for. -/
def GroupedAll : List Tree → Prop
  | [] => True
  | t :: ts => t.Grouped ∧ GroupedAll ts

end

mutual

/-- A tree is one way to read its symbols. -/
theorem parses_symbols : ∀ {t : Tree} {level : Nat}, t.Grouped → level ≤ t.level →
    Parses level t.symbols t
  | .atom text, level, _, hle => Parses.atom.mono (by decide) hle
  | .group inner, level, h, hle =>
    (Parses.group (parses_symbols (t := inner) h (Nat.zero_le _))).mono (by decide) hle
  | .array [], level, _, hle => Parses.noElement.mono (by decide) hle
  | .array (t :: ts), level, h, hle =>
    (Parses.array (parsesAll_symbols (show GroupedAll (t :: ts) from h) (by simp))).mono
      (by decide) hle
  | .call callee [], level, h, hle =>
    (Parses.noArg (parses_symbols h.2.1 h.1)).mono (by decide) hle
  | .call callee (t :: ts), level, h, hle =>
    (Parses.call (parses_symbols h.2.1 h.1)
      (parsesAll_symbols (show GroupedAll (t :: ts) from h.2.2) (by simp))).mono (by decide) hle
  | .sign s operand, level, h, hle =>
    (Parses.sign (parses_symbols h.2 h.1)).mono (by decide) hle
  | .binary op left right, level, h, hle =>
    (Parses.binary (parses_symbols h.2.2.1 h.1) (parses_symbols h.2.2.2 h.2.1)).mono
      (level_le (.binary op left right)) hle

/-- Grouped trees parse from their symbols, with commas between them. -/
theorem parsesAll_symbols : ∀ {ts : List Tree}, GroupedAll ts → ts ≠ [] →
    ParsesAll (symbolsAll ts) ts
  | [], _, hne => absurd rfl hne
  | [t], h, _ => .last (parses_symbols h.1 (Nat.zero_le _))
  | t :: u :: us, h, _ =>
    .next (parses_symbols h.1 (Nat.zero_le _)) (parsesAll_symbols h.2 (by simp))

end

end Tree

mutual

/-- What is read as a tree are the symbols of the tree. -/
theorem Parses.grouped : ∀ {level : Nat} {ss : List Sym} {t : Tree}, Parses level ss t →
    ss = t.symbols ∧ level ≤ t.level ∧ t.Grouped
  | _, _, _, .loosen _ h =>
    have ⟨hss, hle, ht⟩ := h.grouped
    ⟨hss, Nat.le_of_succ_le hle, ht⟩
  | _, _, _, .binary hl hr => by
    obtain ⟨rfl, hleft, hl⟩ := hl.grouped
    obtain ⟨rfl, hright, hr⟩ := hr.grouped
    exact ⟨rfl, Nat.le_refl _, hleft, hright, hl, hr⟩
  | _, _, _, .sign h => by
    obtain ⟨rfl, hle, ht⟩ := h.grouped
    exact ⟨rfl, Nat.le_refl _, hle, ht⟩
  | _, _, _, .atom => ⟨rfl, Nat.le_refl _, trivial⟩
  | _, _, _, .group h => by
    obtain ⟨rfl, -, ht⟩ := h.grouped
    exact ⟨rfl, Nat.le_refl _, ht⟩
  | _, _, _, .noElement => ⟨rfl, Nat.le_refl _, trivial⟩
  | _, _, _, .array h => by
    obtain ⟨rfl, hts, -⟩ := h.grouped
    exact ⟨rfl, Nat.le_refl _, hts⟩
  | _, _, _, .noArg hf => by
    obtain ⟨rfl, hle, hf⟩ := hf.grouped
    exact ⟨rfl, Nat.le_refl _, hle, hf, trivial⟩
  | _, _, _, .call hf h => by
    obtain ⟨rfl, hle, hf⟩ := hf.grouped
    obtain ⟨rfl, hts, -⟩ := h.grouped
    exact ⟨rfl, Nat.le_refl _, hle, hf, hts⟩

/-- What parses as a list is grouped, and its symbols are those that were parsed. -/
theorem ParsesAll.grouped : ∀ {ss : List Sym} {ts : List Tree}, ParsesAll ss ts →
    ss = Tree.symbolsAll ts ∧ Tree.GroupedAll ts ∧ ts ≠ []
  | _, _, .last h => by
    obtain ⟨rfl, -, ht⟩ := h.grouped
    exact ⟨rfl, ⟨ht, trivial⟩, nofun⟩
  | _, _, .next h hs => by
    obtain ⟨rfl, -, ht⟩ := h.grouped
    obtain ⟨rfl, hts, hne⟩ := hs.grouped
    obtain ⟨u, us, rfl⟩ := List.exists_cons_of_ne_nil hne
    exact ⟨rfl, ⟨ht, hts⟩, nofun⟩

end

/-- A tree is a way to read symbols just if they are its own and it is grouped as its
    operators ask for. -/
theorem parses_iff {ss : List Sym} {t : Tree} : Parses 0 ss t ↔ ss = t.symbols ∧ t.Grouped := by
  constructor
  · intro h
    exact ⟨h.grouped.1, h.grouped.2.2⟩
  · rintro ⟨rfl, h⟩
    exact Tree.parses_symbols h (Nat.zero_le _)

/-! ## Trees are terms -/

/-- The sign as a mark in front of an operand. -/
def Sign.unary : Sign → Unary
  | plus => .plus
  | minus => .minus

/-- The symbol as a mark of terms. Atoms count as names. -/
def Sym.mark : Sym → Mark
  | .atom text => .name text
  | .op o => .op o
  | .openParen => .openParen
  | .closeParen => .closeParen
  | .openSquare => .openSquare
  | .closeSquare => .closeSquare
  | .comma => .comma

theorem Sign.unary_injective {s s' : Sign} (h : s.unary = s'.unary) : s = s' := by
  cases s with
  | plus =>
    cases s' with
    | plus => rfl
    | minus => cases h
  | minus =>
    cases s' with
    | plus => cases h
    | minus => rfl

theorem Sign.mark_unary (s : Sign) : s.unary.mark = (Sym.op s.op).mark := by
  cases s <;> rfl

namespace Tree

mutual

/-- The tree as a term. -/
def term : Tree → Term
  | .atom text => .name text
  | .group inner => .group inner.term
  | .array elements => .array (terms elements)
  | .call callee args => .call callee.term (terms args)
  | .sign s operand => .unary s.unary operand.term
  | .binary op left right => .binary op left.term right.term

/-- The trees as terms. -/
def terms : List Tree → List Term
  | [] => []
  | t :: ts => t.term :: terms ts

end

/-- A tree is one level below its term, as terms have one more. -/
theorem level_term (t : Tree) : t.term.level = t.level + 1 := by
  cases t <;> rfl

mutual

/-- The marks of the term are the symbols of the tree. -/
theorem marks_term : ∀ t : Tree, t.term.marks = t.symbols.map Sym.mark
  | .atom _ => rfl
  | .group inner => by
    simp only [term, Term.marks, symbols, marks_term inner, List.cons_append, List.map_cons,
      List.map_append, List.map_nil, Sym.mark]
  | .array elements => by
    simp only [term, Term.marks, symbols, marksAll_terms elements, List.cons_append, List.map_cons,
      List.map_append, List.map_nil, Sym.mark]
  | .call callee args => by
    simp only [term, Term.marks, symbols, marks_term callee, marksAll_terms args, List.cons_append,
      List.map_cons, List.map_append, List.map_nil, Sym.mark]
  | .sign s operand => by
    rw [term, Term.marks, symbols, marks_term operand, List.map_cons, s.mark_unary]
  | .binary op left right => by
    simp only [term, Term.marks, symbols, marks_term left, marks_term right, List.map_cons,
      List.map_append, Sym.mark]

/-- The marks of terms are the symbols of the trees. -/
theorem marksAll_terms : ∀ ts : List Tree, Term.marksAll (terms ts) = (symbolsAll ts).map Sym.mark
  | [] => rfl
  | [t] => marks_term t
  | t :: u :: us => by
    have hrest := marksAll_terms (u :: us)
    simp only [terms, Term.marksAll, symbolsAll, List.map_append, List.map_cons, Sym.mark]
      at hrest ⊢
    rw [marks_term t, hrest]

end

mutual

/-- The parts of the term have the levels that are asked for if those of the tree do. -/
theorem grouped_term : ∀ {t : Tree}, t.Grouped → t.term.Grouped
  | .atom _, _ => trivial
  | .group inner, h => grouped_term (t := inner) h
  | .array elements, h => groupedAll_terms h
  | .call callee args, ⟨hle, hcallee, hargs⟩ => by
    refine ⟨?_, grouped_term hcallee, groupedAll_terms hargs⟩
    rw [level_term, Nat.le_antisymm callee.level_le hle]
  | .sign s operand, ⟨hle, h⟩ => ⟨by rw [level_term]; exact Nat.succ_le_succ hle, grouped_term h⟩
  | .binary op left right, ⟨hl, hr, hleft, hright⟩ => by
    refine ⟨?_, ?_, grouped_term hleft, grouped_term hright⟩
    · rw [level_term]
      exact Nat.lt_succ_of_le hl
    · rw [level_term]
      exact Nat.lt_succ_of_le hr

/-- The terms of grouped trees are grouped. -/
theorem groupedAll_terms : ∀ {ts : List Tree}, GroupedAll ts → Term.GroupedAll (terms ts)
  | [], _ => trivial
  | _ :: _, h => ⟨grouped_term h.1, groupedAll_terms h.2⟩

end

mutual

/-- No two trees are the same term. -/
theorem term_injective : ∀ {t t' : Tree}, t.term = t'.term → t = t'
  | .atom _, t', h => by
    cases t' with
    | atom _ => rw [Term.name.inj h]
    | _ => cases h
  | .group inner, t', h => by
    cases t' with
    | group inner' => rw [term_injective (Term.group.inj h)]
    | _ => cases h
  | .array elements, t', h => by
    cases t' with
    | array elements' => rw [terms_injective (Term.array.inj h)]
    | _ => cases h
  | .call callee args, t', h => by
    cases t' with
    | call callee' args' =>
      obtain ⟨hcallee, hargs⟩ := Term.call.inj h
      rw [term_injective hcallee, terms_injective hargs]
    | _ => cases h
  | .sign s operand, t', h => by
    cases t' with
    | sign s' operand' =>
      obtain ⟨hs, hoperand⟩ := Term.unary.inj h
      rw [Sign.unary_injective hs, term_injective hoperand]
    | _ => cases h
  | .binary op left right, t', h => by
    cases t' with
    | binary op' left' right' =>
      obtain ⟨rfl, hleft, hright⟩ := Term.binary.inj h
      rw [term_injective hleft, term_injective hright]
    | _ => cases h

/-- Different lists of trees have different terms. -/
theorem terms_injective : ∀ {ts ts' : List Tree}, terms ts = terms ts' → ts = ts'
  | [], ts', h => by
    cases ts' with
    | nil => rfl
    | cons _ _ => cases h
  | t :: ts, ts', h => by
    cases ts' with
    | nil => cases h
    | cons t' ts' =>
      obtain ⟨ht, hts⟩ := List.cons.inj h
      rw [term_injective ht, terms_injective hts]

end

end Tree

/-- A tree that is grouped as its operators ask for is the only way to read its
    symbols. -/
theorem parses_symbols_iff {t t' : Tree} (h : t.Grouped) : Parses 0 t.symbols t' ↔ t' = t := by
  constructor
  · intro h'
    obtain ⟨hsymbols, hgrouped⟩ := parses_iff.1 h'
    have hmarks : t'.term.marks = t.term.marks := by
      rw [t'.marks_term, t.marks_term, hsymbols]
    exact Tree.term_injective
      (Term.eq_of_marks_eq (Tree.grouped_term hgrouped) (Tree.grouped_term h) hmarks)
  · rintro rfl
    exact parses_iff.2 ⟨rfl, h⟩

end Toal.Script
