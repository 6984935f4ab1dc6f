import Toal.Program.Simplify
import Mathlib.Data.List.Basic

/-!
# Normal forms

An expression is *folded* if none of its constants, operators and parentheses can be
replaced by a value (`Expr.Folded`). Simplifying an expression once leaves nothing to
fold (`Expr.folded_simplify`), and it does nothing to an expression that is folded
(`Expr.simplify_eq_pure`).

A statement is *settled* if its expressions are folded and no test says before the program
runs what becomes of it (`Stmt.Settled`). All statements that simplifying leaves are
settled (`settled_simplifyStmts`), in whatever list they stand. If none of these lists goes
on after a `break` or an `output`, settled statements are not changed any more
(`simplifyStmts_eq_pure`).
-/

namespace Toal.Program

variable {p : Passes}

/-! ## Folded expressions -/

/-- Whether the expression is a value, as it is written down. -/
def Expr.isLiteral : Expr → Bool
  | .num _ | .bool _ | .word _ => true
  | .list _ | .var _ | .auto _ | .arith .. | .compare .. | .paren _ | .call .. => false

mutual

/-- No constant in the expression can be replaced by its value, no operator can be
    evaluated, and no parentheses can be left out. -/
def Expr.Folded : Expr → Prop
  | .num _ => True
  | .bool _ => True
  | .word _ => True
  | .auto _ => True
  | .list elements => exprsFolded elements
  | .var v => truth? v = none
  | .arith op left right =>
    left.Folded ∧ right.Folded ∧
      ∀ x y, left = .num x → right = .num y → evalArith op x y = none
  | .compare op left right => left.Folded ∧ right.Folded ∧ evalCompare op left right = none
  | .paren inner => inner.Folded ∧ inner.isLiteral = false
  | .call _ args => exprsFolded args

/-- The expressions are folded. -/
def exprsFolded : List Expr → Prop
  | [] => True
  | e :: es => e.Folded ∧ exprsFolded es

end

/-- Expressions are folded if each of them is. -/
theorem exprsFolded_iff {es : List Expr} : exprsFolded es ↔ ∀ e ∈ es, e.Folded := by
  induction es with
  | nil => exact iff_of_true trivial (List.forall_mem_nil _)
  | cons e es ih => rw [exprsFolded, ih, List.forall_mem_cons]

/-- A folded variable is folded. -/
theorem folded_foldVar (v : Variable) : (foldVar v).Folded := by
  unfold foldVar
  cases h : truth? v with
  | some b => trivial
  | none => exact h

/-- Folding an operation between folded operands leaves a folded expression. -/
theorem folded_foldArith (op : ArithOp) {left right : Expr} (hl : left.Folded)
    (hr : right.Folded) : (foldArith op left right).value.Folded := by
  unfold foldArith
  split
  · next x y =>
    cases h : evalArith op x y with
    | some value => trivial
    | none =>
      refine ⟨trivial, trivial, fun x' y' hx hy => ?_⟩
      cases hx
      cases hy
      exact h
  · next hnum => exact ⟨hl, hr, fun x y hx hy => (hnum x y hx hy).elim⟩

/-- Folding a comparison between folded operands leaves a folded expression. -/
theorem folded_foldCompare (op : CompareOp) {left right : Expr} (hl : left.Folded)
    (hr : right.Folded) : (foldCompare op left right).value.Folded := by
  unfold foldCompare
  cases h : evalCompare op left right with
  | some value => trivial
  | none => exact ⟨hl, hr, h⟩

/-- Parentheses around a folded expression are folded. -/
theorem folded_foldParen {inner : Expr} (h : inner.Folded) : (foldParen inner).Folded := by
  cases inner with
  | num _ | bool _ | word _ => exact h
  | list _ | var _ | auto _ | arith _ _ _ | compare _ _ _ | paren _ | call _ _ => exact ⟨h, rfl⟩

mutual

/-- An expression that has been simplified is folded. -/
theorem Expr.folded_simplify (hp : p.fold = true) : ∀ e : Expr, (e.simplify p).value.Folded
  | .num _ | .bool _ | .word _ | .auto _ => by
    rw [Expr.simplify]
    trivial
  | .var v => by
    rw [Expr.simplify, Reduced.value_pure, if_pos hp]
    exact folded_foldVar v
  | .list elements => by
    rw [Expr.simplify]
    exact folded_simplifyExprs hp elements
  | .arith op left right => by
    rw [Expr.simplify, Reduced.value_bind, Reduced.value_bind, if_pos hp]
    exact folded_foldArith op (left.folded_simplify hp) (right.folded_simplify hp)
  | .compare op left right => by
    rw [Expr.simplify, Reduced.value_bind, Reduced.value_bind, if_pos hp]
    exact folded_foldCompare op (left.folded_simplify hp) (right.folded_simplify hp)
  | .paren inner => by
    rw [Expr.simplify, Reduced.value_bind, Reduced.value_pure, if_pos hp]
    exact folded_foldParen (inner.folded_simplify hp)
  | .call callee args => by
    rw [Expr.simplify]
    exact folded_simplifyExprs hp args

/-- Simplifying leaves folded expressions. -/
theorem folded_simplifyExprs (hp : p.fold = true) :
    ∀ es : List Expr, exprsFolded (simplifyExprs p es).value
  | [] => by
    rw [simplifyExprs]
    trivial
  | e :: es => by
    rw [simplifyExprs]
    exact ⟨e.folded_simplify hp, folded_simplifyExprs hp es⟩

end

/-- Parentheses stay around what is not a literal. -/
theorem foldParen_of_not_literal {inner : Expr} (h : inner.isLiteral = false) :
    foldParen inner = .paren inner := by
  cases inner with
  | num _ | bool _ | word _ => cases h
  | list _ | var _ | auto _ | arith _ _ _ | compare _ _ _ | paren _ | call _ _ => rfl

/-- An operation without a value stays. -/
theorem foldArith_of_eval {op : ArithOp} {left right : Expr}
    (h : ∀ x y, left = .num x → right = .num y → evalArith op x y = none) :
    foldArith op left right = pure (.arith op left right) := by
  unfold foldArith
  split
  · next x y => rw [h x y rfl rfl]
  · rfl

theorem Reduced.pure_bind {α β : Type} (a : α) (f : α → Reduced β) : (pure a >>= f) = f a := rfl

mutual

/-- A folded expression is not changed any more, and without folding none is. -/
theorem Expr.simplify_eq_pure :
    ∀ e : Expr, (p.fold = true → e.Folded) → e.simplify p = pure e
  | .num _, _ | .bool _, _ | .word _, _ | .auto _, _ => by rw [Expr.simplify]
  | .var v, h => by
    rw [Expr.simplify]
    cases hp : p.fold with
    | false => rfl
    | true =>
      have hv : truth? v = none := h hp
      rw [if_pos rfl, foldVar, hv]
  | .list elements, h => by
    rw [Expr.simplify, simplifyExprs_eq_pure elements h]
    rfl
  | .arith op left right, h => by
    rw [Expr.simplify, left.simplify_eq_pure fun hp => (h hp).1, Reduced.pure_bind,
      right.simplify_eq_pure fun hp => (h hp).2.1, Reduced.pure_bind]
    cases hp : p.fold with
    | false => rfl
    | true => exact foldArith_of_eval (h hp).2.2
  | .compare op left right, h => by
    rw [Expr.simplify, left.simplify_eq_pure fun hp => (h hp).1, Reduced.pure_bind,
      right.simplify_eq_pure fun hp => (h hp).2.1, Reduced.pure_bind]
    cases hp : p.fold with
    | false => rfl
    | true => rw [if_pos rfl, foldCompare, (h hp).2.2]
  | .paren inner, h => by
    rw [Expr.simplify, inner.simplify_eq_pure fun hp => (h hp).1, Reduced.pure_bind]
    cases hp : p.fold with
    | false => rfl
    | true => rw [if_pos rfl, foldParen_of_not_literal (h hp).2]
  | .call callee args, h => by
    rw [Expr.simplify, simplifyExprs_eq_pure args h]
    rfl

/-- Folded expressions stay as they are. -/
theorem simplifyExprs_eq_pure :
    ∀ es : List Expr, (p.fold = true → exprsFolded es) → simplifyExprs p es = pure es
  | [], _ => by rw [simplifyExprs]
  | e :: es, h => by
    rw [simplifyExprs, e.simplify_eq_pure fun hp => (h hp).1, Reduced.pure_bind,
      simplifyExprs_eq_pure es fun hp => (h hp).2]
    rfl

end

/-! ## Blocks -/

mutual

/-- The lists of statements inside a statement, at whatever depth. -/
def Stmt.blocks : Stmt → List (List Stmt)
  | .automate _ _ body => body :: innerBlocks body
  | .ifElse _ body none => body :: innerBlocks body
  | .ifElse _ body (some alternate) =>
    (body :: innerBlocks body) ++ (alternate :: innerBlocks alternate)
  | .loopWhile _ body => body :: innerBlocks body
  | .loopOver _ _ body => body :: innerBlocks body
  | .declare .. | .assign .. | .change .. | .print _ | .call .. | .output .. | .breakLoop => []

/-- The lists of statements inside the statements of a list. -/
def innerBlocks : List Stmt → List (List Stmt)
  | [] => []
  | s :: ss => s.blocks ++ innerBlocks ss

end

/-- The list itself and the lists of statements inside of it. -/
def stmtsBlocks (ss : List Stmt) : List (List Stmt) := ss :: innerBlocks ss

/-- All lists of statements of a program. -/
def blocks (program : Program) : List (List Stmt) := stmtsBlocks program.stmts

/-- Whether there are statements after one that nothing is reached after. -/
def goesOn (ss : List Stmt) : Bool := ss.dropLast.any Stmt.isTerminal

/-- Whether the statement runs or not is not known from its test, if it has one. -/
def Stmt.undecided : Stmt → Bool
  | .ifElse test _ _ => test.constBool.isNone
  | .loopWhile test _ => test.constBool != some false
  | .declare .. | .assign .. | .change .. | .print _ | .automate .. | .call .. | .output ..
  | .loopOver .. | .breakLoop => true

theorem innerBlocks_append (ss tt : List Stmt) :
    innerBlocks (ss ++ tt) = innerBlocks ss ++ innerBlocks tt := by
  induction ss with
  | nil => rfl
  | cons s ss ih => rw [List.cons_append, innerBlocks, innerBlocks, ih, List.append_assoc]

theorem innerBlocks_singleton (s : Stmt) : innerBlocks [s] = s.blocks := by
  rw [innerBlocks, innerBlocks, List.append_nil]

theorem goesOn_cons (s : Stmt) (ss : List Stmt) :
    goesOn (s :: ss) = ((s.isTerminal && !ss.isEmpty) || goesOn ss) := by
  cases ss with
  | nil => rw [List.isEmpty_nil, Bool.not_true, Bool.and_false, Bool.false_or]; rfl
  | cons t ss => rw [List.isEmpty_cons, Bool.not_false, Bool.and_true]; rfl

/-- A list goes on after its end in one of its two parts, or in the second after the end
    of the first. -/
theorem goesOn_append (ss tt : List Stmt) :
    goesOn (ss ++ tt) = (goesOn ss || (ss.any Stmt.isTerminal && !tt.isEmpty) || goesOn tt) := by
  induction ss with
  | nil => rfl
  | cons s ss ih =>
    have hempty : (ss ++ tt).isEmpty = (ss.isEmpty && tt.isEmpty) := by cases ss <;> rfl
    rw [List.cons_append, goesOn_cons, goesOn_cons, ih, List.any_cons, hempty]
    cases s.isTerminal <;> cases ss.isEmpty <;> cases tt.isEmpty <;> simp

/-! ## Settled statements -/

/-- The expressions of a statement that do not stand in a list of statements in it. -/
def Stmt.ownExprs : Stmt → List Expr
  | .declare _ init => [init]
  | .assign _ source => [source]
  | .change _ _ term => [term]
  | .print argument => [argument]
  | .automate .. => []
  | .call _ args => args
  | .output value _ => value.toList
  | .ifElse test _ _ => [test]
  | .loopWhile test _ => [test]
  | .loopOver _ list _ => [list]
  | .breakLoop => []

/-- Neither can an expression of the statement be folded nor does its test say what
    becomes of it. -/
structure Stmt.Settled (p : Passes) (s : Stmt) : Prop where
  folded : p.fold = true → ∀ e ∈ s.ownExprs, e.Folded
  undecided : p.prune = true → s.undecided = true

/-- All statements of all the lists are settled. -/
def BlocksSettled (p : Passes) (bs : List (List Stmt)) : Prop :=
  ∀ b ∈ bs, ∀ s ∈ b, s.Settled p

theorem BlocksSettled.append {bs cs : List (List Stmt)} (hb : BlocksSettled p bs)
    (hc : BlocksSettled p cs) : BlocksSettled p (bs ++ cs) :=
  List.forall_mem_append.2 ⟨hb, hc⟩

/-- Settled statements stay settled when they are put together. -/
theorem BlocksSettled.stmts_append {ss tt : List Stmt} (hs : BlocksSettled p (stmtsBlocks ss))
    (ht : BlocksSettled p (stmtsBlocks tt)) : BlocksSettled p (stmtsBlocks (ss ++ tt)) := by
  obtain ⟨hss, hinner⟩ := List.forall_mem_cons.1 hs
  obtain ⟨htt, hinner'⟩ := List.forall_mem_cons.1 ht
  rw [stmtsBlocks, innerBlocks_append]
  exact List.forall_mem_cons.2 ⟨List.forall_mem_append.2 ⟨hss, htt⟩, append hinner hinner'⟩

theorem BlocksSettled.singleton {s : Stmt} (hs : s.Settled p) (hb : BlocksSettled p s.blocks) :
    BlocksSettled p (stmtsBlocks [s]) := by
  rw [stmtsBlocks, innerBlocks_singleton]
  exact List.forall_mem_cons.2 ⟨List.forall_mem_singleton.2 hs, hb⟩

theorem BlocksSettled.nil : BlocksSettled p (stmtsBlocks []) :=
  List.forall_mem_singleton.2 (List.forall_mem_nil _)

/-- A statement with one simplified expression and without a test. -/
theorem Stmt.Settled.of_expr {s : Stmt} {e : Expr} (hs : s.ownExprs = [(e.simplify p).value])
    (hu : p.prune = true → s.undecided = true) : s.Settled p where
  folded hp := by
    rw [hs]
    exact List.forall_mem_singleton.2 (e.folded_simplify hp)
  undecided := hu

/-- Where there is pruning, a test that is not known has no constant value. -/
theorem constBool_of_knownTest {test : Expr} (h : knownTest p test = none) (hp : p.prune = true) :
    test.constBool = none := by
  rwa [knownTest, if_pos hp] at h

mutual

/-- Simplifying a statement leaves settled blocks. -/
theorem settled_simplifyStmt : ∀ s : Stmt, BlocksSettled p (stmtsBlocks (s.simplify p).value)
  | .declare v init => by
    rw [Stmt.simplify]
    exact .singleton (.of_expr rfl fun _ => rfl) (List.forall_mem_nil _)
  | .assign target source => by
    rw [Stmt.simplify]
    exact .singleton (.of_expr rfl fun _ => rfl) (List.forall_mem_nil _)
  | .change op target term => by
    rw [Stmt.simplify]
    exact .singleton (.of_expr rfl fun _ => rfl) (List.forall_mem_nil _)
  | .print argument => by
    rw [Stmt.simplify]
    exact .singleton (.of_expr rfl fun _ => rfl) (List.forall_mem_nil _)
  | .automate a params body => by
    rw [Stmt.simplify]
    exact .singleton ⟨fun _ => List.forall_mem_nil _, fun _ => rfl⟩ (settled_simplifyStmts body)
  | .call callee args => by
    rw [Stmt.simplify]
    exact .singleton ⟨fun hp => exprsFolded_iff.1 (folded_simplifyExprs hp args), fun _ => rfl⟩
      (List.forall_mem_nil _)
  | .output none ty => by
    rw [Stmt.simplify]
    exact .singleton ⟨fun _ => List.forall_mem_nil _, fun _ => rfl⟩ (List.forall_mem_nil _)
  | .output (some value) ty => by
    rw [Stmt.simplify]
    exact .singleton (.of_expr rfl fun _ => rfl) (List.forall_mem_nil _)
  | .ifElse test body none => by
    have hbody := settled_simplifyStmts body
    simp only [Stmt.simplify, Reduced.value_bind]
    cases htest : knownTest p (test.simplify p).value with
    | none =>
      -- The test is kept, so with pruning it is not known.
      refine .singleton (.of_expr rfl fun hp => ?_) hbody
      exact Option.isNone_iff_eq_none.2 (constBool_of_knownTest htest hp)
    | some b =>
      cases b with
      | true => exact hbody
      | false => exact .nil
  | .ifElse test body (some alternate) => by
    have hbody := settled_simplifyStmts body
    have halternate := settled_simplifyStmts alternate
    simp only [Stmt.simplify, Reduced.value_bind]
    cases htest : knownTest p (test.simplify p).value with
    | none =>
      refine .singleton (.of_expr rfl fun hp => ?_) (.append hbody halternate)
      exact Option.isNone_iff_eq_none.2 (constBool_of_knownTest htest hp)
    | some b =>
      cases b with
      | true => exact hbody
      | false => exact halternate
  | .loopWhile test body => by
    have hbody := settled_simplifyStmts body
    simp only [Stmt.simplify, Reduced.value_bind]
    split
    · exact .nil
    · next htest =>
      refine .singleton (.of_expr rfl fun hp => ?_) hbody
      rw [knownTest, if_pos hp] at htest
      exact bne_iff_ne.2 htest
  | .loopOver item list body => by
    rw [Stmt.simplify]
    exact .singleton (.of_expr rfl fun _ => rfl) (settled_simplifyStmts body)
  | .breakLoop => by
    rw [Stmt.simplify]
    exact .singleton ⟨fun _ => List.forall_mem_nil _, fun _ => rfl⟩ (List.forall_mem_nil _)

/-- All statements that simplifying leaves are settled. -/
theorem settled_simplifyStmts :
    ∀ ss : List Stmt, BlocksSettled p (stmtsBlocks (simplifyStmts p ss).value)
  | [] => by
    rw [simplifyStmts]
    exact .nil
  | s :: ss => by
    rw [simplifyStmts, Reduced.value_bind]
    split
    · exact settled_simplifyStmt s
    · exact (settled_simplifyStmt s).stmts_append (settled_simplifyStmts ss)

end

/-! ## Simplifying again -/

/-- Simplifying leaves the expressions of a settled statement as they are. -/
theorem Stmt.Settled.simplify_expr {s : Stmt} {e : Expr} (h : s.Settled p) (he : e ∈ s.ownExprs) :
    e.simplify p = pure e :=
  e.simplify_eq_pure fun hp => h.folded hp e he

theorem knownTest_of_ifElse {test : Expr} {body : List Stmt} {alternate : Option (List Stmt)}
    (h : (Stmt.ifElse test body alternate).Settled p) : knownTest p test = none := by
  rw [knownTest]
  split
  · next hp => exact Option.isNone_iff_eq_none.1 (h.undecided hp)
  · rfl

theorem knownTest_of_loopWhile {test : Expr} {body : List Stmt}
    (h : (Stmt.loopWhile test body).Settled p) : knownTest p test ≠ some false := by
  rw [knownTest]
  split
  · next hp => exact bne_iff_ne.1 (h.undecided hp)
  · exact nofun

mutual

/-- A settled statement stays as it is, if no list in it goes on after its end. -/
theorem simplifyStmt_eq_pure : ∀ s : Stmt, s.Settled p → BlocksSettled p s.blocks →
    (p.prune = true → s.blocks.any goesOn = false) → s.simplify p = pure [s]
  | .declare v init, hs, _, _ => by
    rw [Stmt.simplify, hs.simplify_expr List.mem_cons_self]
    rfl
  | .assign target source, hs, _, _ => by
    rw [Stmt.simplify, hs.simplify_expr List.mem_cons_self]
    rfl
  | .change op target term, hs, _, _ => by
    rw [Stmt.simplify, hs.simplify_expr List.mem_cons_self]
    rfl
  | .print argument, hs, _, _ => by
    rw [Stmt.simplify, hs.simplify_expr List.mem_cons_self]
    rfl
  | .automate a params body, _, hb, hends => by
    rw [Stmt.simplify, simplifyStmts_eq_pure body hb hends]
    rfl
  | .call callee args, hs, _, _ => by
    rw [Stmt.simplify, simplifyExprs_eq_pure args fun hp => exprsFolded_iff.2 (hs.folded hp)]
    rfl
  | .output none ty, _, _, _ => by rw [Stmt.simplify]
  | .output (some value) ty, hs, _, _ => by
    rw [Stmt.simplify, hs.simplify_expr List.mem_cons_self]
    rfl
  | .ifElse test body none, hs, hb, hends => by
    rw [Stmt.simplify, hs.simplify_expr List.mem_cons_self, Reduced.pure_bind,
      knownTest_of_ifElse hs, simplifyStmts_eq_pure body hb hends]
    rfl
  | .ifElse test body (some alternate), hs, hb, hends => by
    obtain ⟨hbody, halternate⟩ := List.forall_mem_append.1 hb
    have hany : p.prune = true → (stmtsBlocks body).any goesOn = false ∧
        (stmtsBlocks alternate).any goesOn = false := fun hp =>
      Bool.or_eq_false_iff.1 (List.any_append.symm.trans (hends hp))
    rw [Stmt.simplify, hs.simplify_expr List.mem_cons_self, Reduced.pure_bind,
      knownTest_of_ifElse hs, simplifyStmts_eq_pure body hbody fun hp => (hany hp).1,
      simplifyStmts_eq_pure alternate halternate fun hp => (hany hp).2]
    rfl
  | .loopWhile test body, hs, hb, hends => by
    rw [Stmt.simplify, hs.simplify_expr List.mem_cons_self, Reduced.pure_bind,
      simplifyStmts_eq_pure body hb hends]
    split
    · next hfalse => exact absurd hfalse (knownTest_of_loopWhile hs)
    · rfl
  | .loopOver item list body, hs, hb, hends => by
    rw [Stmt.simplify, hs.simplify_expr List.mem_cons_self,
      Reduced.pure_bind, simplifyStmts_eq_pure body hb hends]
    rfl
  | .breakLoop, _, _, _ => by rw [Stmt.simplify]

/-- Settled statements are not changed any more, unless some of them are pruned that come
    after the end of their list. -/
theorem simplifyStmts_eq_pure : ∀ ss : List Stmt, BlocksSettled p (stmtsBlocks ss) →
    (p.prune = true → (stmtsBlocks ss).any goesOn = false) → simplifyStmts p ss = pure ss
  | [], _, _ => by rw [simplifyStmts]
  | s :: ss, h, hends => by
    obtain ⟨hlist, hinner⟩ := List.forall_mem_cons.1 h
    obtain ⟨hs, hss⟩ := List.forall_mem_cons.1 hlist
    obtain ⟨hblocks, hrest⟩ := List.forall_mem_append.1 hinner
    -- With pruning nothing goes on after a terminal statement, neither here nor deeper inside.
    have hany : p.prune = true → (s.isTerminal = true → ss = []) ∧ s.blocks.any goesOn = false ∧
        (stmtsBlocks ss).any goesOn = false := by
      intro hp
      have hends := hends hp
      simp only [stmtsBlocks, innerBlocks, List.any_cons, List.any_append, goesOn_cons,
        Bool.or_eq_false_iff] at hends
      refine ⟨fun hterminal => ?_, hends.2.1, ?_⟩
      · simpa [hterminal] using hends.1.1
      · rw [stmtsBlocks, List.any_cons, hends.1.2, hends.2.2]
        rfl
    rw [simplifyStmts, simplifyStmt_eq_pure s hs hblocks fun hp => (hany hp).2.1,
      Reduced.pure_bind]
    split
    · next hcut =>
      obtain ⟨hp, hterminal⟩ := Bool.and_eq_true_iff.1 hcut
      rw [(hany hp).1 hterminal]
      rfl
    · rw [simplifyStmts_eq_pure ss (List.forall_mem_cons.2 ⟨hss, hrest⟩) fun hp => (hany hp).2.2]
      rfl

end

/-- A settled program stays as it is, if no list in it goes on after its end. -/
theorem simplify_of_settled {program : Program} (h : BlocksSettled p program.blocks)
    (hends : p.prune = true → program.blocks.any goesOn = false) :
    program.simplify p = pure program := by
  rw [simplify, simplifyStmts_eq_pure program.stmts h hends]
  rfl

end Toal.Program
