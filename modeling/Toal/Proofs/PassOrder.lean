import Toal.Proofs.NormalForms

/-!
# One pass after the other

Folding concerns expressions and pruning concerns statements, and of the two only pruning
looks at what the other has done: at tests. So both passes at once do what pruning does
after everything has been folded, although together they do not fold what is pruned
(`passes_compose`). The order matters, since a test may be known only once it is folded.
-/

namespace Toal.Program

variable (fold prune : Bool)

mutual

/-- Pruning is no matter of expressions. -/
theorem Expr.simplify_unpruned : ∀ e : Expr, e.simplify ⟨fold, false⟩ = e.simplify ⟨fold, prune⟩
  | .num _ | .bool _ | .word _ | .auto _ | .var _ => by rw [Expr.simplify, Expr.simplify]
  | .list elements => by rw [Expr.simplify, Expr.simplify, simplifyExprs_unpruned elements]
  | .arith op left right => by
    rw [Expr.simplify, Expr.simplify, left.simplify_unpruned, right.simplify_unpruned]
  | .compare op left right => by
    rw [Expr.simplify, Expr.simplify, left.simplify_unpruned, right.simplify_unpruned]
  | .paren inner => by rw [Expr.simplify, Expr.simplify, inner.simplify_unpruned]
  | .call callee args => by rw [Expr.simplify, Expr.simplify, simplifyExprs_unpruned args]

/-- Pruning does nothing to expressions. -/
theorem simplifyExprs_unpruned :
    ∀ es : List Expr, simplifyExprs ⟨fold, false⟩ es = simplifyExprs ⟨fold, prune⟩ es
  | [] => by rw [simplifyExprs, simplifyExprs]
  | e :: es => by
    rw [simplifyExprs, simplifyExprs, e.simplify_unpruned, simplifyExprs_unpruned es]

end

/-- Folding an expression and then pruning it is simplifying it with both. -/
theorem Expr.value_prune_fold (e : Expr) :
    ((e.simplify ⟨fold, false⟩).value.simplify ⟨false, prune⟩).value =
      (e.simplify ⟨fold, prune⟩).value := by
  rw [Expr.simplify_eq_pure _ fun h => absurd h Bool.false_ne_true, Reduced.value_pure,
    e.simplify_unpruned fold prune]

theorem value_simplifyExprs_prune_fold (es : List Expr) :
    (simplifyExprs ⟨false, prune⟩ (simplifyExprs ⟨fold, false⟩ es).value).value =
      (simplifyExprs ⟨fold, prune⟩ es).value := by
  rw [simplifyExprs_eq_pure _ fun h => absurd h Bool.false_ne_true, Reduced.value_pure,
    simplifyExprs_unpruned fold prune es]

/-- A test that has been folded is known to pruning exactly if it is known to both passes. -/
theorem knownTest_prune_fold (test : Expr) :
    knownTest ⟨false, prune⟩ ((test.simplify ⟨fold, false⟩).value.simplify ⟨false, prune⟩).value =
      knownTest ⟨fold, prune⟩ (test.simplify ⟨fold, prune⟩).value :=
  congrArg (knownTest ⟨fold, prune⟩) (test.value_prune_fold fold prune)

/-- The statement `t` is what folding makes of `s`. It ends a list if `s` does, and
    pruning does to it what both passes do to `s`. -/
structure FoldsTo (s t : Stmt) : Prop where
  value : (s.simplify ⟨fold, false⟩).value = [t]
  terminal : t.isTerminal = s.isTerminal
  pruned : (t.simplify ⟨false, prune⟩).value = (s.simplify ⟨fold, prune⟩).value

mutual

/-- Every statement folds to one. -/
theorem exists_foldsTo : ∀ s : Stmt, ∃ t, FoldsTo fold prune s t
  | .declare v init =>
    ⟨_, rfl, rfl, congrArg (fun e => [Stmt.declare v e]) (init.value_prune_fold fold prune)⟩
  | .assign target source =>
    ⟨_, rfl, rfl, congrArg (fun e => [Stmt.assign target e]) (source.value_prune_fold fold prune)⟩
  | .change op target term =>
    ⟨_, rfl, rfl, congrArg (fun e => [Stmt.change op target e]) (term.value_prune_fold fold prune)⟩
  | .print argument =>
    ⟨_, rfl, rfl, congrArg (fun e => [Stmt.print e]) (argument.value_prune_fold fold prune)⟩
  | .automate a params body =>
    ⟨_, rfl, rfl, congrArg (fun ss => [Stmt.automate a params ss]) (prune_simplifyStmts body)⟩
  | .call callee args =>
    ⟨_, rfl, rfl, congrArg (fun es => [Stmt.call callee es])
      (value_simplifyExprs_prune_fold fold prune args)⟩
  | .output none ty => ⟨_, rfl, rfl, rfl⟩
  | .output (some value) ty =>
    ⟨_, rfl, rfl, congrArg (fun e => [Stmt.output (some e) ty]) (value.value_prune_fold fold prune)⟩
  | .ifElse test body none => by
    have htest := test.value_prune_fold fold prune
    have hbody := prune_simplifyStmts body
    refine ⟨.ifElse _ _ none, rfl, rfl, ?_⟩
    simp only [Stmt.simplify, Reduced.value_bind, knownTest_prune_fold]
    cases knownTest ⟨fold, prune⟩ (test.simplify ⟨fold, prune⟩).value with
    | none => exact congrArg₂ (fun e ss => [Stmt.ifElse e ss none]) htest hbody
    | some b =>
      cases b with
      | true => exact hbody
      | false => rfl
  | .ifElse test body (some alternate) => by
    have htest := test.value_prune_fold fold prune
    have hbody := prune_simplifyStmts body
    have halternate := prune_simplifyStmts alternate
    refine ⟨.ifElse _ _ (some _), rfl, rfl, ?_⟩
    simp only [Stmt.simplify, Reduced.value_bind, knownTest_prune_fold]
    cases knownTest ⟨fold, prune⟩ (test.simplify ⟨fold, prune⟩).value with
    | none =>
      simp only [Reduced.value_bind, Reduced.value_pure, htest, hbody, halternate]
    | some b =>
      cases b with
      | true => exact hbody
      | false => exact halternate
  | .loopWhile test body => by
    have htest := test.value_prune_fold fold prune
    have hbody := prune_simplifyStmts body
    refine ⟨.loopWhile _ _, rfl, rfl, ?_⟩
    simp only [Stmt.simplify, Reduced.value_bind, knownTest_prune_fold]
    cases knownTest ⟨fold, prune⟩ (test.simplify ⟨fold, prune⟩).value with
    | none => exact congrArg₂ (fun e ss => [Stmt.loopWhile e ss]) htest hbody
    | some b =>
      cases b with
      | true => exact congrArg₂ (fun e ss => [Stmt.loopWhile e ss]) htest hbody
      | false => rfl
  | .loopOver item list body =>
    ⟨_, rfl, rfl, congrArg₂ (fun e ss => [Stmt.loopOver item e ss])
      (list.value_prune_fold fold prune) (prune_simplifyStmts body)⟩
  | .breakLoop => ⟨_, rfl, rfl, rfl⟩

/-- Pruning statements that have been folded does to them what both passes do. -/
theorem prune_simplifyStmts : ∀ ss : List Stmt,
    (simplifyStmts ⟨false, prune⟩ (simplifyStmts ⟨fold, false⟩ ss).value).value =
      (simplifyStmts ⟨fold, prune⟩ ss).value
  | [] => rfl
  | s :: ss => by
    obtain ⟨t, hvalue, hterminal, hpruned⟩ := exists_foldsTo s
    have ih := prune_simplifyStmts ss
    simp only [simplifyStmts, Reduced.value_bind, Bool.false_and, Bool.false_eq_true, if_false,
      Reduced.value_pure, hvalue, List.singleton_append, hterminal]
    by_cases hcut : (prune && s.isTerminal) = true
    · rw [if_pos hcut, if_pos hcut]
      exact hpruned
    · rw [if_neg hcut, if_neg hcut]
      exact congrArg₂ (· ++ ·) hpruned ih

end

/-- Both passes at once do what pruning does after folding, and no pass does nothing. -/
theorem passes_compose (program : Program) :
    (program.simplify .all).value =
        ((program.simplify ⟨true, false⟩).value.simplify ⟨false, true⟩).value ∧
      program.simplify ⟨false, false⟩ = pure program := by
  have hsettled : BlocksSettled ⟨false, false⟩ program.blocks := fun _ _ _ _ => ⟨nofun, nofun⟩
  exact ⟨congrArg Program.mk (prune_simplifyStmts true true program.stmts).symm,
    simplify_of_settled hsettled nofun⟩

end Toal.Program
