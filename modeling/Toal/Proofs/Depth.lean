import Toal.Proofs.Semantics

/-!
# More depth changes no answer

Computations that run to a limited depth are ordered: one *approximates* another
if it is unfinished wherever the two differ (`Approximates`). A task carried out
to some depth approximates the same task carried out deeper (`exec_approximates`),
so a program that ends does so in one way only, whatever the depth at which that
shows (`ends_unique`).
-/

namespace Toal.Semantics

open Program

variable {N α β : Type} {M : Meaning N}

/-- The computation `m` is unfinished, or else does what `m'` does. -/
def Approximates (m m' : Exec N α) : Prop :=
  ∀ actions, (∃ actions', m actions = .error .unfinished actions') ∨ m actions = m' actions

namespace Approximates

theorem refl (m : Exec N α) : Approximates m m := fun _ => .inr rfl

/-- An approximation followed by approximations is one. -/
theorem bind {m m' : Exec N α} {f f' : α → Exec N β} (h : Approximates m m')
    (hf : ∀ a, Approximates (f a) (f' a)) : Approximates (m >>= f) (m' >>= f') := by
  intro actions
  change (∃ actions', EStateM.bind m f actions = _) ∨
    EStateM.bind m f actions = EStateM.bind m' f' actions
  rw [EStateM.bind, EStateM.bind]
  -- If `m` is unfinished then `f` is not reached, so nothing has to be known about `m'`.
  rcases h actions with ⟨actions', hu⟩ | he
  · rw [hu]
    exact .inl ⟨actions', rfl⟩
  · rw [← he]
    cases m actions with
    | ok a actions' => exact hf a actions'
    | error stop actions' => exact .inr rfl

/-- The value of a call is approximated by approximating its body. -/
theorem outputOf {m m' : Exec N Unit} (h : Approximates m m') :
    Approximates (outputOf m) (Semantics.outputOf m') := by
  intro actions
  rw [Semantics.outputOf, Semantics.outputOf]
  rcases h actions with ⟨actions', hu⟩ | he
  · rw [hu]
    exact .inl ⟨actions', rfl⟩
  · rw [← he]
    exact .inr rfl

/-- Rounds are approximated by approximating each. -/
theorem thenRounds {m m' rest rest' : Exec N Unit} (h : Approximates m m')
    (hrest : Approximates rest rest') :
    Approximates (thenRounds m rest) (Semantics.thenRounds m' rest') := by
  intro actions
  rw [Semantics.thenRounds, Semantics.thenRounds]
  rcases h actions with ⟨actions', hu⟩ | he
  · rw [hu]
    exact .inl ⟨actions', rfl⟩
  · rw [← he]
    cases m actions with
    | ok a actions' => exact hrest actions'
    | error stop actions' => cases stop <;> exact .inr rfl

/-- Between two computations that a test chooses from. -/
theorem branch {test test' : Exec N Bool} {m m' n n' : Exec N Unit} (ht : Approximates test test')
    (hm : Approximates m m') (hn : Approximates n n') :
    Approximates (do if ← test then m else n) (do if ← test' then m' else n') := by
  refine .bind ht fun b => ?_
  cases b with
  | true => exact hm
  | false => exact hn

end Approximates

variable {again again' : List Nat → Task → Exec N Unit}

/-- What is left to be done approximates what is done instead. -/
def ApproximatesAgain (again again' : List Nat → Task → Exec N Unit) : Prop :=
  ∀ env t, Approximates (again env t) (again' env t)

/-- What a call does is approximated by approximating what is left to be done in it. -/
theorem Approximates.apply (h : ApproximatesAgain again again') (f : Value N)
    (args : List (Value N)) : Approximates (M.apply again f args) (M.apply again' f args) := by
  unfold Meaning.apply
  split
  · exact .refl _
  · exact .bind (.refl _) fun c => .bind (.refl _) fun _ => .outputOf (h _ _)
  · exact .refl _

mutual

/-- The value of an expression is approximated by approximating the calls in it. -/
theorem evalExpr_approximates (h : ApproximatesAgain again again') (env : List Nat) :
    ∀ e : Expr, Approximates (M.evalExpr again env e) (M.evalExpr again' env e)
  | .num _ | .bool _ | .word _ | .var _ | .auto _ => by
    rw [Meaning.evalExpr, Meaning.evalExpr]
    exact .refl _
  | .list elements => by
    rw [Meaning.evalExpr, Meaning.evalExpr]
    exact .bind (evalExprs_approximates h env elements) fun _ => .refl _
  | .arith op left right => by
    rw [Meaning.evalExpr, Meaning.evalExpr]
    exact .bind (evalExpr_approximates h env left) fun _ =>
      .bind (evalExpr_approximates h env right) fun _ => .refl _
  | .compare op left right => by
    rw [Meaning.evalExpr, Meaning.evalExpr]
    exact .bind (evalExpr_approximates h env left) fun _ =>
      .bind (evalExpr_approximates h env right) fun _ => .refl _
  | .paren inner => by
    rw [Meaning.evalExpr, Meaning.evalExpr]
    exact evalExpr_approximates h env inner
  | .call callee args => by
    rw [Meaning.evalExpr, Meaning.evalExpr]
    exact .bind (.refl _) fun _ => .bind (evalExprs_approximates h env args) fun _ => .apply h _ _

theorem evalExprs_approximates (h : ApproximatesAgain again again') (env : List Nat) :
    ∀ es : List Expr, Approximates (M.evalExprs again env es) (M.evalExprs again' env es)
  | [] => by
    rw [Meaning.evalExprs, Meaning.evalExprs]
    exact .refl _
  | e :: es => by
    rw [Meaning.evalExprs, Meaning.evalExprs]
    exact .bind (evalExpr_approximates h env e) fun _ =>
      .bind (evalExprs_approximates h env es) fun _ => .refl _

end

theorem evalTest_approximates (h : ApproximatesAgain again again') (env : List Nat) (test : Expr) :
    Approximates (M.evalTest again env test) (M.evalTest again' env test) :=
  .bind (evalExpr_approximates h env test) fun _ => .refl _

theorem evalList_approximates (h : ApproximatesAgain again again') (env : List Nat) (list : Expr) :
    Approximates (M.evalList again env list) (M.evalList again' env list) :=
  .bind (evalExpr_approximates h env list) fun _ => .refl _

mutual

/-- A statement is approximated by approximating the calls and rounds in it. -/
theorem execStmt_approximates (h : ApproximatesAgain again again') (env : List Nat) :
    ∀ s : Stmt, Approximates (M.execStmt again env s) (M.execStmt again' env s)
  | .declare v init => by
    rw [Meaning.execStmt, Meaning.execStmt]
    exact .bind (evalExpr_approximates h env init) fun _ => .refl _
  | .assign target source => by
    rw [Meaning.execStmt, Meaning.execStmt]
    exact .bind (evalExpr_approximates h env source) fun _ => .refl _
  | .change op target term => by
    rw [Meaning.execStmt, Meaning.execStmt]
    exact .bind (.refl _) fun _ => .bind (evalExpr_approximates h env term) fun _ => .refl _
  | .print argument => by
    rw [Meaning.execStmt, Meaning.execStmt]
    exact .bind (evalExpr_approximates h env argument) fun _ => .refl _
  | .automate _ _ _ | .output none _ | .breakLoop => by
    rw [Meaning.execStmt, Meaning.execStmt]
    exact .refl _
  | .call callee args => by
    rw [Meaning.execStmt, Meaning.execStmt]
    exact .bind (.refl _) fun _ =>
      .bind (evalExprs_approximates h env args) fun _ => .bind (.apply h _ _) fun _ => .refl _
  | .output (some value) _ => by
    rw [Meaning.execStmt, Meaning.execStmt]
    exact .bind (evalExpr_approximates h env value) fun _ => .refl _
  | .ifElse test body none => by
    rw [Meaning.execStmt, Meaning.execStmt]
    exact .branch (evalTest_approximates h env test) (execStmts_approximates h env body) (.refl _)
  | .ifElse test body (some alternate) => by
    rw [Meaning.execStmt, Meaning.execStmt]
    exact .branch (evalTest_approximates h env test) (execStmts_approximates h env body)
      (execStmts_approximates h env alternate)
  | .loopWhile test body => by
    rw [Meaning.execStmt, Meaning.execStmt]
    refine .branch (evalTest_approximates h env test) (.bind (.refl _) fun scope => ?_) (.refl _)
    exact .thenRounds (execStmts_approximates h (scope :: env) body) (h _ _)
  | .loopOver item list body => by
    rw [Meaning.execStmt, Meaning.execStmt]
    exact .bind (evalList_approximates h env list) fun _ => h _ _

theorem execStmts_approximates (h : ApproximatesAgain again again') (env : List Nat) :
    ∀ ss : List Stmt, Approximates (M.execStmts again env ss) (M.execStmts again' env ss)
  | [] => by
    rw [Meaning.execStmts, Meaning.execStmts]
    exact .refl _
  | s :: ss => by
    rw [Meaning.execStmts, Meaning.execStmts]
    exact .bind (execStmt_approximates h env s) fun _ => execStmts_approximates h env ss

end

/-- A task is approximated by approximating the smaller tasks that it hands on. -/
theorem execTask_approximates (h : ApproximatesAgain again again') :
    ApproximatesAgain (M.execTask again) (M.execTask again') := by
  intro env t
  cases t with
  | stmts ss => exact execStmts_approximates h env ss
  | rounds item list index body =>
    refine .bind (.refl _) fun xs => ?_
    cases xs[index]? with
    | none => exact .refl _
    | some x =>
      exact .bind (.refl _) fun scope =>
        .thenRounds (execStmts_approximates h (scope :: env) body) (h _ _)

/-- A task carried out to some depth approximates what it does deeper. -/
theorem exec_approximates {depth depth' : Nat} (hle : depth ≤ depth') :
    ApproximatesAgain (M.exec depth) (M.exec depth') := by
  induction depth generalizing depth' with
  | zero => exact fun _ _ actions => .inl ⟨actions, rfl⟩
  | succ depth ih =>
    cases depth' with
    | zero => exact absurd hle (Nat.not_succ_le_zero _)
    | succ depth' => exact execTask_approximates (ih (Nat.le_of_succ_le_succ hle))

/-- A program that is finished at some depth takes the same actions deeper. -/
theorem trace_of_le {depth depth' : Nat} (hle : depth ≤ depth') (program : Program)
    (h : (M.trace depth program).1 ≠ .error .unfinished) :
    M.trace depth' program = M.trace depth program := by
  rw [Meaning.trace] at h
  rw [Meaning.trace, Meaning.trace]
  rcases exec_approximates (M := M) hle [0] (.stmts program.stmts) [] with ⟨actions, hu⟩ | he
  · rw [hu] at h
    exact absurd rfl h
  · rw [he]

/-- A run that is finished at some depth is the same deeper. -/
theorem run_of_le {depth depth' : Nat} (hle : depth ≤ depth') (program : Program)
    (h : (M.run depth program).1 ≠ .error .unfinished) :
    M.run depth' program = M.run depth program := by
  rw [Meaning.run, Meaning.run, trace_of_le hle program h]

/-- A program ends in one way only. -/
theorem ends_unique {program : Program} {ending ending' : Except (Stop N) Unit}
    {printed printed' : List (Printed N)} (h : M.Ends program ending printed)
    (h' : M.Ends program ending' printed') : ending = ending' ∧ printed = printed' := by
  obtain ⟨hne, depth, hd⟩ := h
  obtain ⟨hne', depth', hd'⟩ := h'
  -- The two depths are not ordered in advance; the run to the lesser one decides.
  have key : ∀ {d e : Nat} {x y}, d ≤ e → x.1 ≠ .error .unfinished → M.run d program = x →
      M.run e program = y → x = y := by
    intro d e x y hle hx hd he
    subst hd he
    exact (run_of_le hle program hx).symm
  rcases Nat.le_total depth depth' with hle | hle
  · exact Prod.mk.inj (key hle hne hd hd')
  · exact Prod.mk.inj (key hle hne' hd' hd).symm

end Toal.Semantics
