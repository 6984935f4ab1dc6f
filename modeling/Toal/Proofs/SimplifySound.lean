import Toal.Program.Simplify
import Toal.Proofs.Depth

/-!
# Simplifying preserves meaning

Whatever passes are switched on, a program and its simplified form do the same
to every depth (`run_simplify`): they print the same values, and they stop in the
same way or not at all.

The two runs take the same actions, except that closures made by the simplified
program have simplified bodies (`Action.simplify`), and so they go through the same
states, except for that (`after_simplify`). A computation *follows* another if after
actions so related it takes actions so related, with the same result (`Follows`).
Folding rests on equations between computations, one for each rule
(`evalExpr_foldArith` and the like); pruning on the effects of a known test
(`evalTest_of_constBool`), of a terminal statement (`execStmt_bind_of_isTerminal`),
and of statements put in the place of an `if` (`execStmts_append`).
-/

namespace Toal.Semantics

open Program

variable {N α β : Type} {M : Meaning N} {p : Passes}

/-! ## States of the two runs -/

/-- The closure with its body simplified. -/
def Closure.simplify (p : Passes) (c : Closure) : Closure :=
  { c with body := (simplifyStmts p c.body).value }

/-- The state with the bodies of all closures simplified. -/
def State.simplify (p : Passes) (s : State N) : State N :=
  { s with closures := s.closures.map (Closure.simplify p) }

/-- The action, with the body simplified if it makes a closure. -/
def Action.simplify (p : Passes) : Action N → Action N
  | .newClosure c => .newClosure (c.simplify p)
  | action => action

/-- The actions, with the bodies of all closures simplified. -/
def simplifyActions (p : Passes) (actions : List (Action N)) : List (Action N) :=
  actions.map (Action.simplify p)

/-- The task with its statements simplified. -/
def Task.simplify (p : Passes) : Task → Task
  | .stmts ss => .stmts (simplifyStmts p ss).value
  | .rounds item list index body => .rounds item list index (simplifyStmts p body).value

/-- A simplified action leads from a simplified state to a simplified state. -/
theorem act_simplify (s : State N) (action : Action N) :
    M.act (s.simplify p) (action.simplify p) = (M.act s action).simplify p := by
  cases action with
  | newClosure c =>
    rw [Action.simplify, Meaning.act, Meaning.act, State.simplify, State.simplify, List.map_append]
    rfl
  | _ => rfl

/-- Simplified actions lead to a simplified state. -/
theorem foldl_act_simplify (s : State N) (actions : List (Action N)) :
    (simplifyActions p actions).foldl M.act (s.simplify p) =
      (actions.foldl M.act s).simplify p := by
  induction actions generalizing s with
  | nil => rfl
  | cons action actions ih =>
    rw [simplifyActions, List.map_cons, List.foldl_cons, List.foldl_cons, act_simplify, ← ih,
      simplifyActions]

/-- The simplified actions lead to the simplified state. -/
theorem after_simplify (actions : List (Action N)) :
    M.after (simplifyActions p actions) = (M.after actions).simplify p :=
  foldl_act_simplify Meaning.start actions

theorem simplifyActions_concat (actions : List (Action N)) (action : Action N) :
    simplifyActions p (actions ++ [action]) = simplifyActions p actions ++ [action.simplify p] :=
  List.map_append

/-- The result with the record of its actions changed. -/
def mapRecord (f : List (Action N) → List (Action N)) :
    EStateM.Result (Stop N) (List (Action N)) α → EStateM.Result (Stop N) (List (Action N)) α
  | .ok a actions => .ok a (f actions)
  | .error stop actions => .error stop (f actions)

/-- The computation `m'` follows `m`: after the simplified actions it does the same. -/
def Follows (p : Passes) (m m' : Exec N α) : Prop :=
  ∀ actions, m' (simplifyActions p actions) = mapRecord (simplifyActions p) (m actions)

namespace Follows

theorem pure (a : α) : Follows p (Pure.pure a : Exec N α) (Pure.pure a) := fun _ => rfl

theorem throw (stop : Stop N) : Follows p (throw stop : Exec N α) (throw stop) := fun _ => rfl

/-- Computations that follow others, one after the other. -/
theorem bind {m m' : Exec N α} {f f' : α → Exec N β} (h : Follows p m m')
    (hf : ∀ a, Follows p (f a) (f' a)) : Follows p (m >>= f) (m' >>= f') := by
  intro actions
  change EStateM.bind m' f' (simplifyActions p actions) = mapRecord _ (EStateM.bind m f actions)
  rw [EStateM.bind, EStateM.bind, h actions]
  cases m actions with
  | ok a actions' => exact hf a actions'
  | error stop actions' => rfl

/-- Looking up something that simplifying leaves alone. -/
theorem look {f : State N → Option α} (h : ∀ s : State N, f (s.simplify p) = f s) :
    Follows p (M.look f) (M.look f) := by
  intro actions
  rw [Meaning.look, Meaning.look, after_simplify, h]
  cases f (M.after actions) with
  | none => rfl
  | some a => rfl

/-- Taking an action is followed by taking the simplified one. -/
theorem perform {f f' : State N → Option (α × Action N)}
    (h : ∀ s : State N, f' (s.simplify p) = (f s).map (Prod.map id (Action.simplify p))) :
    Follows p (M.perform f) (M.perform f') := by
  intro actions
  rw [Meaning.perform, Meaning.perform, after_simplify, h]
  cases f (M.after actions) with
  | none => rfl
  | some r => exact congrArg (EStateM.Result.ok r.1) (simplifyActions_concat actions r.2).symm

/-- Catching outputs, the second computation still follows. -/
theorem outputOf {m m' : Exec N Unit} (h : Follows p m m') :
    Follows p (Semantics.outputOf m) (Semantics.outputOf m') := by
  intro actions
  rw [Semantics.outputOf, Semantics.outputOf, h actions]
  cases m actions with
  | ok a actions' => rfl
  | error stop actions' => cases stop <;> rfl

/-- Rounds of loops follow if their bodies do and what is left of the loops does. -/
theorem thenRounds {m m' rest rest' : Exec N Unit} (h : Follows p m m')
    (hrest : Follows p rest rest') :
    Follows p (Semantics.thenRounds m rest) (Semantics.thenRounds m' rest') := by
  intro actions
  rw [Semantics.thenRounds, Semantics.thenRounds, h actions]
  cases m actions with
  | ok a actions' => exact hrest actions'
  | error stop actions' => cases stop <;> rfl

/-! ### Steps -/

theorem read (env : List Nat) (e : Entity) : Follows p (M.read env e) (M.read env e) :=
  look fun _ => rfl

theorem demand (x : Option α) : Follows p (M.demand x) (M.demand x) :=
  look fun _ => rfl

theorem elements (id : Nat) : Follows p (M.elements id) (M.elements id) :=
  look fun _ => rfl

theorem declare (env : List Nat) (e : Entity) (x : Value N) :
    Follows p (M.declare env e x) (M.declare env e x) :=
  perform fun _ => by
    rw [Option.map_map]
    rfl

theorem assign (env : List Nat) (e : Entity) (x : Value N) :
    Follows p (M.assign env e x) (M.assign env e x) :=
  perform fun _ => by
    rw [Option.map_map]
    rfl

theorem newScope (bindings : List (Entity × Value N)) :
    Follows p (M.newScope bindings) (M.newScope bindings) :=
  perform fun _ => rfl

theorem newList (elements : List (Value N)) : Follows p (M.newList elements) (M.newList elements) :=
  perform fun _ => rfl

/-- Making a closure is followed by making the simplified one. -/
theorem newClosure (c : Closure) : Follows p (M.newClosure c) (M.newClosure (c.simplify p)) :=
  perform fun s => by
    rw [State.simplify, List.length_map]
    rfl

/-- Taking up a closure is followed by taking up the simplified one. -/
theorem closure_bind {f f' : Closure → Exec N β} (hf : ∀ c, Follows p (f c) (f' (c.simplify p)))
    (id : Nat) : Follows p (M.closure id >>= f) (M.closure id >>= f') := by
  intro actions
  change EStateM.bind (M.closure id) f' (simplifyActions p actions) =
    mapRecord _ (EStateM.bind (M.closure id) f actions)
  simp only [EStateM.bind, Meaning.closure, Meaning.look, after_simplify, State.simplify,
    List.getElem?_map]
  cases (M.after actions).closures[id]? with
  | none => rfl
  | some c => exact hf c actions

end Follows

/-! ## Folding -/

variable {again again' : List Nat → Task → Exec N Unit} {env : List Nat}

/-- A truth value in the language's own words is that truth value. -/
theorem constant?_of_truth? {v : Variable} {b : Bool} (h : truth? v = some b) :
    M.constant? v = some (.bool b) := by
  unfold truth? at h
  unfold Meaning.constant?
  split at h
  · split at h
    · rename_i hname
      cases h
      simp [*]
    · split at h
      · rename_i hname
        cases h
        simp [*]
      · cases h
  · cases h

/-- Folding a variable keeps its meaning. -/
theorem evalExpr_foldVar (v : Variable) :
    M.evalExpr again env (foldVar v) = M.evalExpr again env (.var v) := by
  unfold foldVar
  split
  · rename_i b hb
    rw [Meaning.evalExpr, Meaning.evalExpr, Meaning.readVariable, constant?_of_truth? hb]
  · rfl

/-- Folding an operation keeps its meaning. -/
theorem evalExpr_foldArith (op : ArithOp) (left right : Expr) :
    M.evalExpr again env (foldArith op left right).value =
      M.evalExpr again env (.arith op left right) := by
  unfold foldArith
  split
  · rename_i x y
    split
    · rename_i z hz
      simp only [Meaning.evalExpr, pure_bind, Meaning.arithValue, M.arith_literal hz,
        Reduced.value_bind, Reduced.value_pure]
      rfl
    · rfl
  · rfl

/-- The values of two constants compare as the constants do. -/
theorem compareValues_of_evalCompare (M : Meaning N) (again : List Nat → Task → Exec N Unit)
    (env : List Nat) {op : CompareOp} {left right : Expr} {b : Bool}
    (h : evalCompare op left right = some b) :
    ∃ x y, M.evalExpr again env left = pure x ∧ M.evalExpr again env right = pure y ∧
      M.compareValues op x y = some b := by
  unfold evalCompare at h
  split at h
  · rename_i x y
    refine ⟨.num (M.literal x), .num (M.literal y), by rw [Meaning.evalExpr],
      by rw [Meaning.evalExpr], ?_⟩
    rw [Meaning.compareValues, M.compare_literal, h]
  · rename_i x y
    split at h
    · cases h
    · rename_i hxy
      -- Words with an escape are not compared, as they do not stand for themselves.
      rw [Bool.or_eq_true, not_or, Bool.not_eq_true, Bool.not_eq_true] at hxy
      refine ⟨.word (M.units x), .word (M.units y), by rw [Meaning.evalExpr],
        by rw [Meaning.evalExpr], ?_⟩
      rw [Meaning.compareValues, M.units_of_plain hxy.1, M.units_of_plain hxy.2]
      exact h
  · cases h

/-- Folding a comparison keeps its meaning. -/
theorem evalExpr_foldCompare (op : CompareOp) (left right : Expr) :
    M.evalExpr again env (foldCompare op left right).value =
      M.evalExpr again env (.compare op left right) := by
  unfold foldCompare
  split
  · rename_i b hb
    obtain ⟨x, y, hx, hy, hxy⟩ := compareValues_of_evalCompare M again env hb
    simp only [Meaning.evalExpr, hx, hy, pure_bind, hxy, Reduced.value_bind, Reduced.value_pure]
    rfl
  · rfl

/-- Removing parentheses keeps the meaning. -/
theorem evalExpr_foldParen (inner : Expr) :
    M.evalExpr again env (foldParen inner) = M.evalExpr again env (.paren inner) := by
  unfold foldParen
  split <;> rw [Meaning.evalExpr.eq_def _ _ _ (.paren _)]

/-! ## Expressions -/

theorem Follows.readVariable (v : Variable) :
    Follows p (M.readVariable env v) (M.readVariable env v) := by
  unfold Meaning.readVariable
  split
  · exact .pure _
  · exact .read _ _

theorem Follows.readAutomation (a : Automation) :
    Follows p (M.readAutomation env a) (M.readAutomation env a) := by
  unfold Meaning.readAutomation
  split
  · exact .pure _
  · exact .read _ _

theorem Follows.callStandard (name : String) (args : List (Value N)) :
    Follows p (M.callStandard name args) (M.callStandard name args) := by
  unfold Meaning.callStandard
  split
  · exact .bind (.perform fun _ => rfl) fun _ => .pure _
  · exact .bind (.perform fun _ => rfl) fun _ => .pure _
  · exact .bind (.elements _) fun _ => .pure _
  · exact .pure _
  · exact .newList _
  · exact .pure _
  · exact .throw _

/-- What is left to be done is done alike. -/
def FollowsAgain (p : Passes) (again again' : List Nat → Task → Exec N Unit) : Prop :=
  ∀ env t, Follows p (again env t) (again' env (t.simplify p))

/-- A call follows itself, with what is left to be done done alike. -/
theorem Follows.apply (h : FollowsAgain p again again') (f : Value N) (args : List (Value N)) :
    Follows p (M.apply again f args) (M.apply again' f args) := by
  unfold Meaning.apply
  split
  · exact .callStandard _ _
  · refine .closure_bind (fun c => ?_) _
    exact .bind (.newScope _) fun _ => .outputOf (h _ (.stmts c.body))
  · exact .throw _

mutual

/-- The value of an expression is that of the simplified one. -/
theorem evalExpr_simplify (h : FollowsAgain p again again') (env : List Nat) :
    ∀ e : Expr, Follows p (M.evalExpr again env e) (M.evalExpr again' env (e.simplify p).value)
  | .num value => by
    rw [Expr.simplify, Meaning.evalExpr, Reduced.value_pure, Meaning.evalExpr]
    exact .pure _
  | .bool value => by
    rw [Expr.simplify, Meaning.evalExpr, Reduced.value_pure, Meaning.evalExpr]
    exact .pure _
  | .word contents => by
    rw [Expr.simplify, Meaning.evalExpr, Reduced.value_pure, Meaning.evalExpr]
    exact .pure _
  | .auto a => by
    rw [Expr.simplify, Meaning.evalExpr, Reduced.value_pure, Meaning.evalExpr]
    exact .readAutomation a
  | .list elements => by
    rw [Expr.simplify, Meaning.evalExpr, Reduced.value_bind, Reduced.value_pure, Meaning.evalExpr]
    exact .bind (evalExprs_simplify h env elements) fun _ => .newList _
  | .var v => by
    have hv : M.evalExpr again' env ((Expr.var v).simplify p).value = M.readVariable env v := by
      rw [Expr.simplify, Reduced.value_pure]
      split
      · rw [evalExpr_foldVar, Meaning.evalExpr]
      · rw [Meaning.evalExpr]
    rw [hv, Meaning.evalExpr]
    exact .readVariable v
  | .arith op left right => by
    -- Folding only looks at the simplified operands, so it is undone before they
    -- are compared with the operands themselves.
    have hfold : M.evalExpr again' env ((Expr.arith op left right).simplify p).value =
        M.evalExpr again' env (.arith op (left.simplify p).value (right.simplify p).value) := by
      rw [Expr.simplify, Reduced.value_bind, Reduced.value_bind]
      split
      · exact evalExpr_foldArith _ _ _
      · rfl
    rw [hfold, Meaning.evalExpr, Meaning.evalExpr]
    exact .bind (evalExpr_simplify h env left) fun _ =>
      .bind (evalExpr_simplify h env right) fun _ => .demand _
  | .compare op left right => by
    have hfold : M.evalExpr again' env ((Expr.compare op left right).simplify p).value =
        M.evalExpr again' env (.compare op (left.simplify p).value (right.simplify p).value) := by
      rw [Expr.simplify, Reduced.value_bind, Reduced.value_bind]
      split
      · exact evalExpr_foldCompare _ _ _
      · rfl
    rw [hfold, Meaning.evalExpr, Meaning.evalExpr]
    exact .bind (evalExpr_simplify h env left) fun _ =>
      .bind (evalExpr_simplify h env right) fun _ => .bind (.demand _) fun _ => .pure _
  | .paren inner => by
    have hfold : M.evalExpr again' env ((Expr.paren inner).simplify p).value =
        M.evalExpr again' env (inner.simplify p).value := by
      rw [Expr.simplify, Reduced.value_bind, Reduced.value_pure]
      split
      · rw [evalExpr_foldParen, Meaning.evalExpr]
      · rw [Meaning.evalExpr]
    rw [hfold, Meaning.evalExpr]
    exact evalExpr_simplify h env inner
  | .call callee args => by
    rw [Expr.simplify, Meaning.evalExpr, Reduced.value_bind, Reduced.value_pure, Meaning.evalExpr]
    exact .bind (.readAutomation callee) fun _ =>
      .bind (evalExprs_simplify h env args) fun _ => .apply h _ _

/-- The values of expressions are those of the simplified ones. -/
theorem evalExprs_simplify (h : FollowsAgain p again again') (env : List Nat) :
    ∀ es : List Expr,
      Follows p (M.evalExprs again env es) (M.evalExprs again' env (simplifyExprs p es).value)
  | [] => by
    rw [simplifyExprs, Meaning.evalExprs, Reduced.value_pure, Meaning.evalExprs]
    exact .pure _
  | e :: es => by
    rw [simplifyExprs, Meaning.evalExprs, Reduced.value_bind, Reduced.value_bind,
      Reduced.value_pure, Meaning.evalExprs]
    exact .bind (evalExpr_simplify h env e) fun _ =>
      .bind (evalExprs_simplify h env es) fun _ => .pure _

end

/-- The simplified test follows the test. -/
theorem evalTest_simplify (h : FollowsAgain p again again') (env : List Nat) (test : Expr) :
    Follows p (M.evalTest again env test) (M.evalTest again' env (test.simplify p).value) := by
  unfold Meaning.evalTest
  refine .bind (evalExpr_simplify h env test) fun x => ?_
  cases x with
  | bool b => exact .pure _
  | _ => exact .throw _

/-- The simplified list follows the list. -/
theorem evalList_simplify (h : FollowsAgain p again again') (env : List Nat) (list : Expr) :
    Follows p (M.evalList again env list) (M.evalList again' env (list.simplify p).value) := by
  unfold Meaning.evalList
  refine .bind (evalExpr_simplify h env list) fun x => ?_
  cases x with
  | list id => exact .pure _
  | _ => exact .throw _

/-! ## Pruning -/

/-- A test that is known evaluates to its truth value, and does nothing else. -/
theorem evalTest_of_constBool {test : Expr} {b : Bool} (h : test.constBool = some b) :
    M.evalTest again env test = pure b := by
  suffices M.evalExpr again env test = pure (.bool b) by
    rw [Meaning.evalTest, this, pure_bind]
  fun_induction Expr.constBool test with
  | case1 b' =>
    cases h
    rw [Meaning.evalExpr]
  | case2 v => rw [Meaning.evalExpr, Meaning.readVariable, constant?_of_truth? h]
  | case3 inner ih => rw [Meaning.evalExpr, ih h]
  | case4 => cases h

/-- A test that is known has the truth value that is known. -/
theorem evalTest_of_knownTest {test : Expr} {b : Bool} (h : knownTest p test = some b) :
    M.evalTest again env test = pure b := by
  unfold knownTest at h
  split at h
  · exact evalTest_of_constBool h
  · cases h

/-- Nothing is done after a terminal statement. -/
theorem execStmt_bind_of_isTerminal {s : Stmt} (h : s.isTerminal = true) (f : Unit → Exec N Unit) :
    M.execStmt again env s >>= f = M.execStmt again env s := by
  cases s with
  | breakLoop =>
    rw [Meaning.execStmt]
    rfl
  | output value ty =>
    cases value with
    | none =>
      rw [Meaning.execStmt]
      rfl
    | some e =>
      rw [Meaning.execStmt, bind_assoc]
      rfl
  | _ => cases h

/-- Statements put together are executed one part after the other. -/
theorem execStmts_append (ss tt : List Stmt) :
    M.execStmts again env (ss ++ tt) =
      (do M.execStmts again env ss; M.execStmts again env tt) := by
  induction ss with
  | nil => simp only [List.nil_append, Meaning.execStmts, pure_bind]
  | cons s ss ih => simp only [List.cons_append, Meaning.execStmts, ih, bind_assoc]

theorem execStmts_singleton (s : Stmt) :
    M.execStmts again env [s] = M.execStmt again env s := by
  simp only [Meaning.execStmts]
  exact bind_pure _

/-! ## Statements -/

/-- A statement that stays is followed by the one it becomes. -/
theorem Follows.of_singleton {m : Exec N Unit} {r : Reduced (List Stmt)} {s : Stmt}
    (hr : r.value = [s]) (h : Follows p m (M.execStmt again' env s)) :
    Follows p m (M.execStmts again' env r.value) := by
  rw [hr, execStmts_singleton]
  exact h

/-- A branch is followed by its simplified form, if one of two is chosen by a
    test that is not known. -/
theorem Follows.branch {test test' : Exec N Bool} {m m' n n' : Exec N Unit}
    (ht : Follows p test test') (hm : Follows p m m') (hn : Follows p n n') :
    Follows p (do if ← test then m else n) (do if ← test' then m' else n') := by
  refine .bind ht fun b => ?_
  cases b with
  | true => exact hm
  | false => exact hn

/-- A branch that is chosen by a known test is followed by what follows it. -/
theorem Follows.of_knownTest (h : FollowsAgain p again again') {test : Expr} {b : Bool}
    (ht : knownTest p (test.simplify p).value = some b) {f : Bool → Exec N Unit} {m' : Exec N Unit}
    (hb : Follows p (f b) m') : Follows p (M.evalTest again env test >>= f) m' := by
  intro actions
  have htest := evalTest_simplify (M := M) h env test actions
  rw [evalTest_of_knownTest ht] at htest
  change m' (simplifyActions p actions) =
    mapRecord _ (EStateM.bind (M.evalTest again env test) f actions)
  rw [EStateM.bind]
  cases hresult : M.evalTest again env test actions with
  | ok b' actions' =>
    -- The test may take actions, but only such that simplifying them leaves nothing new.
    rw [hresult] at htest
    obtain ⟨rfl, hactions⟩ := EStateM.Result.ok.inj htest
    rw [hactions]
    exact hb actions'
  | error stop actions' =>
    rw [hresult] at htest
    cases htest

theorem simplifyStmts_singleton (s : Stmt) :
    (simplifyStmts p [s]).value = (s.simplify p).value := by
  rw [simplifyStmts, Reduced.value_bind]
  split
  · rfl
  · rw [simplifyStmts, Reduced.value_bind, Reduced.value_pure, Reduced.value_pure, List.append_nil]

mutual

/-- A statement is followed by what simplifying makes of it. -/
theorem execStmt_simplify (h : FollowsAgain p again again') (env : List Nat) :
    ∀ s : Stmt, Follows p (M.execStmt again env s) (M.execStmts again' env (s.simplify p).value)
  | .declare v init => by
    rw [Stmt.simplify]
    refine .of_singleton rfl ?_
    rw [Meaning.execStmt, Meaning.execStmt]
    exact .bind (evalExpr_simplify h env init) fun _ => .declare _ _ _
  | .assign target source => by
    rw [Stmt.simplify]
    refine .of_singleton rfl ?_
    rw [Meaning.execStmt, Meaning.execStmt]
    exact .bind (evalExpr_simplify h env source) fun _ => .assign _ _ _
  | .change op target term => by
    rw [Stmt.simplify]
    refine .of_singleton rfl ?_
    rw [Meaning.execStmt, Meaning.execStmt]
    exact .bind (.readVariable target) fun _ =>
      .bind (evalExpr_simplify h env term) fun _ => .bind (.demand _) fun _ => .assign _ _ _
  | .print argument => by
    rw [Stmt.simplify]
    refine .of_singleton rfl ?_
    rw [Meaning.execStmt, Meaning.execStmt]
    exact .bind (evalExpr_simplify h env argument) fun _ => .perform fun _ => rfl
  | .automate a params body => by
    rw [Stmt.simplify]
    refine .of_singleton rfl ?_
    rw [Meaning.execStmt, Meaning.execStmt]
    exact .bind (.newClosure ⟨params, body, env⟩) fun _ => .declare _ _ _
  | .call callee args => by
    rw [Stmt.simplify]
    refine .of_singleton rfl ?_
    rw [Meaning.execStmt, Meaning.execStmt]
    exact .bind (.readAutomation callee) fun _ =>
      .bind (evalExprs_simplify h env args) fun _ => .bind (.apply h _ _) fun _ => .pure _
  | .output none ty => by
    rw [Stmt.simplify]
    refine .of_singleton rfl ?_
    rw [Meaning.execStmt]
    exact .throw _
  | .output (some value) ty => by
    rw [Stmt.simplify]
    refine .of_singleton rfl ?_
    rw [Meaning.execStmt, Meaning.execStmt]
    exact .bind (evalExpr_simplify h env value) fun _ => .throw _
  | .ifElse test body none => by
    rw [Stmt.simplify, Reduced.value_bind, Meaning.execStmt]
    split
    · rename_i b hb
      refine .of_knownTest h hb ?_
      cases b with
      | true => exact execStmts_simplify h env body
      | false => exact .pure _
    · refine .of_singleton rfl ?_
      rw [Meaning.execStmt]
      exact .branch (evalTest_simplify h env test) (execStmts_simplify h env body) (.pure _)
  | .ifElse test body (some alternate) => by
    rw [Stmt.simplify, Reduced.value_bind, Meaning.execStmt]
    split
    · rename_i b hb
      refine .of_knownTest h hb ?_
      cases b with
      | true => exact execStmts_simplify h env body
      | false => exact execStmts_simplify h env alternate
    · refine .of_singleton rfl ?_
      rw [Meaning.execStmt]
      exact .branch (evalTest_simplify h env test) (execStmts_simplify h env body)
        (execStmts_simplify h env alternate)
  | .loopWhile test body => by
    rw [Stmt.simplify, Reduced.value_bind, Meaning.execStmt]
    split
    · rename_i hb
      exact .of_knownTest h hb (.pure _)
    · rename_i hb
      -- The rounds after the first are a task of their own, the whole loop. Simplifying
      -- that task gives the loop again only because the test is not known to fail.
      have hloop : (simplifyStmts p [.loopWhile test body]).value =
          [.loopWhile (test.simplify p).value (simplifyStmts p body).value] := by
        rw [simplifyStmts_singleton, Stmt.simplify, Reduced.value_bind]
        split
        · rename_i hf
          exact absurd hf hb
        · rfl
      refine .of_singleton rfl ?_
      rw [Meaning.execStmt]
      refine .branch (evalTest_simplify h env test) (.bind (.newScope _) fun scope => ?_) (.pure _)
      refine .thenRounds (execStmts_simplify h (scope :: env) body) ?_
      rw [← hloop]
      exact h env (.stmts [.loopWhile test body])
  | .loopOver item list body => by
    rw [Stmt.simplify]
    refine .of_singleton rfl ?_
    rw [Meaning.execStmt, Meaning.execStmt]
    exact .bind (evalList_simplify h env list) fun id => h env (.rounds item id 0 body)
  | .breakLoop => by
    rw [Stmt.simplify]
    refine .of_singleton rfl ?_
    rw [Meaning.execStmt]
    exact .throw _

/-- Statements are followed by what simplifying makes of them. -/
theorem execStmts_simplify (h : FollowsAgain p again again') (env : List Nat) :
    ∀ ss : List Stmt,
      Follows p (M.execStmts again env ss) (M.execStmts again' env (simplifyStmts p ss).value)
  | [] => by
    rw [simplifyStmts, Meaning.execStmts, Reduced.value_pure, Meaning.execStmts]
    exact .pure _
  | s :: ss => by
    rw [simplifyStmts, Meaning.execStmts, Reduced.value_bind]
    split
    · rename_i hs
      -- The statements after a terminal one are dropped; they would not be reached.
      rw [execStmt_bind_of_isTerminal (Bool.and_eq_true_iff.1 hs).2]
      exact execStmt_simplify h env s
    · rw [Reduced.value_bind, Reduced.value_pure, execStmts_append]
      exact .bind (execStmt_simplify h env s) fun _ => execStmts_simplify h env ss

end

/-! ## Programs -/

/-- A task with simplified statements follows the task. -/
theorem execTask_simplify (h : FollowsAgain p again again') :
    FollowsAgain p (M.execTask again) (M.execTask again') := by
  intro env t
  cases t with
  | stmts ss => exact execStmts_simplify h env ss
  | rounds item list index body =>
    refine .bind (.elements list) fun xs => ?_
    cases xs[index]? with
    | none => exact .pure _
    | some x =>
      exact .bind (.newScope _) fun scope => .thenRounds (execStmts_simplify h (scope :: env) body)
        (h env (.rounds item list (index + 1) body))

/-- To every depth, a task is followed by the simplified one. -/
theorem exec_simplify (depth : Nat) : FollowsAgain p (M.exec depth) (M.exec depth) := by
  -- Loops and calls hand on a task to a lesser depth, so the statements in it need
  -- not be parts of those at hand.
  induction depth with
  | zero => exact fun _ _ => .throw _
  | succ depth ih => exact execTask_simplify ih

/-- To every depth, the simplified form of a program takes the simplified actions. -/
theorem trace_simplify (depth : Nat) (program : Program) :
    M.trace depth (program.simplify p).value =
      Prod.map id (simplifyActions p) (M.trace depth program) := by
  have h := exec_simplify (M := M) (p := p) depth [0] (.stmts program.stmts) []
  have hstart : simplifyActions p ([] : List (Action N)) = [] := rfl
  rw [hstart, Task.simplify] at h
  rw [Meaning.trace, Meaning.trace, simplify, Reduced.value_bind, Reduced.value_pure, h]
  cases M.exec depth [0] (.stmts program.stmts) [] with
  | ok a actions => rfl
  | error stop actions => rfl

/-- To every depth, a program does what its simplified form does. -/
theorem run_simplify (depth : Nat) (program : Program) :
    M.run depth (program.simplify p).value = M.run depth program := by
  rw [Meaning.run, Meaning.run, trace_simplify, Prod.map_snd, after_simplify]
  rfl

/-- Simplifying preserves meaning. Whatever the numbers are and whatever passes
    are switched on, a program and its simplified form print the same values and
    end in the same way, if one of them ends at all, and what they print is the
    same even if they do not. -/
theorem simplify_preserves_meaning (M : Meaning N) (p : Passes) (program : Program) :
    (∀ ending printed,
      M.Ends (program.simplify p).value ending printed ↔ M.Ends program ending printed) ∧
    (∀ ending printed ending' printed', M.Ends program ending printed →
      M.Ends (program.simplify p).value ending' printed' →
      ending = ending' ∧ printed = printed') ∧
    (M.Terminates (program.simplify p).value ↔ M.Terminates program) ∧
    ∀ printed, M.Prints (program.simplify p).value printed ↔ M.Prints program printed := by
  have hends : ∀ ending printed,
      M.Ends (program.simplify p).value ending printed ↔ M.Ends program ending printed := by
    intro ending printed
    simp only [Meaning.Ends, run_simplify]
  refine ⟨hends, fun ending printed ending' printed' h h' => ?_, ?_, fun printed => ?_⟩
  · exact ends_unique h ((hends ending' printed').1 h')
  · simp only [Meaning.Terminates, hends]
  · simp only [Meaning.Prints, run_simplify]

end Toal.Semantics
