import Toal.Proofs.NormalForms
import Toal.Proofs.StrayBreaks

/-!
# Statements that pruning misses

Pruning drops what comes after a `break` or an `output` in a list of statements, as the
program has it. But a branch that takes the place of its `if` can bring one along, and
what comes after the `if` is not dropped then: the list *overruns* (`stmtsOverrun`). In
what simplifying leaves, lists go on after their end exactly if they overrun
(`ending_simplifyStmts`). Where all statements are settled no list does
(`stmtsOverrun_of_settled`), so simplifying once more drops the rest.

* `dead_unless_overrun`: what pruning leaves of the statements that never run.
* `simplify_stabilises`: to simplify twice is enough, and once if nothing is pruned.
-/

namespace Toal.Program

variable {p : Passes}

/-! ## Lists that go on after their end -/

section

variable (p : Passes)

mutual

/-- Whether nothing is reached after what simplifying leaves of the statement: it is a
    `break` or an `output`, or a branch with one takes its place. -/
def Stmt.closes : Stmt → Bool
  | .ifElse test body none =>
    match test.settled p with
    | some true => stmtsClose body
    | _ => false
  | .ifElse test body (some alternate) =>
    match test.settled p with
    | some true => stmtsClose body
    | some false => stmtsClose alternate
    | none => false
  | .output .. | .breakLoop => true
  | .declare .. | .assign .. | .change .. | .print _ | .automate .. | .call .. | .loopWhile ..
  | .loopOver .. => false

/-- Whether nothing is reached after one of the statements. -/
def stmtsClose : List Stmt → Bool
  | [] => false
  | s :: ss => s.closes || stmtsClose ss

end

mutual

/-- Whether simplifying leaves nothing of the statement. -/
def Stmt.vanishes : Stmt → Bool
  | .ifElse test body none =>
    match test.settled p with
    | some true => stmtsVanish body
    | some false => true
    | none => false
  | .ifElse test body (some alternate) =>
    match test.settled p with
    | some true => stmtsVanish body
    | some false => stmtsVanish alternate
    | none => false
  | .loopWhile test _ => test.settled p == some false
  | .declare .. | .assign .. | .change .. | .print _ | .automate .. | .call .. | .output ..
  | .loopOver .. | .breakLoop => false

/-- Whether simplifying leaves nothing of the statements. -/
def stmtsVanish : List Stmt → Bool
  | [] => true
  | s :: ss => s.vanishes && stmtsVanish ss

end

mutual

/-- Whether some list inside the statement overruns, among those that are left. -/
def Stmt.overruns : Stmt → Bool
  | .automate _ _ body => stmtsOverrun body
  | .ifElse test body none =>
    match test.settled p with
    | some false => false
    | _ => stmtsOverrun body
  | .ifElse test body (some alternate) =>
    match test.settled p with
    | some true => stmtsOverrun body
    | some false => stmtsOverrun alternate
    | none => stmtsOverrun body || stmtsOverrun alternate
  | .loopWhile test body =>
    match test.settled p with
    | some false => false
    | _ => stmtsOverrun body
  | .loopOver _ _ body => stmtsOverrun body
  | .declare .. | .assign .. | .change .. | .print _ | .call .. | .output .. | .breakLoop => false

/-- Whether the list or one inside of it *overruns*: something is left of the statements
    that come after one that closes it, and they are not dropped, as that one is not
    terminal itself. -/
def stmtsOverrun : List Stmt → Bool
  | [] => false
  | s :: ss =>
    s.overruns ||
      if (p.prune && s.isTerminal) = true then false
      else (s.closes p && !stmtsVanish p ss) || stmtsOverrun ss

end

end

/-- What there is to say about the end of a list that simplifying leaves: whether it has
    a terminal statement, whether it is empty, and whether a list in it goes on. -/
structure Ending (ts : List Stmt) (closes vanishes overruns : Bool) : Prop where
  closes : ts.any Stmt.isTerminal = closes
  vanishes : ts.isEmpty = vanishes
  overruns : (stmtsBlocks ts).any goesOn = overruns

namespace Ending

variable {ts ts' : List Stmt} {c c' v v' o o' : Bool}

theorem nil : Ending [] false true false := ⟨rfl, rfl, rfl⟩

theorem singleton {t : Stmt} (h : t.blocks.any goesOn = o) : Ending [t] t.isTerminal false o := by
  refine ⟨Bool.or_false _, rfl, ?_⟩
  rw [stmtsBlocks, innerBlocks_singleton, List.any_cons, h]
  exact Bool.false_or o

/-- The end of two lists put together: the second overruns the first if that closes. -/
theorem append (h : Ending ts c v o) (h' : Ending ts' c' v' o') :
    Ending (ts ++ ts') (c || c') (v && v') (o || ((c && !v') || o')) := by
  refine ⟨?_, ?_, ?_⟩
  · rw [List.any_append, h.closes, h'.closes]
  · rw [← h.vanishes, ← h'.vanishes]
    cases ts <;> rfl
  · rw [← h.closes, ← h'.vanishes, ← h.overruns, ← h'.overruns, stmtsBlocks, innerBlocks_append]
    simp only [stmtsBlocks, List.any_cons, List.any_append, goesOn_append]
    ac_rfl

end Ending

/-- A terminal statement closes its list, and does not vanish. -/
theorem Stmt.closes_of_isTerminal {s : Stmt} (h : s.isTerminal = true) :
    s.closes p = true ∧ s.vanishes p = false := by
  cases s with
  | output _ _ | breakLoop => exact ⟨rfl, rfl⟩
  | declare _ _ | assign _ _ | change _ _ _ | print _ | automate _ _ _ | call _ _ | ifElse _ _ _
  | loopWhile _ _ | loopOver _ _ _ => cases h

mutual

/-- Whether the list that a statement leaves closes, vanishes and overruns can be told in
    advance. -/
theorem ending_simplifyStmt : ∀ s : Stmt,
    Ending (s.simplify p).value (s.closes p) (s.vanishes p) (s.overruns p)
  | .declare v init => .singleton rfl
  | .assign target source => .singleton rfl
  | .change op target term => .singleton rfl
  | .print argument => .singleton rfl
  | .automate a params body => .singleton (ending_simplifyStmts body).overruns
  | .call callee args => .singleton rfl
  | .output none ty => .singleton rfl
  | .output (some value) ty => .singleton rfl
  | .ifElse test body none => by
    have hbody := ending_simplifyStmts body
    simp only [Stmt.simplify, Reduced.value_bind, Stmt.closes, Stmt.vanishes, Stmt.overruns,
      Expr.settled]
    cases knownTest p (test.simplify p).value with
    | none => exact .singleton hbody.overruns
    | some b =>
      cases b with
      | true => exact hbody
      | false => exact .nil
  | .ifElse test body (some alternate) => by
    have hbody := ending_simplifyStmts body
    have halternate := ending_simplifyStmts alternate
    simp only [Stmt.simplify, Reduced.value_bind, Stmt.closes, Stmt.vanishes, Stmt.overruns,
      Expr.settled]
    cases knownTest p (test.simplify p).value with
    | none =>
      refine .singleton ?_
      rw [← hbody.overruns, ← halternate.overruns]
      exact List.any_append
    | some b =>
      cases b with
      | true => exact hbody
      | false => exact halternate
  | .loopWhile test body => by
    have hbody := ending_simplifyStmts body
    simp only [Stmt.simplify, Reduced.value_bind, Stmt.closes, Stmt.vanishes, Stmt.overruns,
      Expr.settled]
    cases knownTest p (test.simplify p).value with
    | none => exact .singleton hbody.overruns
    | some b =>
      cases b with
      | true => exact .singleton hbody.overruns
      | false => exact .nil
  | .loopOver item list body => .singleton (ending_simplifyStmts body).overruns
  | .breakLoop => .singleton rfl

/-- In what simplifying leaves, a list goes on after its end exactly if a list overruns. -/
theorem ending_simplifyStmts : ∀ ss : List Stmt,
    Ending (simplifyStmts p ss).value (stmtsClose p ss) (stmtsVanish p ss) (stmtsOverrun p ss)
  | [] => .nil
  | s :: ss => by
    have hs := ending_simplifyStmt s
    rw [simplifyStmts, Reduced.value_bind, stmtsClose, stmtsVanish, stmtsOverrun]
    by_cases hcut : (p.prune && s.isTerminal) = true
    · rw [if_pos hcut, if_pos hcut, Bool.or_false]
      -- What comes after a terminal statement cannot change how the list ends.
      obtain ⟨hcloses, hvanishes⟩ :=
        Stmt.closes_of_isTerminal (p := p) (Bool.and_eq_true_iff.1 hcut).2
      rw [hcloses, hvanishes] at hs ⊢
      exact hs
    · rw [if_neg hcut, if_neg hcut]
      exact hs.append (ending_simplifyStmts ss)

end

/-! ## Settled statements do not overrun -/

/-- A settled test is not known. -/
theorem settled_of_ifElse {test : Expr} {body : List Stmt} {alternate : Option (List Stmt)}
    (h : (Stmt.ifElse test body alternate).Settled p) : test.settled p = none := by
  rw [Expr.settled, h.simplify_expr List.mem_cons_self]
  exact knownTest_of_ifElse h

/-- The branches of a settled statement stay where they are. -/
theorem Stmt.closes_of_settled {s : Stmt} (h : s.Settled p) : s.closes p = s.isTerminal := by
  cases s with
  | ifElse test body alternate =>
    have htest := settled_of_ifElse h
    cases alternate with
    | none => rw [Stmt.closes, htest]; rfl
    | some alternate => rw [Stmt.closes, htest]; rfl
  | declare _ _ | assign _ _ | change _ _ _ | print _ | automate _ _ _ | call _ _ | output _ _
  | loopWhile _ _ | loopOver _ _ _ | breakLoop => rfl

mutual

/-- A settled statement does not overrun. -/
theorem overruns_of_settled (hp : p.prune = true) : ∀ s : Stmt, s.Settled p →
    BlocksSettled p s.blocks → s.overruns p = false
  | .automate _ _ body, _, hb => stmtsOverrun_of_settled hp body hb
  | .ifElse test body none, hs, hb => by
    rw [Stmt.overruns, settled_of_ifElse hs]
    exact stmtsOverrun_of_settled hp body hb
  | .ifElse test body (some alternate), hs, hb => by
    obtain ⟨hbody, halternate⟩ := List.forall_mem_append.1 hb
    rw [Stmt.overruns, settled_of_ifElse hs, stmtsOverrun_of_settled hp body hbody,
      stmtsOverrun_of_settled hp alternate halternate]
    rfl
  | .loopWhile test body, _, hb => by
    rw [Stmt.overruns]
    split
    · rfl
    · exact stmtsOverrun_of_settled hp body hb
  | .loopOver _ _ body, _, hb => stmtsOverrun_of_settled hp body hb
  | .declare _ _, _, _ | .assign _ _, _, _ | .change _ _ _, _, _ | .print _, _, _
  | .call _ _, _, _ | .output _ _, _, _ | .breakLoop, _, _ => rfl

/-- If statements are pruned that are settled, no list overruns. -/
theorem stmtsOverrun_of_settled (hp : p.prune = true) : ∀ ss : List Stmt,
    BlocksSettled p (stmtsBlocks ss) → stmtsOverrun p ss = false
  | [], _ => rfl
  | s :: ss, h => by
    obtain ⟨hlist, hinner⟩ := List.forall_mem_cons.1 h
    obtain ⟨hs, hss⟩ := List.forall_mem_cons.1 hlist
    obtain ⟨hblocks, hrest⟩ := List.forall_mem_append.1 hinner
    have ih := stmtsOverrun_of_settled hp ss (List.forall_mem_cons.2 ⟨hss, hrest⟩)
    rw [stmtsOverrun, overruns_of_settled hp s hs hblocks, Stmt.closes_of_settled hs, hp, ih]
    cases s.isTerminal <;> rfl

end

/-! ## Programs -/

/-- Nothing is left of which it is known that it never runs: no test says what becomes of
    its statement, and a `break` or an `output` is the last statement of its list. -/
structure Pruned (program : Program) : Prop where
  undecided : ∀ b ∈ program.blocks, ∀ s ∈ b, s.undecided = true
  ended : ∀ b ∈ program.blocks, ∀ s ∈ b.dropLast, s.isTerminal = false

/-- A program is pruned if no test is decided and no list goes on after its end. -/
theorem pruned_iff {program : Program} :
    program.Pruned ↔ (∀ b ∈ program.blocks, ∀ s ∈ b, s.undecided = true) ∧
      program.blocks.any goesOn = false := by
  have hended : program.blocks.any goesOn = false ↔
      ∀ b ∈ program.blocks, ∀ s ∈ b.dropLast, s.isTerminal = false := by
    simp only [goesOn, List.any_eq_false, Bool.not_eq_true]
  rw [hended]
  exact ⟨fun h => ⟨h.undecided, h.ended⟩, fun h => ⟨h.1, h.2⟩⟩

/-- Simplifying leaves no test that is decided. -/
theorem undecided_simplify (hp : p.prune = true) (program : Program) :
    ∀ b ∈ (program.simplify p).value.blocks, ∀ s ∈ b, s.undecided = true :=
  fun b hb s hs => (settled_simplifyStmts program.stmts b hb s hs).undecided hp

/-- Simplifying twice leaves no list that goes on after its end. -/
theorem goesOn_simplify_simplify (hp : p.prune = true) (program : Program) :
    ((program.simplify p).value.simplify p).value.blocks.any goesOn = false :=
  (ending_simplifyStmts _).overruns.trans
    (stmtsOverrun_of_settled hp _ (settled_simplifyStmts program.stmts))

/-- With pruning, no test is left that says what becomes of its statement. Whether all that
    never runs is gone depends on the program: it is not if a list overruns, and only then.
    Simplifying once more removes it in any case. -/
theorem dead_unless_overrun (hp : p.prune = true) (program : Program) :
    (∀ b ∈ (program.simplify p).value.blocks, ∀ s ∈ b, s.undecided = true) ∧
      ((program.simplify p).value.Pruned ↔ stmtsOverrun p program.stmts = false) ∧
      ((program.simplify p).value.simplify p).value.Pruned := by
  have hundecided := undecided_simplify hp program
  have hoverrun : (program.simplify p).value.blocks.any goesOn = stmtsOverrun p program.stmts :=
    (ending_simplifyStmts program.stmts).overruns
  refine ⟨hundecided, ?_, ?_⟩
  · rw [pruned_iff, hoverrun]
    exact and_iff_right hundecided
  · exact pruned_iff.2 ⟨undecided_simplify hp _, goesOn_simplify_simplify hp program⟩

section Overrunning

/-- A loop that ends with a branch that is taken for certain. -/
def leavingLoop : Program :=
  let yes : Variable := ⟨7, "true", true, .bool, true⟩
  ⟨[.loopWhile (.var yes)
      [.print (.word "a"),
        .ifElse (.var yes) [.print (.word "b"), .breakLoop, .print (.word "c")] none,
        .loopWhile (.var ⟨8, "false", true, .bool, true⟩) [.breakLoop]]]⟩

/-- A taken branch that closes its list, and after it only what vanishes. -/
theorem dead_unless_overrun_leavingLoop :
    stmtsOverrun .all leavingLoop.stmts = false ∧
      (leavingLoop.simplify .all).value = ⟨[.loopWhile (.bool true)
        [.print (.word "a"), .print (.word "b"), .breakLoop]]⟩ ∧
      (leavingLoop.simplify .all).value.Pruned := by
  have hoverrun : stmtsOverrun .all leavingLoop.stmts = false := rfl
  exact ⟨hoverrun, rfl, (dead_unless_overrun rfl leavingLoop).2.1.2 hoverrun⟩

open Surface in
/-- A branch with a `break` that is taken for certain, and a statement after it. -/
def overrunning : List Surface.Stmt :=
  let ident (x : String) : Ident := ⟨x, default⟩
  [.loopWhile (.name (ident "true"))
    (.mk [.ifElse (.name (ident "true")) (.mk [.breakLoop default] default) none default,
      .print (.word "a" default) default] default) default]

/-- Its typed form. -/
def overrunningTyped : Program :=
  let yes : Variable := ⟨7, "true", true, .bool, true⟩
  ⟨[.loopWhile (.var yes) [.ifElse (.var yes) [.breakLoop] none, .print (.word "a")]]⟩

/-- What comes after the branch is left, though it comes after a `break` now. -/
theorem overrunning_not_pruned :
    (Typing.run Prelude.standard overrunning).1 = .ok overrunningTyped ∧
      (overrunningTyped.simplify .all).value =
        ⟨[.loopWhile (.bool true) [.breakLoop, .print (.word "a")]]⟩ ∧
      ¬(overrunningTyped.simplify .all).value.Pruned := by
  have hrun : (Typing.run Prelude.standard overrunning).1 = .ok overrunningTyped := rfl
  refine ⟨hrun, rfl, fun h => ?_⟩
  have hended := h.ended [.breakLoop, .print (.word "a")]
    (List.mem_cons_of_mem _ List.mem_cons_self) .breakLoop List.mem_cons_self
  exact absurd hended (by decide)

end Overrunning

/-- Simplifying a program for the third time changes nothing and applies no reduction.
    Without pruning this is so the second time already. -/
theorem simplify_stabilises (p : Passes) (program : Program) :
    let once := (program.simplify p).value
    let twice := (once.simplify p).value
    twice.simplify p = pure twice ∧ (p.prune = false → once.simplify p = pure once) := by
  refine ⟨?_, fun hp => ?_⟩
  · exact simplify_of_settled (settled_simplifyStmts _) fun hp =>
      goesOn_simplify_simplify hp program
  · exact simplify_of_settled (settled_simplifyStmts program.stmts) fun hprune =>
      absurd (hp.symm.trans hprune) Bool.false_ne_true

theorem simplify_stabilises_overrunning :
    let once : Program := ⟨[.loopWhile (.bool true) [.breakLoop, .print (.word "a")]]⟩
    let twice : Program := ⟨[.loopWhile (.bool true) [.breakLoop]]⟩
    (overrunningTyped.simplify .all).value = once ∧ (once.simplify .all).value = twice ∧
      twice.simplify .all = pure twice ∧
      (overrunningTyped.simplify ⟨true, false⟩).value.simplify ⟨true, false⟩ =
        pure (overrunningTyped.simplify ⟨true, false⟩).value :=
  ⟨rfl, rfl, (simplify_stabilises .all overrunningTyped).1,
    (simplify_stabilises ⟨true, false⟩ overrunningTyped).2 rfl⟩

end Toal.Program
