import Toal.Compiler
import Toal.Journal.Text

/-!
# Reductions shrink programs

The *size* of a program is the number of its statements, `else` branches and
expressions, at whatever depth. Each reduction that is put on record can be charged
to a node that is gone in the end and that no other reduction is charged to: an
operator or a comparison to itself, since its value takes the place of one of its
operands; a decided `if` and a loop that is never entered to the statement; statements
that are never reached to the first of them. What has been reduced inside of a test is
charged to the test, also if the test is then dropped with its statement.

* `weight_simplifyStmts`: the size of what is left and the number of reductions
  together do not exceed the size before;
* `record_bounds_size`: the journal tells this number, by the reductions themselves
  and by the count at their end.
-/

namespace Toal

namespace Program

/-! ## Sizes -/

mutual

/-- The number of expressions that an expression is made of, itself included. -/
def Expr.size : Expr → Nat
  | .num _ | .bool _ | .word _ | .var _ | .auto _ => 1
  | .list elements => exprsSize elements + 1
  | .arith _ left right => left.size + right.size + 1
  | .compare _ left right => left.size + right.size + 1
  | .paren inner => inner.size + 1
  | .call _ args => exprsSize args + 1

/-- The number of expressions that the expressions of a list are made of. -/
def exprsSize : List Expr → Nat
  | [] => 0
  | e :: es => e.size + exprsSize es

end

mutual

/-- The number of statements, `else` branches and expressions that a statement is made
    of, itself included. -/
def Stmt.size : Stmt → Nat
  | .declare _ init => init.size + 1
  | .assign _ source => source.size + 1
  | .change _ _ term => term.size + 1
  | .print argument => argument.size + 1
  | .automate _ _ body => stmtsSize body + 1
  | .call _ args => exprsSize args + 1
  | .output none _ => 1
  | .output (some value) _ => value.size + 1
  | .ifElse test body none => test.size + stmtsSize body + 1
  | .ifElse test body (some alternate) =>
    test.size + stmtsSize body + (stmtsSize alternate + 1) + 1
  | .loopWhile test body => test.size + stmtsSize body + 1
  | .loopOver _ list body => list.size + stmtsSize body + 1
  | .breakLoop => 1

/-- The number of nodes that the statements of a list are made of. -/
def stmtsSize : List Stmt → Nat
  | [] => 0
  | s :: ss => s.size + stmtsSize ss

end

/-- The size of a program. -/
def size (program : Program) : Nat := stmtsSize program.stmts

/-- No expression is empty. -/
theorem Expr.size_pos (e : Expr) : 0 < e.size := by
  cases e with
  | num _ | bool _ | word _ | var _ | auto _ => exact Nat.one_pos
  | list _ | arith _ _ _ | compare _ _ _ | paren _ | call _ _ => exact Nat.succ_pos _

/-- No statement is empty. -/
theorem Stmt.size_pos (s : Stmt) : 0 < s.size := by
  cases s with
  | declare _ _ | assign _ _ | change _ _ _ | print _ | automate _ _ _ | call _ _
  | loopWhile _ _ | loopOver _ _ _ => exact Nat.succ_pos _
  | output value _ => cases value with
    | none => exact Nat.one_pos
    | some _ => exact Nat.succ_pos _
  | ifElse _ _ alternate => cases alternate with
    | none => exact Nat.succ_pos _
    | some _ => exact Nat.succ_pos _
  | breakLoop => exact Nat.one_pos

/-- The size of two parts is the sum of their sizes. -/
theorem stmtsSize_append (ss tt : List Stmt) :
    stmtsSize (ss ++ tt) = stmtsSize ss + stmtsSize tt := by
  induction ss with
  | nil => exact (Nat.zero_add _).symm
  | cons s ss ih => rw [List.cons_append, stmtsSize, stmtsSize, ih, Nat.add_assoc]

theorem stmtsSize_singleton (s : Stmt) : stmtsSize [s] = s.size := Nat.add_zero _

/-! ## What reductions are charged to -/

namespace Reduced

variable {α β : Type}

/-- The size of what is left and the number of reductions on record. -/
def weight (size : α → Nat) (m : Reduced α) : Nat :=
  size m.value + m.reductions.length

variable (size : β → Nat)

@[simp]
theorem weight_pure (b : β) : (pure b : Reduced β).weight size = size b := rfl

/-- A reduction that is put on record adds one to the weight. -/
@[simp]
theorem weight_record_bind (r : Reduction) (f : Unit → Reduced β) :
    (record r >>= f).weight size = (f ()).weight size + 1 := by
  rw [weight, reductions_bind, List.length_append, Nat.add_comm (List.length _)]
  rfl

/-- In sequence, the weight of the last step and the reductions of those before it are
    counted. -/
@[simp]
theorem weight_bind (m : Reduced α) (f : α → Reduced β) :
    (m >>= f).weight size = (f m.value).weight size + m.reductions.length := by
  rw [weight, reductions_bind, List.length_append, Nat.add_comm (List.length _), ← Nat.add_assoc]
  rfl

end Reduced

/-- Folding an operation makes it no heavier than it was. -/
theorem weight_foldArith (op : ArithOp) (left right : Expr) :
    (foldArith op left right).weight Expr.size ≤ left.size + right.size + 1 := by
  unfold foldArith
  split
  · -- Two nodes are gone, and one reduction is on record.
    split
    · exact Nat.le_succ 2
    · exact Nat.le_refl _
  · exact Nat.le_refl _

/-- Folding a comparison makes it no heavier than it was. -/
theorem weight_foldCompare (op : CompareOp) (left right : Expr) :
    (foldCompare op left right).weight Expr.size ≤ left.size + right.size + 1 := by
  unfold foldCompare
  split
  · exact Nat.succ_le_succ (Nat.add_pos_left left.size_pos _)
  · exact Nat.le_refl _

/-- What is left of parentheses is no larger than they were. -/
theorem size_foldParen (inner : Expr) : (foldParen inner).size ≤ inner.size + 1 := by
  unfold foldParen
  split
  · exact Nat.le_succ _
  · exact Nat.le_succ _
  · exact Nat.le_succ _
  · exact Nat.le_refl _

theorem size_foldVar (v : Variable) : (foldVar v).size = 1 := by
  unfold foldVar
  split
  · rfl
  · rfl

/-- Dropping statements takes no more reductions than they have parts. -/
theorem length_dropUnreachable (ss : List Stmt) :
    (dropUnreachable ss).reductions.length ≤ stmtsSize ss := by
  cases ss with
  | nil => exact Nat.le_refl 0
  | cons s ss => exact Nat.add_pos_left s.size_pos _

/-! ## Expressions -/

variable (p : Passes)

mutual

/-- Simplifying an expression leaves it no heavier than it was. -/
theorem weight_simplifyExpr : ∀ e : Expr, (e.simplify p).weight Expr.size ≤ e.size
  | .num _ | .bool _ | .word _ | .auto _ => Nat.le_refl 1
  | .var v => by
    rw [Expr.simplify]
    cases p.fold with
    | true => exact Nat.le_of_eq (size_foldVar v)
    | false => exact Nat.le_refl 1
  | .list elements => by
    have h := weight_simplifyExprs elements
    rw [Reduced.weight] at h
    simp only [Expr.simplify, Reduced.weight_bind, Reduced.weight_pure, Expr.size]
    omega
  | .call callee args => by
    have h := weight_simplifyExprs args
    rw [Reduced.weight] at h
    simp only [Expr.simplify, Reduced.weight_bind, Reduced.weight_pure, Expr.size]
    omega
  | .paren inner => by
    have h := weight_simplifyExpr inner
    have hfold := size_foldParen (inner.simplify p).value
    rw [Reduced.weight] at h
    simp only [Expr.simplify, Reduced.weight_bind, Reduced.weight_pure, Expr.size]
    split
    · omega
    · rw [Expr.size]
      omega
  | .arith op left right => by
    have hleft := weight_simplifyExpr left
    have hright := weight_simplifyExpr right
    have hfold := weight_foldArith op (left.simplify p).value (right.simplify p).value
    rw [Reduced.weight] at hleft hright
    simp only [Expr.simplify, Reduced.weight_bind, Expr.size]
    split
    · omega
    · rw [Reduced.weight_pure, Expr.size]
      omega
  | .compare op left right => by
    have hleft := weight_simplifyExpr left
    have hright := weight_simplifyExpr right
    have hfold := weight_foldCompare op (left.simplify p).value (right.simplify p).value
    rw [Reduced.weight] at hleft hright
    simp only [Expr.simplify, Reduced.weight_bind, Expr.size]
    split
    · omega
    · rw [Reduced.weight_pure, Expr.size]
      omega

/-- Simplifying expressions leaves them no heavier than they were. -/
theorem weight_simplifyExprs :
    ∀ es : List Expr, (simplifyExprs p es).weight exprsSize ≤ exprsSize es
  | [] => Nat.le_refl 0
  | e :: es => by
    have h := weight_simplifyExpr e
    have hs := weight_simplifyExprs es
    rw [Reduced.weight] at h hs
    simp only [simplifyExprs, Reduced.weight_bind, Reduced.weight_pure, exprsSize]
    omega

end

/-! ## Statements -/

/-- A statement that is kept, with what is left of the expression it is about. -/
theorem weight_keep {e : Expr} {f : Expr → Stmt} (hf : ∀ e, (f e).size = e.size + 1) :
    (e.simplify p >>= fun e => pure [f e]).weight stmtsSize ≤ (f e).size := by
  have h := weight_simplifyExpr p e
  rw [Reduced.weight] at h
  simp only [Reduced.weight_bind, Reduced.weight_pure, stmtsSize_singleton, hf]
  omega

mutual

/-- Simplifying a statement leaves it no heavier than it was. -/
theorem weight_simplifyStmt : ∀ s : Stmt, (s.simplify p).weight stmtsSize ≤ s.size
  | .declare _ _ => weight_keep p fun _ => by rw [Stmt.size]
  | .assign _ _ => weight_keep p fun _ => by rw [Stmt.size]
  | .change _ _ _ => weight_keep p fun _ => by rw [Stmt.size]
  | .print _ => weight_keep p fun _ => by rw [Stmt.size]
  | .output (some _) _ => weight_keep p fun _ => by rw [Stmt.size]
  | .output none _ => Nat.le_refl 1
  | .breakLoop => Nat.le_refl 1
  | .automate a params body => by
    have h := weight_simplifyStmts body
    rw [Reduced.weight] at h
    simp only [Stmt.simplify, Reduced.weight_bind, Reduced.weight_pure, stmtsSize_singleton,
      Stmt.size]
    omega
  | .call callee args => by
    have h := weight_simplifyExprs p args
    rw [Reduced.weight] at h
    simp only [Stmt.simplify, Reduced.weight_bind, Reduced.weight_pure, stmtsSize_singleton,
      Stmt.size]
    omega
  | .ifElse test body none => by
    have htest := weight_simplifyExpr p test
    have hbody := weight_simplifyStmts body
    simp only [Stmt.simplify, Reduced.weight_bind, Stmt.size]
    rw [Reduced.weight] at htest
    cases knownTest p (test.simplify p).value with
    | none =>
      rw [Reduced.weight] at hbody
      simp only [Reduced.weight_bind, Reduced.weight_pure, stmtsSize_singleton, Stmt.size]
      omega
    | some b =>
      -- The test is dropped, but not before it has been reduced to an expression.
      have hpos := (test.simplify p).value.size_pos
      cases b with
      | true =>
        simp only [Reduced.weight_record_bind, if_true]
        omega
      | false =>
        simp only [Reduced.weight_record_bind, Bool.false_eq_true, if_false, Reduced.weight_pure,
          stmtsSize]
        omega
  | .ifElse test body (some alternate) => by
    have htest := weight_simplifyExpr p test
    have hbody := weight_simplifyStmts body
    have halternate := weight_simplifyStmts alternate
    simp only [Stmt.simplify, Reduced.weight_bind, Stmt.size]
    rw [Reduced.weight] at htest
    cases knownTest p (test.simplify p).value with
    | none =>
      rw [Reduced.weight] at hbody halternate
      simp only [Reduced.weight_bind, Reduced.weight_pure, stmtsSize_singleton, Stmt.size]
      omega
    | some b =>
      have hpos := (test.simplify p).value.size_pos
      cases b with
      | true =>
        simp only [Reduced.weight_record_bind, if_true]
        omega
      | false =>
        simp only [Reduced.weight_record_bind, Bool.false_eq_true, if_false]
        omega
  | .loopWhile test body => by
    have htest := weight_simplifyExpr p test
    have hbody := weight_simplifyStmts body
    have hkeep : (simplifyStmts p body >>= fun body =>
        pure [Stmt.loopWhile (test.simplify p).value body]).weight stmtsSize ≤
          (test.simplify p).value.size + stmtsSize body + 1 := by
      rw [Reduced.weight] at hbody
      simp only [Reduced.weight_bind, Reduced.weight_pure, stmtsSize_singleton, Stmt.size]
      omega
    simp only [Stmt.simplify, Reduced.weight_bind, Stmt.size]
    rw [Reduced.weight] at htest
    cases knownTest p (test.simplify p).value with
    | none => exact Nat.le_trans (Nat.add_le_add_right hkeep _) (by omega)
    | some b =>
      cases b with
      | true => exact Nat.le_trans (Nat.add_le_add_right hkeep _) (by omega)
      | false =>
        have hpos := (test.simplify p).value.size_pos
        simp only [Reduced.weight_record_bind, Reduced.weight_pure, stmtsSize]
        omega
  | .loopOver item list body => by
    have hlist := weight_simplifyExpr p list
    have hbody := weight_simplifyStmts body
    rw [Reduced.weight] at hlist hbody
    simp only [Stmt.simplify, Reduced.weight_bind, Reduced.weight_pure, stmtsSize_singleton,
      Stmt.size]
    omega

/-- What is left of statements and the reductions that were applied to them together are
    no more than the statements were. -/
theorem weight_simplifyStmts :
    ∀ ss : List Stmt, (simplifyStmts p ss).weight stmtsSize ≤ stmtsSize ss
  | [] => Nat.le_refl 0
  | s :: ss => by
    have h := weight_simplifyStmt s
    rw [Reduced.weight] at h
    simp only [simplifyStmts, Reduced.weight_bind, stmtsSize]
    split
    · -- The rest of the list is dropped, and was not empty if that is on record.
      have hdrop := length_dropUnreachable ss
      simp only [Reduced.weight_bind, Reduced.weight_pure]
      omega
    · have hs := weight_simplifyStmts ss
      rw [Reduced.weight] at hs
      simp only [Reduced.weight_bind, Reduced.weight_pure, stmtsSize_append]
      omega

end

end Program

/-! ## The record -/

namespace Event

/-- Whether the message about an event is that of a reduction, for a program with the
    given text. -/
def recordsReduction (text : List Char) (e : Event) : Bool :=
  "optimize: ".toList.isPrefixOf (e.message text).toList

variable (text : List Char)

/-- The line for a reduction records one. -/
theorem recordsReduction_reduced (r : Program.Reduction) :
    (reduced r).recordsReduction text = true := by
  have hmessage : (reduced r).message text = "optimize: " ++ r.text := rfl
  rw [recordsReduction, hmessage, String.toList_append]
  exact List.isPrefixOf_iff_prefix.2 (List.prefix_append _ _)

/-- The line for the number of reductions records none. -/
theorem recordsReduction_simplified (n : Nat) :
    (simplified n).recordsReduction text = false := by
  have hmessage : (simplified n).message text =
      "optimizer applied " ++ toString n ++ " rewrite(s)" := rfl
  simp [recordsReduction, hmessage, List.isPrefixOf]

/-- The line for the size of the script records no reduction. -/
theorem recordsReduction_generated (n : Nat) :
    (generated n).recordsReduction text = false := by
  have hmessage : (generated n).message text =
      "generated " ++ toString n ++ " line(s) of JavaScript" := rfl
  simp [recordsReduction, hmessage, List.isPrefixOf]

end Event

open Program (Passes)

/-- What simplifying puts in the journal: the reductions, their number, and possibly that
    a script was generated. -/
theorem journal_finish (passes : Passes) (stage : Stage) (program : Program) (journal : Journal) :
    ∃ last : List Event, (last = [] ∨ ∃ n, last = [.generated n]) ∧
      (finish passes stage program journal).2.toList = journal.toList ++
        ((program.simplify passes).reductions.map Event.reduced ++
          Event.simplified (program.simplify passes).reductions.length :: last) := by
  unfold finish
  dsimp only
  split
  · exact ⟨[], .inl rfl, by simp⟩
  · split
    · exact ⟨[], .inl rfl, by simp⟩
    · exact ⟨[_], .inr ⟨_, rfl⟩, by simp; rfl⟩

/-- Each reduction that is put on record shrinks the program. Whatever the journal is before
    a program is simplified, the events that are added to it report one number of
    reductions, it is the number of those among them that record one, and the size of the
    simplified program is less than that of the program by this number at least. -/
theorem record_bounds_size (passes : Passes) (stage : Stage) (program : Program)
    (journal : Journal) (text : List Char) :
    ∃ events applied,
      (finish passes stage program journal).2.toList = journal.toList ++ events ∧
      (∀ n, Event.simplified n ∈ events ↔ n = applied) ∧
      events.countP (·.recordsReduction text) = applied ∧
      (program.simplify passes).value.size + applied ≤ program.size := by
  obtain ⟨last, hlast, hjournal⟩ := journal_finish passes stage program journal
  refine ⟨_, (program.simplify passes).reductions.length, hjournal, fun n => ?_, ?_, ?_⟩
  · rcases hlast with rfl | ⟨m, rfl⟩
    · simp
    · simp
  · have hreduced : ((program.simplify passes).reductions.map Event.reduced).countP
        (·.recordsReduction text) = (program.simplify passes).reductions.length := by
      rw [List.countP_map, List.countP_eq_length]
      exact fun r _ => Event.recordsReduction_reduced text r
    have hothers : (Event.simplified (program.simplify passes).reductions.length :: last).countP
        (·.recordsReduction text) = 0 := by
      rw [List.countP_eq_zero]
      rcases hlast with rfl | ⟨m, rfl⟩
      · simp [Event.recordsReduction_simplified]
      · simp [Event.recordsReduction_simplified, Event.recordsReduction_generated]
    rw [List.countP_append, hreduced, hothers, Nat.add_zero]
  · have h := Program.weight_simplifyStmts passes program.stmts
    simpa [Program.Reduced.weight, Program.simplify, Program.size] using h

end Toal
