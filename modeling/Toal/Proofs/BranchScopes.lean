import Toal.Proofs.Elaboration
import Toal.Program.Simplify

/-!
# Branches and scopes

In a program the branches of an `if` share the scope around it, so a variable that a
branch declares is visible after the branch. If branches had scopes of their own, a
program could still mean the same, unless one of its variables *leaks*: it is
declared in a branch and used after that branch (`stmtsLeak`).

Both ways to read a program are described at once, for one variable, with a
parameter that says whether branches have scopes of their own (`StmtsScoped`). Typing
reads it with shared scopes (`StmtForms.scoped`), and the two ways agree on the
variables that do not leak (`scoped_own_of_not_leak`) and on no others
(`StmtForms.not_scoped_of_leak`). What is visible with scopes of their own for
branches stays so when a program is simplified, and without pruning nothing else
becomes visible (`stmtsKeep_scoped`).
-/

namespace Toal

namespace Program

/-! ## Uses, declarations and leaks -/

section

variable (v : Variable)

mutual

/-- Whether the expression uses the variable. -/
def Expr.uses : Expr → Bool
  | .num _ => false
  | .bool _ => false
  | .word _ => false
  | .list elements => exprsUse elements
  | .var w => v == w
  | .auto _ => false
  | .arith _ left right => left.uses || right.uses
  | .compare _ left right => left.uses || right.uses
  | .paren inner => inner.uses
  | .call _ args => exprsUse args

/-- Whether one of the expressions uses the variable. -/
def exprsUse : List Expr → Bool
  | [] => false
  | e :: es => e.uses || exprsUse es

end

mutual

/-- Whether the statement uses the variable. To declare it is not to use it. -/
def Stmt.uses : Stmt → Bool
  | .declare _ init => init.uses v
  | .assign target source => v == target || source.uses v
  | .change _ target term => v == target || term.uses v
  | .print argument => argument.uses v
  | .automate _ _ body => stmtsUse body
  | .call _ args => exprsUse v args
  | .output none _ => false
  | .output (some value) _ => value.uses v
  | .ifElse test body none => test.uses v || stmtsUse body
  | .ifElse test body (some alternate) => test.uses v || (stmtsUse body || stmtsUse alternate)
  | .loopWhile test body => test.uses v || stmtsUse body
  | .loopOver _ list body => list.uses v || stmtsUse body
  | .breakLoop => false

/-- Whether one of the statements uses the variable. -/
def stmtsUse : List Stmt → Bool
  | [] => false
  | s :: ss => s.uses || stmtsUse ss

end

section

variable (own : Bool)

mutual

/-- Whether the statement declares the variable in the scope that it stands in. What
    the branches of an `if` declare counts, unless they have scopes of their own. -/
def Stmt.exposes : Stmt → Bool
  | .declare w _ => v == w
  | .ifElse _ body none => !own && stmtsExpose body
  | .ifElse _ body (some alternate) => !own && (stmtsExpose body || stmtsExpose alternate)
  | _ => false

/-- Whether one of the statements declares the variable in the scope that they stand
    in. -/
def stmtsExpose : List Stmt → Bool
  | [] => false
  | s :: ss => s.exposes || stmtsExpose ss

end

mutual

/-- The variable is visible wherever the statement uses it, given whether it is seen
    before the statement. -/
def Stmt.Scoped (seen : Bool) : Stmt → Prop
  | .declare w init => (Stmt.declare w init).uses v → seen
  | .assign target source => (Stmt.assign target source).uses v → seen
  | .change op target term => (Stmt.change op target term).uses v → seen
  | .print argument => (Stmt.print argument).uses v → seen
  | .automate _ params body => StmtsScoped (seen || params.contains v) body
  | .call callee args => (Stmt.call callee args).uses v → seen
  | .output value ty => (Stmt.output value ty).uses v → seen
  | .ifElse test body none => (test.uses v → seen) ∧ StmtsScoped seen body
  | .ifElse test body (some alternate) =>
    (test.uses v → seen) ∧ StmtsScoped seen body ∧
      StmtsScoped (seen || (!own && stmtsExpose v own body)) alternate
  | .loopWhile test body => (test.uses v → seen) ∧ StmtsScoped seen body
  | .loopOver item list body => (list.uses v → seen) ∧ StmtsScoped (seen || v == item) body
  | .breakLoop => True

/-- The variable is visible wherever the statements use it. -/
def StmtsScoped (seen : Bool) : List Stmt → Prop
  | [] => True
  | s :: ss => s.Scoped seen ∧ StmtsScoped (seen || s.exposes v own) ss

end

end

mutual

/-- Whether the variable leaks from a branch inside the statement: the branch declares
    it, and it is used after the branch. -/
def Stmt.leaks : Stmt → Bool
  | .automate _ _ body => stmtsLeak body
  | .ifElse _ body none => stmtsLeak body
  | .ifElse _ body (some alternate) =>
    stmtsLeak body || stmtsLeak alternate || (stmtsExpose v false body && stmtsUse v alternate)
  | .loopWhile _ body => stmtsLeak body
  | .loopOver _ _ body => stmtsLeak body
  | _ => false

/-- Whether the variable leaks from a branch among the statements. -/
def stmtsLeak : List Stmt → Bool
  | [] => false
  | s :: ss =>
    s.leaks || stmtsLeak ss || (s.exposes v false && !s.exposes v true && stmtsUse v ss)

end

end

variable {v : Variable} {own seen seen' : Bool}

theorem seen_or (h : seen = true → seen' = true) (b : Bool) :
    (seen || b) = true → (seen' || b) = true := by
  rw [Bool.or_eq_true, Bool.or_eq_true]
  exact Or.imp_left h

mutual

/-- The more is visible before a statement, the more is visible in it. -/
theorem Stmt.Scoped.mono :
    ∀ {s : Stmt} {seen seen' : Bool}, s.Scoped v own seen → (seen = true → seen' = true) →
      s.Scoped v own seen'
  | .declare _ _, _, _, hs, h => fun hu => h (hs hu)
  | .assign _ _, _, _, hs, h => fun hu => h (hs hu)
  | .change _ _ _, _, _, hs, h => fun hu => h (hs hu)
  | .print _, _, _, hs, h => fun hu => h (hs hu)
  | .automate _ _ _, _, _, hs, h => StmtsScoped.mono hs (seen_or h _)
  | .call _ _, _, _, hs, h => fun hu => h (hs hu)
  | .output _ _, _, _, hs, h => fun hu => h (hs hu)
  | .ifElse _ _ none, _, _, hs, h => ⟨fun hu => h (hs.1 hu), StmtsScoped.mono hs.2 h⟩
  | .ifElse _ _ (some _), _, _, hs, h =>
    ⟨fun hu => h (hs.1 hu), StmtsScoped.mono hs.2.1 h, StmtsScoped.mono hs.2.2 (seen_or h _)⟩
  | .loopWhile _ _, _, _, hs, h => ⟨fun hu => h (hs.1 hu), StmtsScoped.mono hs.2 h⟩
  | .loopOver _ _ _, _, _, hs, h => ⟨fun hu => h (hs.1 hu), StmtsScoped.mono hs.2 (seen_or h _)⟩
  | .breakLoop, _, _, _, _ => trivial

/-- The more is visible before the statements, the more is visible in them. -/
theorem StmtsScoped.mono :
    ∀ {ss : List Stmt} {seen seen' : Bool}, StmtsScoped v own seen ss →
      (seen = true → seen' = true) → StmtsScoped v own seen' ss
  | [], _, _, _, _ => trivial
  | _ :: _, _, _, hs, h => ⟨hs.1.mono h, StmtsScoped.mono hs.2 (seen_or h _)⟩

end

mutual

/-- A statement that does not use a variable need not see it. -/
theorem Stmt.scoped_of_not_uses :
    ∀ {s : Stmt} {seen : Bool}, s.uses v = false → s.Scoped v own seen
  | .declare _ _, _, h | .assign _ _, _, h | .change _ _ _, _, h | .print _, _, h
  | .call _ _, _, h | .output _ _, _, h => fun hu => absurd hu (ne_true_of_eq_false h)
  | .automate _ _ _, _, h => stmtsScoped_of_not_use h
  | .ifElse _ _ none, _, h => by
    obtain ⟨htest, hbody⟩ := Bool.or_eq_false_iff.1 h
    exact ⟨fun hu => absurd hu (ne_true_of_eq_false htest), stmtsScoped_of_not_use hbody⟩
  | .ifElse _ _ (some _), _, h => by
    obtain ⟨htest, h⟩ := Bool.or_eq_false_iff.1 h
    obtain ⟨hbody, halternate⟩ := Bool.or_eq_false_iff.1 h
    exact ⟨fun hu => absurd hu (ne_true_of_eq_false htest), stmtsScoped_of_not_use hbody,
      stmtsScoped_of_not_use halternate⟩
  | .loopWhile _ _, _, h => by
    obtain ⟨htest, hbody⟩ := Bool.or_eq_false_iff.1 h
    exact ⟨fun hu => absurd hu (ne_true_of_eq_false htest), stmtsScoped_of_not_use hbody⟩
  | .loopOver _ _ _, _, h => by
    obtain ⟨hlist, hbody⟩ := Bool.or_eq_false_iff.1 h
    exact ⟨fun hu => absurd hu (ne_true_of_eq_false hlist), stmtsScoped_of_not_use hbody⟩
  | .breakLoop, _, _ => trivial

/-- A variable that is not used need not be visible. -/
theorem stmtsScoped_of_not_use :
    ∀ {ss : List Stmt} {seen : Bool}, stmtsUse v ss = false → StmtsScoped v own seen ss
  | [], _, _ => trivial
  | _ :: _, _, h => by
    obtain ⟨hs, hss⟩ := Bool.or_eq_false_iff.1 h
    exact ⟨Stmt.scoped_of_not_uses hs, stmtsScoped_of_not_use hss⟩

end

/-! ## Without leaks, branches may have scopes of their own -/

/-- What a statement declares in its own scope it declares for the scope around it. -/
theorem Stmt.exposes_of_own : ∀ {s : Stmt}, s.exposes v true = true → s.exposes v false = true
  | .declare _ _, h => h
  | .ifElse _ _ none, h => absurd h Bool.false_ne_true
  | .ifElse _ _ (some _), h => absurd h Bool.false_ne_true

mutual

/-- If a variable does not leak out of a branch, branches may have scopes of their own. -/
theorem Stmt.scoped_own_of_not_leaks :
    ∀ {s : Stmt} {seen : Bool}, s.Scoped v false seen → s.leaks v = false → s.Scoped v true seen
  | .declare _ _, _, h, _ => h
  | .assign _ _, _, h, _ => h
  | .change _ _ _, _, h, _ => h
  | .print _, _, h, _ => h
  | .automate _ _ _, _, h, hleak => scoped_own_of_not_leak h hleak
  | .call _ _, _, h, _ => h
  | .output _ _, _, h, _ => h
  | .ifElse _ _ none, _, h, hleak => ⟨h.1, scoped_own_of_not_leak h.2 hleak⟩
  | .ifElse _ body (some alternate), seen, h, hleak => by
    obtain ⟨hleaks, hacross⟩ := Bool.or_eq_false_iff.1 hleak
    obtain ⟨hbody, halternate⟩ := Bool.or_eq_false_iff.1 hleaks
    refine ⟨h.1, scoped_own_of_not_leak h.2.1 hbody, ?_⟩
    -- Either the first branch has nothing to share, or the second does not need it.
    have hseen : StmtsScoped v false (seen || stmtsExpose v false body) alternate := h.2.2
    change StmtsScoped v true (seen || false) alternate
    rcases Bool.and_eq_false_iff.1 hacross with hexpose | huse
    · rw [hexpose] at hseen
      exact scoped_own_of_not_leak hseen halternate
    · exact stmtsScoped_of_not_use huse
  | .loopWhile _ _, _, h, hleak => ⟨h.1, scoped_own_of_not_leak h.2 hleak⟩
  | .loopOver _ _ _, _, h, hleak => ⟨h.1, scoped_own_of_not_leak h.2 hleak⟩
  | .breakLoop, _, _, _ => trivial

/-- A variable that does not leak is visible also if branches have scopes of their
    own. -/
theorem scoped_own_of_not_leak :
    ∀ {ss : List Stmt} {seen : Bool}, StmtsScoped v false seen ss → stmtsLeak v ss = false →
      StmtsScoped v true seen ss
  | [], _, _, _ => trivial
  | s :: ss, seen, h, hleak => by
    obtain ⟨hleaks, hacross⟩ := Bool.or_eq_false_iff.1 hleak
    obtain ⟨hs, hss⟩ := Bool.or_eq_false_iff.1 hleaks
    refine ⟨Stmt.scoped_own_of_not_leaks h.1 hs, ?_⟩
    rcases Bool.and_eq_false_iff.1 hacross with hexposes | huse
    · -- What the statement declares, it declares outside its branches.
      have hsame : s.exposes v true = s.exposes v false := by
        have hown := @Stmt.exposes_of_own v s
        revert hown hexposes
        cases s.exposes v true <;> cases s.exposes v false <;> simp
      rw [hsame]
      exact scoped_own_of_not_leak h.2 hss
    · exact stmtsScoped_of_not_use huse

end

/-! ## Variables that are not declared -/

/-- The variable is declared somewhere in the statement. -/
def Stmt.Binds (v : Variable) (s : Stmt) : Prop := .var v ∈ s.skeleton.declared

/-- The variable is declared somewhere among the statements. -/
def StmtsBind (v : Variable) (ss : List Stmt) : Prop :=
  .var v ∈ Skeleton.Stmt.declaredAll (skeletons ss)

mutual

/-- What a statement declares for what follows it, it binds somewhere. -/
theorem Stmt.binds_of_exposes : ∀ {s : Stmt}, s.exposes v false = true → s.Binds v
  | .declare _ _, h => List.mem_singleton.2 (congrArg Entity.var (beq_iff_eq.1 h))
  | .ifElse _ _ none, h => stmtsBind_of_expose h
  | .ifElse _ _ (some _), h =>
    List.mem_append.2 ((Bool.or_eq_true_iff.1 h).imp stmtsBind_of_expose stmtsBind_of_expose)

theorem stmtsBind_of_expose : ∀ {ss : List Stmt}, stmtsExpose v false ss = true → StmtsBind v ss
  | _ :: _, h =>
    List.mem_append.2 ((Bool.or_eq_true_iff.1 h).imp Stmt.binds_of_exposes stmtsBind_of_expose)

end

mutual

/-- What leaks out of a statement it binds somewhere. -/
theorem Stmt.binds_of_leaks : ∀ {s : Stmt}, s.leaks v = true → s.Binds v
  | .automate _ _ _, h =>
    List.mem_cons_of_mem _ (List.mem_append_right _ (stmtsBind_of_leak h))
  | .ifElse _ _ none, h => stmtsBind_of_leak h
  | .ifElse _ _ (some _), h => by
    refine List.mem_append.2 ?_
    rcases Bool.or_eq_true_iff.1 h with h | h
    · exact (Bool.or_eq_true_iff.1 h).imp stmtsBind_of_leak stmtsBind_of_leak
    · exact .inl (stmtsBind_of_expose (Bool.and_eq_true_iff.1 h).1)
  | .loopWhile _ _, h => stmtsBind_of_leak h
  | .loopOver _ _ _, h => List.mem_cons_of_mem _ (stmtsBind_of_leak h)

theorem stmtsBind_of_leak : ∀ {ss : List Stmt}, stmtsLeak v ss = true → StmtsBind v ss
  | _ :: _, h => by
    refine List.mem_append.2 ?_
    rcases Bool.or_eq_true_iff.1 h with h | h
    · exact (Bool.or_eq_true_iff.1 h).imp Stmt.binds_of_leaks stmtsBind_of_leak
    · have hexposes := (Bool.and_eq_true_iff.1 (Bool.and_eq_true_iff.1 h).1).1
      exact .inl (Stmt.binds_of_exposes hexposes)

end

theorem Stmt.exposes_eq_false {s : Stmt} (h : ¬s.Binds v) : s.exposes v true = false :=
  Bool.eq_false_iff.2 fun he => h (binds_of_exposes (exposes_of_own he))

theorem contains_eq_false {params : List Variable} (h : Entity.var v ∉ params.map .var) :
    params.contains v = false :=
  Bool.eq_false_iff.2 fun hv => h (List.mem_map_of_mem (List.contains_iff_mem.1 hv))

mutual

/-- A variable that is used and not bound is not in scope. -/
theorem Stmt.not_scoped_of_uses : ∀ {s : Stmt}, ¬s.Binds v → s.uses v = true →
    ¬s.Scoped v true false
  | .declare _ _, _, hu, h => absurd (h hu) Bool.false_ne_true
  | .assign _ _, _, hu, h => absurd (h hu) Bool.false_ne_true
  | .change _ _ _, _, hu, h => absurd (h hu) Bool.false_ne_true
  | .print _, _, hu, h => absurd (h hu) Bool.false_ne_true
  | .automate _ params body, hb, hu, h => by
    obtain ⟨-, hb⟩ := not_or.1 (mt List.mem_cons.2 hb)
    obtain ⟨hparams, hbody⟩ := not_or.1 (mt List.mem_append.2 hb)
    have hscoped : StmtsScoped v true (false || params.contains v) body := h
    rw [contains_eq_false hparams] at hscoped
    exact not_scoped_of_use hbody hu hscoped
  | .call _ _, _, hu, h => absurd (h hu) Bool.false_ne_true
  | .output _ _, _, hu, h => absurd (h hu) Bool.false_ne_true
  | .ifElse _ _ none, hb, hu, h => by
    rcases Bool.or_eq_true_iff.1 hu with hu | hu
    · exact absurd (h.1 hu) Bool.false_ne_true
    · exact not_scoped_of_use hb hu h.2
  | .ifElse _ _ (some _), hb, hu, h => by
    obtain ⟨hbody, halternate⟩ := not_or.1 (mt List.mem_append.2 hb)
    rcases Bool.or_eq_true_iff.1 hu with hu | hu
    · exact absurd (h.1 hu) Bool.false_ne_true
    rcases Bool.or_eq_true_iff.1 hu with hu | hu
    · exact not_scoped_of_use hbody hu h.2.1
    · exact not_scoped_of_use halternate hu h.2.2
  | .loopWhile _ _, hb, hu, h => by
    rcases Bool.or_eq_true_iff.1 hu with hu | hu
    · exact absurd (h.1 hu) Bool.false_ne_true
    · exact not_scoped_of_use hb hu h.2
  | .loopOver item _ body, hb, hu, h => by
    obtain ⟨hitem, hbody⟩ := not_or.1 (mt List.mem_cons.2 hb)
    rcases Bool.or_eq_true_iff.1 hu with hu | hu
    · exact absurd (h.1 hu) Bool.false_ne_true
    · have hscoped : StmtsScoped v true (false || v == item) body := h.2
      rw [beq_eq_false_iff_ne.2 fun hv => hitem (congrArg Entity.var hv)] at hscoped
      exact not_scoped_of_use hbody hu hscoped

/-- A variable that is used and nowhere declared is not visible where it is used. -/
theorem not_scoped_of_use : ∀ {ss : List Stmt}, ¬StmtsBind v ss → stmtsUse v ss = true →
    ¬StmtsScoped v true false ss
  | s :: ss, hb, hu, h => by
    obtain ⟨hs, hss⟩ := not_or.1 (mt List.mem_append.2 hb)
    rcases Bool.or_eq_true_iff.1 hu with hu | hu
    · exact Stmt.not_scoped_of_uses hs hu h.1
    · have hscoped : StmtsScoped v true (false || s.exposes v true) ss := h.2
      rw [Stmt.exposes_eq_false hs] at hscoped
      exact not_scoped_of_use hss hu hscoped

end

end Program

/-! ## Typing reads programs with shared scopes -/

/-- Whether the variable is visible. -/
def Context.holds (cx : Context) (v : Variable) : Bool := cx.frames.any (·.vars.contains v)

namespace Context

variable {cx : Context} {v : Variable}

/-- A declaration adds one variable to those that are visible. -/
theorem holds_insert_var (w : Variable) :
    (cx.insert (.var w)).holds v = (cx.holds v || v == w) := by
  change ((v == w || cx.current.vars.contains v) || cx.outer.any (·.vars.contains v)) = _
  rw [Bool.or_assoc, Bool.or_comm]
  rfl

/-- What a name stands for is visible. -/
theorem holds_of_find? {x : String} (h : cx.find? x = some (.var v)) : cx.holds v = true := by
  obtain ⟨f, hf, hx⟩ := List.exists_of_findSome?_eq_some h
  refine List.any_eq_true.2 ⟨f, hf, List.contains_iff_mem.2 ?_⟩
  unfold Frame.find? at hx
  cases hv : f.vars.find? (·.name == x) with
  | some w =>
    rw [hv] at hx
    cases hx
    exact List.mem_of_find?_eq_some hv
  | none =>
    rw [hv] at hx
    obtain ⟨a, -, ha⟩ := Option.map_eq_some_iff.1 hx
    cases ha

end Context

namespace Typing

open Program

variable {v : Variable}

mutual

/-- A typed expression uses visible variables only. -/
theorem ExprForm.holds_of_uses {cx : Context} :
    ∀ {e : Surface.Expr} {t : Expr}, ExprForm cx e t → t.uses v = true → cx.holds v = true
  | _, _, .list hs, hu => hs.holds_of_use hu
  | _, _, .var hx, hu => by
    obtain rfl := beq_iff_eq.1 hu
    exact Context.holds_of_find? hx
  | _, _, .group h, hu => h.holds_of_uses hu
  | _, _, .arith hl hr _ _, hu => (Bool.or_eq_true_iff.1 hu).elim hl.holds_of_uses hr.holds_of_uses
  | _, _, .compare hl hr _ _, hu =>
    (Bool.or_eq_true_iff.1 hu).elim hl.holds_of_uses hr.holds_of_uses
  | _, _, .call _ hs _, hu => hs.holds_of_use hu

theorem ExprForms.holds_of_use {cx : Context} :
    ∀ {es : List Surface.Expr} {ts : List Expr}, ExprForms cx es ts → exprsUse v ts = true →
      cx.holds v = true
  | _, _, .cons h hs, hu => (Bool.or_eq_true_iff.1 hu).elim h.holds_of_uses hs.holds_of_use

end

/-- After parameters, the variables before them and they themselves are visible. -/
theorem ParamForms.holds_eq {p q : Spot} {ps : List Surface.Param} {ds : List Param}
    {vs : List Variable} (h : ParamForms p ps ds vs q) :
    q.context.holds v = (p.context.holds v || vs.contains v) := by
  induction h with
  | nil => exact (Bool.or_false _).symm
  | cons _ _ _ _ ih =>
    rw [ih, List.contains_cons]
    simp only [Spot.declare, Context.holds_insert_var, Bool.or_assoc]

mutual

/-- A typed statement uses visible variables only, and after it what it declares is
    visible too. -/
theorem StmtForm.scoped :
    ∀ {p q : Spot} {s : Surface.Stmt} {t : Stmt}, StmtForm p s t q →
      t.Scoped v false (p.context.holds v) ∧
        q.context.holds v = (p.context.holds v || t.exposes v false)
  | _, _, _, _, .declare h _ _ => ⟨h.holds_of_uses, Context.holds_insert_var _⟩
  | _, _, _, _, .assign hx _ h _ => by
    refine ⟨fun hu => ?_, (Bool.or_false _).symm⟩
    rcases Bool.or_eq_true_iff.1 hu with hu | hu
    · obtain rfl := beq_iff_eq.1 hu
      exact Context.holds_of_find? hx
    · exact h.holds_of_uses hu
  | _, _, _, _, .change hx _ _ h _ => by
    refine ⟨fun hu => ?_, (Bool.or_false _).symm⟩
    rcases Bool.or_eq_true_iff.1 hu with hu | hu
    · obtain rfl := beq_iff_eq.1 hu
      exact Context.holds_of_find? hx
    · exact h.holds_of_uses hu
  | _, _, _, _, .print h _ => ⟨h.holds_of_uses, (Bool.or_false _).symm⟩
  | p, _, _, _, @StmtForm.automate _ _ _ _ _ _ _ _ vs ts _ _ _ _ hparams hbody _ => by
    refine ⟨?_, (Bool.or_false _).symm⟩
    have hscoped := (StmtForms.scoped hbody).1
    rw [hparams.holds_eq] at hscoped
    exact hscoped
  | _, _, _, _, .call _ hs _ => ⟨hs.holds_of_use, (Bool.or_false _).symm⟩
  | _, _, _, _, .outputNone _ _ =>
    ⟨fun hu => absurd hu Bool.false_ne_true, (Bool.or_false _).symm⟩
  | _, _, _, _, .output _ _ h _ => ⟨h.holds_of_uses, (Bool.or_false _).symm⟩
  | _, _, _, _, .ifThen h _ hbody => ⟨⟨h.holds_of_uses, (StmtForms.scoped hbody).1⟩,
    (StmtForms.scoped hbody).2⟩
  | _, _, _, _, .ifElse h _ hbody halternate => by
    obtain ⟨hts, hq⟩ := StmtForms.scoped hbody
    -- The second branch sees what the first one declares.
    obtain ⟨hus, hr⟩ := StmtForms.scoped halternate
    rw [hq] at hus hr
    exact ⟨⟨h.holds_of_uses, hts, hus⟩, hr.trans (Bool.or_assoc _ _ _)⟩
  | _, _, _, _, .loopWhile h _ hbody =>
    ⟨⟨h.holds_of_uses, (StmtForms.scoped hbody).1⟩, (Bool.or_false _).symm⟩
  | _, _, _, _, .loopOver h _ _ hbody => by
    refine ⟨⟨h.holds_of_uses, ?_⟩, (Bool.or_false _).symm⟩
    have hscoped := (StmtForms.scoped hbody).1
    simp only [Spot.declare, Context.holds_insert_var] at hscoped
    exact hscoped
  | _, _, _, _, .breakLoop _ => ⟨trivial, (Bool.or_false _).symm⟩

/-- A variable is visible wherever it is used, if branches share the scope around
    them, and what they declare is visible after them. -/
theorem StmtForms.scoped :
    ∀ {p q : Spot} {ss : List Surface.Stmt} {ts : List Stmt}, StmtForms p ss ts q →
      StmtsScoped v false (p.context.holds v) ts ∧
        q.context.holds v = (p.context.holds v || stmtsExpose v false ts)
  | _, _, _, _, .nil => ⟨trivial, (Bool.or_false _).symm⟩
  | _, _, _, _, .cons h hs => by
    obtain ⟨hscoped, hq⟩ := StmtForm.scoped h
    obtain ⟨hrest, hr⟩ := StmtForms.scoped hs
    rw [hq] at hrest hr
    exact ⟨⟨hscoped, hrest⟩, hr.trans (Bool.or_assoc _ _ _)⟩

end

/-! ## A leak is a use out of scope -/

mutual

/-- What leaks out of a typed statement is out of scope where branches have scopes of
    their own. -/
theorem StmtForm.not_scoped_of_leaks :
    ∀ {p q : Spot} {s : Surface.Stmt} {t : Stmt}, StmtForm p s t q → t.leaks v = true →
      ¬t.Scoped v true false
  | _, _, _, _, .declare _ _ _, hleak, _ => absurd hleak Bool.false_ne_true
  | _, _, _, _, .assign _ _ _ _, hleak, _ => absurd hleak Bool.false_ne_true
  | _, _, _, _, .change _ _ _ _ _, hleak, _ => absurd hleak Bool.false_ne_true
  | _, _, _, _, .print _ _, hleak, _ => absurd hleak Bool.false_ne_true
  | _, _, _, _, @StmtForm.automate _ _ _ _ _ _ _ _ vs ts _ _ _ _ hparams hbody _, hleak, h => by
    -- The body declares the variable, so no parameter does.
    have hv : Entity.var v ∉ vs.map .var := fun hv =>
      (numbered_params hparams).notMem (numbered_declaredAll hbody) hv (stmtsBind_of_leak hleak)
    have hscoped : StmtsScoped v true (false || vs.contains v) ts := h
    rw [contains_eq_false hv] at hscoped
    exact StmtForms.not_scoped_of_leak hbody hleak hscoped
  | _, _, _, _, .call _ _ _, hleak, _ => absurd hleak Bool.false_ne_true
  | _, _, _, _, .outputNone _ _, hleak, _ => absurd hleak Bool.false_ne_true
  | _, _, _, _, .output _ _ _ _, hleak, _ => absurd hleak Bool.false_ne_true
  | _, _, _, _, .ifThen _ _ hbody, hleak, h => StmtForms.not_scoped_of_leak hbody hleak h.2
  | _, _, _, _, .ifElse _ _ hbody halternate, hleak, h => by
    rcases Bool.or_eq_true_iff.1 hleak with hleak | hacross
    · rcases Bool.or_eq_true_iff.1 hleak with hleak | hleak
      · exact StmtForms.not_scoped_of_leak hbody hleak h.2.1
      · exact StmtForms.not_scoped_of_leak halternate hleak h.2.2
    · -- The first branch declares the variable, so the second uses one it does not declare.
      obtain ⟨hexpose, huse⟩ := Bool.and_eq_true_iff.1 hacross
      have hbind := (numbered_declaredAll hbody).notMem (numbered_declaredAll halternate)
        (stmtsBind_of_expose hexpose)
      exact not_scoped_of_use hbind huse h.2.2
  | _, _, _, _, .loopWhile _ _ hbody, hleak, h => StmtForms.not_scoped_of_leak hbody hleak h.2
  | _, _, _, _, @StmtForm.loopOver p x _ _ _ _ ts _ _ _ _ hbody, hleak, h => by
    -- The body declares the variable, so it is not the item.
    have hitem : Numbered p.next [.var (p.newVariable x.text false .any)] (p.next + 1) :=
      .cons rfl .nil
    have hv : v ≠ p.newVariable x.text false .any := fun hv =>
      hitem.notMem (numbered_declaredAll hbody) (List.mem_singleton.2 (congrArg Entity.var hv))
        (stmtsBind_of_leak hleak)
    have hscoped : StmtsScoped v true (false || v == p.newVariable x.text false .any) ts := h.2
    rw [beq_eq_false_iff_ne.2 hv] at hscoped
    exact StmtForms.not_scoped_of_leak hbody hleak hscoped
  | _, _, _, _, .breakLoop _, hleak, _ => absurd hleak Bool.false_ne_true

/-- A variable that leaks is not visible wherever it is used, if branches have scopes
    of their own. -/
theorem StmtForms.not_scoped_of_leak :
    ∀ {p q : Spot} {ss : List Surface.Stmt} {ts : List Stmt}, StmtForms p ss ts q →
      stmtsLeak v ts = true → ¬StmtsScoped v true false ts
  | _, _, _, _, @StmtForms.cons _ _ _ _ _ t ts hform hforms, hleak, h => by
    have hbind (ht : t.Binds v) : ¬StmtsBind v ts :=
      (numbered_declared hform).notMem (numbered_declaredAll hforms) ht
    have hscoped : StmtsScoped v true (false || t.exposes v true) ts := h.2
    rcases Bool.or_eq_true_iff.1 hleak with hleak | hacross
    · rcases Bool.or_eq_true_iff.1 hleak with hleak | hleak
      · exact StmtForm.not_scoped_of_leaks hform hleak h.1
      · have ht : ¬t.Binds v := fun ht => hbind ht (stmtsBind_of_leak hleak)
        rw [Stmt.exposes_eq_false ht] at hscoped
        exact StmtForms.not_scoped_of_leak hforms hleak hscoped
    · obtain ⟨hexposes, huse⟩ := Bool.and_eq_true_iff.1 hacross
      obtain ⟨hexposes, hown⟩ := Bool.and_eq_true_iff.1 hexposes
      rw [(Bool.not_eq_true' _).mp hown] at hscoped
      exact not_scoped_of_use (hbind (Stmt.binds_of_exposes hexposes)) huse hscoped

end

end Typing

/-! ## Simplifying keeps what is visible -/

namespace Program

variable {v : Variable} {own : Bool} {p : Passes}

/-- Folding replaces no variable but the truth values. -/
theorem uses_foldVar (hv : truth? v = none) (w : Variable) : (foldVar w).uses v = (v == w) := by
  unfold foldVar
  cases hw : truth? w with
  | none => rfl
  | some b =>
    refine (beq_eq_false_iff_ne.2 ?_).symm
    rintro rfl
    rw [hv] at hw
    cases hw

/-- Folding an operation between literals takes no variable away, for there is none. -/
theorem uses_foldArith (op : ArithOp) (left right : Expr) :
    (foldArith op left right).value.uses v = (left.uses v || right.uses v) := by
  unfold foldArith
  split
  · split <;> rfl
  · rfl

theorem uses_foldCompare (op : CompareOp) (left right : Expr) :
    (foldCompare op left right).value.uses v = (left.uses v || right.uses v) := by
  unfold foldCompare
  cases h : evalCompare op left right with
  | none => rfl
  | some value =>
    unfold evalCompare at h
    split at h
    · rfl
    · rfl
    · cases h

theorem uses_foldParen (inner : Expr) : (foldParen inner).uses v = inner.uses v := by
  cases inner <;> rfl

mutual

/-- Folding neither adds nor removes a use of a variable that is no constant. -/
theorem uses_simplify (hv : truth? v = none) :
    ∀ e : Expr, (e.simplify p).value.uses v = e.uses v
  | .var w => by
    simp only [Expr.simplify, Reduced.value_pure]
    split
    · exact uses_foldVar hv w
    · rfl
  | .arith op left right => by
    have heq := congrArg₂ or (uses_simplify hv left) (uses_simplify hv right)
    simp only [Expr.simplify, Reduced.value_bind]
    split
    · exact (uses_foldArith op _ _).trans heq
    · exact heq
  | .compare op left right => by
    have heq := congrArg₂ or (uses_simplify hv left) (uses_simplify hv right)
    simp only [Expr.simplify, Reduced.value_bind]
    split
    · exact (uses_foldCompare op _ _).trans heq
    · exact heq
  | .paren inner => by
    simp only [Expr.simplify, Reduced.value_bind, Reduced.value_pure]
    split
    · exact (uses_foldParen _).trans (uses_simplify hv inner)
    · exact uses_simplify hv inner
  | .list elements => exprsUse_simplify hv elements
  | .call _ args => exprsUse_simplify hv args
  | .num _ => rfl
  | .bool _ => rfl
  | .word _ => rfl
  | .auto _ => rfl

theorem exprsUse_simplify (hv : truth? v = none) :
    ∀ es : List Expr, exprsUse v (simplifyExprs p es).value = exprsUse v es
  | [] => rfl
  | e :: es => congrArg₂ or (uses_simplify hv e) (exprsUse_simplify hv es)

end

/-- The second holds if the first does, and without pruning only then. -/
def Keeps (p : Passes) (P Q : Prop) : Prop := (P → Q) ∧ (p.prune = false → Q → P)

namespace Keeps

variable {P P' Q Q' : Prop}

theorem of_iff (h : P ↔ Q) : Keeps p P Q := ⟨h.1, fun _ => h.2⟩

theorem and (h : Keeps p P Q) (h' : Keeps p P' Q') : Keeps p (P ∧ P') (Q ∧ Q') :=
  ⟨And.imp h.1 h'.1, fun hp => And.imp (h.2 hp) (h'.2 hp)⟩

theorem single (h : Keeps p P Q) : Keeps p P (Q ∧ True) := by
  rw [and_true]
  exact h

theorem of_seen {b b' seen : Bool} (h : b' = b) :
    Keeps p (b = true → seen = true) (b' = true → seen = true) := by
  rw [h]
  exact of_iff Iff.rfl

/-- Where a test is known there is pruning, so only one direction is asked for. -/
theorem of_knownTest {test : Expr} {b : Bool} (htest : knownTest p test = some b) (h : P → Q) :
    Keeps p P Q := by
  refine ⟨h, fun hp => ?_⟩
  rw [knownTest, hp] at htest
  cases htest

end Keeps

theorem or_seen {b b' seen : Bool} (h : b = true → b' = true) :
    (seen || b) = true → (seen || b') = true := by
  rw [Bool.or_eq_true, Bool.or_eq_true]
  exact Or.imp_right h

/-- What is visible in the second part is what is visible before both or declared in the
    first. -/
theorem stmtsScoped_append {ss ts : List Stmt} : ∀ {seen : Bool},
    StmtsScoped v own seen (ss ++ ts) ↔
      StmtsScoped v own seen ss ∧ StmtsScoped v own (seen || stmtsExpose v own ss) ts := by
  induction ss with
  | nil => simp [StmtsScoped, stmtsExpose]
  | cons s ss ih =>
    intro seen
    rw [List.cons_append, StmtsScoped, StmtsScoped, stmtsExpose, ih, and_assoc, Bool.or_assoc]

/-- What a statement declares for what follows it, its simplified form declares too, and
    without pruning it declares no more. -/
theorem keeps_exposes (s : Stmt) :
    Keeps p (s.exposes v true = true) (stmtsExpose v true (s.simplify p).value = true) := by
  cases s with
  | declare w init =>
    refine .of_iff ?_
    change (v == w) = true ↔ (v == w || false) = true
    rw [Bool.or_false]
  | output value owner => cases value <;> exact .of_iff Iff.rfl
  | ifElse test body alternate =>
    -- What a statement exposes lies at its own level, and a branch is a level below.
    cases alternate <;> simp only [Stmt.simplify, Reduced.value_bind] <;>
      cases htest : knownTest p (test.simplify p).value with
      | none => exact .of_iff Iff.rfl
      | some b => exact .of_knownTest htest fun h => absurd h Bool.false_ne_true
  | loopWhile test body =>
    simp only [Stmt.simplify, Reduced.value_bind]
    split
    next htest => exact .of_knownTest htest fun h => absurd h Bool.false_ne_true
    next => exact .of_iff Iff.rfl
  | _ => exact .of_iff Iff.rfl

mutual

/-- Simplifying a statement keeps a variable in scope, and without pruning it brings none
    into scope. -/
theorem keeps_scoped (hv : truth? v = none) : ∀ (s : Stmt) (seen : Bool),
    Keeps p (s.Scoped v true seen) (StmtsScoped v true seen (s.simplify p).value)
  | .declare _ init, _ => (Keeps.of_seen (uses_simplify hv init)).single
  | .assign target source, _ =>
    (Keeps.of_seen (congrArg (v == target || ·) (uses_simplify hv source))).single
  | .change _ target term, _ =>
    (Keeps.of_seen (congrArg (v == target || ·) (uses_simplify hv term))).single
  | .print argument, _ => (Keeps.of_seen (uses_simplify hv argument)).single
  | .automate _ _ body, _ => (stmtsKeep_scoped hv body _).single
  | .call _ args, _ => (Keeps.of_seen (exprsUse_simplify hv args)).single
  | .output none _, _ => (Keeps.of_iff Iff.rfl).single
  | .output (some value) _, _ => (Keeps.of_seen (uses_simplify hv value)).single
  | .ifElse test body none, seen => by
    simp only [Stmt.simplify, Reduced.value_bind]
    cases htest : knownTest p (test.simplify p).value with
    | none =>
      exact ((Keeps.of_seen (uses_simplify hv test)).and (stmtsKeep_scoped hv body _)).single
    | some b =>
      refine .of_knownTest htest fun h => ?_
      cases b with
      | true => exact (stmtsKeep_scoped hv body _).1 h.2
      | false => trivial
  | .ifElse test body (some alternate), seen => by
    simp only [Stmt.simplify, Reduced.value_bind]
    cases htest : knownTest p (test.simplify p).value with
    | none =>
      exact ((Keeps.of_seen (uses_simplify hv test)).and
        ((stmtsKeep_scoped hv body _).and (stmtsKeep_scoped hv alternate _))).single
    | some b =>
      refine .of_knownTest htest fun h => ?_
      cases b with
      | true => exact (stmtsKeep_scoped hv body _).1 h.2.1
      | false =>
        have hseen : StmtsScoped v true (seen || false) alternate := h.2.2
        rw [Bool.or_false] at hseen
        exact (stmtsKeep_scoped hv alternate _).1 hseen
  | .loopWhile test body, seen => by
    simp only [Stmt.simplify, Reduced.value_bind]
    split
    next htest => exact .of_knownTest htest fun _ => trivial
    next => exact ((Keeps.of_seen (uses_simplify hv test)).and (stmtsKeep_scoped hv body _)).single
  | .loopOver _ list body, _ =>
    ((Keeps.of_seen (uses_simplify hv list)).and (stmtsKeep_scoped hv body _)).single
  | .breakLoop, _ => (Keeps.of_iff Iff.rfl).single

/-- Simplifying keeps a variable visible wherever it is used, if branches have scopes
    of their own. -/
theorem stmtsKeep_scoped (hv : truth? v = none) : ∀ (ss : List Stmt) (seen : Bool),
    Keeps p (StmtsScoped v true seen ss) (StmtsScoped v true seen (simplifyStmts p ss).value)
  | [], _ => .of_iff Iff.rfl
  | s :: ss, seen => by
    have hs := keeps_scoped hv s seen
    have hexposes := @keeps_exposes v p s
    simp only [simplifyStmts, Reduced.value_bind]
    split
    next hterminal =>
      refine ⟨fun h => hs.1 h.1, fun hp => ?_⟩
      rw [hp] at hterminal
      exact absurd hterminal Bool.false_ne_true
    next =>
      have hss := stmtsKeep_scoped hv ss
      refine ⟨fun h => stmtsScoped_append.2 ⟨hs.1 h.1, ?_⟩, fun hp h => ?_⟩
      · exact ((hss _).1 h.2).mono (or_seen hexposes.1)
      · obtain ⟨hhead, htail⟩ := stmtsScoped_append.1 h
        exact ⟨hs.2 hp hhead, (hss _).2 hp (htail.mono (or_seen (hexposes.2 hp)))⟩

end

end Program

end Toal
