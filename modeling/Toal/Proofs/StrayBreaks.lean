import Toal.Proofs.CompileOutcome
import Toal.Proofs.Requests

/-!
# Breaks that keep a text from being compiled

A `break` *strays* if all the loops around it lie outside of its automation
(`stmtsStrays`). An automation becomes a function, and a function cannot end a loop
around it, so a program has a script exactly if no `break` in it strays
(`failure?_ofStmts`).

The script is made of the simplified program, and pruning removes statements. So what
counts are the breaks that stray and that pruning leaves (`stmtsSurvivors`,
`strays_simplifyStmts`). The more passes there are, the fewer of them there are
(`survivors_sublist`); hence a text that can be compiled with some passes can be compiled
with more passes too, though not always the other way round (`compiles_iff`,
`compiles_only_with_pruning`).
-/

namespace Toal

open Program (Passes Reduced Proper exprsCalls stmtsCalls)
open Prelude (Known)
open Script (Place Requests)

/-! ## Breaks that stray -/

namespace Program

mutual

/-- The automations that breaks of a statement would have to leave, by their names. -/
def Stmt.strays (p : Place) : Stmt → List String
  | .automate a _ body => stmtsStrays (.body a) body
  | .ifElse _ body none => stmtsStrays p body
  | .ifElse _ body (some alternate) => stmtsStrays p body ++ stmtsStrays p alternate
  | .loopWhile _ body => stmtsStrays p.loop body
  | .loopOver _ _ body => stmtsStrays p.loop body
  | .breakLoop => if p.inLoop then [] else [p.automation]
  | .declare .. | .assign .. | .change .. | .print _ | .call .. | .output .. => []

/-- The automations that breaks of statements would have to leave. -/
def stmtsStrays (p : Place) : List Stmt → List String
  | [] => []
  | s :: ss => s.strays p ++ stmtsStrays p ss

end

/-- The breaks of two parts are those of each. -/
theorem stmtsStrays_append (p : Place) (ss tt : List Stmt) :
    stmtsStrays p (ss ++ tt) = stmtsStrays p ss ++ stmtsStrays p tt := by
  induction ss with
  | nil => rfl
  | cons s ss ih => rw [List.cons_append, stmtsStrays, stmtsStrays, ih, List.append_assoc]

theorem stmtsStrays_singleton (p : Place) (s : Stmt) : stmtsStrays p [s] = s.strays p := by
  rw [stmtsStrays, stmtsStrays, List.append_nil]

end Program

open Program (stmtsStrays)

/-! ## Only breaks that stray stop a generation -/

namespace Script.Requests

/-- The first of two failures counts. -/
theorem failure?_append (r r' : Requests) :
    (r ++ r').failure? = r.failure?.or r'.failure? := by
  cases h : r.failure? with
  | some f => rw [append_of_some h, h, Option.some_or]
  | none => rw [append_of_none h, Option.none_or]

/-- A variable stops no generation. -/
theorem failure?_ofVariable (v : Variable) : (ofVariable v).failure? = none := by
  unfold ofVariable
  cases constant? v with
  | some r => rfl
  | none => rfl

theorem failure?_ofVariables (vs : List Variable) : (ofVariables vs).failure? = none := by
  induction vs with
  | nil => rfl
  | cons v vs ih => rw [ofVariables, failure?_append, failure?_ofVariable, ih, Option.or_none]

/-- A call with as many arguments as parameters stops no generation. -/
theorem failure?_ofCall {a : Automation} {args : Nat} (hlength : args = a.params.length)
    (ha : Known (.auto a)) : (ofCall a args).failure? = none := by
  unfold ofCall
  by_cases hbuiltin : a.builtin = true
  · have htemplate : (template? a.name (List.replicate args (.bool true))).isSome = true :=
      isSome_template? (ha hbuiltin) (by rw [List.length_replicate, hlength])
    rw [isSome_template?_iff, List.length_replicate] at htemplate
    rw [if_pos hbuiltin, if_pos htemplate]
    rfl
  · rw [if_neg hbuiltin]
    rfl

mutual

/-- An expression with proper calls stops no generation. -/
theorem failure?_ofExpr : ∀ e : Program.Expr, Proper Known e.calls → (ofExpr e).failure? = none
  | .num _, _ | .bool _, _ | .word _, _ => rfl
  | .list elements, h => failure?_ofExprs elements h
  | .var v, _ => failure?_ofVariable v
  | .auto _, _ => rfl
  | .arith _ left right, h => by
    obtain ⟨hleft, hright⟩ := List.forall_mem_append.1 h
    rw [ofExpr, failure?_append, failure?_ofExpr left hleft, failure?_ofExpr right hright,
      Option.or_none]
  | .compare _ left right, h => by
    obtain ⟨hleft, hright⟩ := List.forall_mem_append.1 h
    rw [ofExpr, failure?_append, failure?_ofExpr left hleft, failure?_ofExpr right hright,
      Option.or_none]
  | .paren inner, h => failure?_ofExpr inner h
  | .call callee args, h => by
    obtain ⟨⟨hlength, hcallee⟩, hargs⟩ := List.forall_mem_cons.1 h
    rw [ofExpr, failure?_append, failure?_ofExprs args hargs, failure?_ofCall hlength hcallee,
      Option.or_none]

/-- Expressions with proper calls stop no generation. -/
theorem failure?_ofExprs :
    ∀ es : List Program.Expr, Proper Known (exprsCalls es) → (ofExprs es).failure? = none
  | [], _ => rfl
  | e :: es, h => by
    obtain ⟨he, hes⟩ := List.forall_mem_append.1 h
    rw [ofExprs, failure?_append, failure?_ofExpr e he, failure?_ofExprs es hes, Option.or_none]

end

/-- What stops a generation, given the automations that breaks would have to leave. -/
def firstStray (names : List String) : Option Failure := names.head?.map .breakLeaves

/-- The first break that strays in two lists is that of the first list, if there is one. -/
theorem firstStray_append (xs ys : List String) :
    firstStray (xs ++ ys) = (firstStray xs).or (firstStray ys) := by
  rw [firstStray, List.head?_append, Option.map_or, firstStray, firstStray]

mutual

/-- The first break that strays stops the generation of a statement, and nothing else
    does. -/
theorem failure?_ofStmt (p : Place) : ∀ s : Program.Stmt, Proper Known s.calls →
    (ofStmt p s).failure? = firstStray (s.strays p)
  | .declare v init, h => by
    rw [ofStmt, failure?_append, failure?_ofVariable, failure?_ofExpr init h]
    rfl
  | .assign target source, h => by
    rw [ofStmt, failure?_append, failure?_ofVariable, failure?_ofExpr source h]
    rfl
  | .change _ target term, h => by
    rw [ofStmt, failure?_append, failure?_ofVariable, failure?_ofExpr term h]
    rfl
  | .print argument, h => failure?_ofExpr argument h
  | .automate a params body, h => by
    rw [ofStmt, failure?_append, failure?_append, failure?_ofVariables,
      failure?_ofStmts (.body a) body h]
    rfl
  | .call callee args, h => by
    obtain ⟨⟨hlength, hcallee⟩, hargs⟩ := List.forall_mem_cons.1 h
    rw [ofStmt, failure?_append, failure?_ofExprs args hargs, failure?_ofCall hlength hcallee]
    rfl
  | .output none _, _ => rfl
  | .output (some value) _, h => failure?_ofExpr value h
  | .ifElse test body none, h => by
    obtain ⟨htest, hbody⟩ := List.forall_mem_append.1 h
    rw [ofStmt, failure?_append, failure?_ofExpr test htest, failure?_ofStmts p body hbody]
    rfl
  | .ifElse test body (some alternate), h => by
    obtain ⟨htest, hblocks⟩ := List.forall_mem_append.1 h
    obtain ⟨hbody, halternate⟩ := List.forall_mem_append.1 hblocks
    rw [ofStmt, failure?_append, failure?_ofExpr test htest, failure?_append,
      failure?_ofStmts p body hbody, failure?_ofStmts p alternate halternate, ← firstStray_append]
    rfl
  | .loopWhile test body, h => by
    obtain ⟨htest, hbody⟩ := List.forall_mem_append.1 h
    rw [ofStmt, failure?_append, failure?_ofExpr test htest, failure?_ofStmts p.loop body hbody]
    rfl
  | .loopOver item list body, h => by
    obtain ⟨hlist, hbody⟩ := List.forall_mem_append.1 h
    rw [ofStmt, failure?_append, failure?_ofVariable, failure?_append, failure?_ofExpr list hlist,
      failure?_ofStmts p.loop body hbody]
    rfl
  | .breakLoop, _ => by
    rw [ofStmt, Program.Stmt.strays]
    by_cases h : p.inLoop = true
    · rw [if_pos h, if_pos h]
      rfl
    · rw [if_neg h, if_neg h]
      rfl

/-- If its calls are proper, the first `break` that strays stops a generation, and
    nothing else does. -/
theorem failure?_ofStmts (p : Place) : ∀ ss : List Program.Stmt, Proper Known (stmtsCalls ss) →
    (ofStmts p ss).failure? = firstStray (stmtsStrays p ss)
  | [], _ => rfl
  | s :: ss, h => by
    obtain ⟨hs, hss⟩ := List.forall_mem_append.1 h
    rw [ofStmts, failure?_append, failure?_ofStmt p s hs, failure?_ofStmts p ss hss, stmtsStrays,
      firstStray_append]

end

end Script.Requests

/-! ## What pruning leaves -/

namespace Program

/-- The truth value that a test is known to have when statements are pruned. -/
def Expr.settled (passes : Passes) (test : Expr) : Option Bool :=
  knownTest passes (test.simplify passes).value

mutual

/-- The automations that those breaks of a statement would have to leave that pruning
    does not remove. -/
def Stmt.survivors (passes : Passes) (p : Place) : Stmt → List String
  | .automate a _ body => stmtsSurvivors passes (.body a) body
  | .ifElse test body none =>
    match test.settled passes with
    | some false => []
    | _ => stmtsSurvivors passes p body
  | .ifElse test body (some alternate) =>
    match test.settled passes with
    | some true => stmtsSurvivors passes p body
    | some false => stmtsSurvivors passes p alternate
    | none => stmtsSurvivors passes p body ++ stmtsSurvivors passes p alternate
  | .loopWhile test body =>
    match test.settled passes with
    | some false => []
    | _ => stmtsSurvivors passes p.loop body
  | .loopOver _ _ body => stmtsSurvivors passes p.loop body
  | .breakLoop => if p.inLoop then [] else [p.automation]
  | .declare .. | .assign .. | .change .. | .print _ | .call .. | .output .. => []

/-- The automations that those breaks of statements would have to leave that pruning
    does not remove. -/
def stmtsSurvivors (passes : Passes) (p : Place) : List Stmt → List String
  | [] => []
  | s :: ss =>
    s.survivors passes p ++
      if (passes.prune && s.isTerminal) = true then [] else stmtsSurvivors passes p ss

end

variable {passes : Passes}

mutual

/-- The breaks that stray after simplifying a statement are those that survive. -/
theorem strays_simplifyStmt (p : Place) :
    ∀ s : Stmt, stmtsStrays p (s.simplify passes).value = s.survivors passes p
  | .declare v init => stmtsStrays_singleton p _
  | .assign target source => stmtsStrays_singleton p _
  | .change op target term => stmtsStrays_singleton p _
  | .print argument => stmtsStrays_singleton p _
  | .automate a params body =>
    (stmtsStrays_singleton p _).trans (strays_simplifyStmts (.body a) body)
  | .call callee args => stmtsStrays_singleton p _
  | .output none ty => stmtsStrays_singleton p _
  | .output (some value) ty => stmtsStrays_singleton p _
  | .ifElse test body none => by
    have hbody := strays_simplifyStmts p body
    simp only [Stmt.simplify, Reduced.value_bind, Stmt.survivors, Expr.settled]
    cases knownTest passes (test.simplify passes).value with
    | none => exact (stmtsStrays_singleton p _).trans hbody
    | some b =>
      cases b with
      | true => exact hbody
      | false => rfl
  | .ifElse test body (some alternate) => by
    have hbody := strays_simplifyStmts p body
    have halternate := strays_simplifyStmts p alternate
    simp only [Stmt.simplify, Reduced.value_bind, Stmt.survivors, Expr.settled]
    cases knownTest passes (test.simplify passes).value with
    | none => exact (stmtsStrays_singleton p _).trans (congrArg₂ (· ++ ·) hbody halternate)
    | some b =>
      cases b with
      | true => exact hbody
      | false => exact halternate
  | .loopWhile test body => by
    have hbody := strays_simplifyStmts p.loop body
    simp only [Stmt.simplify, Reduced.value_bind, Stmt.survivors, Expr.settled]
    cases knownTest passes (test.simplify passes).value with
    | none => exact (stmtsStrays_singleton p _).trans hbody
    | some b =>
      cases b with
      | true => exact (stmtsStrays_singleton p _).trans hbody
      | false => rfl
  | .loopOver item list body =>
    (stmtsStrays_singleton p _).trans (strays_simplifyStmts p.loop body)
  | .breakLoop => stmtsStrays_singleton p _

/-- The breaks that stray in simplified statements are those that pruning leaves. -/
theorem strays_simplifyStmts (p : Place) :
    ∀ ss : List Stmt, stmtsStrays p (simplifyStmts passes ss).value = stmtsSurvivors passes p ss
  | [] => rfl
  | s :: ss => by
    simp only [simplifyStmts, Reduced.value_bind, stmtsSurvivors]
    -- What ends the list is a statement as it stands, not what it is simplified to.
    by_cases hcut : (passes.prune && s.isTerminal) = true
    · rw [if_pos hcut, if_pos hcut, List.append_nil]
      exact strays_simplifyStmt p s
    · rw [if_neg hcut, if_neg hcut]
      simp only [Reduced.value_bind, Reduced.value_pure, stmtsStrays_append]
      rw [strays_simplifyStmt p s, strays_simplifyStmts p ss]

end

/-! ## More passes leave less -/

/-- Without pruning no test is settled. -/
theorem settled_of_not_prune (h : passes.prune = false) (test : Expr) :
    test.settled passes = none := by
  rw [Expr.settled, knownTest, h]
  rfl

mutual

/-- Without pruning every break survives. -/
theorem survivorsStmt_of_not_prune (h : passes.prune = false) (p : Place) :
    ∀ s : Stmt, s.survivors passes p = s.strays p
  | .automate a _ body => survivors_of_not_prune h (.body a) body
  | .ifElse test body none => by
    rw [Stmt.survivors, settled_of_not_prune h]
    exact survivors_of_not_prune h p body
  | .ifElse test body (some alternate) => by
    rw [Stmt.survivors, settled_of_not_prune h]
    exact congrArg₂ (· ++ ·) (survivors_of_not_prune h p body)
      (survivors_of_not_prune h p alternate)
  | .loopWhile test body => by
    rw [Stmt.survivors, settled_of_not_prune h]
    exact survivors_of_not_prune h p.loop body
  | .loopOver _ _ body => survivors_of_not_prune h p.loop body
  | .breakLoop => rfl
  | .declare .. | .assign .. | .change .. | .print _ | .call .. | .output .. => rfl

/-- Without pruning, all breaks that stray are left. -/
theorem survivors_of_not_prune (h : passes.prune = false) (p : Place) :
    ∀ ss : List Stmt, stmtsSurvivors passes p ss = stmtsStrays p ss
  | [] => rfl
  | s :: ss => by
    rw [stmtsSurvivors, h, Bool.false_and, if_neg Bool.false_ne_true, stmtsStrays,
      survivorsStmt_of_not_prune h p s, survivors_of_not_prune h p ss]

end

/-- All the passes of the first are passes of the second. -/
structure Passes.Within (passes passes' : Passes) : Prop where
  fold : passes.fold = true → passes'.fold = true
  prune : passes.prune = true → passes'.prune = true

/-- Folding a variable keeps its known truth value. -/
theorem constBool_foldVar (v : Variable) : (foldVar v).constBool = truth? v := by
  unfold foldVar
  cases h : truth? v with
  | some b => rfl
  | none => exact h

/-- Removing parentheses keeps the known truth value. -/
theorem constBool_foldParen (inner : Expr) : (foldParen inner).constBool = inner.constBool := by
  unfold foldParen
  split <;> rfl

/-- What is known without folding is known with folding too. -/
theorem constBool_simplify {passes' : Passes} (hfold : passes.fold = false) {b : Bool} :
    ∀ e : Expr, (e.simplify passes).value.constBool = some b →
      (e.simplify passes').value.constBool = some b
  | .var v, h => by
    rw [Expr.simplify, hfold] at h
    rw [Expr.simplify, Reduced.value_pure]
    split
    · exact (constBool_foldVar v).trans h
    · exact h
  | .paren inner, h => by
    simp only [Expr.simplify, Reduced.value_bind, Reduced.value_pure, hfold] at h
    have hinner : (inner.simplify passes').value.constBool = some b :=
      constBool_simplify hfold inner h
    simp only [Expr.simplify, Reduced.value_bind, Reduced.value_pure]
    split
    · exact (constBool_foldParen _).trans hinner
    · exact hinner
  | .compare op left right, h => by
    -- Without folding, an operator stays one, and its value is not known.
    simp only [Expr.simplify, Reduced.value_bind, hfold] at h
    cases h
  | .arith op left right, h => by
    simp only [Expr.simplify, Reduced.value_bind, hfold] at h
    cases h
  | .bool _, h => h

/-- With more passes, the same tests are settled, and perhaps more. -/
theorem settled_mono {passes' : Passes} (h : passes.Within passes') {test : Expr} {b : Bool}
    (hb : test.settled passes = some b) : test.settled passes' = some b := by
  obtain ⟨fold, prune⟩ := passes
  obtain ⟨fold', prune'⟩ := passes'
  rcases h with ⟨hfold, hprune⟩
  cases prune with
  | false => cases hb
  | true =>
    obtain rfl : prune' = true := hprune rfl
    cases fold with
    | true =>
      obtain rfl : fold' = true := hfold rfl
      exact hb
    | false => exact constBool_simplify rfl test hb

mutual

/-- With more passes, no other breaks of a statement survive. -/
theorem survivorsStmt_sublist {passes' : Passes} (h : passes.Within passes') (p : Place) :
    ∀ s : Stmt, (s.survivors passes' p).Sublist (s.survivors passes p)
  | .automate a _ body => survivors_sublist h (.body a) body
  | .ifElse test body none => by
    have hbody := survivors_sublist h p body
    simp only [Stmt.survivors]
    rcases htest : test.settled passes with _ | b
    · split
      · exact List.nil_sublist _
      · exact hbody
    · -- A test that is settled with fewer passes is settled alike with more.
      rw [settled_mono h htest]
      cases b with
      | true => exact hbody
      | false => exact List.Sublist.refl _
  | .ifElse test body (some alternate) => by
    have hbody := survivors_sublist h p body
    have halternate := survivors_sublist h p alternate
    simp only [Stmt.survivors]
    rcases htest : test.settled passes with _ | b
    · split
      · exact hbody.trans (List.sublist_append_left _ _)
      · exact halternate.trans (List.sublist_append_right _ _)
      · exact hbody.append halternate
    · rw [settled_mono h htest]
      cases b with
      | true => exact hbody
      | false => exact halternate
  | .loopWhile test body => by
    have hbody := survivors_sublist h p.loop body
    simp only [Stmt.survivors]
    rcases htest : test.settled passes with _ | b
    · split
      · exact List.nil_sublist _
      · exact hbody
    · rw [settled_mono h htest]
      cases b with
      | true => exact hbody
      | false => exact List.Sublist.refl _
  | .loopOver _ _ body => survivors_sublist h p.loop body
  | .breakLoop => List.Sublist.refl _
  | .declare .. | .assign .. | .change .. | .print _ | .call .. | .output .. => List.Sublist.refl _

/-- With more passes, no more breaks are left. -/
theorem survivors_sublist {passes' : Passes} (h : passes.Within passes') (p : Place) :
    ∀ ss : List Stmt, (stmtsSurvivors passes' p ss).Sublist (stmtsSurvivors passes p ss)
  | [] => List.Sublist.refl _
  | s :: ss => by
    refine (survivorsStmt_sublist h p s).append ?_
    by_cases hcut' : (passes'.prune && s.isTerminal) = true
    · rw [if_pos hcut']
      exact List.nil_sublist _
    · have hcut : ¬(passes.prune && s.isTerminal) = true := fun hcut => by
        rw [Bool.and_eq_true] at hcut hcut'
        exact hcut' ⟨h.prune hcut.1, hcut.2⟩
      rw [if_neg hcut', if_neg hcut]
      exact survivors_sublist h p ss

end

end Program

/-! ## Compiling -/

open Program (stmtsSurvivors)

/-- With the given passes, a text can be compiled. -/
def Compiles (passes : Passes) (text : List Char) : Prop :=
  ∃ output, (compile passes .js text).1 = .ok output

instance (passes : Passes) (text : List Char) : Decidable (Compiles passes text) :=
  decidable_of_iff ((compile passes .js text).1.isOk = true) <| by
    unfold Compiles
    cases (compile passes .js text).1 with
    | ok output => exact ⟨fun _ => ⟨output, rfl⟩, fun _ => rfl⟩
    | error failure => exact ⟨nofun, nofun⟩

/-- The statements of a text have the given typed program. -/
def TypedText (text : List Char) (program : Program) : Prop :=
  ∃ stmts, parseText text = .ok stmts ∧ (Typing.run Prelude.standard stmts).1 = .ok program

/-- Only a typed program can be compiled. -/
theorem Compiles.typedText {passes : Passes} {text : List Char} (h : Compiles passes text) :
    ∃ program, TypedText text program := by
  obtain ⟨output, h⟩ := h
  unfold compile at h
  split at h
  · cases h
  · next stmts hparse =>
    dsimp only at h
    rw [if_neg (by decide)] at h
    split at h
    · cases h
    · next program journal hrun => exact ⟨program, stmts, hparse, congrArg Prod.fst hrun⟩

/-- Compiling a typed program is generating the script of the simplified program. -/
theorem compile_of_typedText {text : List Char} {program : Program} (h : TypedText text program)
    (passes : Passes) :
    (compile passes .js text).1 = (program.simplify passes).value.scriptText.map .script := by
  obtain ⟨stmts, hparse, hrun⟩ := h
  unfold compile
  rw [hparse]
  dsimp only
  rw [if_neg (by decide)]
  split
  · next fault journal hfault =>
    rw [hfault] at hrun
    cases hrun
  · next program' journal hok =>
    rw [hok] at hrun
    cases hrun
    rw [if_neg (by decide), finish, if_neg (by decide)]
    split
    · next hscript =>
      rw [hscript]
      rfl
    · next hscript =>
      rw [hscript]
      rfl

/-- What a typed program comes to: its script, or the first `break` that strays and that
    pruning leaves. -/
theorem compile_of_survivors {text : List Char} {program : Program} (h : TypedText text program)
    (passes : Passes) :
    match stmtsSurvivors passes .outside program.stmts with
    | [] => Compiles passes text
    | automation :: _ => (compile passes .js text).1 =
        .error (.fault ⟨.breakLeavesAutomation automation, none⟩) := by
  have hcompile := compile_of_typedText h passes
  obtain ⟨stmts, -, hrun⟩ := h
  have hfailure := Requests.failure?_ofStmts .outside _ (proper_simplify hrun passes)
  have hstrays : stmtsStrays .outside (Program.simplifyStmts passes program.stmts).value =
      stmtsSurvivors passes .outside program.stmts := Program.strays_simplifyStmts _ _
  have hscript := Script.ofProgram_of_requests (program.simplify passes).value
  change (Requests.ofProgram (program.simplify passes).value).failure? =
    Requests.firstStray (stmtsStrays .outside (Program.simplifyStmts passes program.stmts).value)
    at hfailure
  rw [hfailure, hstrays] at hscript
  rw [Program.scriptText] at hcompile
  cases hsurvivors : stmtsSurvivors passes .outside program.stmts with
  | nil =>
    rw [hsurvivors] at hscript
    cases hresult : Script.ofProgram (program.simplify passes).value with
    | ok script =>
      rw [hresult] at hcompile
      exact ⟨_, hcompile⟩
    | error failure =>
      rw [hresult] at hscript
      cases hscript
  | cons automation rest =>
    rw [hsurvivors] at hscript
    cases hresult : Script.ofProgram (program.simplify passes).value with
    | ok script =>
      rw [hresult] at hscript
      cases hscript.1
    | error failure =>
      rw [hresult] at hscript hcompile
      cases hscript
      exact hcompile

/-- A text can be compiled if it has a typed program in which pruning leaves no `break`
    that strays, and only then. -/
theorem compiles_iff (passes : Passes) (text : List Char) :
    Compiles passes text ↔ ∃ program, TypedText text program ∧
      stmtsSurvivors passes .outside program.stmts = [] := by
  constructor
  · intro h
    obtain ⟨program, htyped⟩ := h.typedText
    refine ⟨program, htyped, ?_⟩
    have houtcome := compile_of_survivors htyped passes
    cases hsurvivors : stmtsSurvivors passes .outside program.stmts with
    | nil => rfl
    | cons automation rest =>
      rw [hsurvivors] at houtcome
      obtain ⟨output, h⟩ := h
      rw [houtcome] at h
      cases h
  · rintro ⟨program, htyped, hsurvivors⟩
    have houtcome := compile_of_survivors htyped passes
    rw [hsurvivors] at houtcome
    exact houtcome

/-- A text has one typed program. -/
theorem TypedText.unique {text : List Char} {program program' : Program}
    (h : TypedText text program) (h' : TypedText text program') : program = program' := by
  obtain ⟨stmts, hparse, hrun⟩ := h
  obtain ⟨stmts', hparse', hrun'⟩ := h'
  rw [hparse] at hparse'
  cases hparse'
  rw [hrun] at hrun'
  cases hrun'
  rfl

/-- With more passes, more texts can be compiled. -/
theorem Compiles.mono {passes passes' : Passes} {text : List Char} (h : Compiles passes text)
    (hwithin : passes.Within passes') : Compiles passes' text := by
  obtain ⟨program, htyped, hsurvivors⟩ := (compiles_iff passes text).1 h
  refine (compiles_iff passes' text).2 ⟨program, htyped, ?_⟩
  have hsub := Program.survivors_sublist hwithin .outside program.stmts
  rw [hsurvivors] at hsub
  exact List.sublist_nil.1 hsub

/-- Passes decide whether a text can be compiled only by pruning breaks that stray. A
    text can be compiled with some passes and not with others exactly if its typed
    program has such breaks, and all of them are pruned with the former and not all with
    the latter. So it can be compiled with all passes or with none if no `break` strays;
    what can be compiled with some passes can be compiled with more; and without
    pruning, the passes do not matter. If a typed program cannot be compiled, the first
    `break` that strays and is left is what is wrong with it. -/
theorem passes_decide_by_pruning_breaks (text : List Char) (passes passes' : Passes) :
    (Compiles passes text ↔ ∃ program, TypedText text program ∧
      stmtsSurvivors passes .outside program.stmts = []) ∧
    (Compiles passes' text ∧ ¬Compiles passes text ↔ ∃ program, TypedText text program ∧
      stmtsSurvivors passes' .outside program.stmts = [] ∧
      stmtsSurvivors passes .outside program.stmts ≠ []) ∧
    (passes.Within passes' → Compiles passes text → Compiles passes' text) ∧
    (passes.prune = false → passes'.prune = false →
      (Compiles passes text ↔ Compiles passes' text)) ∧
    ∀ program, TypedText text program →
      (stmtsSurvivors passes .outside program.stmts).Sublist
        (stmtsStrays .outside program.stmts) ∧
      (passes.prune = false → stmtsSurvivors passes .outside program.stmts =
        stmtsStrays .outside program.stmts) ∧
      (stmtsStrays .outside program.stmts = [] → Compiles passes text) ∧
      ∀ automation rest, stmtsSurvivors passes .outside program.stmts = automation :: rest →
        (compile passes .js text).1 =
          .error (.fault ⟨.breakLeavesAutomation automation, none⟩) := by
  refine ⟨compiles_iff passes text, ?_, fun hwithin h => h.mono hwithin, fun h h' => ?_,
    fun program htyped => ?_⟩
  · rw [compiles_iff, compiles_iff]
    constructor
    · rintro ⟨⟨program, htyped, hnil⟩, hnot⟩
      exact ⟨program, htyped, hnil, fun hnil' => hnot ⟨program, htyped, hnil'⟩⟩
    · rintro ⟨program, htyped, hnil, hne⟩
      refine ⟨⟨program, htyped, hnil⟩, ?_⟩
      rintro ⟨program', htyped', hnil'⟩
      obtain rfl := htyped.unique htyped'
      exact hne hnil'
  · simp only [compiles_iff, Program.survivors_of_not_prune h, Program.survivors_of_not_prune h']
  · -- All breaks that stray are those that are left without any pass.
    have hnone : Passes.Within ⟨false, false⟩ passes := ⟨nofun, nofun⟩
    have hall : stmtsSurvivors ⟨false, false⟩ .outside program.stmts =
        stmtsStrays .outside program.stmts := Program.survivors_of_not_prune rfl _ _
    have hsub := Program.survivors_sublist hnone .outside program.stmts
    rw [hall] at hsub
    refine ⟨hsub, fun h => Program.survivors_of_not_prune h .outside program.stmts, fun hnil => ?_,
      fun automation rest hcons => ?_⟩
    · rw [hnil] at hsub
      exact (compiles_iff passes text).2 ⟨program, htyped, List.sublist_nil.1 hsub⟩
    · have houtcome := compile_of_survivors htyped passes
      rw [hcons] at houtcome
      exact houtcome

/-- An automation with a `break`, in a loop that is never entered. -/
def neverEntered : List Char := "loop while false \x7b automate f() \x7b break; \x7d \x7d".toList

/-- A text that can be compiled with pruning and cannot be compiled without it. -/
theorem compiles_only_with_pruning :
    Compiles ⟨false, true⟩ neverEntered ∧ Compiles .all neverEntered ∧
      ¬Compiles ⟨true, false⟩ neverEntered ∧ ¬Compiles ⟨false, false⟩ neverEntered := by
  decide +kernel

end Toal
