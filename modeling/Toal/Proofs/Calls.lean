import Toal.Prelude
import Toal.Program.Simplify
import Toal.Script.OfProgram
import Mathlib.Data.List.Basic

/-!
# The calls of a program

A call is *proper* if it has as many arguments as the automation takes
(`Proper`); where it matters what is called, that can be asked for too.
Simplifying removes calls but makes none (`calls_simplify`), so calls that are
proper stay so.

For a proper call of a standard automation there is a template
(`isSome_template?`). If all calls of automations of the language are of that
kind, nothing but a `break` that cannot leave its automation stops the
generation of a script (`ofProgram_error`).
-/

namespace Toal

open Program (Passes Reduced)

/-! ## The calls of a program -/

namespace Program

mutual

/-- The calls in an expression, each with the number of its arguments. -/
def Expr.calls : Expr → List (Automation × Nat)
  | .list elements => exprsCalls elements
  | .arith _ left right => left.calls ++ right.calls
  | .compare _ left right => left.calls ++ right.calls
  | .paren inner => inner.calls
  | .call callee args => (callee, args.length) :: exprsCalls args
  | .num _ | .bool _ | .word _ | .var _ | .auto _ => []

/-- The calls in the expressions of a list. -/
def exprsCalls : List Expr → List (Automation × Nat)
  | [] => []
  | e :: es => e.calls ++ exprsCalls es

end

mutual

/-- The calls in a statement. -/
def Stmt.calls : Stmt → List (Automation × Nat)
  | .declare _ init => init.calls
  | .assign _ source => source.calls
  | .change _ _ term => term.calls
  | .print argument => argument.calls
  | .automate _ _ body => stmtsCalls body
  | .call callee args => (callee, args.length) :: exprsCalls args
  | .output none _ => []
  | .output (some value) _ => value.calls
  | .ifElse test body none => test.calls ++ stmtsCalls body
  | .ifElse test body (some alternate) => test.calls ++ (stmtsCalls body ++ stmtsCalls alternate)
  | .loopWhile test body => test.calls ++ stmtsCalls body
  | .loopOver _ list body => list.calls ++ stmtsCalls body
  | .breakLoop => []

/-- The calls in the statements of a list. -/
def stmtsCalls : List Stmt → List (Automation × Nat)
  | [] => []
  | s :: ss => s.calls ++ stmtsCalls ss

end

/-- The calls of statements are those of the one part and of the other. -/
theorem stmtsCalls_append (ss tt : List Stmt) :
    stmtsCalls (ss ++ tt) = stmtsCalls ss ++ stmtsCalls tt := by
  induction ss with
  | nil => rfl
  | cons s ss ih => rw [List.cons_append, stmtsCalls, stmtsCalls, ih, List.append_assoc]

theorem stmtsCalls_singleton (s : Stmt) : stmtsCalls [s] = s.calls := by
  rw [stmtsCalls, stmtsCalls, List.append_nil]

/-! ## Simplifying makes no calls -/

variable {p : Passes}

theorem append_subset_append {α : Type} {cs cs' ds ds' : List α} (h : cs ⊆ cs')
    (h' : ds ⊆ ds') : cs ++ ds ⊆ cs' ++ ds' :=
  List.append_subset.2
    ⟨List.subset_append_of_subset_left _ h, List.subset_append_of_subset_right _ h'⟩

/-- A folded variable makes no call. -/
theorem calls_foldVar (v : Variable) : (foldVar v).calls = [] := by
  unfold foldVar
  cases truth? v with
  | some b => rfl
  | none => rfl

/-- Folding an operation makes no call that its operands do not make. -/
theorem calls_foldArith (op : ArithOp) (left right : Expr) :
    (foldArith op left right).value.calls ⊆ left.calls ++ right.calls := by
  unfold foldArith
  split
  · split
    · exact List.nil_subset _
    · exact List.Subset.refl _
  · exact List.Subset.refl _

/-- Folding a comparison makes no call that its operands do not make. -/
theorem calls_foldCompare (op : CompareOp) (left right : Expr) :
    (foldCompare op left right).value.calls ⊆ left.calls ++ right.calls := by
  unfold foldCompare
  split
  · exact List.nil_subset _
  · exact List.Subset.refl _

theorem calls_foldParen (inner : Expr) : (foldParen inner).calls = inner.calls := by
  unfold foldParen
  split <;> rfl

/-- Simplifying keeps the number of arguments. -/
theorem length_simplifyExprs (es : List Expr) :
    (simplifyExprs p es).value.length = es.length := by
  induction es with
  | nil => rfl
  | cons e es ih =>
    rw [simplifyExprs]
    exact congrArg (· + 1) ih

mutual

/-- Simplifying an expression makes no calls. -/
theorem calls_simplifyExpr : ∀ e : Expr, (e.simplify p).value.calls ⊆ e.calls
  | .var v => by
    rw [Expr.simplify, Reduced.value_pure]
    split
    · rw [calls_foldVar]
      exact List.nil_subset _
    · exact List.Subset.refl _
  | .arith op left right => by
    have hsub := append_subset_append (calls_simplifyExpr left) (calls_simplifyExpr right)
    simp only [Expr.simplify, Reduced.value_bind]
    split
    · exact List.Subset.trans (calls_foldArith op _ _) hsub
    · exact hsub
  | .compare op left right => by
    have hsub := append_subset_append (calls_simplifyExpr left) (calls_simplifyExpr right)
    simp only [Expr.simplify, Reduced.value_bind]
    split
    · exact List.Subset.trans (calls_foldCompare op _ _) hsub
    · exact hsub
  | .paren inner => by
    simp only [Expr.simplify, Reduced.value_bind, Reduced.value_pure]
    split
    · rw [calls_foldParen]
      exact calls_simplifyExpr inner
    · exact calls_simplifyExpr inner
  | .list elements => calls_simplifyExprs elements
  | .call callee args => by
    simp only [Expr.simplify, Reduced.value_bind, Reduced.value_pure, Expr.calls,
      length_simplifyExprs]
    exact List.cons_subset_cons _ (calls_simplifyExprs args)
  | .num _ => List.Subset.refl _
  | .bool _ => List.Subset.refl _
  | .word _ => List.Subset.refl _
  | .auto _ => List.Subset.refl _

/-- Simplifying expressions makes no calls. -/
theorem calls_simplifyExprs : ∀ es : List Expr,
    exprsCalls (simplifyExprs p es).value ⊆ exprsCalls es
  | [] => List.Subset.refl _
  | e :: es => append_subset_append (calls_simplifyExpr e) (calls_simplifyExprs es)

end

mutual

/-- Simplifying a statement makes no calls. -/
theorem calls_simplifyStmt : ∀ s : Stmt, stmtsCalls (s.simplify p).value ⊆ s.calls
  | .declare v init => by
    simp only [Stmt.simplify, Reduced.value_bind, Reduced.value_pure, stmtsCalls_singleton]
    exact calls_simplifyExpr init
  | .assign target source => by
    simp only [Stmt.simplify, Reduced.value_bind, Reduced.value_pure, stmtsCalls_singleton]
    exact calls_simplifyExpr source
  | .change op target term => by
    simp only [Stmt.simplify, Reduced.value_bind, Reduced.value_pure, stmtsCalls_singleton]
    exact calls_simplifyExpr term
  | .print argument => by
    simp only [Stmt.simplify, Reduced.value_bind, Reduced.value_pure, stmtsCalls_singleton]
    exact calls_simplifyExpr argument
  | .automate a params body => by
    simp only [Stmt.simplify, Reduced.value_bind, Reduced.value_pure, stmtsCalls_singleton]
    exact calls_simplifyStmts body
  | .call callee args => by
    simp only [Stmt.simplify, Reduced.value_bind, Reduced.value_pure, stmtsCalls_singleton,
      Stmt.calls, length_simplifyExprs]
    exact List.cons_subset_cons _ (calls_simplifyExprs args)
  | .output none ty => List.Subset.refl _
  | .output (some value) ty => by
    simp only [Stmt.simplify, Reduced.value_bind, Reduced.value_pure, stmtsCalls_singleton]
    exact calls_simplifyExpr value
  | .ifElse test body none => by
    simp only [Stmt.simplify, Reduced.value_bind]
    cases knownTest p (test.simplify p).value with
    | none =>
      simp only [Reduced.value_bind, Reduced.value_pure, stmtsCalls_singleton]
      exact append_subset_append (calls_simplifyExpr test) (calls_simplifyStmts body)
    | some b =>
      cases b with
      | true => exact List.subset_append_of_subset_right _ (calls_simplifyStmts body)
      | false => exact List.nil_subset _
  | .ifElse test body (some alternate) => by
    simp only [Stmt.simplify, Reduced.value_bind]
    cases knownTest p (test.simplify p).value with
    | none =>
      simp only [Reduced.value_bind, Reduced.value_pure, stmtsCalls_singleton]
      exact append_subset_append (calls_simplifyExpr test)
        (append_subset_append (calls_simplifyStmts body) (calls_simplifyStmts alternate))
    | some b =>
      -- The calls of the test are gone as well, since it is not evaluated any more.
      refine List.subset_append_of_subset_right _ ?_
      cases b with
      | true => exact List.subset_append_of_subset_left _ (calls_simplifyStmts body)
      | false => exact List.subset_append_of_subset_right _ (calls_simplifyStmts alternate)
  | .loopWhile test body => by
    simp only [Stmt.simplify, Reduced.value_bind]
    split
    · exact List.nil_subset _
    · simp only [Reduced.value_bind, Reduced.value_pure, stmtsCalls_singleton]
      exact append_subset_append (calls_simplifyExpr test) (calls_simplifyStmts body)
  | .loopOver item list body => by
    simp only [Stmt.simplify, Reduced.value_bind, Reduced.value_pure, stmtsCalls_singleton]
    exact append_subset_append (calls_simplifyExpr list) (calls_simplifyStmts body)
  | .breakLoop => List.Subset.refl _

/-- Simplifying statements makes no calls. -/
theorem calls_simplifyStmts : ∀ ss : List Stmt,
    stmtsCalls (simplifyStmts p ss).value ⊆ stmtsCalls ss
  | [] => List.Subset.refl _
  | s :: ss => by
    simp only [simplifyStmts, Reduced.value_bind]
    split
    · exact List.subset_append_of_subset_left _ (calls_simplifyStmt s)
    · simp only [Reduced.value_bind, Reduced.value_pure, stmtsCalls_append]
      exact append_subset_append (calls_simplifyStmt s) (calls_simplifyStmts ss)

end

/-- Every call of a simplified program is one of the program. -/
theorem calls_simplify (p : Passes) (program : Program) :
    stmtsCalls (program.simplify p).value.stmts ⊆ stmtsCalls program.stmts :=
  calls_simplifyStmts program.stmts

/-- Each call has as many arguments as its automation takes, and what is called
    satisfies `V`. -/
def Proper (V : Entity → Prop) (calls : List (Automation × Nat)) : Prop :=
  ∀ call ∈ calls, call.2 = call.1.params.length ∧ V (.auto call.1)

variable {V : Entity → Prop} {cs ds : List (Automation × Nat)}

theorem Proper.nil : Proper V [] :=
  List.forall_mem_nil _

theorem Proper.append (hcs : Proper V cs) (hds : Proper V ds) : Proper V (cs ++ ds) :=
  List.forall_mem_append.2 ⟨hcs, hds⟩

/-- A call with as many arguments as there are parameters is proper. -/
theorem Proper.call {a : Automation} {args : List Expr} (ha : V (.auto a))
    (hargs : Proper V (exprsCalls args)) (hlength : args.length = a.params.length) :
    Proper V ((a, args.length) :: exprsCalls args) :=
  List.forall_mem_cons.2 ⟨⟨hlength, ha⟩, hargs⟩

/-- Of proper calls, some are proper. -/
theorem Proper.mono (hcs : Proper V cs) (h : ds ⊆ cs) : Proper V ds :=
  fun call hcall => hcs call (h hcall)

end Program

/-- Whether an entity comes with the language. -/
def Entity.builtin : Entity → Bool
  | var v => v.builtin
  | auto a => a.builtin

/-- An entity that comes with the language is a standard one. -/
def Prelude.Known (e : Entity) : Prop :=
  e.builtin = true → e ∈ standard

/-! ## Generating proper calls -/

namespace Script

open Program (Proper exprsCalls stmtsCalls)
open Prelude (Known)

variable {α β : Type} {Q : α → Prop} {R : β → Prop}

/-- There is a template for each call of a standard automation that has as many
    arguments as the automation takes. -/
theorem isSome_template? {a : Automation} {args : List Expr} (ha : .auto a ∈ Prelude.standard)
    (hlength : args.length = a.params.length) : (template? a.name args).isSome = true := by
  simp only [Prelude.standard, Prelude.number, Prelude.automation, Prelude.constant,
    Entity.withSerial, List.mapIdx_cons, List.mapIdx_nil, List.mem_cons, Entity.auto.injEq,
    List.not_mem_nil, reduceCtorEq, or_false] at ha
  -- A template matches on the list of arguments, so the list has to be opened up to
  -- the length that the automation asks for.
  rcases ha with rfl | rfl | rfl | rfl | rfl
  · obtain ⟨x, y, rfl⟩ := List.length_eq_two.1 hlength
    rfl
  · obtain ⟨x, y, rfl⟩ := List.length_eq_two.1 hlength
    rfl
  · obtain ⟨x, rfl⟩ := List.length_eq_one_iff.1 hlength
    rfl
  · obtain ⟨x, y, rfl⟩ := List.length_eq_two.1 hlength
    rfl
  · obtain ⟨x, rfl⟩ := List.length_eq_one_iff.1 hlength
    rfl

/-- What is generated satisfies `Q`, and only a `break` can stop the generation. -/
def Emits (m : Emit α) (Q : α → Prop) : Prop :=
  ∀ names, match m names with
    | .ok (a, _) => Q a
    | .error f => ∃ automation, f = .breakLeaves automation

theorem emits_pure {a : α} (h : Q a) : Emits (pure a) Q :=
  fun _ => h

/-- One part is generated after the other. -/
theorem emits_bind {m : Emit α} {f : α → Emit β} (hm : Emits m Q)
    (hf : ∀ a, Q a → Emits (f a) R) : Emits (m >>= f) R := by
  intro names
  have hnames := hm names
  change match Except.bind (m names) fun x => f x.1 x.2 with
    | .ok (a, _) => R a
    | .error f => ∃ automation, f = .breakLeaves automation
  cases hx : m names with
  | error f =>
    rw [hx] at hnames
    exact hnames
  | ok x =>
    rw [hx] at hnames
    exact hf x.1 hnames x.2

theorem emits_name (entity : Entity) : Emits (emitName entity) fun _ => True :=
  fun _ => trivial

theorem emits_variable (v : Variable) : Emits (emitVariable v) fun _ => True := by
  unfold emitVariable
  cases constant? v with
  | some r => exact emits_pure trivial
  | none => exact emits_bind (emits_name _) fun _ _ => emits_pure trivial

theorem emits_variables (vs : List Variable) : Emits (emitVariables vs) fun _ => True := by
  induction vs with
  | nil => exact emits_pure trivial
  | cons v vs ih =>
    exact emits_bind (emits_variable v) fun _ _ => emits_bind ih fun _ _ => emits_pure trivial

/-- A proper call is generated: a function is called, or there is a template. -/
theorem emits_call {a : Automation} {args : List Expr} (ha : Known (.auto a))
    (hlength : args.length = a.params.length) : Emits (emitCall a args) fun _ => True := by
  unfold emitCall
  split
  · next hbuiltin =>
    have htemplate : (template? a.name (args.map operand)).isSome = true :=
      isSome_template? (ha hbuiltin) ((List.length_map _).trans hlength)
    obtain ⟨e, he⟩ := Option.isSome_iff_exists.1 htemplate
    rw [he]
    exact emits_pure trivial
  · exact emits_bind (emits_name _) fun _ _ => emits_pure trivial

mutual

/-- An expression is generated if its calls are proper. -/
theorem emits_expr : ∀ e : Program.Expr, Proper Known e.calls → Emits (emitExpr e) fun _ => True
  | .num _, _ => emits_pure trivial
  | .bool _, _ => emits_pure trivial
  | .word _, _ => emits_pure trivial
  | .list elements, h => by
    rw [emitExpr]
    exact emits_bind (emits_exprs elements h) fun _ _ => emits_pure trivial
  | .var v, _ => by
    rw [emitExpr]
    exact emits_bind (emits_variable v) fun _ _ => emits_pure trivial
  | .auto a, _ => by
    rw [emitExpr]
    exact emits_bind (emits_name _) fun _ _ => emits_pure trivial
  | .arith op left right, h => by
    obtain ⟨hleft, hright⟩ := List.forall_mem_append.1 h
    rw [emitExpr]
    exact emits_bind (emits_expr left hleft) fun _ _ =>
      emits_bind (emits_expr right hright) fun _ _ => emits_pure trivial
  | .compare op left right, h => by
    obtain ⟨hleft, hright⟩ := List.forall_mem_append.1 h
    rw [emitExpr]
    exact emits_bind (emits_expr left hleft) fun _ _ =>
      emits_bind (emits_expr right hright) fun _ _ => emits_pure trivial
  | .paren inner, h => by
    rw [emitExpr]
    exact emits_bind (emits_expr inner h) fun _ _ => emits_pure trivial
  | .call callee args, h => by
    obtain ⟨⟨hlength, hcallee⟩, hargs⟩ := List.forall_mem_cons.1 h
    rw [emitExpr]
    -- The template is given the generated arguments; there are as many of them.
    exact emits_bind (emits_exprs args hargs) fun _ hsame =>
      emits_call hcallee (hsame.trans hlength)

/-- As many expressions are generated as there are. -/
theorem emits_exprs : ∀ es : List Program.Expr, Proper Known (exprsCalls es) →
    Emits (emitExprs es) fun rs => rs.length = es.length
  | [], _ => emits_pure rfl
  | e :: es, h => by
    obtain ⟨he, hes⟩ := List.forall_mem_append.1 h
    rw [emitExprs]
    exact emits_bind (emits_expr e he) fun _ _ => emits_bind (emits_exprs es hes) fun _ hlength =>
      emits_pure (congrArg (· + 1) hlength)

end

mutual

/-- A statement is generated if its calls are proper, unless a break leaves an automation. -/
theorem emits_stmt (p : Place) :
    ∀ s : Program.Stmt, Proper Known s.calls → Emits (emitStmt p s) fun _ => True
  | .declare v init, h => by
    rw [emitStmt]
    exact emits_bind (emits_variable v) fun _ _ => emits_bind (emits_expr init h) fun _ _ =>
      emits_pure trivial
  | .assign target source, h => by
    rw [emitStmt]
    exact emits_bind (emits_variable target) fun _ _ => emits_bind (emits_expr source h) fun _ _ =>
      emits_pure trivial
  | .change op target term, h => by
    rw [emitStmt]
    exact emits_bind (emits_variable target) fun _ _ => emits_bind (emits_expr term h) fun _ _ =>
      emits_pure trivial
  | .print argument, h => by
    rw [emitStmt]
    exact emits_bind (emits_expr argument h) fun _ _ => emits_pure trivial
  | .automate a params body, h => by
    rw [emitStmt]
    exact emits_bind (emits_name _) fun _ _ => emits_bind (emits_variables params) fun _ _ =>
      emits_bind (emits_stmts (.body a) body h) fun _ _ => emits_pure trivial
  | .call callee args, h => by
    obtain ⟨⟨hlength, hcallee⟩, hargs⟩ := List.forall_mem_cons.1 h
    rw [emitStmt]
    exact emits_bind (emits_exprs args hargs) fun _ hsame =>
      emits_bind (emits_call hcallee (hsame.trans hlength)) fun _ _ => emits_pure trivial
  | .output none _, _ => by
    rw [emitStmt]
    exact emits_pure trivial
  | .output (some value) _, h => by
    rw [emitStmt]
    exact emits_bind (emits_expr value h) fun _ _ => emits_pure trivial
  | .ifElse test body none, h => by
    obtain ⟨htest, hbody⟩ := List.forall_mem_append.1 h
    rw [emitStmt]
    exact emits_bind (emits_expr test htest) fun _ _ =>
      emits_bind (emits_stmts p body hbody) fun _ _ => emits_pure trivial
  | .ifElse test body (some alternate), h => by
    obtain ⟨htest, hblocks⟩ := List.forall_mem_append.1 h
    obtain ⟨hbody, halternate⟩ := List.forall_mem_append.1 hblocks
    rw [emitStmt]
    exact emits_bind (emits_expr test htest) fun _ _ =>
      emits_bind (emits_stmts p body hbody) fun _ _ =>
        emits_bind (emits_stmts p alternate halternate) fun _ _ => emits_pure trivial
  | .loopWhile test body, h => by
    obtain ⟨htest, hbody⟩ := List.forall_mem_append.1 h
    rw [emitStmt]
    exact emits_bind (emits_expr test htest) fun _ _ =>
      emits_bind (emits_stmts p.loop body hbody) fun _ _ => emits_pure trivial
  | .loopOver item list body, h => by
    obtain ⟨hlist, hbody⟩ := List.forall_mem_append.1 h
    rw [emitStmt]
    exact emits_bind (emits_variable item) fun _ _ => emits_bind (emits_expr list hlist) fun _ _ =>
      emits_bind (emits_stmts p.loop body hbody) fun _ _ => emits_pure trivial
  | .breakLoop, _ => by
    rw [emitStmt]
    split
    · exact emits_pure trivial
    · exact fun _ => ⟨p.automation, rfl⟩

/-- Statements are generated if their calls are proper, unless a break leaves an
    automation. -/
theorem emits_stmts (p : Place) : ∀ ss : List Program.Stmt, Proper Known (stmtsCalls ss) →
    Emits (emitStmts p ss) fun _ => True
  | [], _ => emits_pure trivial
  | s :: ss, h => by
    obtain ⟨hs, hss⟩ := List.forall_mem_append.1 h
    rw [emitStmts]
    exact emits_bind (emits_stmt p s hs) fun _ _ => emits_bind (emits_stmts p ss hss) fun _ _ =>
      emits_pure trivial

end

/-- If its calls are proper, only a `break` can keep a program from having a
    script. -/
theorem ofProgram_error {program : Program} {f : Failure}
    (hcalls : Proper Known (stmtsCalls program.stmts)) (h : ofProgram program = .error f) :
    ∃ automation, f = .breakLeaves automation := by
  have hemits := emits_stmts .outside program.stmts hcalls .empty
  change Except.map Prod.fst (emitStmts .outside program.stmts .empty) = .error f at h
  cases hx : emitStmts .outside program.stmts .empty with
  | ok x =>
    rw [hx] at h
    cases h
  | error f' =>
    rw [hx] at h hemits
    cases h
    exact hemits

end Script

end Toal
