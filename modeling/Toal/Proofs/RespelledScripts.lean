import Toal.Proofs.Requests
import Toal.Proofs.RespelledTyping
import Mathlib.Logic.Equiv.Basic

/-!
# Scripts of respelled programs

Simplifying looks at the names of constants only, and generating a script at those of the
constants and automations that come with the language; a respelling keeps these. So both
commute with respelling (`Program.matches_simplify`, `ofProgram_respell`): the same
reductions are applied, and the same numbers are given to the names in the script.

Together with `Typing.run_respell`, this says that a program and its respelling are
compiled to the same thing up to the spelling of names (`respelling_commutes`).
-/

namespace Toal

open Program (Passes Reduced)

variable {r : Respelling}

/-! ## Simplifying -/

namespace Program

variable {α β γ δ : Type}

/-- The same reductions have been applied, and the second value is the image of the
    first. -/
structure Reduced.Matches (f : α → β) (x : Reduced α) (x' : Reduced β) : Prop where
  value : x'.value = f x.value
  reductions : x'.reductions = x.reductions

theorem matches_pure (f : α → β) (a : α) : Reduced.Matches f (pure a) (pure (f a)) :=
  ⟨rfl, rfl⟩

theorem matches_record (reduction : Reduction) :
    Reduced.Matches id (Reduced.record reduction) (Reduced.record reduction) :=
  ⟨rfl, rfl⟩

/-- Reductions in sequence match if each step does. -/
theorem matches_bind {f : α → β} {g : γ → δ} {x : Reduced α} {x' : Reduced β}
    {k : α → Reduced γ} {k' : β → Reduced δ} (hx : x.Matches f x')
    (hk : ∀ a, (k a).Matches g (k' (f a))) : (x >>= k).Matches g (x' >>= k') := by
  have hrest := hk x.value
  rw [← hx.value] at hrest
  refine ⟨hrest.value, ?_⟩
  rw [Reduced.reductions_bind, Reduced.reductions_bind, hx.reductions, hrest.reductions]

/-- Respelling a variable does not change its truth value. -/
theorem truth?_respell (v : Variable) : truth? (v.respell r) = truth? v := by
  unfold truth? Variable.respell
  dsimp only
  simp only [r.spell_eq_iff (show "true" ∈ Prelude.standard.map Entity.name by decide),
    r.spell_eq_iff (show "false" ∈ Prelude.standard.map Entity.name by decide)]

/-- Folding and respelling a variable may be exchanged. -/
theorem foldVar_respell (v : Variable) : foldVar (v.respell r) = (foldVar v).respell r := by
  rw [foldVar, truth?_respell, foldVar]
  cases truth? v with
  | some b => rfl
  | none => rfl

/-- Folding a respelled operation matches. -/
theorem matches_foldArith (op : ArithOp) (left right : Expr) :
    (foldArith op left right).Matches (Expr.respell r)
      (foldArith op (left.respell r) (right.respell r)) := by
  cases left with
  | num x =>
    cases right with
    | num y =>
      simp only [foldArith, Expr.respell]
      cases evalArith op x y with
      | some value =>
        exact matches_bind (matches_record _) fun _ => matches_pure (Expr.respell r) (.num value)
      | none => exact matches_pure (Expr.respell r) (.arith op (.num x) (.num y))
    -- No other expression is respelled to a number, so nothing is folded on either side.
    | _ => exact matches_pure (Expr.respell r) (.arith op (.num x) _)
  | _ => exact matches_pure (Expr.respell r) (.arith op _ right)

/-- Respelling does not change the outcome of a comparison. -/
theorem evalCompare_respell (op : CompareOp) (left right : Expr) :
    evalCompare op (left.respell r) (right.respell r) = evalCompare op left right := by
  cases left with
  | num x => cases right <;> rfl
  | word s => cases right <;> rfl
  | _ => rfl

/-- Folding a respelled comparison matches. -/
theorem matches_foldCompare (op : CompareOp) (left right : Expr) :
    (foldCompare op left right).Matches (Expr.respell r)
      (foldCompare op (left.respell r) (right.respell r)) := by
  unfold foldCompare
  rw [evalCompare_respell]
  cases evalCompare op left right with
  | some value =>
    exact matches_bind (matches_record _) fun _ => matches_pure (Expr.respell r) (.bool value)
  | none => exact matches_pure (Expr.respell r) (.compare op left right)

/-- Removing parentheses and respelling may be exchanged. -/
theorem foldParen_respell (inner : Expr) :
    foldParen (inner.respell r) = (foldParen inner).respell r := by
  cases inner <;> rfl

mutual

/-- Simplifying a respelled expression matches. -/
theorem matches_simplifyExpr (p : Passes) : ∀ e : Expr,
    (e.simplify p).Matches (Expr.respell r) ((e.respell r).simplify p)
  | .var v => by
    change Reduced.Matches _ (pure (if p.fold then foldVar v else .var v))
      (pure (if p.fold then foldVar (v.respell r) else .var (v.respell r)))
    rw [foldVar_respell]
    cases p.fold with
    | true => exact matches_pure (Expr.respell r) (foldVar v)
    | false => exact matches_pure (Expr.respell r) (.var v)
  | .arith op left right =>
    matches_bind (matches_simplifyExpr p left) fun l =>
      matches_bind (matches_simplifyExpr p right) fun r' => by
        cases p.fold with
        | true => exact matches_foldArith op l r'
        | false => exact matches_pure (Expr.respell r) (.arith op l r')
  | .compare op left right =>
    matches_bind (matches_simplifyExpr p left) fun l =>
      matches_bind (matches_simplifyExpr p right) fun r' => by
        cases p.fold with
        | true => exact matches_foldCompare op l r'
        | false => exact matches_pure (Expr.respell r) (.compare op l r')
  | .paren inner =>
    matches_bind (matches_simplifyExpr p inner) fun e => by
      rw [foldParen_respell]
      cases p.fold with
      | true => exact matches_pure (Expr.respell r) (foldParen e)
      | false => exact matches_pure (Expr.respell r) (.paren e)
  | .list elements =>
    matches_bind (matches_simplifyExprs p elements) fun es =>
      matches_pure (Expr.respell r) (.list es)
  | .call callee args =>
    matches_bind (matches_simplifyExprs p args) fun es =>
      matches_pure (Expr.respell r) (.call callee es)
  | .num value => matches_pure (Expr.respell r) (.num value)
  | .bool value => matches_pure (Expr.respell r) (.bool value)
  | .word contents => matches_pure (Expr.respell r) (.word contents)
  | .auto a => matches_pure (Expr.respell r) (.auto a)

theorem matches_simplifyExprs (p : Passes) : ∀ es : List Expr,
    (simplifyExprs p es).Matches (respellExprs r) (simplifyExprs p (respellExprs r es))
  | [] => matches_pure (respellExprs r) []
  | e :: es =>
    matches_bind (matches_simplifyExpr p e) fun e' =>
      matches_bind (matches_simplifyExprs p es) fun es' => matches_pure (respellExprs r) (e' :: es')

end

/-- Respelling does not change the known truth value of an expression. -/
theorem constBool_respell : ∀ e : Expr, (e.respell r).constBool = e.constBool
  | .var v => truth?_respell v
  | .paren inner => constBool_respell inner
  | .bool _ | .num _ | .word _ | .list _ | .auto _ | .arith .. | .compare .. | .call .. => rfl

theorem knownTest_respell (p : Passes) (test : Expr) :
    knownTest p (test.respell r) = knownTest p test := by
  rw [knownTest, constBool_respell, knownTest]

/-- Respelling does not change what ends a list of statements. -/
theorem isTerminal_respell (s : Stmt) : (s.respell r).isTerminal = s.isTerminal := by
  cases s with
  | output value ty => cases value <;> rfl
  | ifElse test body alternate => cases alternate <;> rfl
  | _ => rfl

/-- The same statements are dropped after respelling. -/
theorem matches_dropUnreachable (ss : List Stmt) :
    (dropUnreachable ss).Matches id (dropUnreachable (respellStmts r ss)) := by
  cases ss with
  | nil => exact matches_pure id ()
  | cons s ss =>
    change Reduced.Matches id (Reduced.record (.unreachable (s :: ss).length))
      (Reduced.record (.unreachable (respellStmts r (s :: ss)).length))
    rw [length_respellStmts]
    exact matches_record _

mutual

/-- Simplifying a respelled statement matches. -/
theorem matches_simplifyStmt (p : Passes) : ∀ s : Stmt,
    (s.simplify p).Matches (respellStmts r) ((s.respell r).simplify p)
  | .declare v init =>
    matches_bind (matches_simplifyExpr p init) fun e => matches_pure (respellStmts r) [.declare v e]
  | .assign target source =>
    matches_bind (matches_simplifyExpr p source) fun e =>
      matches_pure (respellStmts r) [.assign target e]
  | .change op target term =>
    matches_bind (matches_simplifyExpr p term) fun e =>
      matches_pure (respellStmts r) [.change op target e]
  | .print argument =>
    matches_bind (matches_simplifyExpr p argument) fun e => matches_pure (respellStmts r) [.print e]
  | .automate a params body =>
    matches_bind (matches_simplifyStmts p body) fun ss =>
      matches_pure (respellStmts r) [.automate a params ss]
  | .call callee args =>
    matches_bind (matches_simplifyExprs p args) fun es =>
      matches_pure (respellStmts r) [.call callee es]
  | .output none ty => matches_pure (respellStmts r) [.output none ty]
  | .output (some value) ty =>
    matches_bind (matches_simplifyExpr p value) fun e =>
      matches_pure (respellStmts r) [.output (some e) ty]
  | .ifElse test body none =>
    matches_bind (matches_simplifyExpr p test) fun e => by
      rw [knownTest_respell]
      cases knownTest p e with
      | some b =>
        refine matches_bind (matches_record _) fun _ => ?_
        cases b with
        | true => exact matches_simplifyStmts p body
        | false => exact matches_pure (respellStmts r) []
      | none =>
        exact matches_bind (matches_simplifyStmts p body) fun ss =>
          matches_pure (respellStmts r) [.ifElse e ss none]
  | .ifElse test body (some alternate) =>
    matches_bind (matches_simplifyExpr p test) fun e => by
      rw [knownTest_respell]
      cases knownTest p e with
      | some b =>
        refine matches_bind (matches_record _) fun _ => ?_
        cases b with
        | true => exact matches_simplifyStmts p body
        | false => exact matches_simplifyStmts p alternate
      | none =>
        exact matches_bind (matches_simplifyStmts p body) fun ss =>
          matches_bind (matches_simplifyStmts p alternate) fun tt =>
            matches_pure (respellStmts r) [.ifElse e ss (some tt)]
  | .loopWhile test body =>
    matches_bind (matches_simplifyExpr p test) fun e => by
      have hkept : Reduced.Matches (respellStmts r)
          (do return [.loopWhile e (← simplifyStmts p body)])
          (do return [.loopWhile (e.respell r) (← simplifyStmts p (respellStmts r body))]) :=
        matches_bind (matches_simplifyStmts p body) fun ss =>
          matches_pure (respellStmts r) [.loopWhile e ss]
      rw [knownTest_respell]
      cases knownTest p e with
      | some b =>
        cases b with
        | true => exact hkept
        | false => exact matches_bind (matches_record _) fun _ => matches_pure (respellStmts r) []
      | none => exact hkept
  | .loopOver item list body =>
    matches_bind (matches_simplifyExpr p list) fun e =>
      matches_bind (matches_simplifyStmts p body) fun ss =>
        matches_pure (respellStmts r) [.loopOver item e ss]
  | .breakLoop => matches_pure (respellStmts r) [.breakLoop]

/-- Simplifying respelled statements matches. -/
theorem matches_simplifyStmts (p : Passes) : ∀ ss : List Stmt,
    (simplifyStmts p ss).Matches (respellStmts r) (simplifyStmts p (respellStmts r ss))
  | [] => matches_pure (respellStmts r) []
  | s :: ss =>
    matches_bind (matches_simplifyStmt p s) fun head => by
      rw [isTerminal_respell]
      by_cases hcut : (p.prune && s.isTerminal) = true
      · rw [if_pos hcut, if_pos hcut]
        exact matches_bind (matches_dropUnreachable ss) fun _ => matches_pure (respellStmts r) head
      · rw [if_neg hcut, if_neg hcut]
        refine matches_bind (matches_simplifyStmts p ss) fun tail => ?_
        rw [← respellStmts_append]
        exact matches_pure (respellStmts r) (head ++ tail)

end

/-- The respelled program is simplified to the respelled simplified program, by the same
    reductions. -/
theorem matches_simplify (p : Passes) (program : Program) :
    (program.simplify p).Matches (respell r) ((program.respell r).simplify p) :=
  matches_bind (matches_simplifyStmts p program.stmts) fun ss => matches_pure (respell r) ⟨ss⟩

end Program

/-! ## Generating scripts -/

namespace Script

variable {α β γ δ : Type}

/-- The names of the entities with other names. -/
def Names.respell (r : Respelling) (names : Names) : Names :=
  ⟨names.used.map (Entity.respell r)⟩

/-- How a failure may be respelled. Outside of all automations there is no name to
    respell. -/
inductive Failure.Respelled (r : Respelling) : Failure → Failure → Prop
  | breakLeaves (automation : String) :
    Respelled r (.breakLeaves automation) (.breakLeaves (r.spell automation))
  | outside : Respelled r (.breakLeaves "") (.breakLeaves "")
  | noTemplate (name : String) (args : Nat) :
    Respelled r (.noTemplate name args) (.noTemplate (r.spell name) args)

/-- From respelled names, the second generation does what the first does, respelled. -/
def Respells (r : Respelling) (f : α → β) (m : Emit α) (m' : Emit β) : Prop :=
  ∀ names : Names, match m names with
    | .ok (a, names') => m' (names.respell r) = .ok (f a, names'.respell r)
    | .error e => ∃ e', e.Respelled r e' ∧ m' (names.respell r) = .error e'

theorem respells_pure (f : α → β) (a : α) : Respells r f (pure a) (pure (f a)) :=
  fun _ => rfl

/-- A failure is respelled. -/
theorem respells_throw (f : α → β) {e e' : Failure} (h : e.Respelled r e') :
    Respells r f (throw e) (throw e') :=
  fun _ => ⟨e', h, rfl⟩

/-- Generations in sequence are respelled if each step is. -/
theorem respells_bind {f : α → β} {g : γ → δ} {m : Emit α} {m' : Emit β} {k : α → Emit γ}
    {k' : β → Emit δ} (hm : Respells r f m m') (hk : ∀ a, Respells r g (k a) (k' (f a))) :
    Respells r g (m >>= k) (m' >>= k') := by
  intro names
  have hnames := hm names
  change match Except.bind (m names) fun x => k x.1 x.2 with
    | .ok (a, names') =>
      Except.bind (m' (names.respell r)) (fun x => k' x.1 x.2) = .ok (g a, names'.respell r)
    | .error e => ∃ e', e.Respelled r e' ∧
        Except.bind (m' (names.respell r)) (fun x => k' x.1 x.2) = .error e'
  cases hx : m names with
  | ok x =>
    rw [hx] at hnames
    rw [hnames]
    exact hk x.1 x.2
  | error e =>
    rw [hx] at hnames
    obtain ⟨e', he, hnames⟩ := hnames
    rw [hnames]
    exact ⟨e', he, rfl⟩

/-- A respelled entity is found where the entity is. -/
theorem idxOf?_respell (es : List Entity) (e : Entity) :
    (es.map (Entity.respell r)).idxOf? (e.respell r) = es.idxOf? e := by
  rw [List.idxOf?, List.findIdx?_map, List.idxOf?]
  congr 1
  funext x
  change (x.respell r == e.respell r) = (x == e)
  rw [Bool.eq_iff_iff, beq_iff_eq, beq_iff_eq, (Entity.respell_injective r).eq_iff]

/-- The respelled entity gets the respelled name, with the same number. -/
theorem Names.name_respell (names : Names) (e : Entity) :
    (names.respell r).name (e.respell r) =
      ((names.name e).1.respell r, (names.name e).2.respell r) := by
  rw [Names.name, Names.respell, idxOf?_respell, Names.name]
  cases names.used.idxOf? e with
  | some i => exact Prod.ext (congrArg (Name.mk · _) (e.name_respell r)) rfl
  | none =>
    refine Prod.ext ?_ ?_
    · change Name.mk (e.respell r).name (List.length _ + 1) = _
      rw [e.name_respell, List.length_map]
      rfl
    · change Names.mk _ = Names.mk _
      rw [List.map_append]
      rfl

/-- Giving a name to a respelled entity gives the respelled name. -/
theorem respells_name (e : Entity) :
    Respells r (Name.respell r) (emitName e) (emitName (e.respell r)) := by
  intro names
  change Except.ok ((names.respell r).name (e.respell r)) = _
  rw [names.name_respell e]
  rfl

/-- Which constant a variable stands for depends on its name only by comparisons with
    standard names. -/
theorem constant?_eq (v : Variable) :
    constant? v =
      if v.builtin then
        if v.name = "π" then some .pi
        else if v.name = "inf" then some .infinity
        else if v.name = "true" then some (.truth true)
        else if v.name = "false" then some (.truth false)
        else none
      else none := by
  unfold constant?
  split
  · split <;> simp_all
  · rfl

/-- Respelling does not change which variables are constants. -/
theorem constant?_respell (v : Variable) : constant? (v.respell r) = constant? v := by
  rw [constant?_eq, constant?_eq]
  unfold Variable.respell
  dsimp only
  simp only [r.spell_eq_iff (show "π" ∈ Prelude.standard.map Entity.name by decide),
    r.spell_eq_iff (show "inf" ∈ Prelude.standard.map Entity.name by decide),
    r.spell_eq_iff (show "true" ∈ Prelude.standard.map Entity.name by decide),
    r.spell_eq_iff (show "false" ∈ Prelude.standard.map Entity.name by decide)]

/-- No constant of scripts is a name. -/
theorem respell_of_constant? {v : Variable} {ref : Ref} (h : constant? v = some ref) :
    ref.respell r = ref := by
  unfold constant? at h
  split at h
  · split at h <;> cases h <;> rfl
  · cases h

theorem respells_variable (v : Variable) :
    Respells r (Ref.respell r) (emitVariable v) (emitVariable (v.respell r)) := by
  unfold emitVariable
  rw [constant?_respell]
  cases hconstant : constant? v with
  | some ref =>
    have hpure := respells_pure (r := r) (Ref.respell r) ref
    rwa [respell_of_constant? hconstant] at hpure
  | none => exact respells_bind (respells_name (.var v)) fun n =>
    respells_pure (Ref.respell r) (.name n)

theorem respells_variables (vs : List Variable) :
    Respells r (List.map (Ref.respell r)) (emitVariables vs)
      (emitVariables (vs.map (Variable.respell r))) := by
  induction vs with
  | nil => exact respells_pure (List.map (Ref.respell r)) []
  | cons v vs ih =>
    exact respells_bind (respells_variable v) fun ref => respells_bind ih fun refs =>
      respells_pure (List.map (Ref.respell r)) (ref :: refs)

/-- Whether there is a template does not depend on the spelling. -/
theorem mem_templates_respell (name : String) (args : Nat) :
    (r.spell name, args) ∈ Requests.templates ↔ (name, args) ∈ Requests.templates := by
  simp only [Requests.templates, List.mem_cons, Prod.mk.injEq, List.not_mem_nil, or_false,
    r.spell_eq_iff (show "append" ∈ Prelude.standard.map Entity.name by decide),
    r.spell_eq_iff (show "remove" ∈ Prelude.standard.map Entity.name by decide),
    r.spell_eq_iff (show "length" ∈ Prelude.standard.map Entity.name by decide),
    r.spell_eq_iff (show "range" ∈ Prelude.standard.map Entity.name by decide),
    r.spell_eq_iff (show "type" ∈ Prelude.standard.map Entity.name by decide)]

/-- A template is filled in with respelled arguments. -/
theorem template?_respell (name : String) (args : List Expr) :
    template? (r.spell name) (args.map (Expr.respell r)) =
      (template? name args).map (Expr.respell r) := by
  cases h : template? name args with
  | some e =>
    unfold template? at h
    split at h
    · cases h
      rw [r.spell_standard (by decide)]
      rfl
    · cases h
      rw [r.spell_standard (by decide)]
      rfl
    · cases h
      rw [r.spell_standard (by decide)]
      rfl
    · cases h
      rw [r.spell_standard (by decide)]
      rfl
    · cases h
      rw [r.spell_standard (by decide)]
      rfl
    · cases h
  | none =>
    -- Whether there is a template depends on the name and the number of arguments only.
    rw [Option.map_none, ← Option.not_isSome_iff_eq_none, isSome_template?_iff, List.length_map,
      mem_templates_respell, ← isSome_template?_iff, h]
    exact Bool.false_ne_true

/-- Putting an operand in parentheses and respelling it may be exchanged. -/
theorem operand_respell (e : Expr) : operand (e.respell r) = (operand e).respell r := by
  cases e <;> rfl

theorem map_operand_respell (args : List Expr) :
    (respellExprs r args).map operand = (args.map operand).map (Expr.respell r) := by
  rw [respellExprs_eq_map, List.map_map, List.map_map]
  refine List.map_congr_left fun e _ => ?_
  exact operand_respell e

theorem respells_call (callee : Automation) (args : List Expr) :
    Respells r (Expr.respell r) (emitCall callee args)
      (emitCall (callee.respell r) (respellExprs r args)) := by
  have hname : (callee.respell r).name = r.spell callee.name := rfl
  have hbuiltin : (callee.respell r).builtin = callee.builtin := rfl
  have hlength : (respellExprs r args).length = args.length := by
    rw [respellExprs_eq_map, List.length_map]
  unfold emitCall
  rw [hname, hbuiltin, hlength, map_operand_respell, template?_respell]
  cases callee.builtin with
  | true =>
    cases template? callee.name (args.map operand) with
    | some e => exact respells_pure (Expr.respell r) e
    | none => exact respells_throw _ (.noTemplate callee.name args.length)
  | false =>
    exact respells_bind (respells_name (.auto callee)) fun n =>
      respells_pure (Expr.respell r) (.call n args)

mutual

theorem respells_expr : ∀ e : Program.Expr,
    Respells r (Expr.respell r) (emitExpr e) (emitExpr (e.respell r))
  | .num value => respells_pure (Expr.respell r) (.num value)
  | .bool value => respells_pure (Expr.respell r) (.bool value)
  | .word contents => respells_pure (Expr.respell r) (.word contents)
  | .list elements =>
    respells_bind (respells_exprs elements) fun es => respells_pure (Expr.respell r) (.list es)
  | .var v =>
    respells_bind (respells_variable v) fun ref => respells_pure (Expr.respell r) (.ref ref)
  | .auto a =>
    respells_bind (respells_name (.auto a)) fun n =>
      respells_pure (Expr.respell r) (.ref (.name n))
  | .arith op left right =>
    respells_bind (respells_expr left) fun l => respells_bind (respells_expr right) fun r' =>
      respells_pure (Expr.respell r) (.binary (.arith op) l r')
  | .compare op left right =>
    respells_bind (respells_expr left) fun l => respells_bind (respells_expr right) fun r' =>
      respells_pure (Expr.respell r) (.binary (.compare op) l r')
  | .paren inner =>
    respells_bind (respells_expr inner) fun e => respells_pure (Expr.respell r) (.paren e)
  | .call callee args => respells_bind (respells_exprs args) fun es => respells_call callee es

theorem respells_exprs : ∀ es : List Program.Expr,
    Respells r (respellExprs r) (emitExprs es) (emitExprs (Program.respellExprs r es))
  | [] => respells_pure (respellExprs r) []
  | e :: es =>
    respells_bind (respells_expr e) fun e' => respells_bind (respells_exprs es) fun es' =>
      respells_pure (respellExprs r) (e' :: es')

end

/-- The second place is the first with another name of its automation, if there is one. -/
structure Place.Respelled (r : Respelling) (p p' : Place) : Prop where
  inLoop : p'.inLoop = p.inLoop
  automation : p'.automation = r.spell p.automation ∨ p.automation = "" ∧ p'.automation = ""

theorem Place.Respelled.loop {p p' : Place} (h : p.Respelled r p') : p.loop.Respelled r p'.loop :=
  ⟨rfl, h.automation⟩

theorem Place.respelled_body (a : Automation) :
    (Place.body a).Respelled r (.body (a.respell r)) :=
  ⟨rfl, .inl rfl⟩

/-- A `break` that leaves a respelled automation is reported with the respelled name. -/
theorem Place.Respelled.failure {p p' : Place} (h : p.Respelled r p') :
    Failure.Respelled r (.breakLeaves p.automation) (.breakLeaves p'.automation) := by
  rcases h.automation with hname | ⟨hnone, hnone'⟩
  · rw [hname]
    exact .breakLeaves p.automation
  · rw [hnone, hnone']
    exact .outside

mutual

theorem respells_stmt {p p' : Place} (h : p.Respelled r p') : ∀ s : Program.Stmt,
    Respells r (Stmt.respell r) (emitStmt p s) (emitStmt p' (s.respell r))
  | .declare v init =>
    respells_bind (respells_variable v) fun ref => respells_bind (respells_expr init) fun e =>
      respells_pure (Stmt.respell r) (.declare ref e)
  | .assign target source =>
    respells_bind (respells_variable target) fun ref =>
      respells_bind (respells_expr source) fun e => respells_pure (Stmt.respell r) (.assign ref e)
  | .change op target term =>
    respells_bind (respells_variable target) fun ref =>
      respells_bind (respells_expr term) fun e => respells_pure (Stmt.respell r) (.change op ref e)
  | .print argument =>
    respells_bind (respells_expr argument) fun e => respells_pure (Stmt.respell r) (.print e)
  | .automate a params body =>
    respells_bind (respells_name (.auto a)) fun n =>
      respells_bind (respells_variables params) fun refs =>
        respells_bind (respells_stmts (Place.respelled_body a) body) fun ss =>
          respells_pure (Stmt.respell r) (.function n refs ss)
  | .call callee args =>
    respells_bind (respells_exprs args) fun es => respells_bind (respells_call callee es) fun e =>
      respells_pure (Stmt.respell r) (.eval e)
  | .output none _ => respells_pure (Stmt.respell r) (.output none)
  | .output (some value) _ =>
    respells_bind (respells_expr value) fun e =>
      respells_pure (Stmt.respell r) (.output (some e))
  | .ifElse test body none =>
    respells_bind (respells_expr test) fun e => respells_bind (respells_stmts h body) fun ss =>
      respells_pure (Stmt.respell r) (.ifElse e ss none)
  | .ifElse test body (some alternate) =>
    respells_bind (respells_expr test) fun e => respells_bind (respells_stmts h body) fun ss =>
      respells_bind (respells_stmts h alternate) fun tt =>
        respells_pure (Stmt.respell r) (.ifElse e ss (some tt))
  | .loopWhile test body =>
    respells_bind (respells_expr test) fun e =>
      respells_bind (respells_stmts h.loop body) fun ss =>
        respells_pure (Stmt.respell r) (.loopWhile e ss)
  | .loopOver item list body =>
    respells_bind (respells_variable item) fun ref => respells_bind (respells_expr list) fun e =>
      respells_bind (respells_stmts h.loop body) fun ss =>
        respells_pure (Stmt.respell r) (.loopOver ref e ss)
  | .breakLoop => by
    change Respells r _ (emitStmt p .breakLoop) (emitStmt p' .breakLoop)
    rw [emitStmt, emitStmt, h.inLoop]
    by_cases hloop : p.inLoop = true
    · rw [if_pos hloop, if_pos hloop]
      exact respells_pure (Stmt.respell r) .breakLoop
    · rw [if_neg hloop, if_neg hloop]
      exact respells_throw _ h.failure

theorem respells_stmts {p p' : Place} (h : p.Respelled r p') : ∀ ss : List Program.Stmt,
    Respells r (respellStmts r) (emitStmts p ss) (emitStmts p' (Program.respellStmts r ss))
  | [] => respells_pure (respellStmts r) []
  | s :: ss =>
    respells_bind (respells_stmt h s) fun s' => respells_bind (respells_stmts h ss) fun ss' =>
      respells_pure (respellStmts r) (s' :: ss')

end

/-- The script of the respelled program is the respelled script; or none of them exists,
    for the same reason. -/
theorem ofProgram_respell (r : Respelling) (program : Program) :
    match ofProgram program with
    | .ok script => ofProgram (program.respell r) = .ok (respellStmts r script)
    | .error failure => ∃ failure', failure.Respelled r failure' ∧
        ofProgram (program.respell r) = .error failure' := by
  have houtside : Place.Respelled r .outside .outside := ⟨rfl, .inr ⟨rfl, rfl⟩⟩
  have hstmts := respells_stmts houtside program.stmts .empty
  have hrun : ∀ program, ofProgram program =
      Except.map Prod.fst (emitStmts .outside program.stmts .empty) := fun _ => rfl
  rw [hrun, hrun]
  cases hx : emitStmts .outside program.stmts .empty with
  | ok x =>
    obtain ⟨script, names⟩ := x
    rw [hx] at hstmts
    have hrespelled : emitStmts .outside (program.respell r).stmts .empty =
        .ok (respellStmts r script, names.respell r) := hstmts
    rw [hrespelled]
    rfl
  | error e =>
    rw [hx] at hstmts
    obtain ⟨e', he, hstmts⟩ := hstmts
    have hrespelled : emitStmts .outside (program.respell r).stmts .empty = .error e' := hstmts
    rw [hrespelled]
    exact ⟨e', he, rfl⟩

end Script

/-! ## Compiling -/

/-- Whether and how a program is compiled does not depend on how its names are spelled.
    Typing the respelled statements comes to the respelled program, which is simplified
    to the respelled simplified program by the same reductions, and has the respelled
    script: the same statements, and the same numbers at the names. Or a fault of the
    same kind is found at the same place. -/
theorem respelling_commutes (r : Respelling) (stmts : List Surface.Stmt) :
    match Typing.run Prelude.standard stmts with
    | (.ok program, journal) =>
      Typing.run Prelude.standard (Surface.respellStmts r stmts) =
          (.ok (program.respell r), Journal.respell r journal) ∧
        ∀ passes : Passes,
          ((program.respell r).simplify passes).value = (program.simplify passes).value.respell r ∧
          ((program.respell r).simplify passes).reductions =
            (program.simplify passes).reductions ∧
          match Script.ofProgram (program.simplify passes).value with
          | .ok script => Script.ofProgram ((program.respell r).simplify passes).value =
              .ok (Script.respellStmts r script)
          | .error failure => ∃ failure', failure.Respelled r failure' ∧
              Script.ofProgram ((program.respell r).simplify passes).value = .error failure'
    | (.error fault, journal) =>
      Typing.run Prelude.standard (Surface.respellStmts r stmts) =
          (.error (fault.respell r), Journal.respell r journal) ∧
        (fault.respell r).problem.kind = fault.problem.kind ∧
        (fault.respell r).span = fault.span := by
  have hrun := Typing.run_respell r stmts
  rcases hresult : Typing.run Prelude.standard stmts with ⟨result, journal⟩
  rw [hresult] at hrun
  cases result with
  | ok program =>
    refine ⟨hrun, fun passes => ?_⟩
    have hsimplify := Program.matches_simplify (r := r) passes program
    have hscript := Script.ofProgram_respell r (program.simplify passes).value
    rw [← hsimplify.value] at hscript
    exact ⟨hsimplify.value, hsimplify.reductions, hscript⟩
  | error fault => exact ⟨hrun, fault.problem.kind_respell r, rfl⟩

/-- The respelling that exchanges two names that are not standard. -/
def Respelling.exchange (x y : String) (hx : x ∉ Prelude.standard.map Entity.name)
    (hy : y ∉ Prelude.standard.map Entity.name) : Respelling where
  spell := Equiv.swap x y
  injective := (Equiv.swap x y).injective
  fixes _ he := Equiv.swap_apply_of_ne_of_ne (fun h => hx (h ▸ List.mem_map_of_mem he))
    fun h => hy (h ▸ List.mem_map_of_mem he)

/-- A variable is declared and printed. -/
def showing (x : String) : List Surface.Stmt :=
  [.declare false ⟨x, ⟨5, 6⟩⟩ (.name ⟨"true", ⟨12, 16⟩⟩) ⟨0, 17⟩,
    .print (.name ⟨x, ⟨24, 25⟩⟩) ⟨18, 26⟩]

/-- A variable is declared and printed, typed. -/
def shown (x : String) : Program :=
  ⟨[.declare ⟨9, x, false, .bool, false⟩ (.var ⟨7, "true", true, .bool, true⟩),
    .print (.var ⟨9, x, false, .bool, false⟩)]⟩

/-- Exchanging `x` and `y`, what is known about the program with `x` says what the one
    with `y` comes to. -/
theorem respelling_commutes_exchange :
    Typing.run Prelude.standard (showing "x") =
        (.ok (shown "x"), #[.bound 0 "x", .declared "x" .bool]) ∧
      (Typing.run Prelude.standard (showing "y")).1 = .ok (shown "y") ∧
      Script.ofProgram ((shown "y").simplify .all).value =
        .ok [.declare (.name ⟨"y", 1⟩) (.bool true), .print (.ref (.name ⟨"y", 1⟩))] := by
  have hx : Typing.run Prelude.standard (showing "x") =
      (.ok (shown "x"), #[.bound 0 "x", .declared "x" .bool]) := rfl
  have h := respelling_commutes (.exchange "x" "y" (by decide) (by decide)) (showing "x")
  rw [hx] at h
  exact ⟨hx, congrArg Prod.fst h.1, (h.2 .all).2.2⟩

end Toal
