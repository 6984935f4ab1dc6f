import Toal.Proofs.Respelling
import Toal.Proofs.TypingSteps

/-!
# Typing respelled programs

Typing a program whose names have been respelled does what typing the program does, with
the names respelled, step by step: it raises a fault where the other does, and otherwise
comes to the respelled typed program (`run_respell`). Each step is a computation on a
state, and the two computations are related by what they do from a state and from the
same state respelled (`Respells`).
-/

namespace Toal.Typing

open Source
open Program (respellExprs respellStmts)

variable {α β γ δ : Type} {r : Respelling}

/-- The state with other names. -/
def State.respell (r : Respelling) (s : State) : State where
  context := s.context.respell r
  next := s.next
  journal := Journal.respell r s.journal

/-- From a respelled state, the second computation does what the first does, respelled. -/
def Respells (r : Respelling) (f : α → β) (m : Typing α) (m' : Typing β) : Prop :=
  ∀ s : State, m' (s.respell r) = match m s with
    | .ok a t => .ok (f a) (t.respell r)
    | .error e t => .error (e.respell r) (t.respell r)

/-! ## Steps -/

theorem respells_pure (f : α → β) (a : α) : Respells r f (pure a) (pure (f a)) :=
  fun _ => rfl

/-- Computations in sequence are respelled if each step is. -/
theorem respells_bind {f : α → β} {g : γ → δ} {m : Typing α} {m' : Typing β} {k : α → Typing γ}
    {k' : β → Typing δ} (hm : Respells r f m m') (hk : ∀ a, Respells r g (k a) (k' (f a))) :
    Respells r g (m >>= k) (m' >>= k') := by
  intro s
  change EStateM.bind m' k' (s.respell r) = match EStateM.bind m k s with
    | .ok a t => .ok (g a) (t.respell r)
    | .error e t => .error (e.respell r) (t.respell r)
  unfold EStateM.bind
  rw [hm s]
  cases m s with
  | ok a t => exact hk a t
  | error e t => rfl

theorem respells_log (event : Event) : Respells r id (log event) (log (event.respell r)) := by
  intro s
  change EStateM.Result.ok () ({ s.respell r with
    journal := (Journal.respell r s.journal).push (event.respell r) } : State) = _
  rw [Journal.respell, ← Array.map_push]
  rfl

theorem respells_raise (f : α → β) (problem : Problem) (span : Span) :
    Respells r f (raise problem span) (raise (problem.respell r) span) :=
  respells_bind (respells_log _) fun _ _ => rfl

theorem respells_require (condition : Bool) (problem : Problem) (span : Span) :
    Respells r id (require condition problem span)
      (require condition (problem.respell r) span) := by
  unfold require
  cases condition with
  | true => exact respells_pure id ()
  | false => exact respells_raise id problem span

/-- The context of a respelled state is the respelled context. -/
theorem respells_context : Respells r (Context.respell r) context context :=
  fun _ => rfl

/-- A respelled program uses the same serials. -/
theorem respells_fresh : Respells r id fresh fresh :=
  fun _ => rfl

/-- Looking a respelled name up gives the respelled entity, or the respelled problem. -/
theorem lookup_respell (cx : Context) (name : String) :
    (cx.respell r).lookup (r.spell name) = match cx.lookup name with
      | .ok e => .ok (e.respell r)
      | .error p => .error (p.respell r) := by
  rw [Context.lookup, Context.find?_respell, Context.lookup]
  cases cx.find? name with
  | some e => rfl
  | none => rfl

theorem respells_lookup (i : Surface.Ident) :
    Respells r (Entity.respell r) (lookup i) (lookup (i.respell r)) := by
  refine respells_bind respells_context fun cx => ?_
  have hlookup : (cx.respell r).lookup (i.respell r).text = _ := lookup_respell cx i.text
  rw [hlookup]
  cases cx.lookup i.text with
  | ok e => exact respells_pure _ e
  | error p => exact respells_raise _ p i.span

/-- Declaring a respelled name gives the respelled context, or the respelled problem. -/
theorem declare_respell (cx : Context) (name : String) (e : Entity) :
    (cx.respell r).declare (r.spell name) (e.respell r) = match cx.declare name e with
      | .ok cx' => .ok (cx'.respell r)
      | .error p => .error (p.respell r) := by
  rw [Context.declare, Context.sees_respell, Context.declare]
  cases cx.sees name with
  | true => rfl
  | false => exact congrArg Except.ok (cx.insert_respell r e).symm

theorem respells_setContext (cx : Context) :
    Respells r id (modify fun s => { s with context := cx })
      (modify fun s => { s with context := cx.respell r }) :=
  fun _ => rfl

theorem respells_declare (i : Surface.Ident) (e : Entity) :
    Respells r id (declare i e) (declare (i.respell r) (e.respell r)) := by
  refine respells_bind respells_context fun cx => ?_
  have hdeclare : (cx.respell r).declare (i.respell r).text (e.respell r) = _ :=
    declare_respell cx i.text e
  rw [hdeclare, cx.id_respell]
  cases cx.declare i.text e with
  | ok cx' => exact respells_bind (respells_log _) fun _ => respells_setContext cx'
  | error p => exact respells_raise _ p i.span

theorem respells_declareVariable (i : Surface.Ident) (readOnly : Bool) (ty : Ty) :
    Respells r (Variable.respell r) (declareVariable i readOnly ty)
      (declareVariable (i.respell r) readOnly ty) := by
  refine respells_bind respells_fresh fun serial => ?_
  have hdeclare := respells_declare (r := r) i (.var ⟨serial, i.text, readOnly, ty, false⟩)
  exact respells_bind hdeclare fun _ => respells_pure (Variable.respell r) _

/-- Entering a scope and respelling may be exchanged. -/
theorem State.entered_respell (s : State) (o : Overrides) :
    (s.entered o).respell r = (s.respell r).entered (o.respell r) := by
  have hid : ((s.context.respell r).enter (o.respell r)).id = (s.context.enter o).id := by
    rw [← Context.enter_respell, Context.id_respell]
  simp only [State.respell, State.entered, State.logged, Journal.respell, Array.map_push,
    Context.enter_respell, hid]
  rfl

/-- Leaving a scope and respelling may be exchanged. -/
theorem State.leftTo_respell (t s : State) (o : Overrides) :
    (t.leftTo s o).respell r = (t.respell r).leftTo (s.respell r) (o.respell r) := by
  have hid : ((s.context.respell r).enter (o.respell r)).id = (s.context.enter o).id := by
    rw [← Context.enter_respell, Context.id_respell]
  simp only [State.respell, State.leftTo, State.logged, Journal.respell, Array.map_push, hid]
  rfl

/-- Typing in a scope is respelled if what is done in the scope is. -/
theorem respells_inScope {f : α → β} {body : Typing α} {body' : Typing β} (o : Overrides)
    (h : Respells r f body body') :
    Respells r f (inScope o body) (inScope (o.respell r) body') := by
  intro s
  have hbody := h (s.entered o)
  rw [State.entered_respell] at hbody
  cases hx : body (s.entered o) with
  | ok a t =>
    rw [hx] at hbody
    rw [inScope_of_ok hbody, inScope_of_ok hx, ← State.leftTo_respell]
  | error e t =>
    rw [hx] at hbody
    rw [inScope_of_error hbody, inScope_of_error hx, ← State.leftTo_respell]

/-- A demand on a type does not depend on the spelling. -/
theorem respells_demand (d : Demand) (ty : Ty) (span : Span) :
    Respells r id (demand d ty span) (demand d ty span) :=
  respells_require _ _ _

/-- The names of types are not respelled. -/
theorem respells_typeNamed (i : Surface.Ident) : Respells r id (typeNamed i) (typeNamed i) := by
  unfold typeNamed
  cases Ty.ofName? i.text with
  | some ty => exact respells_pure id ty
  | none => exact respells_raise id (.unknownType i.text) i.span

/-- A respelled target may be assigned to if the target may. -/
theorem respells_assignable (i : Surface.Ident) :
    Respells r (Variable.respell r) (assignable i) (assignable (i.respell r)) := by
  refine respells_bind (respells_lookup i) fun e => ?_
  rcases e with v | a
  · have hrequire := respells_require (r := r) (!v.readOnly) (.constantChanged i.text) i.span
    exact respells_bind hrequire fun _ => respells_pure (Variable.respell r) v
  · exact respells_raise _ (.automationAssigned i.text) i.span

/-! ## Expressions -/

theorem respells_callee (i : Surface.Ident) :
    Respells r (Automation.respell r) (callee i) (callee (i.respell r)) := by
  refine respells_bind (respells_lookup i) fun e => ?_
  rcases e with v | a
  · exact respells_raise _ (.variableCalled i.text) i.span
  · exact respells_pure (Automation.respell r) a

/-- Checking the arguments of a call does not depend on the spelling. -/
theorem respells_checkArgs (index : Nat) (args : List (Program.Expr × Span)) (params : List Param) :
    Respells r id (checkArgs index args params) (checkArgs index args params) := by
  induction args generalizing index params with
  | nil => exact respells_pure id ()
  | cons arg args ih =>
    cases params with
    | nil => exact respells_pure id ()
    | cons param params =>
      exact respells_bind (respells_require _ _ _) fun _ => ih (index + 1) params

/-- What arguments are checked for are their types. -/
theorem checkArgs_congr {index : Nat} {args args' : List (Program.Expr × Span)}
    {params params' : List Param}
    (hargs : args'.map (Prod.map Program.Expr.ty id) = args.map (Prod.map Program.Expr.ty id))
    (hparams : params'.map Param.ty = params.map Param.ty) :
    checkArgs index args' params' = checkArgs index args params := by
  induction args generalizing index args' params params' with
  | nil =>
    rw [List.map_nil, List.map_eq_nil_iff] at hargs
    rw [hargs]
    rfl
  | cons arg args ih =>
    obtain ⟨arg', rest', rfl, harg, hrest⟩ := List.map_eq_cons_iff.1 hargs
    cases params with
    | nil =>
      rw [List.map_nil, List.map_eq_nil_iff] at hparams
      rw [hparams]
      rfl
    | cons param params =>
      obtain ⟨param', others', rfl, hparam, hothers⟩ := List.map_eq_cons_iff.1 hparams
      obtain ⟨e, span⟩ := arg
      obtain ⟨e', span'⟩ := arg'
      obtain ⟨hty, hspan⟩ := Prod.mk.inj harg
      dsimp only [id_eq] at hty hspan
      rw [checkArgs, checkArgs, hty, hspan, hparam, ih hrest hothers]

/-- Respelling does not change the types of expressions. -/
theorem map_ty_respellExprs (es : List Program.Expr) :
    (respellExprs r es).map Program.Expr.ty = es.map Program.Expr.ty := by
  induction es with
  | nil => rfl
  | cons e es ih => rw [respellExprs, List.map_cons, List.map_cons, e.ty_respell, ih]

theorem respells_checkCall (a : Automation) (args : List Program.Expr) (spans : List Span)
    (span : Span) :
    Respells r id (checkCall a args spans span)
      (checkCall (a.respell r) (respellExprs r args) spans span) := by
  unfold checkCall
  rw [a.length_params_respell, Program.length_respellExprs]
  refine respells_bind (respells_require _ _ _) fun _ => ?_
  have hsame : checkArgs 1 ((respellExprs r args).zip spans) (a.respell r).params =
      checkArgs 1 (args.zip spans) a.params := by
    refine checkArgs_congr ?_ (a.map_ty_params_respell r)
    rw [← List.zip_map, ← List.zip_map, map_ty_respellExprs]
  rw [hsame]
  exact respells_checkArgs 1 _ _

mutual

/-- Typing a respelled expression gives the respelled typed expression. -/
theorem respells_typeExpr : ∀ e : Surface.Expr,
    Respells r (Program.Expr.respell r) (typeExpr e) (typeExpr (e.respell r))
  | .binary (.arith op) left right _ =>
    respells_bind (respells_typeExpr left) fun l =>
      respells_bind (respells_typeExpr right) fun r' => by
        rw [l.ty_respell, r'.ty_respell, left.span_respell, right.span_respell]
        exact respells_bind (respells_demand _ _ _) fun _ =>
          respells_bind (respells_demand _ _ _) fun _ =>
            respells_pure (Program.Expr.respell r) (.arith op l r')
  | .binary (.compare op) left right _ =>
    respells_bind (respells_typeExpr left) fun l =>
      respells_bind (respells_typeExpr right) fun r' => by
        rw [l.ty_respell, r'.ty_respell, left.span_respell, right.span_respell]
        exact respells_bind (respells_demand _ _ _) fun _ =>
          respells_bind (respells_demand _ _ _) fun _ =>
            respells_pure (Program.Expr.respell r) (.compare op l r')
  | .group inner _ =>
    respells_bind (respells_typeExpr inner) fun e =>
      respells_pure (Program.Expr.respell r) (.paren e)
  | .number value _ => respells_pure (Program.Expr.respell r) (.num value)
  | .word contents _ => respells_pure (Program.Expr.respell r) (.word contents)
  | .list elements _ =>
    respells_bind (respells_typeExprs elements) fun es =>
      respells_pure (Program.Expr.respell r) (.list es)
  | .name i =>
    respells_bind (respells_lookup i) fun e => by
      rcases e with v | a
      · exact respells_pure (Program.Expr.respell r) (.var v)
      · exact respells_pure (Program.Expr.respell r) (.auto a)
  | .call i args span =>
    respells_bind (respells_callee i) fun a =>
      respells_bind (respells_typeExprs args) fun es => by
        rw [Surface.map_span_respellExprs]
        exact respells_bind (respells_checkCall a es _ span) fun _ =>
          respells_pure (Program.Expr.respell r) (.call a es)

/-- Typing respelled expressions gives the respelled typed expressions. -/
theorem respells_typeExprs : ∀ es : List Surface.Expr,
    Respells r (respellExprs r) (typeExprs es) (typeExprs (Surface.respellExprs r es))
  | [] => respells_pure (respellExprs r) []
  | e :: es =>
    respells_bind (respells_typeExpr e) fun e' =>
      respells_bind (respells_typeExprs es) fun es' => respells_pure (respellExprs r) (e' :: es')

end

theorem respells_typeTest (e : Surface.Expr) :
    Respells r (Program.Expr.respell r) (typeTest e) (typeTest (e.respell r)) :=
  respells_bind (respells_typeExpr e) fun test => by
    rw [test.ty_respell, e.span_respell]
    exact respells_bind (respells_demand _ _ _) fun _ =>
      respells_pure (Program.Expr.respell r) test

/-! ## Statements -/

theorem respells_outputType (output : Option Surface.Ident) :
    Respells r id (outputType output) (outputType output) := by
  cases output with
  | none => exact respells_pure id Ty.none
  | some i =>
    exact respells_bind (respells_typeNamed i) fun ty =>
      respells_bind (respells_require _ _ _) fun _ => respells_pure id ty

theorem respells_paramType (p : Surface.Param) :
    Respells r (Param.respell r) (paramType p) (paramType (p.respell r)) := by
  obtain ⟨name, ty⟩ := p
  cases ty with
  | none => exact respells_pure (Param.respell r) ⟨name.text, .any⟩
  | some i =>
    exact respells_bind (respells_typeNamed i) fun ty =>
      respells_pure (Param.respell r) ⟨name.text, ty⟩

theorem respells_paramTypes (ps : List Surface.Param) :
    Respells r (List.map (Param.respell r)) (paramTypes ps)
      (paramTypes (ps.map (Surface.Param.respell r))) := by
  induction ps with
  | nil => exact respells_pure (List.map (Param.respell r)) []
  | cons p ps ih =>
    exact respells_bind (respells_paramType p) fun p' => respells_bind ih fun ps' =>
      respells_pure (List.map (Param.respell r)) (p' :: ps')

theorem respells_declareParams (ps : List (Surface.Param × Param)) :
    Respells r (List.map (Variable.respell r)) (declareParams ps)
      (declareParams (ps.map (Prod.map (Surface.Param.respell r) (Param.respell r)))) := by
  induction ps with
  | nil => exact respells_pure (List.map (Variable.respell r)) []
  | cons p ps ih =>
    obtain ⟨written, p⟩ := p
    have hrequire := respells_require (r := r) (p.ty != .none) (.noneParameter p.name)
      written.name.span
    exact respells_bind hrequire fun _ =>
      respells_bind (respells_declareVariable written.name false p.ty) fun v =>
        respells_bind ih fun vs => respells_pure (List.map (Variable.respell r)) (v :: vs)

/-- The automation around a place in a respelled program. -/
theorem respells_enclosing (span : Span) :
    Respells r (Automation.respell r) (enclosing span) (enclosing span) := by
  refine respells_bind respells_context fun cx => ?_
  have hautomation : (cx.respell r).automation = cx.automation.map (Automation.respell r) := rfl
  rw [hautomation]
  cases cx.automation with
  | some a => exact respells_pure (Automation.respell r) a
  | none => exact respells_raise _ .outputOutsideAutomation span

mutual

/-- Typing a respelled statement gives the respelled typed statement. -/
theorem respells_typeStmt : ∀ s : Surface.Stmt,
    Respells r (Program.Stmt.respell r) (typeStmt s) (typeStmt (s.respell r))
  | .declare readOnly name init _ =>
    respells_bind (respells_typeExpr init) fun value => by
      rw [value.ty_respell, init.span_respell]
      exact respells_bind (respells_require _ _ _) fun _ =>
        respells_bind (respells_declareVariable name readOnly value.ty) fun v =>
          respells_bind (respells_log _) fun _ =>
            respells_pure (Program.Stmt.respell r) (.declare v value)
  | .assign name value _ =>
    respells_bind (respells_assignable name) fun target =>
      respells_bind (respells_typeExpr value) fun source => by
        rw [source.ty_respell, value.span_respell]
        exact respells_bind (respells_require _ _ _) fun _ =>
          respells_pure (Program.Stmt.respell r) (.assign target source)
  | .change op name term _ =>
    respells_bind (respells_assignable name) fun target =>
      respells_bind (respells_demand _ _ _) fun _ =>
        respells_bind (respells_typeExpr term) fun typed => by
          rw [typed.ty_respell, term.span_respell]
          exact respells_bind (respells_demand _ _ _) fun _ =>
            respells_pure (Program.Stmt.respell r) (.change op target typed)
  | .print value _ =>
    respells_bind (respells_typeExpr value) fun argument => by
      rw [argument.ty_respell, value.span_respell]
      exact respells_bind (respells_require _ _ _) fun _ =>
        respells_pure (Program.Stmt.respell r) (.print argument)
  | .automate name params output body _ =>
    respells_bind (respells_outputType output) fun ty =>
      respells_bind (respells_paramTypes params) fun signature =>
        respells_bind respells_fresh fun serial =>
          -- What is declared does not come with the language, so its parameters are respelled.
          respells_bind (respells_declare name
              (.auto ⟨serial, name.text, signature, ty, false⟩)) fun _ =>
            respells_bind (respells_log _) fun _ =>
              respells_bind (respells_body name.text serial signature ty params body)
                fun result => by
                obtain ⟨vars, stmts⟩ := result
                change Respells r _ _ (do
                  require (ty == .none || Program.anyOutput (respellStmts r stmts))
                    (.missingOutput (r.spell name.text)) name.span
                  return _)
                rw [Program.anyOutput_respell]
                exact respells_bind (respells_require _ (.missingOutput name.text) name.span)
                  fun _ => respells_pure (Program.Stmt.respell r) (.automate _ vars stmts)
  | .call i args callSpan _ =>
    respells_bind (respells_callee i) fun a =>
      respells_bind (respells_typeExprs args) fun es => by
        rw [Surface.map_span_respellExprs]
        exact respells_bind (respells_checkCall a es _ callSpan) fun _ =>
          respells_pure (Program.Stmt.respell r) (.call a es)
  | .output none span =>
    respells_bind (respells_enclosing span) fun a =>
      respells_bind (respells_require _ (.missingOutputValue a.name a.ty) span) fun _ =>
        respells_pure (Program.Stmt.respell r) (.output none .none)
  | .output (some value) span =>
    respells_bind (respells_enclosing span) fun a =>
      respells_bind (respells_typeExpr value) fun typed => by
        rw [typed.ty_respell, value.span_respell]
        exact respells_bind
          (respells_require _ (.outputMismatch a.name typed.ty a.ty) value.span) fun _ =>
            respells_pure (Program.Stmt.respell r) (.output (some typed) typed.ty)
  | .ifElse test body none _ =>
    respells_bind (respells_typeTest test) fun test' =>
      respells_bind (respells_typeBlock body) fun body' =>
        respells_pure (Program.Stmt.respell r) (.ifElse test' body' none)
  | .ifElse test body (some alternate) _ =>
    respells_bind (respells_typeTest test) fun test' =>
      respells_bind (respells_typeBlock body) fun body' =>
        respells_bind (respells_typeBlock alternate) fun alternate' =>
          respells_pure (Program.Stmt.respell r) (.ifElse test' body' (some alternate'))
  | .loopWhile test body _ =>
    respells_bind (respells_typeTest test) fun test' =>
      respells_bind (respells_inScope .loop (respells_typeBlock body)) fun body' =>
        respells_pure (Program.Stmt.respell r) (.loopWhile test' body')
  | .loopOver item list body _ =>
    respells_bind (respells_typeExpr list) fun typed => by
      rw [typed.ty_respell, list.span_respell]
      exact respells_bind (respells_demand _ _ _) fun _ =>
        respells_bind (respells_loopBody item body) fun result =>
          respells_pure (Program.Stmt.respell r) (.loopOver result.1 typed result.2)
  | .breakLoop span =>
    respells_bind respells_context fun cx =>
      respells_bind (respells_require cx.inLoop .breakOutsideLoop span) fun _ =>
        respells_pure (Program.Stmt.respell r) .breakLoop

/-- The body of an automation, with its parameters. -/
theorem respells_body (name : String) (serial : Nat) (signature : List Param) (ty : Ty)
    (params : List Surface.Param) : ∀ body : Surface.Block,
    Respells r (Prod.map (List.map (Variable.respell r)) (respellStmts r))
      (inScope (.body ⟨serial, name, signature, ty, false⟩) do
        let vars ← declareParams (params.zip signature)
        let stmts ← typeBlock body
        return (vars, stmts))
      (inScope (.body ⟨serial, r.spell name, signature.map (Param.respell r), ty, false⟩) do
        let vars ← declareParams ((params.map (Surface.Param.respell r)).zip
          (signature.map (Param.respell r)))
        let stmts ← typeBlock (body.respell r)
        return (vars, stmts))
  | .mk stmts span => by
    rw [List.zip_map]
    refine respells_inScope (.body ⟨serial, name, signature, ty, false⟩) ?_
    exact respells_bind (respells_declareParams (params.zip signature)) fun vars =>
      respells_bind (respells_typeStmts stmts) fun stmts' =>
        respells_pure (Prod.map (List.map (Variable.respell r)) (respellStmts r)) (vars, stmts')

/-- The body of a loop over a list, with the item. -/
theorem respells_loopBody (item : Surface.Ident) : ∀ body : Surface.Block,
    Respells r (Prod.map (Variable.respell r) (respellStmts r))
      (inScope .loop do
        let v ← declareVariable item false .any
        let stmts ← typeBlock body
        return (v, stmts))
      (inScope .loop do
        let v ← declareVariable (item.respell r) false .any
        let stmts ← typeBlock (body.respell r)
        return (v, stmts))
  | .mk stmts _ => respells_inScope .loop <|
    respells_bind (respells_declareVariable item false .any) fun v =>
      respells_bind (respells_typeStmts stmts) fun stmts' =>
        respells_pure (Prod.map (Variable.respell r) (respellStmts r)) (v, stmts')

/-- Typing a respelled block gives the respelled typed statements. -/
theorem respells_typeBlock : ∀ b : Surface.Block,
    Respells r (respellStmts r) (typeBlock b) (typeBlock (b.respell r))
  | .mk stmts _ => respells_typeStmts stmts

/-- Typing respelled statements gives the respelled typed statements. -/
theorem respells_typeStmts : ∀ ss : List Surface.Stmt,
    Respells r (respellStmts r) (typeStmts ss) (typeStmts (Surface.respellStmts r ss))
  | [] => respells_pure (respellStmts r) []
  | s :: ss =>
    respells_bind (respells_typeStmt s) fun s' =>
      respells_bind (respells_typeStmts ss) fun ss' => respells_pure (respellStmts r) (s' :: ss')

end

/-! ## Runs -/

/-- The state in which typing starts is not changed by respelling. -/
theorem start_respell :
    (State.start Prelude.standard).respell r = State.start Prelude.standard := by
  rw [State.respell, State.start, Context.ofEntities_respell, map_respell_standard,
    Journal.respell, Array.map_empty]

/-- Typing the respelled statements gives the respelled program, or the respelled fault,
    and the respelled journal. -/
theorem run_respell (r : Respelling) (stmts : List Surface.Stmt) :
    run Prelude.standard (Surface.respellStmts r stmts) =
      match run Prelude.standard stmts with
      | (.ok program, journal) => (.ok (program.respell r), Journal.respell r journal)
      | (.error fault, journal) => (.error (fault.respell r), Journal.respell r journal) := by
  have hprogram : Respells r (Program.respell r) (typeProgram stmts)
      (typeProgram (Surface.respellStmts r stmts)) :=
    respells_bind (respells_typeStmts stmts) fun ss => respells_pure (Program.respell r) ⟨ss⟩
  have hstart := hprogram (.start Prelude.standard)
  rw [start_respell] at hstart
  rw [run, hstart, run]
  cases typeProgram stmts (.start Prelude.standard) with
  | ok program s => rfl
  | error fault s => rfl

end Toal.Typing
