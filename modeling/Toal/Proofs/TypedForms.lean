import Toal.Proofs.TypingExact

/-!
# Typed forms

What typing makes of a program, said once and for all and without the
computation. A place of the walk is known by the context there and by the serial
number of the next declaration (`Spot`). An expression has a typed form where the
names in it are visible (`ExprForm`). A statement has one too, and it leads from
one place to the next: what it declares is visible there and has taken its serial
number (`StmtForm`).

A program that is typed has the typed form that typing gives (`stmtForms_of_run`).
Proofs about typed programs go by induction on these relations.
-/

namespace Toal

open Rules (Numeric Comparable Truth Listed OutputType)

namespace Typing

/-- A place of the walk. -/
structure Spot where
  /-- The names visible there. -/
  context : Context
  /-- The serial number of the next declaration. -/
  next : Nat

namespace Spot

/-- The place after an entity has been declared. -/
def declare (p : Spot) (e : Entity) : Spot := ⟨p.context.insert e, p.next + 1⟩

/-- The place at the start of a new scope. -/
def enter (p : Spot) (o : Overrides) : Spot := ⟨p.context.enter o, p.next⟩

/-- The place after a scope that was opened at `p` and in which the place `q` has
    been reached. -/
def leave (p q : Spot) : Spot := ⟨p.context, q.next⟩

/-- The variable that is declared next. -/
def newVariable (p : Spot) (name : String) (readOnly : Bool) (ty : Ty) : Variable :=
  ⟨p.next, name, readOnly, ty, false⟩

/-- The automation that is declared next. -/
def newAutomation (p : Spot) (name : String) (params : List Param) (ty : Ty) : Automation :=
  ⟨p.next, name, params, ty, false⟩

end Spot

/-- The place that a state stands for. -/
def State.spot (s : State) : Spot := ⟨s.context, s.next⟩

/-! ## The relations -/

mutual

/-- The expression has the typed form where the context is visible. -/
inductive ExprForm (cx : Context) : Surface.Expr → Program.Expr → Prop
  | number {value span} : ExprForm cx (.number value span) (.num value)
  | word {contents span} : ExprForm cx (.word contents span) (.word contents)
  | list {elements ts span} : ExprForms cx elements ts →
      ExprForm cx (.list elements span) (.list ts)
  | var {i v} : cx.find? i.text = some (.var v) → ExprForm cx (.name i) (.var v)
  | auto {i a} : cx.find? i.text = some (.auto a) → ExprForm cx (.name i) (.auto a)
  | group {inner t span} : ExprForm cx inner t → ExprForm cx (.group inner span) (.paren t)
  | arith {op left right l r span} : ExprForm cx left l → ExprForm cx right r →
      Numeric l.ty → Numeric r.ty →
      ExprForm cx (.binary (.arith op) left right span) (.arith op l r)
  | compare {op left right l r span} : ExprForm cx left l → ExprForm cx right r →
      Rules.Comparable l.ty → Rules.Comparable r.ty →
      ExprForm cx (.binary (.compare op) left right span) (.compare op l r)
  | call {i a args ts span} : cx.find? i.text = some (.auto a) → ExprForms cx args ts →
      List.Forall₂ Accepts a.params ts → ExprForm cx (.call i args span) (.call a ts)

/-- The expressions have the typed forms, one by one. -/
inductive ExprForms (cx : Context) : List Surface.Expr → List Program.Expr → Prop
  | nil : ExprForms cx [] []
  | cons {e es t ts} : ExprForm cx e t → ExprForms cx es ts → ExprForms cx (e :: es) (t :: ts)

end

/-- Parameters, as written and as callers see them, are declared as the variables
    on the way from one place to the other. -/
inductive ParamForms : Spot → List Surface.Param → List Param → List Variable → Spot → Prop
  | nil {p} : ParamForms p [] [] [] p
  | cons {p q x ps d ds vs} : Describes x d → d.ty ≠ .none →
      p.context.sees x.name.text = false →
      ParamForms (p.declare (.var (p.newVariable x.name.text false d.ty))) ps ds vs q →
      ParamForms p (x :: ps) (d :: ds) (p.newVariable x.name.text false d.ty :: vs) q

mutual

/-- The statement has the typed form and leads from one place to the other. -/
inductive StmtForm : Spot → Surface.Stmt → Program.Stmt → Spot → Prop
  | declare {p readOnly x init value span} : ExprForm p.context init value → value.ty ≠ .none →
      p.context.sees x.text = false →
      StmtForm p (.declare readOnly x init span)
        (.declare (p.newVariable x.text readOnly value.ty) value)
        (p.declare (.var (p.newVariable x.text readOnly value.ty)))
  | assign {p x value span v source} : p.context.find? x.text = some (.var v) →
      v.readOnly = false → ExprForm p.context value source → source.ty = v.ty →
      StmtForm p (.assign x value span) (.assign v source) p
  | change {p op x term span v t} : p.context.find? x.text = some (.var v) →
      v.readOnly = false → Numeric v.ty → ExprForm p.context term t → Numeric t.ty →
      StmtForm p (.change op x term span) (.change op v t) p
  | print {p value span argument} : ExprForm p.context value argument → argument.ty ≠ .none →
      StmtForm p (.print value span) (.print argument) p
  | automate {p f params output body span ty ds vs ts inner last} : OutputType output ty →
      p.context.sees f.text = false →
      ParamForms
        ((p.declare (.auto (p.newAutomation f.text ds ty))).enter
          (.body (p.newAutomation f.text ds ty)))
        params ds vs inner →
      StmtForms inner (Surface.Block.stmts body) ts last →
      (ty ≠ .none → Program.anyOutput ts = true) →
      StmtForm p (.automate f params output body span)
        (.automate (p.newAutomation f.text ds ty) vs ts)
        ((p.declare (.auto (p.newAutomation f.text ds ty))).leave last)
  | call {p f args callSpan span a ts} : p.context.find? f.text = some (.auto a) →
      ExprForms p.context args ts → List.Forall₂ Accepts a.params ts →
      StmtForm p (.call f args callSpan span) (.call a ts) p
  | outputNone {p span a} : p.context.automation = some a → a.ty = .none →
      StmtForm p (.output none span) (.output none .none) p
  | output {p value span a t} : p.context.automation = some a → a.ty ≠ .none →
      ExprForm p.context value t → t.ty = a.ty →
      StmtForm p (.output (some value) span) (.output (some t) t.ty) p
  | ifThen {p test body span t ts q} : ExprForm p.context test t → Truth t.ty →
      StmtForms p (Surface.Block.stmts body) ts q →
      StmtForm p (.ifElse test body none span) (.ifElse t ts none) q
  | ifElse {p test body alternate span t ts us q r} : ExprForm p.context test t → Truth t.ty →
      StmtForms p (Surface.Block.stmts body) ts q →
      StmtForms q (Surface.Block.stmts alternate) us r →
      StmtForm p (.ifElse test body (some alternate) span) (.ifElse t ts (some us)) r
  | loopWhile {p test body span t ts last} : ExprForm p.context test t → Truth t.ty →
      StmtForms (p.enter .loop) (Surface.Block.stmts body) ts last →
      StmtForm p (.loopWhile test body span) (.loopWhile t ts) (p.leave last)
  | loopOver {p x list body span t ts last} : ExprForm p.context list t → Listed t.ty →
      (p.enter .loop).context.sees x.text = false →
      StmtForms ((p.enter .loop).declare (.var (p.newVariable x.text false .any)))
        (Surface.Block.stmts body) ts last →
      StmtForm p (.loopOver x list body span)
        (.loopOver (p.newVariable x.text false .any) t ts) (p.leave last)
  | breakLoop {p span} : p.context.inLoop = true →
      StmtForm p (.breakLoop span) .breakLoop p

/-- The statements have the typed forms, and each begins where the one before it
    leads. -/
inductive StmtForms : Spot → List Surface.Stmt → List Program.Stmt → Spot → Prop
  | nil {p} : StmtForms p [] [] p
  | cons {p q r s ss t ts} : StmtForm p s t q → StmtForms q ss ts r →
      StmtForms p (s :: ss) (t :: ts) r

end

/-! ## Typing gives typed forms -/

/-- There are as many typed expressions as there were. -/
theorem ExprForms.length_eq {cx : Context} {es : List Surface.Expr} {ts : List Program.Expr}
    (h : ExprForms cx es ts) : es.length = ts.length := by
  induction es generalizing ts with
  | nil =>
    cases h
    rfl
  | cons e es ih =>
    cases h with
    | cons _ hs => rw [List.length_cons, List.length_cons, ih hs]

mutual

/-- Typing an expression gives a typed form of it and leaves the state as it is. -/
theorem exprForm_of_typeExpr : ∀ (e : Surface.Expr) {s r : State} {t : Program.Expr},
    typeExpr e s = .ok t r → s = r ∧ ExprForm s.context e t
  | .number value span, s, r, t, ht => by
    simp only [typeExpr, pure_eq_ok] at ht
    obtain ⟨rfl, rfl⟩ := ht
    exact ⟨rfl, .number⟩
  | .word contents span, s, r, t, ht => by
    simp only [typeExpr, pure_eq_ok] at ht
    obtain ⟨rfl, rfl⟩ := ht
    exact ⟨rfl, .word⟩
  | .list elements span, s, r, t, ht => by
    simp only [typeExpr, bind_eq_ok, pure_eq_ok] at ht
    obtain ⟨ts, _, hts, rfl, rfl⟩ := ht
    obtain ⟨rfl, hs⟩ := exprForms_of_typeExprs elements hts
    exact ⟨rfl, .list hs⟩
  | .name i, s, r, t, ht => by
    simp only [typeExpr, bind_eq_ok, lookup_eq_ok] at ht
    obtain ⟨e, _, ⟨he, rfl⟩, ht⟩ := ht
    cases e with
    | var v =>
      obtain ⟨rfl, rfl⟩ := pure_eq_ok.1 ht
      exact ⟨rfl, .var he⟩
    | auto a =>
      obtain ⟨rfl, rfl⟩ := pure_eq_ok.1 ht
      exact ⟨rfl, .auto he⟩
  | .group inner span, s, r, t, ht => by
    simp only [typeExpr, bind_eq_ok, pure_eq_ok] at ht
    obtain ⟨t', _, ht', rfl, rfl⟩ := ht
    obtain ⟨rfl, hinner⟩ := exprForm_of_typeExpr inner ht'
    exact ⟨rfl, .group hinner⟩
  | .binary (.arith op) left right span, s, r, t, ht => by
    simp only [typeExpr, bind_eq_ok, demand_eq_ok, pure_eq_ok, allows_numeric_iff] at ht
    obtain ⟨l, _, hl, x, _, hx, _, _, ⟨hnl, rfl⟩, _, _, ⟨hnr, rfl⟩, rfl, rfl⟩ := ht
    obtain ⟨rfl, hleft⟩ := exprForm_of_typeExpr left hl
    obtain ⟨rfl, hright⟩ := exprForm_of_typeExpr right hx
    exact ⟨rfl, .arith hleft hright hnl hnr⟩
  | .binary (.compare op) left right span, s, r, t, ht => by
    simp only [typeExpr, bind_eq_ok, demand_eq_ok, pure_eq_ok, allows_numericOrWord_iff] at ht
    obtain ⟨l, _, hl, x, _, hx, _, _, ⟨hnl, rfl⟩, _, _, ⟨hnr, rfl⟩, rfl, rfl⟩ := ht
    obtain ⟨rfl, hleft⟩ := exprForm_of_typeExpr left hl
    obtain ⟨rfl, hright⟩ := exprForm_of_typeExpr right hx
    exact ⟨rfl, .compare hleft hright hnl hnr⟩
  | .call i args span, s, r, t, ht => by
    simp only [typeExpr, bind_eq_ok, callee_eq_ok, pure_eq_ok] at ht
    obtain ⟨a, _, ⟨ha, rfl⟩, ts, _, hts, _, _, hcheck, rfl, rfl⟩ := ht
    obtain ⟨rfl, hs⟩ := exprForms_of_typeExprs args hts
    obtain ⟨hall, rfl⟩ := (checkCall_eq_ok ((List.length_map _).trans hs.length_eq)).1 hcheck
    exact ⟨rfl, .call ha hs hall⟩

/-- Typing expressions gives typed forms of them and leaves the state as it is. -/
theorem exprForms_of_typeExprs :
    ∀ (es : List Surface.Expr) {s r : State} {ts : List Program.Expr},
      typeExprs es s = .ok ts r → s = r ∧ ExprForms s.context es ts
  | [], s, r, ts, hts => by
    simp only [typeExprs, pure_eq_ok] at hts
    obtain ⟨rfl, rfl⟩ := hts
    exact ⟨rfl, .nil⟩
  | e :: es, s, r, ts, hts => by
    simp only [typeExprs, bind_eq_ok, pure_eq_ok] at hts
    obtain ⟨t, _, ht, ts', _, hts', rfl, rfl⟩ := hts
    obtain ⟨rfl, he⟩ := exprForm_of_typeExpr e ht
    obtain ⟨rfl, hes⟩ := exprForms_of_typeExprs es hts'
    exact ⟨rfl, .cons he hes⟩

end

/-- Typing a test gives a typed form of it that may be true. -/
theorem exprForm_of_typeTest {e : Surface.Expr} {s r : State} {t : Program.Expr}
    (ht : typeTest e s = .ok t r) : s = r ∧ ExprForm s.context e t ∧ Truth t.ty := by
  simp only [typeTest, bind_eq_ok, demand_eq_ok, pure_eq_ok, allows_truth_iff] at ht
  obtain ⟨t', _, ht, _, _, ⟨htruth, rfl⟩, rfl, rfl⟩ := ht
  obtain ⟨rfl, he⟩ := exprForm_of_typeExpr e ht
  exact ⟨rfl, he, htruth⟩

/-- Declaring parameters gives typed forms of them. -/
theorem paramForms_of_declareParams {ps : List Surface.Param} {ds : List Param}
    {vs : List Variable} {s r : State} (hds : List.Forall₂ Describes ps ds)
    (hvs : declareParams (ps.zip ds) s = .ok vs r) : ParamForms s.spot ps ds vs r.spot := by
  induction hds generalizing s vs with
  | nil =>
    simp only [List.zip_nil_left, declareParams, pure_eq_ok] at hvs
    obtain ⟨rfl, rfl⟩ := hvs
    exact .nil
  | cons hhead _ ih =>
    simp only [List.zip_cons_cons, declareParams, bind_eq_ok, require_eq_ok, pure_eq_ok,
      declareVariable_eq_ok, bne_iff_ne] at hvs
    obtain ⟨_, _, ⟨hnone, rfl⟩, v, _, ⟨hsees, rfl, rfl⟩, vs', _, hvs', rfl, rfl⟩ := hvs
    exact .cons (p := s.spot) hhead hnone hsees (ih hvs')

mutual

/-- Typing a statement gives a typed form of it. -/
theorem stmtForm_of_typeStmt : ∀ (st : Surface.Stmt) {s r : State} {t : Program.Stmt},
    typeStmt st s = .ok t r → StmtForm s.spot st t r.spot
  | .declare readOnly x init span, s, r, t, ht => by
    simp only [typeStmt, bind_eq_ok, require_eq_ok, declareVariable_eq_ok, log_eq_ok, pure_eq_ok,
      bne_iff_ne] at ht
    obtain ⟨e, _, he, _, _, ⟨hnone, rfl⟩, v, _, ⟨hsees, rfl, rfl⟩, _, _, rfl, rfl, rfl⟩ := ht
    obtain ⟨rfl, hinit⟩ := exprForm_of_typeExpr init he
    exact .declare (p := s.spot) hinit hnone hsees
  | .assign x value span, s, r, t, ht => by
    simp only [typeStmt, bind_eq_ok, assignable_eq_ok, require_eq_ok, pure_eq_ok, beq_iff_eq] at ht
    obtain ⟨v, _, ⟨hfind, hv, rfl⟩, e, _, he, _, _, ⟨hty, rfl⟩, rfl, rfl⟩ := ht
    obtain ⟨rfl, hvalue⟩ := exprForm_of_typeExpr value he
    exact .assign (p := s.spot) hfind hv hvalue hty
  | .change op x term span, s, r, t, ht => by
    simp only [typeStmt, bind_eq_ok, assignable_eq_ok, demand_eq_ok, pure_eq_ok,
      allows_numeric_iff] at ht
    obtain ⟨v, _, ⟨hfind, hv, rfl⟩, _, _, ⟨hnum, rfl⟩, e, _, he, _, _, ⟨hterm, rfl⟩, rfl, rfl⟩ := ht
    obtain ⟨rfl, hvalue⟩ := exprForm_of_typeExpr term he
    exact .change (p := s.spot) hfind hv hnum hvalue hterm
  | .print value span, s, r, t, ht => by
    simp only [typeStmt, bind_eq_ok, require_eq_ok, pure_eq_ok, bne_iff_ne] at ht
    obtain ⟨e, _, he, _, _, ⟨hnone, rfl⟩, rfl, rfl⟩ := ht
    obtain ⟨rfl, hvalue⟩ := exprForm_of_typeExpr value he
    exact .print (p := s.spot) hvalue hnone
  | .automate f params output body span, s, r, t, ht => by
    simp only [typeStmt, bind_eq_ok, outputType_eq_ok, paramTypes_eq_ok, fresh_eq_ok,
      declare_eq_ok, log_eq_ok, inScope_eq_ok, require_eq_ok, pure_eq_ok, Bool.or_eq_true,
      beq_iff_eq] at ht
    obtain ⟨τ, _, ⟨houtput, rfl⟩, ds, _, ⟨hds, rfl⟩, _, _, ⟨rfl, rfl⟩, _, _, ⟨hsees, rfl⟩, _, _,
      rfl, ⟨vs, ts⟩, _, ⟨_, ⟨vs', _, hvs, ts', _, hts, heq, rfl⟩, rfl⟩, _, _, ⟨hout, rfl⟩, rfl,
      rfl⟩ := ht
    obtain ⟨rfl, rfl⟩ := Prod.mk.inj heq
    exact .automate (p := s.spot) houtput hsees (paramForms_of_declareParams hds hvs)
      (stmtForms_of_typeBlock body hts) hout.resolve_left
  | .call f args callSpan span, s, r, t, ht => by
    simp only [typeStmt, bind_eq_ok, callee_eq_ok, pure_eq_ok] at ht
    obtain ⟨a, _, ⟨ha, rfl⟩, ts, _, hts, _, _, hcheck, rfl, rfl⟩ := ht
    obtain ⟨rfl, hs⟩ := exprForms_of_typeExprs args hts
    obtain ⟨hall, rfl⟩ := (checkCall_eq_ok ((List.length_map _).trans hs.length_eq)).1 hcheck
    exact .call (p := s.spot) ha hs hall
  | .output none span, s, r, t, ht => by
    simp only [typeStmt, bind_eq_ok, enclosing_eq_ok, require_eq_ok, pure_eq_ok, beq_iff_eq] at ht
    obtain ⟨a, _, ⟨ha, rfl⟩, _, _, ⟨hty, rfl⟩, rfl, rfl⟩ := ht
    exact .outputNone (p := s.spot) ha hty
  | .output (some value) span, s, r, t, ht => by
    simp only [typeStmt, bind_eq_ok, enclosing_eq_ok, require_eq_ok, pure_eq_ok,
      Bool.and_eq_true, beq_iff_eq, bne_iff_ne] at ht
    obtain ⟨a, _, ⟨ha, rfl⟩, e, _, he, _, _, ⟨⟨hnone, hty⟩, rfl⟩, rfl, rfl⟩ := ht
    obtain ⟨rfl, hvalue⟩ := exprForm_of_typeExpr value he
    exact .output (p := s.spot) ha hnone hvalue hty
  | .ifElse test body none span, s, r, t, ht => by
    simp only [typeStmt, bind_eq_ok, pure_eq_ok] at ht
    obtain ⟨e, _, he, ts, _, hts, rfl, rfl⟩ := ht
    obtain ⟨rfl, htest, htruth⟩ := exprForm_of_typeTest he
    exact .ifThen (p := s.spot) htest htruth (stmtForms_of_typeBlock body hts)
  | .ifElse test body (some alternate) span, s, r, t, ht => by
    simp only [typeStmt, bind_eq_ok, pure_eq_ok] at ht
    obtain ⟨e, _, he, ts, _, hts, us, _, hus, rfl, rfl⟩ := ht
    obtain ⟨rfl, htest, htruth⟩ := exprForm_of_typeTest he
    exact .ifElse (p := s.spot) htest htruth (stmtForms_of_typeBlock body hts)
      (stmtForms_of_typeBlock alternate hus)
  | .loopWhile test body span, s, r, t, ht => by
    simp only [typeStmt, bind_eq_ok, inScope_eq_ok, pure_eq_ok] at ht
    obtain ⟨e, _, he, ts, _, ⟨_, hts, rfl⟩, rfl, rfl⟩ := ht
    obtain ⟨rfl, htest, htruth⟩ := exprForm_of_typeTest he
    exact .loopWhile (p := s.spot) htest htruth (stmtForms_of_typeBlock body hts)
  | .loopOver x list body span, s, r, t, ht => by
    simp only [typeStmt, bind_eq_ok, demand_eq_ok, inScope_eq_ok, declareVariable_eq_ok,
      pure_eq_ok, allows_list_iff] at ht
    obtain ⟨e, _, he, _, _, ⟨hlist, rfl⟩, ⟨v, ts⟩, _,
      ⟨_, ⟨_, _, ⟨hsees, rfl, rfl⟩, ts', _, hts, heq, rfl⟩, rfl⟩, rfl, rfl⟩ := ht
    obtain ⟨rfl, hexpr⟩ := exprForm_of_typeExpr list he
    obtain ⟨rfl, rfl⟩ := Prod.mk.inj heq
    exact .loopOver (p := s.spot) hexpr hlist hsees (stmtForms_of_typeBlock body hts)
  | .breakLoop span, s, r, t, ht => by
    simp only [typeStmt, bind_eq_ok, context_eq_ok, require_eq_ok, pure_eq_ok] at ht
    obtain ⟨_, _, ⟨rfl, rfl⟩, _, _, ⟨hloop, rfl⟩, rfl, rfl⟩ := ht
    exact .breakLoop (p := s.spot) hloop

/-- Typing a block gives typed forms of its statements. -/
theorem stmtForms_of_typeBlock : ∀ (b : Surface.Block) {s r : State} {ts : List Program.Stmt},
    typeBlock b s = .ok ts r → StmtForms s.spot b.stmts ts r.spot
  | .mk stmts _, s, r, ts, hts => by
    rw [typeBlock] at hts
    exact stmtForms_of_typeStmts stmts hts

/-- Typing statements gives typed forms of them. -/
theorem stmtForms_of_typeStmts :
    ∀ (ss : List Surface.Stmt) {s r : State} {ts : List Program.Stmt},
      typeStmts ss s = .ok ts r → StmtForms s.spot ss ts r.spot
  | [], s, r, ts, hts => by
    simp only [typeStmts, pure_eq_ok] at hts
    obtain ⟨rfl, rfl⟩ := hts
    exact .nil
  | st :: ss, s, r, ts, hts => by
    simp only [typeStmts, bind_eq_ok, pure_eq_ok] at hts
    obtain ⟨t, _, ht, ts', _, hts', rfl, rfl⟩ := hts
    exact .cons (stmtForm_of_typeStmt st ht) (stmtForms_of_typeStmts ss hts')

end

/-- The place at the start of a program. -/
def Spot.start (entities : List Entity) : Spot := (State.start entities).spot

/-- A program that is typed has the typed form that typing gives. -/
theorem stmtForms_of_run {entities : List Entity} {stmts : List Surface.Stmt} {program : Program}
    (h : (run entities stmts).1 = .ok program) :
    ∃ last, StmtForms (.start entities) stmts program.stmts last := by
  unfold run at h
  cases hrun : typeProgram stmts (.start entities) with
  | error fault s =>
    rw [hrun] at h
    cases h
  | ok program' s =>
    rw [hrun] at h
    cases h
    obtain ⟨ts, r, hts, hpure⟩ := bind_eq_ok.1 hrun
    obtain ⟨rfl, rfl⟩ := pure_eq_ok.1 hpure
    exact ⟨_, stmtForms_of_typeStmts stmts hts⟩

end Typing

end Toal
