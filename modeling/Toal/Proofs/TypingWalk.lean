import Toal.Proofs.Calls
import Toal.Proofs.TypingSteps

/-!
# What typing does, step by step

Typing a program is a walk: it looks names up, declares entities, hands out
serial numbers, keeps the journal, opens scopes, and raises faults, and it does
nothing else (`Walk`). What holds of these steps holds of typing as a whole.

A walk also says what comes of it. The names that it looks up stand for entities
that satisfy a condition `V`, and it declares only such entities; so the calls of
the typed program are proper and call only such automations (`walk_typeStmts`).
That holds from the start on if the entities that are visible at the start
satisfy the condition (`proper_of_run`).
-/

namespace Toal

namespace Context

variable {V : Entity → Prop} {cx : Context}

/-- All entities that are visible satisfy `V`. -/
def All (V : Entity → Prop) (cx : Context) : Prop :=
  ∀ f ∈ cx.frames, (∀ v ∈ f.vars, V (.var v)) ∧ ∀ a ∈ f.autos, V (.auto a)

/-- What is found is visible, and so satisfies the condition. -/
theorem All.of_find? (h : cx.All V) {x : String} {e : Entity} (he : cx.find? x = some e) : V e := by
  obtain ⟨f, hf, hfind⟩ := List.exists_of_findSome?_eq_some he
  obtain ⟨hvars, hautos⟩ := h f hf
  unfold Frame.find? at hfind
  split at hfind
  · next v hv =>
    cases hfind
    exact hvars v (List.mem_of_find?_eq_some hv)
  · obtain ⟨a, ha, rfl⟩ := Option.map_eq_some_iff.1 hfind
    exact hautos a (List.mem_of_find?_eq_some ha)

/-- What holds of all visible entities holds of them in an inner frame. -/
theorem All.enter (h : cx.All V) (o : Overrides) : (cx.enter o).All V := by
  intro f hf
  rcases List.mem_cons.1 hf with rfl | hf
  · exact ⟨List.forall_mem_nil _, List.forall_mem_nil _⟩
  · exact h f hf

/-- What holds of all visible entities and of a new one holds once it is visible. -/
theorem All.insert (h : cx.All V) {e : Entity} (he : V e) : (cx.insert e).All V := by
  intro f hf
  rcases List.mem_cons.1 hf with rfl | hf
  · obtain ⟨hvars, hautos⟩ := h cx.current List.mem_cons_self
    cases e with
    | var v => exact ⟨List.forall_mem_cons.2 ⟨he, hvars⟩, hautos⟩
    | auto a => exact ⟨hvars, List.forall_mem_cons.2 ⟨he, hautos⟩⟩
  · exact h f (List.mem_cons_of_mem _ hf)

theorem all_ofEntities {entities : List Entity} (h : ∀ e ∈ entities, V e) :
    (ofEntities entities).All V := by
  have hempty : Context.empty.All V := by
    intro f hf
    rw [List.mem_singleton.1 hf]
    exact ⟨List.forall_mem_nil _, List.forall_mem_nil _⟩
  have hfoldl : ∀ cx : Context, cx.All V → (entities.foldl Context.insert cx).All V := by
    induction entities with
    | nil => exact fun _ hcx => hcx
    | cons e es ih =>
      obtain ⟨he, hes⟩ := List.forall_mem_cons.1 h
      exact fun cx hcx => ih hes (cx.insert e) (hcx.insert he)
  exact hfoldl .empty hempty

end Context

namespace Typing

open Program (Proper exprsCalls stmtsCalls)

/-- The computation is put together from the steps of typing. If the visible
    entities satisfy `V`, what comes of it satisfies the last argument. -/
inductive Walk (V : Entity → Prop) : {α : Type} → Typing α → (α → Prop) → Prop
  | pure {α : Type} {Q : α → Prop} {a : α} (h : Q a) : Walk V (pure a) Q
  | bind {α β : Type} {Q : α → Prop} {R : β → Prop} {m : Typing α} {f : α → Typing β}
      (hm : Walk V m Q) (hf : ∀ a, Q a → Walk V (f a) R) : Walk V (m >>= f) R
  | raise {α : Type} {Q : α → Prop} (problem : Problem) (span : Source.Span) :
      Walk V (raise problem span : Typing α) Q
  /-- Scopes and names are put in the journal by other steps. -/
  | log {event : Event} (h : event.level = .debug) : Walk V (log event) fun _ => True
  | context : Walk V context fun _ => True
  | fresh : Walk V fresh fun _ => True
  | lookup (i : Surface.Ident) : Walk V (lookup i) V
  | declare (i : Surface.Ident) {e : Entity} (h : V e) : Walk V (declare i e) fun _ => True
  | inScope {α : Type} {Q : α → Prop} {body : Typing α} (o : Overrides) (h : Walk V body Q) :
      Walk V (inScope o body) Q

variable {α : Type} {V : Entity → Prop}

/-- Visible entities satisfy `V` also after a walk that begins where they do, and
    what comes of the walk is as it says. -/
theorem Walk.ensures {m : Typing α} {Q : α → Prop} (h : Walk V m Q) {s t : State} {a : α}
    (hs : s.context.All V) (ha : m s = .ok a t) : Q a ∧ t.context.All V := by
  induction h generalizing s t with
  | pure h =>
    obtain ⟨rfl, rfl⟩ := pure_eq_ok.1 ha
    exact ⟨h, hs⟩
  | bind hm hf ihm ihf =>
    obtain ⟨b, r, hb, ha⟩ := bind_eq_ok.1 ha
    obtain ⟨hQ, hr⟩ := ihm hs hb
    exact ihf b hQ hr ha
  | raise problem span => exact absurd ha raise_ne_ok
  | log h =>
    cases log_eq_ok.1 ha
    exact ⟨trivial, hs⟩
  | context =>
    obtain ⟨-, rfl⟩ := context_eq_ok.1 ha
    exact ⟨trivial, hs⟩
  | fresh =>
    obtain ⟨-, rfl⟩ := fresh_eq_ok.1 ha
    exact ⟨trivial, hs⟩
  | lookup i =>
    obtain ⟨hfind, rfl⟩ := lookup_eq_ok.1 ha
    exact ⟨hs.of_find? hfind, hs⟩
  | declare i he =>
    obtain ⟨-, rfl⟩ := declare_eq_ok.1 ha
    exact ⟨trivial, hs.insert he⟩
  | inScope o h ih =>
    obtain ⟨r, hr, rfl⟩ := inScope_eq_ok.1 ha
    exact ⟨(ih (hs.enter o) hr).1, hs⟩

/-! ## Steps made of steps -/

/-- A requirement holds where typing goes on. -/
theorem walk_require (condition : Bool) (problem : Problem) (span : Source.Span) :
    Walk V (require condition problem span) fun _ => condition = true := by
  cases condition with
  | true => exact .pure rfl
  | false => exact .raise problem span

/-- A demand is met where typing goes on. -/
theorem walk_demand (d : Demand) (ty : Ty) (span : Source.Span) :
    Walk V (demand d ty span) fun _ => d.allows ty = true :=
  walk_require _ _ _

theorem walk_typeNamed (i : Surface.Ident) : Walk V (typeNamed i) fun _ => True := by
  unfold typeNamed
  cases Ty.ofName? i.text with
  | none => exact .raise _ _
  | some ty => exact .pure trivial

/-- What may be assigned to is visible. -/
theorem walk_assignable (i : Surface.Ident) : Walk V (assignable i) fun v => V (.var v) := by
  refine .bind (.lookup i) fun entity h => ?_
  cases entity with
  | auto a => exact .raise _ _
  | var v => exact .bind (walk_require _ _ _) fun _ _ => .pure h

/-- What is called is visible. -/
theorem walk_callee (i : Surface.Ident) : Walk V (callee i) fun a => V (.auto a) := by
  refine .bind (.lookup i) fun entity h => ?_
  cases entity with
  | auto a => exact .pure h
  | var v => exact .raise _ _

theorem walk_checkArgs {P : Prop} (h : P) (index : Nat) (args : List (Program.Expr × Source.Span))
    (params : List Param) : Walk V (checkArgs index args params) fun _ => P := by
  fun_induction checkArgs index args params with
  | case1 index arg span args param params ih => exact .bind (walk_require _ _ _) fun _ _ => ih
  | case2 index args params => exact .pure h

/-- A call that is checked has as many arguments as there are parameters. -/
theorem walk_checkCall (a : Automation) (args : List Program.Expr) (spans : List Source.Span)
    (span : Source.Span) :
    Walk V (checkCall a args spans span) fun _ => args.length = a.params.length :=
  -- The number of arguments is checked first, and checking them one by one keeps it.
  .bind (walk_require _ _ _) fun _ h => walk_checkArgs (beq_iff_eq.1 h) _ _ _

theorem walk_enclosing (span : Source.Span) : Walk V (enclosing span) fun _ => True := by
  refine .bind .context fun cx _ => ?_
  cases cx.automation with
  | none => exact .raise _ _
  | some a => exact .pure trivial

theorem walk_outputType (output : Option Surface.Ident) :
    Walk V (outputType output) fun _ => True := by
  cases output with
  | none => exact .pure trivial
  | some i =>
    exact .bind (walk_typeNamed i) fun _ _ => .bind (walk_require _ _ _) fun _ _ => .pure trivial

theorem walk_paramType (p : Surface.Param) : Walk V (paramType p) fun _ => True := by
  unfold paramType
  cases p.ty with
  | none => exact .pure trivial
  | some i => exact .bind (walk_typeNamed i) fun _ _ => .pure trivial

theorem walk_paramTypes (ps : List Surface.Param) : Walk V (paramTypes ps) fun _ => True := by
  induction ps with
  | nil => exact .pure trivial
  | cons p ps ih => exact .bind (walk_paramType p) fun _ _ => .bind ih fun _ _ => .pure trivial

/-! ## Expressions -/

mutual

/-- Typing an expression is a walk, and the calls in what it gives are proper. -/
theorem walk_typeExpr : ∀ e : Surface.Expr, Walk V (typeExpr e) fun t => Proper V t.calls
  | .binary (.arith op) left right _ => by
    rw [typeExpr]
    exact .bind (walk_typeExpr left) fun _ hl => .bind (walk_typeExpr right) fun _ hr =>
      .bind (walk_demand _ _ _) fun _ _ => .bind (walk_demand _ _ _) fun _ _ =>
        .pure (hl.append hr)
  | .binary (.compare op) left right _ => by
    rw [typeExpr]
    exact .bind (walk_typeExpr left) fun _ hl => .bind (walk_typeExpr right) fun _ hr =>
      .bind (walk_demand _ _ _) fun _ _ => .bind (walk_demand _ _ _) fun _ _ =>
        .pure (hl.append hr)
  | .group inner _ => by
    rw [typeExpr]
    exact .bind (walk_typeExpr inner) fun _ h => .pure h
  | .number value _ => by
    rw [typeExpr]
    exact .pure .nil
  | .word contents _ => by
    rw [typeExpr]
    exact .pure .nil
  | .list elements _ => by
    rw [typeExpr]
    exact .bind (walk_typeExprs elements) fun _ h => .pure h
  | .name i => by
    rw [typeExpr]
    refine .bind (.lookup i) fun entity _ => ?_
    cases entity with
    | var v => exact .pure .nil
    | auto a => exact .pure .nil
  | .call i args span => by
    rw [typeExpr]
    exact .bind (walk_callee i) fun a ha => .bind (walk_typeExprs args) fun _ hargs =>
      .bind (walk_checkCall a _ _ span) fun _ hlength => .pure (.call ha hargs hlength)

/-- Typing expressions is a walk, and the calls in what it gives are proper. -/
theorem walk_typeExprs :
    ∀ es : List Surface.Expr, Walk V (typeExprs es) fun ts => Proper V (exprsCalls ts)
  | [] => by
    rw [typeExprs]
    exact .pure .nil
  | e :: es => by
    rw [typeExprs]
    exact .bind (walk_typeExpr e) fun _ h => .bind (walk_typeExprs es) fun _ hs =>
      .pure (h.append hs)

end

theorem walk_typeTest (e : Surface.Expr) : Walk V (typeTest e) fun t => Proper V t.calls :=
  .bind (walk_typeExpr e) fun _ h => .bind (walk_demand _ _ _) fun _ _ => .pure h

/-! ## Statements -/

/-- The condition holds of all entities that do not come with the language, and
    so of all that a program can declare. -/
def Admits (V : Entity → Prop) : Prop :=
  ∀ e : Entity, e.builtin = false → V e

theorem walk_declareVariable (hV : Admits V) (i : Surface.Ident) (readOnly : Bool) (ty : Ty) :
    Walk V (declareVariable i readOnly ty) fun _ => True :=
  .bind .fresh fun _ _ => .bind (.declare i (hV _ rfl)) fun _ _ => .pure trivial

/-- Declaring parameters is a walk. -/
theorem walk_declareParams (hV : Admits V) (ps : List (Surface.Param × Param)) :
    Walk V (declareParams ps) fun _ => True := by
  induction ps with
  | nil => exact .pure trivial
  | cons p ps ih =>
    exact .bind (walk_require _ _ _) fun _ _ => .bind (walk_declareVariable hV _ _ _) fun _ _ =>
      .bind ih fun _ _ => .pure trivial

/-- The bodies of scopes begin with declarations and go on with a block. -/
theorem walk_declarations {m : Typing α} {body : Surface.Block} (hm : Walk V m fun _ => True)
    (hbody : Walk V (typeBlock body) fun ts => Proper V (stmtsCalls ts)) :
    Walk V (do
      let a ← m
      let stmts ← typeBlock body
      return (a, stmts)) fun x => Proper V (stmtsCalls x.2) :=
  .bind hm fun _ _ => .bind hbody fun _ h => .pure h

mutual

/-- Typing a statement is a walk, and the calls in what it gives are proper. -/
theorem walk_typeStmt (hV : Admits V) :
    ∀ s : Surface.Stmt, Walk V (typeStmt s) fun t => Proper V t.calls
  | .declare readOnly name init _ => by
    rw [typeStmt]
    exact .bind (walk_typeExpr init) fun _ h => .bind (walk_require _ _ _) fun _ _ =>
      .bind (walk_declareVariable hV name readOnly _) fun _ _ => .bind (.log rfl) fun _ _ =>
        .pure h
  | .assign name value _ => by
    rw [typeStmt]
    exact .bind (walk_assignable name) fun _ _ => .bind (walk_typeExpr value) fun _ h =>
      .bind (walk_require _ _ _) fun _ _ => .pure h
  | .change op name term _ => by
    rw [typeStmt]
    exact .bind (walk_assignable name) fun _ _ => .bind (walk_demand _ _ _) fun _ _ =>
      .bind (walk_typeExpr term) fun _ h => .bind (walk_demand _ _ _) fun _ _ => .pure h
  | .print value _ => by
    rw [typeStmt]
    exact .bind (walk_typeExpr value) fun _ h => .bind (walk_require _ _ _) fun _ _ => .pure h
  | .automate name params output body _ => by
    rw [typeStmt]
    exact .bind (walk_outputType output) fun ty _ => .bind (walk_paramTypes params)
      fun signature _ => .bind .fresh fun _ _ => .bind (.declare name (hV _ rfl)) fun _ _ =>
        .bind (.log rfl) fun _ _ => .bind (.inScope _ (walk_declarations
          (walk_declareParams hV _) (walk_typeBlock hV body))) fun _ h =>
            .bind (walk_require _ _ _) fun _ _ => .pure h
  | .call i args callSpan _ => by
    rw [typeStmt]
    exact .bind (walk_callee i) fun a ha => .bind (walk_typeExprs args) fun _ hargs =>
      .bind (walk_checkCall a _ _ callSpan) fun _ hlength => .pure (.call ha hargs hlength)
  | .output none span => by
    rw [typeStmt]
    exact .bind (walk_enclosing span) fun _ _ => .bind (walk_require _ _ _) fun _ _ => .pure .nil
  | .output (some value) span => by
    rw [typeStmt]
    exact .bind (walk_enclosing span) fun _ _ => .bind (walk_typeExpr value) fun _ h =>
      .bind (walk_require _ _ _) fun _ _ => .pure h
  | .ifElse test body none _ => by
    rw [typeStmt]
    exact .bind (walk_typeTest test) fun _ ht => .bind (walk_typeBlock hV body) fun _ hb =>
      .pure (ht.append hb)
  | .ifElse test body (some alternate) _ => by
    rw [typeStmt]
    exact .bind (walk_typeTest test) fun _ ht => .bind (walk_typeBlock hV body) fun _ hb =>
      .bind (walk_typeBlock hV alternate) fun _ ha => .pure (ht.append (hb.append ha))
  | .loopWhile test body _ => by
    rw [typeStmt]
    exact .bind (walk_typeTest test) fun _ ht =>
      .bind (.inScope _ (walk_typeBlock hV body)) fun _ hb => .pure (ht.append hb)
  | .loopOver item list body _ => by
    rw [typeStmt]
    exact .bind (walk_typeExpr list) fun _ hl => .bind (walk_demand _ _ _) fun _ _ =>
      .bind (.inScope _ (walk_declarations (walk_declareVariable hV item _ _)
        (walk_typeBlock hV body))) fun _ hb => .pure (hl.append hb)
  | .breakLoop span => by
    rw [typeStmt]
    exact .bind .context fun _ _ => .bind (walk_require _ _ _) fun _ _ => .pure .nil

/-- Typing a block is a walk, and the calls in what it gives are proper. -/
theorem walk_typeBlock (hV : Admits V) :
    ∀ b : Surface.Block, Walk V (typeBlock b) fun ts => Proper V (stmtsCalls ts)
  | .mk stmts _ => by
    rw [typeBlock]
    exact walk_typeStmts hV stmts

/-- Typing statements is a walk, and the calls in what it gives are proper. -/
theorem walk_typeStmts (hV : Admits V) :
    ∀ ss : List Surface.Stmt, Walk V (typeStmts ss) fun ts => Proper V (stmtsCalls ts)
  | [] => by
    rw [typeStmts]
    exact .pure .nil
  | s :: ss => by
    rw [typeStmts]
    exact .bind (walk_typeStmt hV s) fun _ h => .bind (walk_typeStmts hV ss) fun _ hs =>
      .pure (h.append hs)

end

/-! ## Programs -/

/-- Typing a program is a walk, and the calls in what it gives are proper. -/
theorem walk_typeProgram (hV : Admits V) (stmts : List Surface.Stmt) :
    Walk V (typeProgram stmts) fun program => Proper V (stmtsCalls program.stmts) :=
  .bind (walk_typeStmts hV stmts) fun _ h => .pure h

/-- The calls of a program that is typed are proper, and the automations called
    satisfy what the entities at the start and all declared ones do. -/
theorem proper_of_run (hV : Admits V) {entities : List Entity} (hentities : ∀ e ∈ entities, V e)
    {stmts : List Surface.Stmt} {program : Program} (h : (run entities stmts).1 = .ok program) :
    Proper V (stmtsCalls program.stmts) := by
  unfold run at h
  cases hrun : typeProgram stmts (.start entities) with
  | error fault s =>
    rw [hrun] at h
    cases h
  | ok program' s =>
    rw [hrun] at h
    cases h
    exact ((walk_typeProgram hV stmts).ensures (Context.all_ofEntities hentities) hrun).1

end Typing

end Toal
