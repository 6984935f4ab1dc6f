import Toal.Proofs.Extents

/-!
# Where faults are found

A fault says which part of the program is to blame for it. The scanner blames the
characters it was reading and the parser the token it came to, or the end of the text.
Typing blames a node of the tree: a name, an expression or a statement
(`Typing.blames_typeStmts`). All of these are slices of the text (`isSlice_of_compile`), so a
fault loses nothing when its span is brought onto boundaries.
-/

namespace Toal

open Source

/-! ## Nodes of a tree -/

namespace Surface.Node

/-- The spans of the node and of all nodes in it satisfy `P`. -/
def Marks (P : Span → Prop) (n : Node) : Prop :=
  ∀ m, Under [n] m → P m.span

variable {P : Span → Prop} {n m : Node}

theorem Marks.self (h : n.Marks P) : P n.span := h n (.top List.mem_cons_self)

/-- What marks a node marks the nodes within it. -/
theorem Marks.child (h : n.Marks P) (hm : m ∈ n.children) : m.Marks P :=
  fun k hk => h k (hk.trans (List.forall_mem_singleton.2 (.child (.top List.mem_cons_self) hm)))

end Surface.Node

/-! ## Typing -/

namespace Typing

open Surface (Node)

variable {α β : Type} {P : Span → Prop}

/-- Each fault that the computation can raise has a span, which satisfies `P`. -/
def Blames (P : Span → Prop) (m : Typing α) : Prop :=
  ∀ s fault t, m s = .error fault t → ∃ span, fault.span = some span ∧ P span

namespace Blames

variable {m : Typing α} {f : α → Typing β}

theorem pure (a : α) : Blames P (pure a : Typing α) :=
  fun _ _ _ h => by cases h

/-- A raised fault blames the place that it is raised with. -/
theorem raise (problem : Problem) {span : Span} (h : P span) :
    Blames P (raise problem span : Typing α) := by
  intro s fault t hraise
  cases hraise
  exact ⟨span, rfl, h⟩

theorem log (event : Event) : Blames P (log event) :=
  fun _ _ _ h => by cases h

theorem context : Blames P context :=
  fun _ _ _ h => by cases h

theorem fresh : Blames P fresh :=
  fun _ _ _ h => by cases h

/-- One computation after the other blames what the two blame. -/
theorem bind (hm : Blames P m) (hf : ∀ a, Blames P (f a)) : Blames P (m >>= f) := by
  intro s fault t h
  cases hs : m s with
  | error fault' r =>
    rw [bind_of_error hs] at h
    cases h
    exact hm s fault t hs
  | ok a r =>
    rw [bind_of_ok hs] at h
    exact hf a r fault t h

/-- In a scope of its own, a computation blames what it blames without one. -/
theorem inScope (o : Overrides) (hm : Blames P m) : Blames P (inScope o m) := by
  intro s fault t h
  cases hs : m (s.entered o) with
  | error fault' r =>
    rw [inScope_of_error hs] at h
    cases h
    exact hm _ _ _ hs
  | ok a r =>
    rw [inScope_of_ok hs] at h
    cases h

end Blames

section Steps

variable {i : Surface.Ident} {span : Span}

/-- A condition that is not met is blamed on the given place. -/
theorem blames_require (condition : Bool) (problem : Problem) (h : P span) :
    Blames P (require condition problem span) := by
  cases condition with
  | true => exact .pure ()
  | false => exact .raise problem h

theorem blames_demand (d : Demand) (ty : Ty) (h : P span) : Blames P (demand d ty span) :=
  blames_require _ _ h

/-- A name that is not visible is blamed on itself. -/
theorem blames_lookup (h : P i.span) : Blames P (lookup i) := by
  refine .bind .context fun cx => ?_
  cases cx.lookup i.text with
  | ok entity => exact .pure entity
  | error problem => exact .raise problem h

/-- A name that is taken is blamed on the name that is to be declared. -/
theorem blames_declare (e : Entity) (h : P i.span) : Blames P (declare i e) := by
  refine .bind .context fun cx => ?_
  cases cx.declare i.text e with
  | ok cx' => exact .bind (.log _) fun _ _ _ _ h => by cases h
  | error problem => exact .raise problem h

theorem blames_declareVariable (readOnly : Bool) (ty : Ty) (h : P i.span) :
    Blames P (declareVariable i readOnly ty) :=
  .bind .fresh fun _ => .bind (blames_declare _ h) fun _ => .pure _

/-- A type that there is not is blamed on its name. -/
theorem blames_typeNamed (h : P i.span) : Blames P (typeNamed i) := by
  unfold typeNamed
  cases Ty.ofName? i.text with
  | none => exact .raise _ h
  | some ty => exact .pure ty

/-- A target that cannot be assigned to is blamed on its name. -/
theorem blames_assignable (h : P i.span) : Blames P (assignable i) := by
  refine .bind (blames_lookup h) fun entity => ?_
  cases entity with
  | auto a => exact .raise _ h
  | var v => exact .bind (blames_require _ _ h) fun _ => .pure v

theorem blames_callee (h : P i.span) : Blames P (callee i) := by
  refine .bind (blames_lookup h) fun entity => ?_
  cases entity with
  | auto a => exact .pure a
  | var v => exact .raise _ h

/-- An argument of the wrong type is blamed on that argument. -/
theorem blames_checkArgs (index : Nat) (args : List (Program.Expr × Span)) (params : List Param)
    (h : ∀ arg ∈ args, P arg.2) : Blames P (checkArgs index args params) := by
  fun_induction checkArgs index args params with
  | case1 index arg span args param params ih =>
    obtain ⟨hspan, hargs⟩ := List.forall_mem_cons.1 h
    exact .bind (blames_require _ _ hspan) fun _ => ih hargs
  | case2 index args params => exact .pure ()

/-- A call is blamed on one of its arguments, or else on the call as a whole. -/
theorem blames_checkCall (a : Automation) (args : List Program.Expr) {spans : List Span}
    (hspans : ∀ s ∈ spans, P s) (h : P span) : Blames P (checkCall a args spans span) :=
  .bind (blames_require _ _ h) fun _ => blames_checkArgs 1 _ _ fun _ harg =>
    hspans _ (List.of_mem_zip harg).2

theorem blames_enclosing (h : P span) : Blames P (enclosing span) := by
  refine .bind .context fun cx => ?_
  cases cx.automation with
  | none => exact .raise _ h
  | some a => exact .pure a

/-- An output type is blamed on its name. -/
theorem blames_outputType {output : Option Surface.Ident}
    (h : ∀ i ∈ output, P i.span) : Blames P (outputType output) := by
  cases output with
  | none => exact .pure _
  | some i =>
    have hi := h i rfl
    exact .bind (blames_typeNamed hi) fun _ => .bind (blames_require _ _ hi) fun _ => .pure _

end Steps

/-! ## Parameters -/

/-- The nodes of the parameters satisfy `P`. -/
def MarksParams (P : Span → Prop) (params : List Surface.Param) : Prop :=
  ∀ n ∈ params.flatMap Surface.Param.children, P n.span

/-- A parameter is marked at its name and at the name of its type. -/
theorem MarksParams.head {p : Surface.Param} {ps : List Surface.Param}
    (h : MarksParams P (p :: ps)) : P p.name.span ∧ ∀ i ∈ p.ty, P i.span := by
  have hmem : ∀ n ∈ p.children, P n.span := fun n hn =>
    h n (List.mem_flatMap.2 ⟨p, List.mem_cons_self, hn⟩)
  constructor
  · exact hmem (.name p.name) (List.mem_map_of_mem (List.mem_append_right _ List.mem_cons_self))
  · intro i hi
    exact hmem (.name i)
      (List.mem_map_of_mem (List.mem_append_left _ (Option.mem_toList.2 hi)))

theorem MarksParams.tail {p : Surface.Param} {ps : List Surface.Param}
    (h : MarksParams P (p :: ps)) : MarksParams P ps :=
  fun n hn => h n (List.mem_append_right _ hn)

theorem blames_paramType {p : Surface.Param} (h : ∀ i ∈ p.ty, P i.span) :
    Blames P (paramType p) := by
  unfold paramType
  cases hty : p.ty with
  | none => exact .pure _
  | some i => exact .bind (blames_typeNamed (h i hty)) fun _ => .pure _

/-- The types of parameters are blamed on the names of types. -/
theorem blames_paramTypes {ps : List Surface.Param} (h : MarksParams P ps) :
    Blames P (paramTypes ps) := by
  induction ps with
  | nil => exact .pure _
  | cons p ps ih =>
    exact .bind (blames_paramType h.head.2) fun _ => .bind (ih h.tail) fun _ => .pure _

/-- Declaring parameters blames their names. -/
theorem blames_declareParams {ps : List Surface.Param} (h : MarksParams P ps)
    (signature : List Param) : Blames P (declareParams (ps.zip signature)) := by
  induction ps generalizing signature with
  | nil => exact .pure _
  | cons p ps ih =>
    cases signature with
    | nil => exact .pure _
    | cons q qs =>
      exact .bind (blames_require _ _ h.head.1) fun _ =>
        .bind (blames_declareVariable _ _ h.head.1) fun _ => .bind (ih h.tail qs) fun _ => .pure _

/-! ## Expressions -/

mutual

/-- Typing an expression blames a node of it. -/
theorem blames_typeExpr : ∀ e : Surface.Expr, (Node.expr e).Marks P → Blames P (typeExpr e)
  | .binary (.arith op) left right _, h => by
    have hleft : (Node.expr left).Marks P := h.child List.mem_cons_self
    have hright : (Node.expr right).Marks P := h.child (.tail _ List.mem_cons_self)
    rw [typeExpr]
    exact .bind (blames_typeExpr left hleft) fun _ => .bind (blames_typeExpr right hright) fun _ =>
      .bind (blames_demand _ _ hleft.self) fun _ => .bind (blames_demand _ _ hright.self) fun _ =>
        .pure _
  | .binary (.compare op) left right _, h => by
    have hleft : (Node.expr left).Marks P := h.child List.mem_cons_self
    have hright : (Node.expr right).Marks P := h.child (.tail _ List.mem_cons_self)
    rw [typeExpr]
    exact .bind (blames_typeExpr left hleft) fun _ => .bind (blames_typeExpr right hright) fun _ =>
      .bind (blames_demand _ _ hleft.self) fun _ => .bind (blames_demand _ _ hright.self) fun _ =>
        .pure _
  | .group inner _, h => by
    rw [typeExpr]
    exact .bind (blames_typeExpr inner (h.child List.mem_cons_self)) fun _ => .pure _
  | .number value _, _ => by
    rw [typeExpr]
    exact .pure _
  | .word contents _, _ => by
    rw [typeExpr]
    exact .pure _
  | .list elements _, h => by
    rw [typeExpr]
    exact .bind (blames_typeExprs elements fun e he => h.child (List.mem_map_of_mem he)) fun _ =>
      .pure _
  | .name i, h => by
    rw [typeExpr]
    refine .bind (blames_lookup h.self) fun entity => ?_
    cases entity with
    | var v => exact .pure _
    | auto a => exact .pure _
  | .call i args span, h => by
    have hargs : ∀ e ∈ args, (Node.expr e).Marks P := fun e he =>
      h.child (.tail _ (List.mem_map_of_mem he))
    have hcallee : (Node.name i).Marks P := h.child List.mem_cons_self
    rw [typeExpr]
    exact .bind (blames_callee hcallee.self) fun a => .bind (blames_typeExprs args hargs) fun _ =>
      .bind (blames_checkCall a _ (List.forall_mem_map.2 fun e he => (hargs e he).self) h.self)
        fun _ => .pure _

/-- Typing expressions blames a node of one of them. -/
theorem blames_typeExprs : ∀ es : List Surface.Expr, (∀ e ∈ es, (Node.expr e).Marks P) →
    Blames P (typeExprs es)
  | [], _ => by
    rw [typeExprs]
    exact .pure _
  | e :: es, h => by
    obtain ⟨he, hes⟩ := List.forall_mem_cons.1 h
    rw [typeExprs]
    exact .bind (blames_typeExpr e he) fun _ => .bind (blames_typeExprs es hes) fun _ => .pure _

end

theorem blames_typeTest {e : Surface.Expr} (h : (Node.expr e).Marks P) : Blames P (typeTest e) :=
  .bind (blames_typeExpr e h) fun _ => .bind (blames_demand _ _ h.self) fun _ => .pure _

/-! ## Statements -/

mutual

/-- Typing a statement blames a node of it. -/
theorem blames_typeStmt : ∀ s : Surface.Stmt, (Node.stmt s).Marks P → Blames P (typeStmt s)
  | .declare readOnly name init _, h => by
    have hname : (Node.name name).Marks P := h.child List.mem_cons_self
    have hinit : (Node.expr init).Marks P := h.child (.tail _ List.mem_cons_self)
    rw [typeStmt]
    exact .bind (blames_typeExpr init hinit) fun _ => .bind (blames_require _ _ hinit.self) fun _ =>
      .bind (blames_declareVariable readOnly _ hname.self) fun _ => .bind (.log _) fun _ => .pure _
  | .assign name value _, h => by
    have hname : (Node.name name).Marks P := h.child List.mem_cons_self
    have hvalue : (Node.expr value).Marks P := h.child (.tail _ List.mem_cons_self)
    rw [typeStmt]
    exact .bind (blames_assignable hname.self) fun _ =>
      .bind (blames_typeExpr value hvalue) fun _ =>
      .bind (blames_require _ _ hvalue.self) fun _ => .pure _
  | .change op name term _, h => by
    -- Whichever of the two is written first, both are parts of the statement.
    have hname : (Node.name name).Marks P := by
      cases op with
      | add | sub => exact h.child (.tail _ List.mem_cons_self)
      | _ => exact h.child List.mem_cons_self
    have hterm : (Node.expr term).Marks P := by
      cases op with
      | add | sub => exact h.child List.mem_cons_self
      | _ => exact h.child (.tail _ List.mem_cons_self)
    rw [typeStmt]
    exact .bind (blames_assignable hname.self) fun _ =>
      .bind (blames_demand _ _ hname.self) fun _ =>
      .bind (blames_typeExpr term hterm) fun _ => .bind (blames_demand _ _ hterm.self) fun _ =>
        .pure _
  | .print value _, h => by
    have hvalue : (Node.expr value).Marks P := h.child List.mem_cons_self
    rw [typeStmt]
    exact .bind (blames_typeExpr value hvalue) fun _ => .bind (blames_require _ _ hvalue.self)
      fun _ => .pure _
  | .automate name params output body _, h => by
    have hname : (Node.name name).Marks P := h.child List.mem_cons_self
    have hparams : MarksParams P params := fun n hn =>
      (h.child (.tail _ (List.mem_append_left _ hn))).self
    have houtput : ∀ i ∈ output, P i.span := fun i hi =>
      (h.child (m := .name i) (.tail _ (List.mem_append_right _ (List.mem_append_left _
        (List.mem_map_of_mem (Option.mem_toList.2 hi)))))).self
    have hbody : (Node.block body).Marks P :=
      h.child (.tail _ (List.mem_append_right _ (List.mem_append_right _ List.mem_cons_self)))
    rw [typeStmt]
    exact .bind (blames_outputType houtput) fun _ => .bind (blames_paramTypes hparams)
      fun signature => .bind .fresh fun _ => .bind (blames_declare _ hname.self) fun _ =>
        .bind (.log _) fun _ => .bind (.inScope _ (.bind (blames_declareParams hparams signature)
          fun _ => .bind (blames_typeBlock body hbody) fun _ => .pure _)) fun _ =>
            .bind (blames_require _ _ hname.self) fun _ => .pure _
  | .call i args callSpan _, h => by
    have hcall : (Node.expr (.call i args callSpan)).Marks P := h.child List.mem_cons_self
    have hargs : ∀ e ∈ args, (Node.expr e).Marks P := fun e he =>
      hcall.child (.tail _ (List.mem_map_of_mem he))
    have hcallee : (Node.name i).Marks P := hcall.child List.mem_cons_self
    rw [typeStmt]
    exact .bind (blames_callee hcallee.self) fun a => .bind (blames_typeExprs args hargs) fun _ =>
      .bind (blames_checkCall a _ (List.forall_mem_map.2 fun e he => (hargs e he).self) hcall.self)
        fun _ => .pure _
  | .output none span, h => by
    rw [typeStmt]
    exact .bind (blames_enclosing h.self) fun _ =>
      .bind (blames_require _ _ h.self) fun _ => .pure _
  | .output (some value) span, h => by
    have hvalue : (Node.expr value).Marks P := h.child List.mem_cons_self
    rw [typeStmt]
    exact .bind (blames_enclosing h.self) fun _ => .bind (blames_typeExpr value hvalue) fun _ =>
      .bind (blames_require _ _ hvalue.self) fun _ => .pure _
  | .ifElse test body none _, h => by
    rw [typeStmt]
    exact .bind (blames_typeTest (h.child List.mem_cons_self)) fun _ =>
      .bind (blames_typeBlock body (h.child (.tail _ List.mem_cons_self))) fun _ => .pure _
  | .ifElse test body (some alternate) _, h => by
    rw [typeStmt]
    exact .bind (blames_typeTest (h.child List.mem_cons_self)) fun _ =>
      .bind (blames_typeBlock body (h.child (.tail _ List.mem_cons_self))) fun _ =>
        .bind (blames_typeBlock alternate (h.child (.tail _ (.tail _ List.mem_cons_self)))) fun _ =>
          .pure _
  | .loopWhile test body _, h => by
    rw [typeStmt]
    exact .bind (blames_typeTest (h.child List.mem_cons_self)) fun _ =>
      .bind (.inScope _ (blames_typeBlock body (h.child (.tail _ List.mem_cons_self)))) fun _ =>
        .pure _
  | .loopOver item list body _, h => by
    have hitem : (Node.name item).Marks P := h.child List.mem_cons_self
    have hlist : (Node.expr list).Marks P := h.child (.tail _ List.mem_cons_self)
    have hbody : (Node.block body).Marks P := h.child (.tail _ (.tail _ List.mem_cons_self))
    rw [typeStmt]
    exact .bind (blames_typeExpr list hlist) fun _ => .bind (blames_demand _ _ hlist.self) fun _ =>
      .bind (.inScope _ (.bind (blames_declareVariable _ _ hitem.self) fun _ =>
        .bind (blames_typeBlock body hbody) fun _ => .pure _)) fun _ => .pure _
  | .breakLoop span, h => by
    rw [typeStmt]
    exact .bind .context fun _ => .bind (blames_require _ _ h.self) fun _ => .pure _

theorem blames_typeBlock : ∀ b : Surface.Block, (Node.block b).Marks P → Blames P (typeBlock b)
  | .mk stmts _, h => by
    rw [typeBlock]
    exact blames_typeStmts stmts fun s hs => h.child (List.mem_map_of_mem hs)

/-- Typing statements blames a node of one of them. -/
theorem blames_typeStmts : ∀ ss : List Surface.Stmt, (∀ s ∈ ss, (Node.stmt s).Marks P) →
    Blames P (typeStmts ss)
  | [], _ => by
    rw [typeStmts]
    exact .pure _
  | s :: ss, h => by
    obtain ⟨hs, hss⟩ := List.forall_mem_cons.1 h
    rw [typeStmts]
    exact .bind (blames_typeStmt s hs) fun _ => .bind (blames_typeStmts ss hss) fun _ => .pure _

end

end Typing

/-! ## Faults of a text -/

open Surface

variable {text : List Char} {ts : List Token}

/-- A token of a text is a slice of it. -/
theorem isSlice_of_mem_scan {t : Token} (h : Token.scan text = .ok ts) (ht : t ∈ ts) :
    ∃ part, IsSlice text t.span part := by
  obtain ⟨n, hn⟩ := Scanner.exists_place_of_mem_tokens (n := 0) h ht
  have hinside := Scanner.inside_next (Scanner.isAt_place text n)
  rw [hn] at hinside
  have hin : t.IsIn text := hinside
  unfold Token.IsIn at hin
  split at hin
  · exact ⟨_, hin.1⟩
  · exact ⟨_, hin⟩

/-- A fault of the parser is the fault of the text. -/
theorem parseText_eq_error {stuck : Stuck} (hscan : Token.scan text = .ok ts)
    (h : parse ts = .error stuck) : parseText text = .error (stuck.fault (byteLength text)) := by
  unfold parseText
  rw [hscan]
  change (parse ts).mapError _ = _
  rw [h]
  rfl

end Toal
