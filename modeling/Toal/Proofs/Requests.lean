import Toal.Proofs.Renaming

/-!
# What a script asks names for

Generating a script asks for the name of one entity after the other, until it is done
or something stops it. Both can be read off the program (`Requests`): which entities a
name is asked for, in order, and what stops the generation. So there is no need to look
at names to know how a generation ends. It does what its requests say, from whatever
names there are at its beginning (`Asks`, `asks_stmts`, `ofProgram_of_requests`).
-/

namespace Toal.Script

/-- The names after the name of each entity has been asked for. -/
def Names.after (names : Names) : List Entity → Names
  | [] => names
  | e :: es => (names.name e).2.after es

/-- Requests are met one after the other. -/
theorem Names.after_append (names : Names) (es fs : List Entity) :
    names.after (es ++ fs) = (names.after es).after fs := by
  induction es generalizing names with
  | nil => rfl
  | cons e es ih => exact ih _

/-! ## Requests -/

/-- What a generation asks for. -/
structure Requests where
  /-- The entities whose names are asked for, in order. -/
  entities : List Entity
  /-- What stops the generation after that, or nothing. -/
  failure? : Option Failure
deriving DecidableEq, Repr

namespace Requests

/-- Nothing is asked for. -/
def empty : Requests := ⟨[], none⟩

/-- The name of an entity is asked for. -/
def name (e : Entity) : Requests := ⟨[e], none⟩

/-- The generation is stopped. -/
def stop (failure : Failure) : Requests := ⟨[], some failure⟩

/-- The requests of two parts, one after the other. The second comes to nothing if the
    first is stopped. -/
instance : Append Requests where
  append r r' :=
    match r.failure? with
    | some _ => r
    | none => ⟨r.entities ++ r'.entities, r'.failure?⟩

/-- Nothing is requested after a failure. -/
theorem append_of_some {r : Requests} {f : Failure} (h : r.failure? = some f) (r' : Requests) :
    r ++ r' = r := by
  change (match r.failure? with | some _ => r | none => _) = r
  rw [h]

/-- Without a failure, what comes next is requested too. -/
theorem append_of_none {r : Requests} (h : r.failure? = none) (r' : Requests) :
    r ++ r' = ⟨r.entities ++ r'.entities, r'.failure?⟩ := by
  change (match r.failure? with | some _ => r | none => _) = _
  rw [h]

theorem append_empty (r : Requests) : r ++ empty = r := by
  obtain ⟨entities, failure?⟩ := r
  cases failure? with
  | some f => rfl
  | none => exact congrArg (Requests.mk · none) (List.append_nil entities)

/-- The requests for a variable. -/
def ofVariable (v : Variable) : Requests :=
  match constant? v with
  | some _ => empty
  | none => name (.var v)

/-- The requests for the variables of a list. -/
def ofVariables : List Variable → Requests
  | [] => empty
  | v :: vs => ofVariable v ++ ofVariables vs

/-- The automations of the language that there are templates for, each with the number
    of its arguments. -/
def templates : List (String × Nat) :=
  [("append", 2), ("remove", 2), ("length", 1), ("range", 2), ("type", 1)]

/-- The requests for a call with the given number of arguments, once the requests for
    the arguments have been met. -/
def ofCall (callee : Automation) (args : Nat) : Requests :=
  if callee.builtin then
    if (callee.name, args) ∈ templates then empty else stop (.noTemplate callee.name args)
  else name (.auto callee)

mutual

/-- The requests for an expression. -/
def ofExpr : Program.Expr → Requests
  | .num _ | .bool _ | .word _ => empty
  | .list elements => ofExprs elements
  | .var v => ofVariable v
  | .auto a => name (.auto a)
  | .arith _ left right => ofExpr left ++ ofExpr right
  | .compare _ left right => ofExpr left ++ ofExpr right
  | .paren inner => ofExpr inner
  | .call callee args => ofExprs args ++ ofCall callee args.length

/-- The requests for the expressions of a list. -/
def ofExprs : List Program.Expr → Requests
  | [] => empty
  | e :: es => ofExpr e ++ ofExprs es

end

mutual

/-- The requests for a statement. -/
def ofStmt (p : Place) : Program.Stmt → Requests
  | .declare v init => ofVariable v ++ ofExpr init
  | .assign target source => ofVariable target ++ ofExpr source
  | .change _ target term => ofVariable target ++ ofExpr term
  | .print argument => ofExpr argument
  | .automate a params body => name (.auto a) ++ (ofVariables params ++ ofStmts (.body a) body)
  | .call callee args => ofExprs args ++ ofCall callee args.length
  | .output none _ => empty
  | .output (some value) _ => ofExpr value
  | .ifElse test body none => ofExpr test ++ ofStmts p body
  | .ifElse test body (some alternate) => ofExpr test ++ (ofStmts p body ++ ofStmts p alternate)
  | .loopWhile test body => ofExpr test ++ ofStmts p.loop body
  | .loopOver item list body => ofVariable item ++ (ofExpr list ++ ofStmts p.loop body)
  | .breakLoop => if p.inLoop then empty else stop (.breakLeaves p.automation)

/-- The requests for the statements of a list. -/
def ofStmts (p : Place) : List Program.Stmt → Requests
  | [] => empty
  | s :: ss => ofStmt p s ++ ofStmts p ss

end

/-- The requests for a program. -/
def ofProgram (program : Program) : Requests := ofStmts .outside program.stmts

end Requests

/-! ## Generating meets the requests -/

/-- Whether there is a template depends on the number of the arguments only. -/
theorem isSome_template?_iff (name : String) (args : List Expr) :
    (template? name args).isSome = true ↔ (name, args.length) ∈ Requests.templates := by
  constructor
  · unfold template?
    split <;> simp [Requests.templates]
  · intro h
    simp only [Requests.templates, List.mem_cons, Prod.mk.injEq, List.not_mem_nil, or_false] at h
    rcases h with ⟨rfl, h⟩ | ⟨rfl, h⟩ | ⟨rfl, h⟩ | ⟨rfl, h⟩ | ⟨rfl, h⟩
    · obtain ⟨x, y, rfl⟩ := List.length_eq_two.1 h
      rfl
    · obtain ⟨x, y, rfl⟩ := List.length_eq_two.1 h
      rfl
    · obtain ⟨x, rfl⟩ := List.length_eq_one_iff.1 h
      rfl
    · obtain ⟨x, y, rfl⟩ := List.length_eq_two.1 h
      rfl
    · obtain ⟨x, rfl⟩ := List.length_eq_one_iff.1 h
      rfl

variable {α β : Type} {Q : α → Prop} {R : β → Prop}

/-- From whatever names there are, the generation is stopped by what the requests say,
    or it adds the names that are requested, and what is generated satisfies `Q`. -/
def Asks (m : Emit α) (r : Requests) (Q : α → Prop) : Prop :=
  ∀ names, match m names with
    | .ok (a, names') => r.failure? = none ∧ names' = names.after r.entities ∧ Q a
    | .error f => r.failure? = some f

/-- What is generated at once requests nothing. -/
theorem asks_pure {a : α} (h : Q a) : Asks (pure a) .empty Q :=
  fun _ => ⟨rfl, rfl, h⟩

/-- A failure is the only thing that it requests. -/
theorem asks_throw (f : Failure) : Asks (throw f) (.stop f) Q :=
  fun _ => rfl

/-- The name of an entity is requested. -/
theorem asks_name (e : Entity) : Asks (emitName e) (.name e) fun _ => True :=
  fun _ => ⟨rfl, rfl, trivial⟩

/-- One part after the other requests what the parts do, in the same order. -/
theorem asks_bind {m : Emit α} {k : α → Emit β} {r r' : Requests} (hm : Asks m r Q)
    (hk : ∀ a, Q a → Asks (k a) r' R) : Asks (m >>= k) (r ++ r') R := by
  intro names
  have hnames := hm names
  change match Except.bind (m names) fun x => k x.1 x.2 with
    | .ok (a, names') => (r ++ r').failure? = none ∧ names' = names.after (r ++ r').entities ∧ R a
    | .error f => (r ++ r').failure? = some f
  cases hx : m names with
  | error f =>
    -- The second part is never reached, and its requests are dropped likewise.
    rw [hx] at hnames
    rw [Requests.append_of_some hnames]
    exact hnames
  | ok x =>
    rw [hx] at hnames
    obtain ⟨hnone, hafter, hQ⟩ := hnames
    have hrest := hk x.1 hQ x.2
    rw [Requests.append_of_none hnone, Names.after_append, ← hafter]
    exact hrest

/-- What is made of what has been generated asks for nothing more. -/
theorem asks_map {m : Emit α} {f : α → β} {r : Requests} (hm : Asks m r Q)
    (hf : ∀ a, Q a → R (f a)) : Asks (m >>= fun a => pure (f a)) r R := by
  have hbind := asks_bind hm fun a ha => asks_pure (hf a ha)
  rwa [Requests.append_empty] at hbind

/-- A variable requests its name, unless it is a constant. -/
theorem asks_variable (v : Variable) : Asks (emitVariable v) (.ofVariable v) fun _ => True := by
  unfold emitVariable Requests.ofVariable
  cases constant? v with
  | some r => exact asks_pure trivial
  | none => exact asks_map (asks_name _) fun _ _ => trivial

theorem asks_variables (vs : List Variable) :
    Asks (emitVariables vs) (.ofVariables vs) fun _ => True := by
  induction vs with
  | nil => exact asks_pure trivial
  | cons v vs ih =>
    exact asks_bind (asks_variable v) fun _ _ => asks_map ih fun _ _ => trivial

/-- A call requests the name of the automation, unless there is a template for it. -/
theorem asks_call (callee : Automation) (args : List Expr) :
    Asks (emitCall callee args) (.ofCall callee args.length) fun _ => True := by
  unfold emitCall Requests.ofCall
  by_cases hbuiltin : callee.builtin = true
  · rw [if_pos hbuiltin, if_pos hbuiltin]
    have hiff := isSome_template?_iff callee.name (args.map operand)
    rw [List.length_map] at hiff
    cases htemplate : template? callee.name (args.map operand) with
    | some e =>
      rw [htemplate] at hiff
      rw [if_pos (hiff.1 rfl)]
      exact asks_pure trivial
    | none =>
      rw [htemplate] at hiff
      rw [if_neg fun h => Bool.false_ne_true (hiff.2 h)]
      exact asks_throw _
  · rw [if_neg hbuiltin, if_neg hbuiltin]
    exact asks_map (asks_name _) fun _ _ => trivial

mutual

/-- Generating an expression meets its requests. -/
theorem asks_expr : ∀ e : Program.Expr, Asks (emitExpr e) (.ofExpr e) fun _ => True
  | .num _ => asks_pure trivial
  | .bool _ => asks_pure trivial
  | .word _ => asks_pure trivial
  | .list elements => asks_map (asks_exprs elements) fun _ _ => trivial
  | .var v => asks_map (asks_variable v) fun _ _ => trivial
  | .auto a => asks_map (asks_name (.auto a)) fun _ _ => trivial
  | .arith _ left right =>
    asks_bind (asks_expr left) fun _ _ => asks_map (asks_expr right) fun _ _ => trivial
  | .compare _ left right =>
    asks_bind (asks_expr left) fun _ _ => asks_map (asks_expr right) fun _ _ => trivial
  | .paren inner => asks_map (asks_expr inner) fun _ _ => trivial
  | .call callee args =>
    asks_bind (asks_exprs args) fun es hlength => hlength ▸ asks_call callee es

/-- As many expressions are generated as there are. -/
theorem asks_exprs : ∀ es : List Program.Expr,
    Asks (emitExprs es) (.ofExprs es) fun rs => rs.length = es.length
  | [] => asks_pure rfl
  | e :: es =>
    asks_bind (asks_expr e) fun _ _ => asks_map (asks_exprs es) fun _ hlength =>
      congrArg (· + 1) hlength

end

mutual

/-- Generating a statement meets its requests. -/
theorem asks_stmt (p : Place) :
    ∀ s : Program.Stmt, Asks (emitStmt p s) (.ofStmt p s) fun _ => True
  | .declare v init =>
    asks_bind (asks_variable v) fun _ _ => asks_map (asks_expr init) fun _ _ => trivial
  | .assign target source =>
    asks_bind (asks_variable target) fun _ _ => asks_map (asks_expr source) fun _ _ => trivial
  | .change _ target term =>
    asks_bind (asks_variable target) fun _ _ => asks_map (asks_expr term) fun _ _ => trivial
  | .print argument => asks_map (asks_expr argument) fun _ _ => trivial
  | .automate a params body =>
    asks_bind (asks_name (.auto a)) fun _ _ => asks_bind (asks_variables params) fun _ _ =>
      asks_map (asks_stmts (.body a) body) fun _ _ => trivial
  | .call callee args =>
    asks_bind (asks_exprs args) fun es hlength =>
      hlength ▸ asks_map (asks_call callee es) fun _ _ => trivial
  | .output none _ => asks_pure trivial
  | .output (some value) _ => asks_map (asks_expr value) fun _ _ => trivial
  | .ifElse test body none =>
    asks_bind (asks_expr test) fun _ _ => asks_map (asks_stmts p body) fun _ _ => trivial
  | .ifElse test body (some alternate) =>
    asks_bind (asks_expr test) fun _ _ => asks_bind (asks_stmts p body) fun _ _ =>
      asks_map (asks_stmts p alternate) fun _ _ => trivial
  | .loopWhile test body =>
    asks_bind (asks_expr test) fun _ _ => asks_map (asks_stmts p.loop body) fun _ _ => trivial
  | .loopOver item list body =>
    asks_bind (asks_variable item) fun _ _ => asks_bind (asks_expr list) fun _ _ =>
      asks_map (asks_stmts p.loop body) fun _ _ => trivial
  | .breakLoop => by
    rw [emitStmt, Requests.ofStmt]
    by_cases h : p.inLoop = true
    · rw [if_pos h, if_pos h]
      exact asks_pure trivial
    · rw [if_neg h, if_neg h]
      exact asks_throw _

/-- Generating statements meets their requests. -/
theorem asks_stmts (p : Place) :
    ∀ ss : List Program.Stmt, Asks (emitStmts p ss) (.ofStmts p ss) fun _ => True
  | [] => asks_pure trivial
  | s :: ss =>
    asks_bind (asks_stmt p s) fun _ _ => asks_map (asks_stmts p ss) fun _ _ => trivial

end

/-- A program has a script if nothing stops its requests, and the script has the names
    that are requested. Otherwise what stops them keeps the program from having one. -/
theorem ofProgram_of_requests (program : Program) :
    match ofProgram program with
    | .ok script => (Requests.ofProgram program).failure? = none ∧
        ∀ ρ, (Names.empty.after (Requests.ofProgram program).entities).Agrees ρ →
          script = Stmt.ofPrograms ρ program.stmts
    | .error f => (Requests.ofProgram program).failure? = some f := by
  have hasks := asks_stmts .outside program.stmts .empty
  have hofProgram : ofProgram program =
      Except.map Prod.fst (emitStmts .outside program.stmts .empty) := rfl
  rw [hofProgram]
  cases hx : emitStmts .outside program.stmts .empty with
  | error f =>
    rw [hx] at hasks
    exact hasks
  | ok x =>
    obtain ⟨script, names⟩ := x
    rw [hx] at hasks
    obtain ⟨hnone, hafter, -⟩ := hasks
    obtain ⟨-, hscript⟩ := renames_stmts .outside program.stmts _ _ _ hx
    refine ⟨hnone, fun ρ hρ => hscript ρ ?_⟩
    rw [hafter]
    exact hρ

end Toal.Script
