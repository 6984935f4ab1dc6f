import Toal.Journal.Text
import Toal.Proofs.ScopeStack
import Toal.Proofs.Scopes

/-!
# What a statement leaves behind

Whether or not a fault is raised on the way, typing a statement changes nothing but
the current frame, and that only by declaring entities there whose names were not
visible (`Context.Gains`). If there is no fault, these are the names that the
statement declares outside of the bodies of loops and automations
(`Surface.Stmt.declares`). With a fault they are the first of them.

The journal tells which frames were entered and left on the way, and it does so in
order: the events for a scope within enclose those for its body, and scopes are
numbered by the frames around them (`Typing.Nested`). An arena that carries the
events out, cutting off the current frame where the journal says that a scope is
left, comes to the frames in which typing goes on (`Arena.Leads`). In the text of the
journal these events can be told from all others (`Event.eq_of_message_eq`).

Each step of typing is like this, and so is what is put together from such steps
(`Typing.Declares`).
-/

namespace Toal

/-! ## Declared names -/

namespace Surface

mutual

/-- The names that a statement declares in the scope that it stands in, in the order
    of the text. What the branches of an `if` declare counts, and what the bodies of
    loops and automations declare does not. -/
def Stmt.declares : Stmt → List String
  | .declare _ name _ _ => [name.text]
  | .automate name _ _ _ _ => [name.text]
  | .ifElse _ body none _ => body.declares
  | .ifElse _ body (some alternate) _ => body.declares ++ alternate.declares
  | _ => []

/-- The names that the statements of a block declare. -/
def Block.declares : Block → List String
  | .mk stmts _ => stmtsDeclare stmts

/-- The names that statements declare. -/
def stmtsDeclare : List Stmt → List String
  | [] => []
  | s :: ss => s.declares ++ stmtsDeclare ss

end

end Surface

/-! ## The current frame -/

theorem Frame.find?_vars_insert {f : Frame} {e : Entity} {x : String} (h : e.name ≠ x) :
    (f.insert e).vars.find? (·.name == x) = f.vars.find? (·.name == x) := by
  cases e with
  | var v => exact List.find?_cons_of_neg (fun hx => h (beq_iff_eq.1 hx))
  | auto a => rfl

theorem Frame.find?_autos_insert {f : Frame} {e : Entity} {x : String} (h : e.name ≠ x) :
    (f.insert e).autos.find? (·.name == x) = f.autos.find? (·.name == x) := by
  cases e with
  | var v => rfl
  | auto a => exact List.find?_cons_of_neg (fun hx => h (beq_iff_eq.1 hx))

namespace Context

variable {cx cx' cx'' : Context} {e : Entity} {es es' : List Entity} {x : String}

/-- After a declaration its name is visible, and what was visible before. -/
theorem sees_insert : (cx.insert e).sees x = true ↔ e.name = x ∨ cx.sees x = true := by
  rw [sees_iff, sees_iff]
  simp only [(cx.entities_insert e).mem_iff, List.mem_cons, exists_eq_or_imp]

/-- Entities are declared in the current frame one after the other, each while its
    name is not visible. -/
inductive Gains : Context → List Entity → Context → Prop
  | nil (cx : Context) : Gains cx [] cx
  | cons {cx cx' : Context} {e : Entity} {es : List Entity} (he : cx.sees e.name = false)
      (hes : Gains (cx.insert e) es cx') : Gains cx (e :: es) cx'

namespace Gains

/-- Entities are gained one after the other. -/
theorem append (h : cx.Gains es cx') (h' : cx'.Gains es' cx'') : cx.Gains (es ++ es') cx'' := by
  induction h with
  | nil cx => exact h'
  | cons he _ ih => exact .cons he (ih h')

/-- The frames around the current one stay. -/
theorem outer_eq (h : cx.Gains es cx') : cx'.outer = cx.outer := by
  induction h with
  | nil cx => rfl
  | cons _ _ ih => exact ih

/-- The current frame has the entities declared in it. -/
theorem current_eq (h : cx.Gains es cx') : cx'.current = es.foldl Frame.insert cx.current := by
  induction h with
  | nil cx => rfl
  | cons _ _ ih => exact ih

theorem inLoop_eq (h : cx.Gains es cx') : cx'.inLoop = cx.inLoop := by
  induction h with
  | nil cx => rfl
  | cons _ _ ih => exact ih.trans inLoop_insert

theorem automation_eq (h : cx.Gains es cx') : cx'.automation = cx.automation := by
  induction h with
  | nil cx => rfl
  | cons _ _ ih => exact ih.trans automation_insert

/-- The name of a gained entity was not visible. -/
theorem unseen (h : cx.Gains es cx') (he : e ∈ es) : cx.sees e.name = false := by
  induction h with
  | nil cx => cases he
  | cons hfirst _ ih =>
    rcases List.mem_cons.1 he with rfl | he
    · exact hfirst
    · -- A name that is still not visible after a declaration was not visible before.
      have hnot := Bool.eq_false_iff.1 (ih he)
      exact Bool.eq_false_iff.2 fun hsees => hnot (sees_insert.2 (.inr hsees))

/-- The names of gained entities are distinct. -/
theorem distinct (h : cx.Gains es cx') : (es.map Entity.name).Nodup := by
  induction h with
  | nil cx => exact .nil
  | cons _ hes ih =>
    refine List.nodup_cons.2 ⟨fun hmem => ?_, ih⟩
    obtain ⟨e', he', hname⟩ := List.mem_map.1 hmem
    exact Bool.eq_false_iff.1 (hes.unseen he') (sees_insert.2 (.inl hname.symm))

/-- Where a name is visible, no entity is declared under it. -/
theorem kept (h : cx.Gains es cx') (hx : cx.sees x = true) :
    cx'.current.vars.find? (·.name == x) = cx.current.vars.find? (·.name == x) ∧
      cx'.current.autos.find? (·.name == x) = cx.current.autos.find? (·.name == x) := by
  induction h with
  | nil cx => exact ⟨rfl, rfl⟩
  | @cons _ _ e _ he _ ih =>
    have hne : e.name ≠ x := fun hname => Bool.eq_false_iff.1 he (hname ▸ hx)
    obtain ⟨hvars, hautos⟩ := ih (sees_insert.2 (.inr hx))
    exact ⟨hvars.trans (Frame.find?_vars_insert hne), hautos.trans (Frame.find?_autos_insert hne)⟩

end Gains

end Context

/-! ## Events -/

namespace Event

/-- What is said about entering a scope. -/
theorem message_entered (text : List Char) (k : Nat) :
    message text (.entered k) = s!"enter scope {k}" := rfl

/-- What is said about leaving a scope. -/
theorem message_left (text : List Char) (k : Nat) :
    message text (.left k) = s!"exit scope {k}" := rfl

/-- Only what is said about entering and leaving scopes begins with an `e`. -/
theorem head?_message (text : List Char) (event : Event) :
    (event.message text).toList.head? = match event with
      | raised _ => some 'r'
      | parsed _ => some 'p'
      | entered _ | left _ => some 'e'
      | bound .. => some 's'
      | declared .. | automated .. => some 'd'
      | analyzed => some 'a'
      | reduced _ | simplified _ => some 'o'
      | generated _ => some 'g' := by
  cases event with
  | analyzed =>
    change "analysis finished".toList.head? = some 'a'
    decide
  | _ =>
    unfold message
    simp only [String.toList_append]
    rfl

/-- The number of a scope can be read off what is said about it. -/
theorem scope_inj {said : String} {j k : Nat} (h : said ++ toString j = said ++ toString k) :
    j = k := by
  have htoString := (String.append_right_inj said).1 h
  rw [Nat.toString_eq_ofList_toDigits, Nat.toString_eq_ofList_toDigits] at htoString
  have hdigits := String.ofList_injective htoString
  rw [← Nat.ofDigitChars_ten_toDigits (n := j), hdigits, Nat.ofDigitChars_ten_toDigits]

theorem enter_ne_exit (j k : Nat) : s!"enter scope {j}" ≠ s!"exit scope {k}" := by
  intro h
  have hsecond := congrArg (·.toList[1]?) h
  simp only [String.toList_append] at hsecond
  cases hsecond

/-- If something is said about an event that is said about entering or leaving a scope,
    then the event is that. -/
theorem eq_of_message_eq {text : List Char} {event event' : Event}
    (h : event.message text = event'.message text)
    (hscope : ∃ k, event' = .entered k ∨ event' = .left k) : event = event' := by
  have hhead := congrArg (·.toList.head?) h
  simp only [head?_message] at hhead
  obtain ⟨k, rfl | rfl⟩ := hscope
  · cases event with
    | entered j => rw [scope_inj h]
    | left j => exact absurd h.symm (enter_ne_exit k j)
    | _ => cases hhead
  · cases event with
    | entered j => exact absurd h (enter_ne_exit j k)
    | left j => rw [scope_inj h]
    | _ => cases hhead

end Event

/-- The arena comes to the second one by what the events tell. -/
inductive Arena.Leads : Arena → List Event → Arena → Prop
  | nil (a : Arena) : Leads a [] a
  /-- Events that are no traces do not concern frames. -/
  | note {a b : Arena} {event : Event} {events : List Event} (hevent : event.level = .debug)
      (h : Leads a events b) : Leads a (event :: events) b
  | declare {a a' b : Arena} {e : Entity} {events : List Event} (he : a.declare e = .ok a')
      (h : Leads a' events b) : Leads a (.bound a.current e.name :: events) b
  | enter {a b : Arena} {events : List Event} (o : Overrides) (h : Leads (a.enter o) events b) :
      Leads a (.entered (a.enter o).current :: events) b
  | exit {a b : Arena} {events : List Event} (h : Leads a.exit events b) :
      Leads a (.left a.current :: events) b

/-- Events are carried out one after the other. -/
theorem Arena.Leads.append {a b c : Arena} {events events' : List Event} (h : a.Leads events b)
    (h' : b.Leads events' c) : a.Leads (events ++ events') c := by
  induction h with
  | nil a => exact h'
  | note hevent _ ih => exact .note hevent (ih h')
  | declare he _ ih => exact .declare he (ih h')
  | enter o _ ih => exact .enter o (ih h')
  | exit _ ih => exact .exit (ih h')

namespace Typing

/-- In a frame with so many frames around it, scopes are entered and left in order. A
    scope has one frame more around it, names are bound in the frame itself, and what
    is entered is left. -/
inductive Nested : Nat → List Event → Prop
  | nil (k : Nat) : Nested k []
  | note {k : Nat} {event : Event} {events : List Event} (hevent : event.level = .debug)
      (h : Nested k events) : Nested k (event :: events)
  | bound {k : Nat} {events : List Event} (name : String) (h : Nested k events) :
      Nested k (.bound k name :: events)
  | scope {k : Nat} {body events : List Event} (hbody : Nested (k + 1) body)
      (h : Nested k events) : Nested k (.entered (k + 1) :: body ++ .left (k + 1) :: events)

/-- Nested events can be put together. -/
theorem Nested.append {k : Nat} {events events' : List Event} (h : Nested k events)
    (h' : Nested k events') : Nested k (events ++ events') := by
  induction h with
  | nil k => exact h'
  | note hevent _ ih => exact .note hevent (ih h')
  | bound name _ ih => exact .bound name (ih h')
  | scope hbody _ _ ih =>
    rw [List.append_assoc]
    exact .scope hbody (ih h')

/-! ## States -/

variable {α β : Type} {s t r : State} {added added' : List Entity}

/-- The second state comes from the first by declaring the entities in the current
    frame, and in scopes that were left again. -/
structure Reaches (s : State) (added : List Entity) (t : State) : Prop where
  /-- The entities are declared in the current frame. -/
  context : s.context.Gains added t.context
  /-- The journal tells how the frames came to be as they are. -/
  journal : ∃ events, t.journal.toList = s.journal.toList ++ events ∧
    Nested s.context.id events ∧ s.context.arena.Leads events t.context.arena

namespace Reaches

theorem refl (s : State) : Reaches s [] s :=
  ⟨.nil _, [], (List.append_nil _).symm, .nil _, .nil _⟩

/-- What is reached in two steps is reached with the entities of both. -/
theorem trans (h : Reaches s added t) (h' : Reaches t added' r) :
    Reaches s (added ++ added') r := by
  obtain ⟨events, hevents, hnested, hleads⟩ := h.journal
  obtain ⟨events', hevents', hnested', hleads'⟩ := h'.journal
  have hid : t.context.id = s.context.id := congrArg List.length h.context.outer_eq
  refine ⟨h.context.append h'.context, events ++ events', ?_, ?_, hleads.append hleads'⟩
  · rw [hevents', hevents, List.append_assoc]
  · exact hnested.append (hid ▸ hnested')

/-- An event that is no trace declares nothing. -/
theorem logged {event : Event} (h : event.level = .debug) : Reaches s [] (s.logged event) :=
  ⟨.nil _, [event], Array.toList_push, .note h (.nil _), .note h (.nil _)⟩

/-- A name that is not visible can be declared. -/
theorem declared {e : Entity} (h : s.context.sees e.name = false) :
    Reaches s [e] (s.declared e.name e) := by
  have harena : s.context.arena.declare e = .ok (s.context.insert e).arena := by
    rw [Arena.declare_arena, Context.declare, h]
    rfl
  exact ⟨.cons h (.nil _), [.bound s.context.id e.name], Array.toList_push,
    .bound _ (.nil _), .declare harena (.nil _)⟩

/-- What is declared in a scope is gone once the scope is left. -/
theorem leftTo {o : Overrides} (h : Reaches (s.entered o) added t) :
    Reaches s [] (t.leftTo s o) := by
  obtain ⟨events, hevents, hnested, hleads⟩ := h.journal
  change Nested (s.context.id + 1) events at hnested
  have houter : t.context.outer = s.context.frames := h.context.outer_eq
  have hparent : t.context.parent? = some s.context := by
    rw [Context.parent?, houter]
    rfl
  have hid : t.context.arena.current = s.context.id + 1 := congrArg List.length houter
  refine ⟨.nil _, .entered (s.context.id + 1) :: events ++ [Event.left (s.context.id + 1)], ?_,
    .scope hnested (.nil _), ?_⟩
  · change (t.journal.push _).toList = _
    rw [Array.toList_push, hevents]
    change (s.journal.push _).toList ++ _ ++ _ = _
    rw [Array.toList_push, List.append_assoc, List.append_assoc]
    rfl
  · -- Leaving cuts off the frame that is current after the body.
    have hexit : t.context.arena.Leads [.left (s.context.id + 1)] s.context.arena := by
      rw [← hid]
      refine .exit ?_
      rw [Arena.exit_arena t.context hparent]
      exact .nil _
    have hbody : (s.context.arena.enter o).Leads (events ++ [Event.left (s.context.id + 1)])
        s.context.arena := by
      rw [Arena.enter_arena]
      exact hleads.append hexit
    have hcurrent : (s.context.arena.enter o).current = s.context.id + 1 := by
      rw [Arena.enter_arena]
      rfl
    have hall := Arena.Leads.enter o hbody
    rwa [hcurrent] at hall

end Reaches

/-! ## Steps -/

/-- The computation declares the given names in the current frame if it succeeds. If
    not, it declares the first of them. -/
def Declares (m : Typing α) (names : List String) : Prop :=
  ∀ s, ∃ added, Reaches s added (stateAfter m s) ∧ added.map Entity.name <+: names ∧
    ∀ a t, m s = .ok a t → added.map Entity.name = names

namespace Declares

variable {m : Typing α} {f : α → Typing β} {names names' : List String}

/-- A step that declares nothing, whatever comes of it. -/
theorem of_reaches (h : ∀ s, Reaches s [] (stateAfter m s)) : Declares m [] :=
  fun s => ⟨[], h s, List.prefix_rfl, fun _ _ _ => rfl⟩

theorem pure (a : α) : Declares (pure a : Typing α) [] :=
  of_reaches .refl

theorem raise (problem : Problem) (span : Source.Span) :
    Declares (raise problem span : Typing α) names :=
  fun _ => ⟨[], .logged rfl, List.nil_prefix, fun _ _ h => absurd h raise_ne_ok⟩

theorem log {event : Event} (h : event.level = .debug) : Declares (log event) [] :=
  of_reaches fun _ => .logged h

theorem context : Declares context [] :=
  of_reaches .refl

theorem fresh : Declares fresh [] :=
  of_reaches fun s => ⟨.nil _, (Reaches.refl s).journal⟩

/-- One computation after the other declares the names of both, unless the first fails. -/
theorem bind (hm : Declares m names) (hf : ∀ a, Declares (f a) names') :
    Declares (m >>= f) (names ++ names') := by
  intro s
  obtain ⟨added, hreaches, hfirst, hall⟩ := hm s
  cases hs : m s with
  | error fault t =>
    rw [stateAfter, hs] at hreaches
    refine ⟨added, ?_, hfirst.trans (List.prefix_append _ _), fun b r h => ?_⟩
    · rwa [stateAfter, bind_of_error hs]
    · rw [bind_of_error hs] at h
      cases h
  | ok a t =>
    rw [stateAfter, hs] at hreaches
    obtain ⟨added', hreaches', hfirst', hall'⟩ := hf a t
    have hnames : (added ++ added').map Entity.name = names ++ added'.map Entity.name := by
      rw [List.map_append, hall a t hs]
    refine ⟨added ++ added', ?_, ?_, fun b r h => ?_⟩
    · rw [stateAfter, bind_of_ok hs]
      exact hreaches.trans hreaches'
    · rw [hnames]
      exact (List.prefix_append_right_inj names).2 hfirst'
    · rw [bind_of_ok hs] at h
      rw [hnames, hall' b r h]

/-- Something that declares nothing comes first. -/
theorem quiet_bind (hm : Declares m []) (hf : ∀ a, Declares (f a) names) :
    Declares (m >>= f) names :=
  hm.bind hf

/-- Something that declares nothing comes last. -/
theorem bind_quiet (hm : Declares m names) (hf : ∀ a, Declares (f a) []) :
    Declares (m >>= f) names :=
  List.append_nil names ▸ hm.bind hf

theorem lookup (i : Surface.Ident) : Declares (lookup i) [] := by
  refine quiet_bind .context fun cx => ?_
  cases cx.lookup i.text with
  | ok entity => exact .pure entity
  | error problem => exact .raise problem i.span

/-- A declaration declares its name. -/
theorem declare {i : Surface.Ident} {e : Entity} (he : e.name = i.text) :
    Declares (declare i e) [i.text] := by
  intro s
  cases hsees : s.context.sees i.text with
  | false =>
    have hok : Typing.declare i e s = .ok () (s.declared i.text e) :=
      declare_eq_ok.2 ⟨hsees, rfl⟩
    have hname : [e].map Entity.name = [i.text] := congrArg ([·]) he
    refine ⟨[e], ?_, hname ▸ List.prefix_rfl, fun _ _ _ => hname⟩
    rw [stateAfter, hok, ← he]
    exact .declared (he ▸ hsees)
  | true =>
    rw [stateAfter, declare_of_sees hsees]
    exact raise (.alreadyDeclared i.text) i.span s

/-- A scope of its own. -/
theorem inScope {body : Typing α} (o : Overrides) (h : Declares body names) :
    Declares (inScope o body) [] := by
  refine of_reaches fun s => ?_
  obtain ⟨added, hreaches, -⟩ := h (s.entered o)
  rw [stateAfter_inScope]
  exact hreaches.leftTo

end Declares

/-! ## Steps made of steps -/

/-- Requiring something declares nothing. -/
theorem declares_require (condition : Bool) (problem : Problem) (span : Source.Span) :
    Declares (require condition problem span) [] := by
  cases condition with
  | true => exact .pure ()
  | false => exact .raise problem span

theorem declares_demand (d : Demand) (ty : Ty) (span : Source.Span) :
    Declares (demand d ty span) [] :=
  declares_require _ _ _

theorem declares_typeNamed (i : Surface.Ident) : Declares (typeNamed i) [] := by
  unfold typeNamed
  cases Ty.ofName? i.text with
  | none => exact .raise _ _
  | some ty => exact .pure ty

theorem declares_assignable (i : Surface.Ident) : Declares (assignable i) [] := by
  refine .quiet_bind (.lookup i) fun entity => ?_
  cases entity with
  | auto a => exact .raise _ _
  | var v => exact .quiet_bind (declares_require _ _ _) fun _ => .pure v

theorem declares_callee (i : Surface.Ident) : Declares (callee i) [] := by
  refine .quiet_bind (.lookup i) fun entity => ?_
  cases entity with
  | auto a => exact .pure a
  | var v => exact .raise _ _

/-- Checking arguments declares nothing. -/
theorem declares_checkArgs (index : Nat) (args : List (Program.Expr × Source.Span))
    (params : List Param) : Declares (checkArgs index args params) [] := by
  fun_induction checkArgs index args params with
  | case1 index arg span args param params ih =>
    exact .quiet_bind (declares_require _ _ _) fun _ => ih
  | case2 index args params => exact .pure ()

theorem declares_checkCall (a : Automation) (args : List Program.Expr)
    (spans : List Source.Span) (span : Source.Span) : Declares (checkCall a args spans span) [] :=
  .quiet_bind (declares_require _ _ _) fun _ => declares_checkArgs _ _ _

theorem declares_enclosing (span : Source.Span) : Declares (enclosing span) [] := by
  refine .quiet_bind .context fun cx => ?_
  cases cx.automation with
  | none => exact .raise _ _
  | some a => exact .pure a

theorem declares_outputType (output : Option Surface.Ident) :
    Declares (outputType output) [] := by
  cases output with
  | none => exact .pure _
  | some i =>
    exact .quiet_bind (declares_typeNamed i) fun _ =>
      .quiet_bind (declares_require _ _ _) fun _ => .pure _

theorem declares_paramType (p : Surface.Param) : Declares (paramType p) [] := by
  unfold paramType
  cases p.ty with
  | none => exact .pure _
  | some i => exact .quiet_bind (declares_typeNamed i) fun _ => .pure _

theorem declares_paramTypes (ps : List Surface.Param) : Declares (paramTypes ps) [] := by
  induction ps with
  | nil => exact .pure _
  | cons p ps ih =>
    exact .quiet_bind (declares_paramType p) fun _ => .quiet_bind ih fun _ => .pure _

/-- Declaring a variable declares its name. -/
theorem declares_declareVariable (i : Surface.Ident) (readOnly : Bool) (ty : Ty) :
    Declares (declareVariable i readOnly ty) [i.text] :=
  .quiet_bind .fresh fun _ => .bind_quiet (.declare rfl) fun _ => .pure _

/-- Declaring parameters declares their names. -/
theorem declares_declareParams (ps : List (Surface.Param × Param)) :
    Declares (declareParams ps) (ps.map (·.1.name.text)) := by
  induction ps with
  | nil => exact .pure _
  | cons p ps ih =>
    exact .quiet_bind (declares_require _ _ _) fun _ =>
      (declares_declareVariable _ _ _).bind fun _ => .bind_quiet ih fun _ => .pure _

/-! ## Expressions -/

mutual

/-- Typing an expression declares nothing. -/
theorem declares_typeExpr : ∀ e : Surface.Expr, Declares (typeExpr e) []
  | .binary (.arith op) left right _ => by
    rw [typeExpr]
    exact .quiet_bind (declares_typeExpr left) fun _ => .quiet_bind (declares_typeExpr right)
      fun _ => .quiet_bind (declares_demand _ _ _) fun _ =>
        .quiet_bind (declares_demand _ _ _) fun _ => .pure _
  | .binary (.compare op) left right _ => by
    rw [typeExpr]
    exact .quiet_bind (declares_typeExpr left) fun _ => .quiet_bind (declares_typeExpr right)
      fun _ => .quiet_bind (declares_demand _ _ _) fun _ =>
        .quiet_bind (declares_demand _ _ _) fun _ => .pure _
  | .group inner _ => by
    rw [typeExpr]
    exact .quiet_bind (declares_typeExpr inner) fun _ => .pure _
  | .number value _ => by
    rw [typeExpr]
    exact .pure _
  | .word contents _ => by
    rw [typeExpr]
    exact .pure _
  | .list elements _ => by
    rw [typeExpr]
    exact .quiet_bind (declares_typeExprs elements) fun _ => .pure _
  | .name i => by
    rw [typeExpr]
    refine .quiet_bind (.lookup i) fun entity => ?_
    cases entity with
    | var v => exact .pure _
    | auto a => exact .pure _
  | .call i args span => by
    rw [typeExpr]
    exact .quiet_bind (declares_callee i) fun a => .quiet_bind (declares_typeExprs args) fun _ =>
      .quiet_bind (declares_checkCall a _ _ span) fun _ => .pure _

theorem declares_typeExprs : ∀ es : List Surface.Expr, Declares (typeExprs es) []
  | [] => by
    rw [typeExprs]
    exact .pure _
  | e :: es => by
    rw [typeExprs]
    exact .quiet_bind (declares_typeExpr e) fun _ => .quiet_bind (declares_typeExprs es) fun _ =>
      .pure _

end

theorem declares_typeTest (e : Surface.Expr) : Declares (typeTest e) [] :=
  .quiet_bind (declares_typeExpr e) fun _ => .quiet_bind (declares_demand _ _ _) fun _ => .pure _

/-! ## Statements -/

mutual

/-- Typing a statement declares the names that it declares in its own scope. -/
theorem declares_typeStmt : ∀ s : Surface.Stmt, Declares (typeStmt s) s.declares
  | .declare readOnly name init _ => by
    rw [typeStmt]
    exact .quiet_bind (declares_typeExpr init) fun _ => .quiet_bind (declares_require _ _ _)
      fun _ => .bind_quiet (declares_declareVariable name readOnly _) fun _ =>
        .quiet_bind (.log rfl) fun _ => .pure _
  | .assign name value _ => by
    rw [typeStmt]
    exact .quiet_bind (declares_assignable name) fun _ => .quiet_bind (declares_typeExpr value)
      fun _ => .quiet_bind (declares_require _ _ _) fun _ => .pure _
  | .change op name term _ => by
    rw [typeStmt]
    exact .quiet_bind (declares_assignable name) fun _ => .quiet_bind (declares_demand _ _ _)
      fun _ => .quiet_bind (declares_typeExpr term) fun _ =>
        .quiet_bind (declares_demand _ _ _) fun _ => .pure _
  | .print value _ => by
    rw [typeStmt]
    exact .quiet_bind (declares_typeExpr value) fun _ => .quiet_bind (declares_require _ _ _)
      fun _ => .pure _
  | .automate name params output body _ => by
    rw [typeStmt]
    -- The automation is declared around its body, and the parameters are declared in it.
    exact .quiet_bind (declares_outputType output) fun ty =>
      .quiet_bind (declares_paramTypes params) fun signature => .quiet_bind .fresh fun _ =>
        .bind_quiet (.declare rfl) fun _ => .quiet_bind (.log rfl) fun _ =>
          .quiet_bind (.inScope _ ((declares_declareParams _).bind fun _ =>
            .bind_quiet (declares_typeBlock body) fun _ => .pure _)) fun _ =>
              .quiet_bind (declares_require _ _ _) fun _ => .pure _
  | .call i args callSpan _ => by
    rw [typeStmt]
    exact .quiet_bind (declares_callee i) fun a => .quiet_bind (declares_typeExprs args) fun _ =>
      .quiet_bind (declares_checkCall a _ _ callSpan) fun _ => .pure _
  | .output none span => by
    rw [typeStmt]
    exact .quiet_bind (declares_enclosing span) fun _ => .quiet_bind (declares_require _ _ _)
      fun _ => .pure _
  | .output (some value) span => by
    rw [typeStmt]
    exact .quiet_bind (declares_enclosing span) fun _ => .quiet_bind (declares_typeExpr value)
      fun _ => .quiet_bind (declares_require _ _ _) fun _ => .pure _
  | .ifElse test body none _ => by
    rw [typeStmt]
    exact .quiet_bind (declares_typeTest test) fun _ => .bind_quiet (declares_typeBlock body)
      fun _ => .pure _
  | .ifElse test body (some alternate) _ => by
    rw [typeStmt]
    exact .quiet_bind (declares_typeTest test) fun _ => (declares_typeBlock body).bind fun _ =>
      .bind_quiet (declares_typeBlock alternate) fun _ => .pure _
  | .loopWhile test body _ => by
    rw [typeStmt]
    exact .quiet_bind (declares_typeTest test) fun _ =>
      .quiet_bind (.inScope _ (declares_typeBlock body)) fun _ => .pure _
  | .loopOver item list body _ => by
    rw [typeStmt]
    exact .quiet_bind (declares_typeExpr list) fun _ => .quiet_bind (declares_demand _ _ _)
      fun _ => .quiet_bind (.inScope _ ((declares_declareVariable item _ _).bind fun _ =>
        .bind_quiet (declares_typeBlock body) fun _ => .pure _)) fun _ => .pure _
  | .breakLoop span => by
    rw [typeStmt]
    exact .quiet_bind .context fun _ => .quiet_bind (declares_require _ _ _) fun _ => .pure _

/-- Typing a block declares the names that its statements declare. -/
theorem declares_typeBlock : ∀ b : Surface.Block, Declares (typeBlock b) b.declares
  | .mk stmts _ => by
    rw [typeBlock]
    exact declares_typeStmts stmts

/-- Typing statements declares the names that they declare. -/
theorem declares_typeStmts :
    ∀ ss : List Surface.Stmt, Declares (typeStmts ss) (Surface.stmtsDeclare ss)
  | [] => by
    rw [typeStmts]
    exact .pure _
  | s :: ss => by
    rw [typeStmts]
    exact (declares_typeStmt s).bind fun _ => .bind_quiet (declares_typeStmts ss) fun _ => .pure _

end

theorem declares_typeProgram (stmts : List Surface.Stmt) :
    Declares (typeProgram stmts) (Surface.stmtsDeclare stmts) :=
  .bind_quiet (declares_typeStmts stmts) fun _ => .pure _

/-! ## Frames -/

/-- Nothing but the current frame differs between the two states, and it only has the
    entities in addition. -/
structure OwnFrame (s t : State) (added : List Entity) : Prop where
  depth : t.context.depth = s.context.depth
  id : t.context.id = s.context.id
  inLoop : t.context.inLoop = s.context.inLoop
  automation : t.context.automation = s.context.automation
  /-- The frames around the current one are the same. -/
  outer : t.context.outer = s.context.outer
  /-- The entities are added to the current frame, in this order. -/
  current : t.context.current = added.foldl Frame.insert s.context.current
  /-- Their names were not visible. -/
  unseen : ∀ e ∈ added, s.context.sees e.name = false
  /-- Their names differ. -/
  distinct : (added.map Entity.name).Nodup
  /-- A name of the current frame stands for what it stood for, as a variable and as an
      automation. -/
  kept : ∀ x, s.context.current.binds x = true →
    t.context.current.vars.find? (·.name == x) = s.context.current.vars.find? (·.name == x) ∧
      t.context.current.autos.find? (·.name == x) = s.context.current.autos.find? (·.name == x)

/-- What is reached by declaring entities has the same frames around the current one. -/
theorem Reaches.ownFrame (h : Reaches s added t) : OwnFrame s t added where
  depth := congrArg (·.length + 1) h.context.outer_eq
  id := congrArg List.length h.context.outer_eq
  inLoop := h.context.inLoop_eq
  automation := h.context.automation_eq
  outer := h.context.outer_eq
  current := h.context.current_eq
  unseen _ he := h.context.unseen he
  distinct := h.context.distinct
  kept _ hx := h.context.kept (List.any_eq_true.2 ⟨_, List.mem_cons_self, hx⟩)

/-- The events of a program are nested. -/
theorem nested_run (entities : List Entity) (stmts : List Surface.Stmt) :
    Nested 0 (run entities stmts).2.toList := by
  obtain ⟨added, hreaches, -⟩ := declares_typeProgram stmts (.start entities)
  obtain ⟨events, hevents, hnested, -⟩ := hreaches.journal
  have hid : (State.start entities).context.id = 0 :=
    congrArg List.length (outer_ofEntities entities)
  rw [journal_run, hevents, ← hid]
  exact hnested

/-- Whatever the state in which a statement is typed, and whether or not a fault is
    raised, only the current frame changes, and it only gains entities whose names were
    not visible. They are those that the statement declares in its own scope if there is
    no fault, and the first of them if there is one. The events put in the journal enter
    and leave scopes in order, each under the number of frames around it, and they tell
    how an arena comes to the frames at the end. So do the events of a whole program. What
    is said about them is `enter scope k` and `exit scope k`, and about no others. -/
theorem typing_touches_own_frame :
    (∀ (st : Surface.Stmt) (s : State), ∃ added events,
      OwnFrame s (stateAfter (typeStmt st) s) added ∧
      added.map Entity.name <+: st.declares ∧
      (∀ typed t, typeStmt st s = .ok typed t → added.map Entity.name = st.declares) ∧
      (stateAfter (typeStmt st) s).journal.toList = s.journal.toList ++ events ∧
      Nested s.context.id events ∧
      s.context.arena.Leads events (stateAfter (typeStmt st) s).context.arena) ∧
    (∀ (entities : List Entity) (stmts : List Surface.Stmt),
      Nested 0 (run entities stmts).2.toList) ∧
    ∀ (text : List Char) (event : Event) (k : Nat),
      (event.message text = s!"enter scope {k}" ↔ event = .entered k) ∧
      (event.message text = s!"exit scope {k}" ↔ event = .left k) := by
  refine ⟨fun st s => ?_, nested_run, fun text event k => ⟨⟨fun h => ?_, ?_⟩, fun h => ?_, ?_⟩⟩
  · obtain ⟨added, hreaches, hfirst, hall⟩ := declares_typeStmt st s
    obtain ⟨events, hevents, hnested, hleads⟩ := hreaches.journal
    exact ⟨added, events, hreaches.ownFrame, hfirst, hall, hevents, hnested, hleads⟩
  · exact Event.eq_of_message_eq (h.trans (Event.message_entered text k).symm) ⟨k, .inl rfl⟩
  · rintro rfl
    exact Event.message_entered text k
  · exact Event.eq_of_message_eq (h.trans (Event.message_left text k).symm) ⟨k, .inr rfl⟩
  · rintro rfl
    exact Event.message_left text k

end Typing

end Toal
