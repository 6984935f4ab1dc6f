import Toal.Typing.Stmt
import Mathlib.Data.List.Forall2

/-!
# When a step of typing succeeds

Typing is put together from few steps. For each of them, this is what a success
says: what was found or checked, and what the state is afterwards. Proofs about
typing take a computation apart with these equivalences and never look inside a
step.
-/

namespace Toal.Typing

open Source

variable {α β : Type} {s t : State}

/-! ## States -/

namespace State

/-- The state after an event has been put in the journal. -/
def logged (s : State) (event : Event) : State := { s with journal := s.journal.push event }

/-- The state after a serial number has been handed out. -/
def numbered (s : State) : State := { s with next := s.next + 1 }

/-- The state after an entity has been declared under the given name. -/
def declared (s : State) (name : String) (entity : Entity) : State :=
  { s.logged (.bound s.context.id name) with context := s.context.insert entity }

/-- The state at the start of a new scope. -/
def entered (s : State) (o : Overrides) : State :=
  { s.logged (.entered (s.context.enter o).id) with context := s.context.enter o }

/-- The state after leaving the scope that was opened in the state `s`. -/
def leftTo (t s : State) (o : Overrides) : State :=
  { t.logged (.left (s.context.enter o).id) with context := s.context }

end State

/-! ## Steps -/

@[simp]
theorem pure_eq_ok {a b : α} : (pure a : Typing α) s = .ok b t ↔ a = b ∧ s = t :=
  ⟨fun h => EStateM.Result.ok.inj h, fun ⟨ha, hs⟩ => ha ▸ hs ▸ rfl⟩

/-- After a step that succeeds, typing goes on. -/
theorem bind_of_ok {m : Typing α} {f : α → Typing β} {a : α} (h : m s = .ok a t) :
    (m >>= f) s = f a t := by
  change EStateM.bind m f s = _
  rw [EStateM.bind, h]

/-- A step that fails ends typing. -/
theorem bind_of_error {m : Typing α} {f : α → Typing β} {fault : Fault}
    (h : m s = .error fault t) : (m >>= f) s = .error fault t := by
  change EStateM.bind m f s = _
  rw [EStateM.bind, h]

/-- Two steps succeed if each does. -/
@[simp]
theorem bind_eq_ok {m : Typing α} {f : α → Typing β} {b : β} :
    (m >>= f) s = .ok b t ↔ ∃ a r, m s = .ok a r ∧ f a r = .ok b t := by
  cases hm : m s with
  | ok a r =>
    rw [bind_of_ok hm]
    constructor
    · exact fun h => ⟨a, r, rfl, h⟩
    · rintro ⟨a', r', h, hf⟩
      cases h
      exact hf
  | error e r =>
    rw [bind_of_error hm]
    constructor
    · exact fun h => by cases h
    · rintro ⟨_, _, h, _⟩
      cases h

@[simp]
theorem raise_ne_ok {problem : Problem} {span : Span} {a : α} :
    ¬(raise problem span : Typing α) s = .ok a t :=
  fun h => by cases h

/-- What is required is the case if typing goes on. -/
@[simp]
theorem require_eq_ok {condition : Bool} {problem : Problem} {span : Span} {u : Unit} :
    require condition problem span s = .ok u t ↔ condition = true ∧ s = t := by
  cases condition with
  | true => simp [require]
  | false => simp [require]

/-- What is demanded is the case if typing goes on. -/
@[simp]
theorem demand_eq_ok {d : Demand} {ty : Ty} {span : Span} {u : Unit} :
    demand d ty span s = .ok u t ↔ d.allows ty = true ∧ s = t :=
  require_eq_ok

@[simp]
theorem log_eq_ok {event : Event} {u : Unit} : log event s = .ok u t ↔ s.logged event = t :=
  ⟨fun h => (EStateM.Result.ok.inj h).2, fun h => h ▸ rfl⟩

@[simp]
theorem context_eq_ok {cx : Context} : context s = .ok cx t ↔ s.context = cx ∧ s = t :=
  ⟨fun h => EStateM.Result.ok.inj h, fun ⟨ha, hs⟩ => ha ▸ hs ▸ rfl⟩

@[simp]
theorem fresh_eq_ok {n : Nat} : fresh s = .ok n t ↔ s.next = n ∧ s.numbered = t :=
  ⟨fun h => EStateM.Result.ok.inj h, fun ⟨ha, hs⟩ => ha ▸ hs ▸ rfl⟩

/-- Looking a name up succeeds with what is found, and leaves the state as it is. -/
@[simp]
theorem lookup_eq_ok {i : Surface.Ident} {entity : Entity} :
    lookup i s = .ok entity t ↔ s.context.find? i.text = some entity ∧ s = t := by
  unfold lookup
  simp only [bind_eq_ok, context_eq_ok, Context.lookup]
  cases h : s.context.find? i.text with
  | none => simp [h]
  | some e => simp [h]

theorem modify_eq_ok {f : State → State} {u : PUnit} :
    (modify f : Typing PUnit) s = .ok u t ↔ f s = t :=
  ⟨fun h => (EStateM.Result.ok.inj h).2, fun h => h ▸ rfl⟩

/-- A declaration succeeds where the name is not visible. -/
@[simp]
theorem declare_eq_ok {i : Surface.Ident} {entity : Entity} {u : Unit} :
    declare i entity s = .ok u t ↔
      s.context.sees i.text = false ∧ s.declared i.text entity = t := by
  unfold declare
  simp only [bind_eq_ok, context_eq_ok, Context.declare]
  cases h : s.context.sees i.text with
  | true => simp [h]
  | false => simp [h, modify_eq_ok, State.declared, State.logged]

/-- A declaration fails where the name is visible. -/
theorem declare_of_sees {i : Surface.Ident} {e : Entity} (h : s.context.sees i.text = true) :
    declare i e s = raise (.alreadyDeclared i.text) i.span s := by
  have hcx : s.context.declare i.text e = .error (.alreadyDeclared i.text) := if_pos h
  have hcontext : context s = .ok s.context s := rfl
  rw [declare, bind_of_ok hcontext, hcx]

/-- Declaring a variable gives it the next serial. -/
@[simp]
theorem declareVariable_eq_ok {i : Surface.Ident} {readOnly : Bool} {ty : Ty} {v : Variable} :
    declareVariable i readOnly ty s = .ok v t ↔ s.context.sees i.text = false ∧
      v = ⟨s.next, i.text, readOnly, ty, false⟩ ∧ s.numbered.declared i.text (.var v) = t := by
  unfold declareVariable
  simp only [bind_eq_ok, fresh_eq_ok, declare_eq_ok, pure_eq_ok]
  constructor
  · rintro ⟨_, _, ⟨rfl, rfl⟩, _, _, ⟨hsees, rfl⟩, rfl, rfl⟩
    exact ⟨hsees, rfl, rfl⟩
  · rintro ⟨hsees, rfl, rfl⟩
    exact ⟨_, _, ⟨rfl, rfl⟩, (), _, ⟨hsees, rfl⟩, rfl, rfl⟩

/-- A scope in which all goes well is left. -/
theorem inScope_of_ok {o : Overrides} {body : Typing α} {a : α}
    (h : body (s.entered o) = .ok a t) : inScope o body s = .ok a (t.leftTo s o) := by
  dsimp only [State.entered, State.logged] at h
  simp only [inScope, h]
  rfl

/-- A scope in which something fails is left too. -/
theorem inScope_of_error {o : Overrides} {body : Typing α} {fault : Fault}
    (h : body (s.entered o) = .error fault t) :
    inScope o body s = .error fault (t.leftTo s o) := by
  dsimp only [State.entered, State.logged] at h
  simp only [inScope, h]
  rfl

/-- Typing in a scope succeeds if what is done in the scope does. -/
@[simp]
theorem inScope_eq_ok {o : Overrides} {body : Typing α} {a : α} :
    inScope o body s = .ok a t ↔ ∃ r, body (s.entered o) = .ok a r ∧ r.leftTo s o = t := by
  cases hbody : body (s.entered o) with
  | ok b r =>
    rw [inScope_of_ok hbody]
    constructor
    · intro h
      cases h
      exact ⟨r, rfl, rfl⟩
    · rintro ⟨r', h, rfl⟩
      cases h
      rfl
  | error e r =>
    rw [inScope_of_error hbody]
    constructor
    · exact fun h => by cases h
    · rintro ⟨_, h, _⟩
      cases h

@[simp]
theorem typeNamed_eq_ok {i : Surface.Ident} {ty : Ty} :
    typeNamed i s = .ok ty t ↔ Ty.ofName? i.text = some ty ∧ s = t := by
  unfold typeNamed
  cases h : Ty.ofName? i.text with
  | none => simp
  | some ty' => simp

/-- A variable may be assigned to if it is found and not read-only. -/
@[simp]
theorem assignable_eq_ok {i : Surface.Ident} {v : Variable} :
    assignable i s = .ok v t ↔
      s.context.find? i.text = some (.var v) ∧ v.readOnly = false ∧ s = t := by
  unfold assignable
  simp only [bind_eq_ok, lookup_eq_ok]
  constructor
  · rintro ⟨entity, _, ⟨hfind, rfl⟩, h⟩
    cases entity with
    | auto a => exact absurd h raise_ne_ok
    | var w =>
      simp only [bind_eq_ok, require_eq_ok, pure_eq_ok, Bool.not_eq_true'] at h
      obtain ⟨_, _, ⟨hw, rfl⟩, rfl, rfl⟩ := h
      exact ⟨hfind, hw, rfl⟩
  · rintro ⟨hfind, hv, rfl⟩
    refine ⟨_, _, ⟨hfind, rfl⟩, ?_⟩
    refine bind_eq_ok.2 ⟨(), s, require_eq_ok.2 ⟨?_, rfl⟩, rfl⟩
    rw [hv]
    rfl

/-! ## Calls -/

/-- What is called is an automation that is found. -/
@[simp]
theorem callee_eq_ok {i : Surface.Ident} {a : Automation} :
    callee i s = .ok a t ↔ s.context.find? i.text = some (.auto a) ∧ s = t := by
  unfold callee
  simp only [bind_eq_ok, lookup_eq_ok]
  constructor
  · rintro ⟨entity, _, ⟨hfind, rfl⟩, h⟩
    cases entity with
    | auto b =>
      obtain ⟨rfl, rfl⟩ := pure_eq_ok.1 h
      exact ⟨hfind, rfl⟩
    | var v => exact absurd h raise_ne_ok
  · rintro ⟨hfind, rfl⟩
    exact ⟨_, _, ⟨hfind, rfl⟩, rfl⟩

/-- The parameter accepts the argument. -/
def Accepts (p : Param) (arg : Program.Expr) : Prop :=
  p.ty.accepts arg.ty = true

/-- Arguments are accepted if each parameter accepts its own. -/
theorem checkArgs_eq_ok {args : List Program.Expr} {spans : List Span} {params : List Param}
    {u : Unit} (hspans : spans.length = args.length) (hparams : args.length = params.length)
    {index : Nat} :
    checkArgs index (args.zip spans) params s = .ok u t ↔
      List.Forall₂ Accepts params args ∧ s = t := by
  induction args generalizing spans params index with
  | nil =>
    cases params with
    | nil => simp [checkArgs]
    | cons p params => cases hparams
  | cons arg args ih =>
    cases spans with
    | nil => cases hspans
    | cons span spans =>
      cases params with
      | nil => cases hparams
      | cons p params =>
        simp only [List.zip_cons_cons, checkArgs, bind_eq_ok, require_eq_ok, List.forall₂_cons]
        constructor
        · rintro ⟨_, _, ⟨harg, rfl⟩, hrest⟩
          obtain ⟨hall, rfl⟩ := (ih (Nat.succ.inj hspans) (Nat.succ.inj hparams)).1 hrest
          exact ⟨⟨harg, hall⟩, rfl⟩
        · rintro ⟨⟨harg, hall⟩, rfl⟩
          refine ⟨(), s, ⟨harg, rfl⟩, ?_⟩
          exact (ih (Nat.succ.inj hspans) (Nat.succ.inj hparams)).2 ⟨hall, rfl⟩

/-- A call succeeds if each parameter accepts its argument. -/
theorem checkCall_eq_ok {a : Automation} {args : List Program.Expr} {spans : List Span}
    {span : Span} {u : Unit} (hspans : spans.length = args.length) :
    checkCall a args spans span s = .ok u t ↔
      List.Forall₂ Accepts a.params args ∧ s = t := by
  unfold checkCall
  simp only [bind_eq_ok, require_eq_ok, beq_iff_eq]
  constructor
  · rintro ⟨_, _, ⟨hlength, rfl⟩, h⟩
    exact (checkArgs_eq_ok hspans hlength).1 h
  · rintro ⟨hall, rfl⟩
    have hlength := hall.length_eq.symm
    exact ⟨(), s, ⟨hlength, rfl⟩, (checkArgs_eq_ok hspans hlength).2 ⟨hall, rfl⟩⟩

/-! ## Automations -/

/-- There is an automation around a place if the context has one. -/
@[simp]
theorem enclosing_eq_ok {span : Span} {a : Automation} :
    enclosing span s = .ok a t ↔ s.context.automation = some a ∧ s = t := by
  unfold enclosing
  simp only [bind_eq_ok, context_eq_ok]
  constructor
  · rintro ⟨_, _, ⟨rfl, rfl⟩, h⟩
    cases ha : s.context.automation with
    | none =>
      rw [ha] at h
      exact absurd h raise_ne_ok
    | some b =>
      rw [ha] at h
      obtain ⟨rfl, rfl⟩ := pure_eq_ok.1 h
      exact ⟨rfl, rfl⟩
  · rintro ⟨ha, rfl⟩
    refine ⟨_, _, ⟨rfl, rfl⟩, ?_⟩
    rw [ha]
    rfl

end Toal.Typing
