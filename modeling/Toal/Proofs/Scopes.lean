import Toal.Proofs.TypingWalk
import Toal.Proofs.Visibility

/-!
# Scopes are left in order

The journal says which scopes are entered and left, and in which scope names are
bound. Carrying that out on a context of one's own is possible only if scopes
are left innermost first and names are bound in the innermost one
(`Context.replay?`).

Every step of typing keeps to that, whether or not it raises a fault, and so do
walks (`Walk.balanced`): they leave the frames around the current one as they are,
and what they put in the journal can be carried out and leads back to where they
began. So the scope that is left after its body is the current one, also when a
fault passes through it (`ScopeBody.exit?_eq`), and the journal of a program can
be carried out as a whole (`replay_run`).
-/

namespace Toal

namespace Context

/-- The context after an event of the journal, unless scopes are not entered and
    left in order or a name is bound elsewhere than in the current scope. -/
def replay? (cx : Context) : Event → Option Context
  | .entered id => if (cx.enter {}).id = id then some (cx.enter {}) else none
  | .left id => (cx.exit? id).join
  | .bound id _ => if cx.id = id then some cx else none
  | _ => some cx

/-- The context after the events of a list. -/
def replay (cx : Context) (events : List Event) : Option Context :=
  events.foldlM replay? cx

variable {cx : Context}

/-- Events are replayed one after the other. -/
theorem replay_append (events events' : List Event) :
    cx.replay (events ++ events') = (cx.replay events).bind (·.replay events') :=
  List.foldlM_append

theorem replay_singleton (event : Event) : cx.replay [event] = cx.replay? event := by
  simp [replay]

/-- Entering a scope, events that lead back, and leaving the scope lead back. -/
theorem replay_scope {events : List Event} {id : Nat} (hid : id = cx.id + 1)
    (h : (cx.enter {}).replay events = some (cx.enter {})) :
    cx.replay (.entered id :: events ++ [Event.left id]) = some cx := by
  have henter : cx.replay [.entered id] = some (cx.enter {}) := by
    rw [replay_singleton, hid]
    exact if_pos rfl
  have hleave : (cx.enter {}).replay [.left id] = some cx := by
    rw [replay_singleton, hid]
    exact congrArg Option.join (exit?_of_outer rfl)
  rw [← List.singleton_append, replay_append, replay_append, henter, Option.bind_some, h,
    Option.bind_some, hleave]

end Context

namespace Typing

variable {α β : Type} {s t r : State}

/-- The state after a computation, whatever comes of it. -/
def stateAfter (m : Typing α) (s : State) : State :=
  match m s with
  | .ok _ t => t
  | .error _ t => t

/-- Between the two states scopes were entered and left in order. -/
structure Balanced (s t : State) : Prop where
  /-- The frames around the current one are the same. -/
  outer : t.context.outer = s.context.outer
  /-- What was put in the journal can be carried out and leads back. -/
  journal : ∃ events, t.journal.toList = s.journal.toList ++ events ∧
    ∀ cx : Context, cx.id = s.context.id → cx.replay events = some cx

/-! ## States -/

namespace Balanced

theorem refl (s : State) : Balanced s s :=
  ⟨rfl, [], by simp, fun _ _ => rfl⟩

/-- Scopes that are balanced up to a state and from there on are balanced. -/
theorem trans (h : Balanced s t) (h' : Balanced t r) : Balanced s r := by
  obtain ⟨events, hevents, hreplay⟩ := h.journal
  obtain ⟨events', hevents', hreplay'⟩ := h'.journal
  have hid : t.context.id = s.context.id := congrArg List.length h.outer
  refine ⟨h'.outer.trans h.outer, events ++ events', ?_, fun cx hcx => ?_⟩
  · rw [hevents', hevents, List.append_assoc]
  · rw [Context.replay_append, hreplay cx hcx]
    exact hreplay' cx (hcx.trans hid.symm)

/-- An event that concerns no other scope than the current one. -/
theorem logged {event : Event}
    (h : ∀ cx : Context, cx.id = s.context.id → cx.replay? event = some cx) :
    Balanced s (s.logged event) := by
  refine ⟨rfl, [event], by simp [State.logged], fun cx hcx => ?_⟩
  rw [Context.replay_singleton, h cx hcx]

/-- A declaration keeps scopes balanced. -/
theorem declared (name : String) (entity : Entity) : Balanced s (s.declared name entity) := by
  have hlogged : Balanced s (s.logged (.bound s.context.id name)) := logged fun _ hcx => if_pos hcx
  exact ⟨rfl, hlogged.journal⟩

/-- A scope of its own, if its body enters and leaves scopes in order. -/
theorem leftTo {o : Overrides} (h : Balanced (s.entered o) t) : Balanced s (t.leftTo s o) := by
  obtain ⟨events, hevents, hreplay⟩ := h.journal
  -- Overrides are not in the journal, so the scope is replayed without them.
  refine ⟨rfl, .entered (s.context.id + 1) :: events ++ [Event.left (s.context.id + 1)], ?_, ?_⟩
  · change (t.journal.push _).toList = _
    rw [Array.toList_push, hevents]
    change (s.journal.push _).toList ++ _ ++ _ = _
    simp [Context.id, Context.enter, Context.frames]
  · intro cx hcx
    exact Context.replay_scope (by rw [hcx]) (hreplay _ (congrArg (· + 1) hcx))

end Balanced

/-! ## Steps -/

/-- Computations that keep scopes balanced do so in sequence. -/
theorem balanced_bind {m : Typing α} {f : α → Typing β} (hm : Balanced s (stateAfter m s))
    (hf : ∀ a t, m s = .ok a t → Balanced t (stateAfter (f a) t)) :
    Balanced s (stateAfter (m >>= f) s) := by
  cases hs : m s with
  | ok a t =>
    rw [stateAfter, hs] at hm
    rw [stateAfter, bind_of_ok hs]
    exact hm.trans (hf a t hs)
  | error e t =>
    rw [stateAfter, hs] at hm
    rwa [stateAfter, bind_of_error hs]

/-- Raising a problem keeps scopes balanced. -/
theorem balanced_raise (problem : Problem) (span : Source.Span) (s : State) :
    Balanced s (stateAfter (raise problem span : Typing α) s) :=
  .logged fun _ _ => rfl

/-- Looking up a name keeps scopes balanced. -/
theorem balanced_lookup (i : Surface.Ident) (s : State) : Balanced s (stateAfter (lookup i) s) := by
  refine balanced_bind (.refl s) fun cx t _ => ?_
  cases cx.lookup i.text with
  | ok entity => exact .refl t
  | error problem => exact balanced_raise problem i.span t

/-- Declaring a name keeps scopes balanced. -/
theorem balanced_declare (i : Surface.Ident) (entity : Entity) (s : State) :
    Balanced s (stateAfter (declare i entity) s) := by
  cases hsees : s.context.sees i.text with
  | false =>
    have hok : declare i entity s = .ok () (s.declared i.text entity) :=
      declare_eq_ok.2 ⟨hsees, rfl⟩
    rw [stateAfter, hok]
    exact .declared i.text entity
  | true =>
    rw [stateAfter, declare_of_sees hsees]
    exact balanced_raise (α := Unit) (.alreadyDeclared i.text) i.span s

/-- After a scope, the state is the one after its body, with the scope left. -/
theorem stateAfter_inScope (o : Overrides) (body : Typing α) (s : State) :
    stateAfter (inScope o body) s = (stateAfter body (s.entered o)).leftTo s o := by
  cases hbody : body (s.entered o) with
  | ok a t => rw [stateAfter, stateAfter, inScope_of_ok hbody, hbody]
  | error e t => rw [stateAfter, stateAfter, inScope_of_error hbody, hbody]

/-- Events that are no traces do not concern scopes. -/
theorem replay?_of_level {event : Event} (h : event.level = .debug) (cx : Context) :
    cx.replay? event = some cx := by
  cases event with
  | entered scope => cases h
  | left scope => cases h
  | bound scope name => cases h
  | _ => rfl

/-- A walk enters and leaves scopes in order. -/
theorem Walk.balanced {V : Entity → Prop} {m : Typing α} {Q : α → Prop} (h : Walk V m Q)
    (hs : s.context.All V) : Balanced s (stateAfter m s) := by
  induction h generalizing s with
  | pure h => exact .refl s
  | bind hm hf ihm ihf =>
    refine balanced_bind (ihm hs) fun a t ha => ?_
    -- The second part is a walk only for results with the postcondition of the first.
    obtain ⟨hQ, ht⟩ := hm.ensures hs ha
    exact ihf a hQ ht
  | raise problem span => exact balanced_raise problem span s
  | log h => exact .logged fun cx _ => replay?_of_level h cx
  | context => exact .refl s
  | fresh => exact ⟨rfl, (Balanced.refl s).journal⟩
  | lookup i => exact balanced_lookup i s
  | declare i he => exact balanced_declare i _ s
  | inScope o h ih =>
    rw [stateAfter_inScope]
    exact (ih (hs.enter o)).leftTo

/-! ## Bodies and programs -/

/-- The bodies for which typing opens a scope: those of the two kinds of loops,
    and those of automations. -/
inductive ScopeBody : {α : Type} → Typing α → Prop
  | loopWhile (body : Surface.Block) : ScopeBody (typeBlock body)
  | loopOver (item : Surface.Ident) (body : Surface.Block) : ScopeBody do
      let v ← declareVariable item false .any
      let stmts ← typeBlock body
      return (v, stmts)
  | automate (params : List (Surface.Param × Param)) (body : Surface.Block) : ScopeBody do
      let vars ← declareParams params
      let stmts ← typeBlock body
      return (vars, stmts)

/-- Nothing is asked of the entities that are visible. -/
abbrev Any (_ : Entity) : Prop := True

theorem all_any (cx : Context) : cx.All Any :=
  fun _ _ => ⟨fun _ _ => trivial, fun _ _ => trivial⟩

theorem admits_any : Admits Any :=
  fun _ _ => trivial

/-- A body is a walk through the program. -/
theorem ScopeBody.walk {body : Typing α} (h : ScopeBody body) : ∃ Q, Walk Any body Q := by
  cases h with
  | loopWhile body => exact ⟨_, walk_typeBlock admits_any body⟩
  | loopOver item body =>
    exact ⟨_, walk_declarations (walk_declareVariable admits_any item _ _)
      (walk_typeBlock admits_any body)⟩
  | automate params body =>
    exact ⟨_, walk_declarations (walk_declareParams admits_any params)
      (walk_typeBlock admits_any body)⟩

/-- After its body the scope that was opened for it is the current one, and
    leaving it leads back, also when a fault passes through. -/
theorem ScopeBody.exit?_eq {body : Typing α} (h : ScopeBody body) (s : State) (o : Overrides) :
    (stateAfter body (s.entered o)).context.exit? (s.context.enter o).id =
      some (some s.context) := by
  obtain ⟨Q, hwalk⟩ := h.walk
  exact Context.exit?_of_outer (hwalk.balanced (all_any _)).outer

/-- There is no frame around the standard one. -/
theorem outer_ofEntities (entities : List Entity) : (Context.ofEntities entities).outer = [] := by
  have h : ∀ cx : Context, (entities.foldl Context.insert cx).outer = cx.outer := by
    induction entities with
    | nil => exact fun _ => rfl
    | cons e es ih => exact fun cx => ih (cx.insert e)
  exact h .empty

theorem journal_run (entities : List Entity) (stmts : List Surface.Stmt) :
    (run entities stmts).2 = (stateAfter (typeProgram stmts) (.start entities)).journal := by
  unfold run stateAfter
  cases typeProgram stmts (.start entities) with
  | ok program s => rfl
  | error fault s => rfl

/-- The journal of typing a program can be carried out, from the outermost scope
    and back to it. -/
theorem replay_run (entities : List Entity) (stmts : List Surface.Stmt) {cx : Context}
    (hcx : cx.id = 0) : cx.replay (run entities stmts).2.toList = some cx := by
  have hwalk := walk_typeProgram admits_any stmts
  obtain ⟨events, hevents, hreplay⟩ := (hwalk.balanced (s := .start entities) (all_any _)).journal
  rw [journal_run, hevents]
  refine hreplay cx (hcx.trans ?_)
  exact (congrArg List.length (outer_ofEntities entities)).symm

end Typing

end Toal
