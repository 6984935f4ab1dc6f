import Mathlib.Data.List.GetD
import Toal.Proofs.References
import Toal.Proofs.Semantics

/-!
# What runs bind

A declaration is executed at most once in a scope, as the loop bodies and calls that
may repeat it open scopes of their own. So a run never declares an entity in a scope
that binds it already. Nor does it assign to a read-only variable, and it changes no
list unless it is called to: each of its actions is *tame* in the state in which it
is taken (`Action.Tame`).

This holds of the programs whose text has these properties (`stmtsSteady`). It takes
an invariant of the computations that execute them: their actions are tame, and in
the scopes that are open when they begin they bind nothing new, except for what the
statements declare in the innermost one (`Adds`). The invariant is kept by every step
and by putting computations together; from that it follows for every program at
every depth (`orderly_trace`).
-/

namespace Toal

open Program (Expr Stmt stmtsExposed stmtsCalls exprsCalls)

/-- The automation is one that changes a list. -/
def Automation.ChangesList (a : Automation) : Prop :=
  a.builtin = true ∧ (a.name = "append" ∨ a.name = "remove")

namespace Program

mutual

/-- The statement assigns to no read-only variable, and in every scope that it opens
    no entity is declared twice. -/
def Stmt.Steady : Stmt → Prop
  | .assign target _ => target.readOnly = false
  | .change _ target _ => target.readOnly = false
  | .automate _ params body =>
    (stmtsExposed body ++ params.map Entity.var).Nodup ∧ stmtsSteady body
  | .ifElse _ body none => stmtsSteady body
  | .ifElse _ body (some alternate) => stmtsSteady body ∧ stmtsSteady alternate
  | .loopWhile _ body => (stmtsExposed body).Nodup ∧ stmtsSteady body
  | .loopOver item _ body => (stmtsExposed body ++ [Entity.var item]).Nodup ∧ stmtsSteady body
  | _ => True

/-- The statements assign to no read-only variable, and in every scope that they open
    no entity is declared twice. -/
def stmtsSteady : List Stmt → Prop
  | [] => True
  | s :: ss => s.Steady ∧ stmtsSteady ss

end

end Program

open Program (stmtsSteady)

namespace Semantics

variable {N α β : Type}

/-- The value that a scope binds an entity to. -/
def State.value? (s : State N) (scope : Nat) (e : Entity) : Option (Value N) :=
  (s.scopes.getD scope []).lookup e

/-- The entities that a scope binds. -/
def State.bound (s : State N) (scope : Nat) : List Entity :=
  (s.scopes.getD scope []).map Prod.fst

/-- The scope is open and does not bind the entity. -/
def State.Free (s : State N) (scope : Nat) (e : Entity) : Prop :=
  scope < s.scopes.length ∧ e ∉ s.bound scope

/-- What an action makes of the elements of a list. -/
def Meaning.onList (M : Meaning N) (list : Nat) (xs : List (Value N)) : Action N → List (Value N)
  | .append x l => if l = list then xs ++ [x] else xs
  | .remove x l => if l = list then xs.eraseP (M.same x) else xs
  | _ => xs

section

variable (changes : Prop)

/-- If there is a call that changes a list, then lists may change. -/
def Permitted (calls : List (Automation × Nat)) : Prop :=
  ∀ call ∈ calls, call.1.ChangesList → changes

/-- A call of the closure assigns to no read-only variable and declares no entity
    twice in one scope. -/
structure Closure.Steady (c : Closure) : Prop where
  nodup : (stmtsExposed c.body ++ c.params.map Entity.var).Nodup
  body : stmtsSteady c.body
  calls : Permitted changes (stmtsCalls c.body)

/-- An action that a run may take in the given state. -/
def Action.Tame (s : State N) : Action N → Prop
  | .declare scope e x => s.Free scope e ∧ ∀ a, e = .auto a → ∃ b id, x = .auto b id
  | .assign _ e _ => ∃ v, e = .var v ∧ v.readOnly = false
  | .newScope bindings => ∀ b ∈ bindings, ∃ v, b.1 = .var v
  | .newClosure c => c.Steady changes
  | .append _ _ => changes
  | .remove _ _ => changes
  | .newList _ => True
  | .print _ => True

/-- Closures are steady, and automations are bound to closures. -/
structure State.Tame (s : State N) : Prop where
  closures : ∀ c ∈ s.closures, c.Steady changes
  autos : ∀ scope a x, s.value? scope (.auto a) = some x → ∃ b id, x = .auto b id

/-- Each of the actions may be taken in the state in which it is taken. -/
def TameFrom (M : Meaning N) (s : State N) : List (Action N) → Prop
  | [] => True
  | a :: as => a.Tame changes s ∧ TameFrom M (M.act s a) as

end

variable {M : Meaning N} {changes : Prop} {s t u : State N} {a : Action N}
  {scope k : Nat} {e e' : Entity} {x y : Value N}

/-! ## Scopes -/

/-- Modifying one list leaves the others as they are. -/
theorem getD_modify {γ : Type} (ls : List (List γ)) (i k : Nat) (f : List γ → List γ) :
    (ls.modify i f).getD k [] =
      if i = k ∧ k < ls.length then f (ls.getD k []) else ls.getD k [] := by
  rw [List.getD_eq_getElem?_getD, List.getD_eq_getElem?_getD, List.getElem?_modify]
  by_cases hk : k < ls.length
  · rw [List.getElem?_eq_getElem hk]
    by_cases hi : i = k
    · simp [hi, hk]
    · simp [hi]
  · rw [List.getElem?_eq_none (Nat.le_of_not_lt hk), if_neg fun h => hk h.2]
    rfl

theorem getD_concat_of_lt {γ : Type} (ls : List (List γ)) (l : List γ) {k : Nat}
    (hk : k < ls.length) : (ls ++ [l]).getD k [] = ls.getD k [] := by
  rw [List.getD_eq_getElem?_getD, List.getD_eq_getElem?_getD, List.getElem?_append_left hk]

/-- What has a value is bound. -/
theorem State.mem_bound_of_value? (h : s.value? k e = some x) : e ∈ s.bound k := by
  obtain ⟨l₁, l₂, hl, -⟩ := List.lookup_eq_some_iff.1 h
  rw [State.bound, hl]
  simp

/-- Only open scopes bind something. -/
theorem State.lt_of_mem_bound (h : e ∈ s.bound k) : k < s.scopes.length := by
  by_contra hk
  rw [State.bound, List.getD_eq_default _ _ (Nat.le_of_not_lt hk)] at h
  cases h

/-- A declaration gives its entity the value in its scope, and changes no other. -/
theorem value?_declare (s : State N) (scope k : Nat) (e e' : Entity) (x : Value N) :
    (M.act s (.declare scope e x)).value? k e' =
      if scope = k ∧ k < s.scopes.length ∧ e' = e then some x else s.value? k e' := by
  rw [State.value?, State.value?, Meaning.act, getD_modify]
  by_cases hk : scope = k ∧ k < s.scopes.length
  · rw [if_pos hk, List.lookup_cons]
    by_cases he : e' = e
    · rw [if_pos ⟨hk.1, hk.2, he⟩, beq_iff_eq.2 he]
    · rw [if_neg fun h => he h.2.2, beq_eq_false_iff_ne.2 he]
  · rw [if_neg hk, if_neg fun h => hk ⟨h.1, h.2.1⟩]

/-- An assignment gives its entity the value in its scope, and changes no other. -/
theorem value?_assign (s : State N) (scope k : Nat) (e e' : Entity) (x : Value N) :
    (M.act s (.assign scope e x)).value? k e' =
      if scope = k ∧ k < s.scopes.length ∧ e' = e then some x else s.value? k e' :=
  value?_declare (M := M) s scope k e e' x

/-- A declaration binds its entity in its scope and nothing else. -/
theorem mem_bound_declare (h : e' ∈ (M.act s (.declare scope e x)).bound k) :
    e' ∈ s.bound k ∨ (k = scope ∧ e' = e) := by
  rw [State.bound, Meaning.act, getD_modify] at h
  split at h
  · next hk =>
    rcases List.mem_cons.1 h with rfl | h
    · exact .inr ⟨hk.1.symm, rfl⟩
    · exact .inl h
  · exact .inl h

/-- No action removes a scope. -/
theorem length_scopes_act (M : Meaning N) (s : State N) (a : Action N) :
    s.scopes.length ≤ (M.act s a).scopes.length := by
  cases a with
  | declare scope e x => exact Nat.le_of_eq (List.length_modify _ _ _).symm
  | assign scope e x => exact Nat.le_of_eq (List.length_modify _ _ _).symm
  | newScope bindings =>
    rw [Meaning.act, List.length_append]
    exact Nat.le_add_right _ _
  | _ => exact Nat.le_refl _

/-! ## What an action leaves as it was -/

/-- A tame action leaves the values of read-only variables as they are. -/
theorem value?_act {v : Variable} (ha : a.Tame changes s) (hv : v.readOnly = true)
    (hx : s.value? k (.var v) = some x) : (M.act s a).value? k (.var v) = some x := by
  cases a with
  | declare scope e y =>
    rw [value?_declare, if_neg, hx]
    rintro ⟨rfl, -, rfl⟩
    exact ha.1.2 (State.mem_bound_of_value? hx)
  | assign scope e y =>
    obtain ⟨w, rfl, hw⟩ := ha
    rw [value?_assign, if_neg, hx]
    rintro ⟨-, -, heq⟩
    cases heq
    rw [hv] at hw
    cases hw
  | newScope bindings =>
    have hk := State.lt_of_mem_bound (State.mem_bound_of_value? hx)
    rw [State.value?, Meaning.act, getD_concat_of_lt _ _ hk]
    exact hx
  | _ => exact hx

/-- An action changes the elements of a list as `onList` says. -/
theorem lists_act {list : Nat} {xs : List (Value N)} (hxs : s.lists[list]? = some xs)
    (a : Action N) : (M.act s a).lists[list]? = some (M.onList list xs a) := by
  cases a with
  | newList elements =>
    obtain ⟨hlist, -⟩ := List.getElem?_eq_some_iff.1 hxs
    rw [Meaning.act, List.getElem?_append_left hlist]
    exact hxs
  | append y l =>
    rw [Meaning.act, List.getElem?_modify, hxs]
    rfl
  | remove y l =>
    rw [Meaning.act, List.getElem?_modify, hxs]
    rfl
  | _ => exact hxs

/-- A tame action leaves the elements of lists as they are, if it is not to change
    them. -/
theorem onList_eq {list : Nat} {xs : List (Value N)} (ha : a.Tame False s) :
    M.onList list xs a = xs := by
  cases a with
  | append y l => exact ha.elim
  | remove y l => exact ha.elim
  | _ => rfl

/-- A tame action keeps the state tame. -/
theorem State.Tame.act (hs : s.Tame changes) (ha : a.Tame changes s) :
    (M.act s a).Tame changes := by
  cases a with
  | declare scope e y =>
    refine ⟨hs.closures, fun k b x hx => ?_⟩
    rw [value?_declare] at hx
    split at hx
    · next hk =>
      cases hx
      exact ha.2 b hk.2.2.symm
    · exact hs.autos k b x hx
  | assign scope e y =>
    -- Only variables are assigned, so automations stay what they are bound to.
    obtain ⟨w, rfl, -⟩ := ha
    refine ⟨hs.closures, fun k b x hx => ?_⟩
    rw [value?_assign, if_neg fun h => nomatch h.2.2] at hx
    exact hs.autos k b x hx
  | newScope bindings =>
    refine ⟨hs.closures, fun k b x hx => ?_⟩
    rcases Nat.lt_trichotomy k s.scopes.length with hk | rfl | hk
    · rw [State.value?, Meaning.act, getD_concat_of_lt _ _ hk] at hx
      exact hs.autos k b x hx
    · obtain ⟨l₁, l₂, hl, -⟩ := List.lookup_eq_some_iff.1 hx
      rw [Meaning.act, List.getD_eq_getElem?_getD, List.getElem?_concat_length,
        Option.getD_some] at hl
      obtain ⟨v, hv⟩ := ha (.auto b, x) (hl ▸ List.mem_append_right _ List.mem_cons_self)
      cases hv
    · have hlt := State.lt_of_mem_bound (State.mem_bound_of_value? hx)
      rw [Meaning.act, List.length_append] at hlt
      exact absurd hlt (Nat.not_lt.2 hk)
  | newClosure c =>
    refine ⟨fun c' hc' => ?_, hs.autos⟩
    rcases List.mem_append.1 hc' with hc' | hc'
    · exact hs.closures c' hc'
    · rw [List.mem_singleton.1 hc']
      exact ha
  | _ => exact ⟨hs.closures, hs.autos⟩

/-! ## What tame actions leave as it was -/

namespace TameFrom

/-- Actions are tame in sequence if the first ones are, and the others from where these
    lead. -/
theorem append_iff {as bs : List (Action N)} :
    TameFrom changes M s (as ++ bs) ↔
      TameFrom changes M s as ∧ TameFrom changes M (as.foldl M.act s) bs := by
  induction as generalizing s with
  | nil => exact ⟨fun h => ⟨trivial, h⟩, fun h => h.2⟩
  | cons a as ih => rw [List.cons_append, TameFrom, ih, TameFrom, and_assoc, List.foldl_cons]

/-- Tame actions keep the state tame. -/
theorem tame {as : List (Action N)} (has : TameFrom changes M s as) (hs : s.Tame changes) :
    (as.foldl M.act s).Tame changes := by
  induction as generalizing s with
  | nil => exact hs
  | cons a as ih => exact ih has.2 (hs.act has.1)

/-- A read-only variable keeps its value through tame actions. -/
theorem value? {as : List (Action N)} {v : Variable} (has : TameFrom changes M s as)
    (hv : v.readOnly = true) (hx : s.value? k (.var v) = some x) :
    (as.foldl M.act s).value? k (.var v) = some x := by
  induction as generalizing s with
  | nil => exact hx
  | cons a as ih => exact ih has.2 (value?_act has.1 hv hx)

/-- If lists may not change, then no list changes. -/
theorem foldl_onList {as : List (Action N)} {list : Nat} {xs : List (Value N)}
    (has : TameFrom False M s as) : as.foldl (M.onList list) xs = xs := by
  induction as generalizing s with
  | nil => rfl
  | cons a as ih => rw [List.foldl_cons, onList_eq has.1, ih has.2]

end TameFrom

/-- The elements of a list after some actions are what the actions make of them. -/
theorem lists_foldl {list : Nat} {xs : List (Value N)} (hxs : s.lists[list]? = some xs)
    (as : List (Action N)) :
    (as.foldl M.act s).lists[list]? = some (as.foldl (M.onList list) xs) := by
  induction as generalizing s xs with
  | nil => exact hxs
  | cons a as ih => exact ih (lists_act hxs a)

/-- The actions of a run so far may be taken one after the other. -/
def Orderly (changes : Prop) (M : Meaning N) (actions : List (Action N)) : Prop :=
  TameFrom changes M Meaning.start actions

/-- An orderly run leads to a tame state. -/
theorem Orderly.tame {actions : List (Action N)} (h : Orderly changes M actions) :
    (M.after actions).Tame changes :=
  TameFrom.tame h ⟨List.forall_mem_nil _, fun scope a x hx => by
    have hmem := State.mem_bound_of_value? hx
    match scope with
    | 0 => cases hmem
    | _ + 1 => cases hmem⟩

/-- An orderly run may go on with a tame action. -/
theorem Orderly.concat {actions : List (Action N)} (h : Orderly changes M actions)
    (ha : a.Tame changes (M.after actions)) : Orderly changes M (actions ++ [a]) :=
  TameFrom.append_iff.2 ⟨h, ha, trivial⟩

/-! ## What computations bind -/

/-- Between the two states, the open scopes have come to bind nothing new, except for
    the given entities in the given scope. -/
structure Grows (scope : Nat) (es : List Entity) (s t : State N) : Prop where
  length_le : s.scopes.length ≤ t.scopes.length
  bound : ∀ k < s.scopes.length, ∀ e ∈ t.bound k, e ∈ s.bound k ∨ (k = scope ∧ e ∈ es)

namespace Grows

variable {es es' : List Entity}

theorem refl (s : State N) : Grows scope es s s := ⟨Nat.le_refl _, fun _ _ _ he => .inl he⟩

/-- What the scope comes to bind in two steps. -/
theorem trans (h : Grows scope es s t) (h' : Grows scope es' t u) :
    Grows scope (es' ++ es) s u := by
  refine ⟨Nat.le_trans h.length_le h'.length_le, fun k hk e he => ?_⟩
  rcases h'.bound k (Nat.lt_of_lt_of_le hk h.length_le) e he with he | ⟨hscope, he⟩
  · rcases h.bound k hk e he with he | ⟨hscope, he⟩
    · exact .inl he
    · exact .inr ⟨hscope, List.mem_append_right _ he⟩
  · exact .inr ⟨hscope, List.mem_append_left _ he⟩

theorem mono (h : Grows scope es s t) (hes : es ⊆ es') : Grows scope es' s t :=
  ⟨h.length_le, fun k hk e he => (h.bound k hk e he).imp_right fun he => ⟨he.1, hes he.2⟩⟩

/-- Where nothing new is bound, the choice of the scope does not matter. -/
theorem of_nil (h : Grows k [] s t) : Grows scope es s t :=
  ⟨h.length_le, fun k hk e he => (h.bound k hk e he).imp_right fun he => nomatch he.2⟩

/-- An entity that is not among the new ones stays free. -/
theorem free (h : Grows scope es s t) (he : s.Free scope e) (hes : e ∉ es) : t.Free scope e :=
  ⟨Nat.lt_of_lt_of_le he.1 h.length_le, fun hin =>
    (h.bound scope he.1 e hin).elim he.2 fun hin => hes hin.2⟩

end Grows

/-- The actions after a computation. -/
def recordOf : EStateM.Result (Stop N) (List (Action N)) α → List (Action N)
  | .ok _ actions => actions
  | .error _ actions => actions

/-- If the scope does not bind the entities before the computation, then its actions
    are tame, and it binds nothing in open scopes but these entities in this scope. -/
def Adds (changes : Prop) (M : Meaning N) (scope : Nat) (es : List Entity) (m : Exec N α) :
    Prop :=
  ∀ actions, Orderly changes M actions → (∀ e ∈ es, (M.after actions).Free scope e) →
    Orderly changes M (recordOf (m actions)) ∧
      Grows scope es (M.after actions) (M.after (recordOf (m actions)))

/-- The computation binds nothing in open scopes. -/
def Quiet (changes : Prop) (M : Meaning N) (m : Exec N α) : Prop := Adds changes M 0 [] m

/-- The computation can have the result, after tame actions. -/
def Gives (changes : Prop) (M : Meaning N) (m : Exec N α) (b : α) : Prop :=
  ∃ actions actions', Orderly changes M actions ∧ m actions = .ok b actions'

variable {es es' : List Entity} {m : Exec N α} {f : α → Exec N β}

namespace Adds

theorem mono (h : Adds changes M scope es m) (hes : es ⊆ es') : Adds changes M scope es' m := by
  intro actions hactions hfree
  obtain ⟨horderly, hgrows⟩ := h actions hactions fun e he => hfree e (hes he)
  exact ⟨horderly, hgrows.mono hes⟩

/-- In sequence, computations bind what each binds, if these are different entities. -/
theorem bind (hm : Adds changes M scope es m)
    (hf : ∀ b, Gives changes M m b → Adds changes M scope es' (f b))
    (hdisjoint : ∀ e ∈ es', e ∉ es) : Adds changes M scope (es' ++ es) (m >>= f) := by
  intro actions hactions hfree
  obtain ⟨horderly, hgrows⟩ := hm actions hactions fun e he => hfree e (List.mem_append_right _ he)
  change Orderly changes M (recordOf (EStateM.bind m f actions)) ∧
    Grows scope (es' ++ es) _ (M.after (recordOf (EStateM.bind m f actions)))
  rw [EStateM.bind]
  cases hb : m actions with
  | error stop actions' =>
    rw [hb] at horderly hgrows
    exact ⟨horderly, hgrows.mono (List.subset_append_right _ _)⟩
  | ok b actions' =>
    rw [hb] at horderly hgrows
    -- What the second computation is to bind, the first one has left alone.
    have hfree' : ∀ e ∈ es', (M.after actions').Free scope e := fun e he =>
      hgrows.free (hfree e (List.mem_append_left _ he)) (hdisjoint e he)
    obtain ⟨horderly', hgrows'⟩ := hf b ⟨actions, actions', hactions, hb⟩ actions' horderly hfree'
    exact ⟨horderly', hgrows.trans hgrows'⟩

/-- A single action binds what it binds, if it is tame. -/
theorem perform {g : State N → Option (α × Action N)}
    (h : ∀ s : State N, s.Tame changes → (∀ e ∈ es, s.Free scope e) → ∀ b action,
      g s = some (b, action) → action.Tame changes s ∧ Grows scope es s (M.act s action)) :
    Adds changes M scope es (M.perform g) := by
  intro actions hactions hfree
  rw [Meaning.perform]
  cases hg : g (M.after actions) with
  | none => exact ⟨hactions, .refl _⟩
  | some r =>
    obtain ⟨htame, hgrows⟩ := h _ hactions.tame hfree r.1 r.2 hg
    refine ⟨hactions.concat htame, ?_⟩
    rw [recordOf, Meaning.after_concat]
    exact hgrows

/-- Catching an output binds nothing more. -/
theorem outputOf {m : Exec N Unit} (h : Adds changes M scope es m) :
    Adds changes M scope es (Semantics.outputOf m) := by
  intro actions hactions hfree
  have hm := h actions hactions hfree
  rw [Semantics.outputOf]
  cases hb : m actions with
  | ok b actions' =>
    rw [hb] at hm
    exact hm
  | error stop actions' =>
    rw [hb] at hm
    cases stop <;> exact hm

end Adds

namespace Quiet

/-- What binds nothing binds no more than any entities. -/
theorem adds (h : Quiet changes M m) : Adds changes M scope es m := by
  intro actions hactions _
  obtain ⟨horderly, hgrows⟩ := h actions hactions (List.forall_mem_nil _)
  exact ⟨horderly, hgrows.of_nil⟩

/-- What adds nothing to one scope adds nothing to any. -/
theorem of_adds (h : Adds changes M scope [] m) : Quiet changes M m := by
  intro actions hactions _
  obtain ⟨horderly, hgrows⟩ := h actions hactions (List.forall_mem_nil _)
  exact ⟨horderly, hgrows.of_nil⟩

/-- What binds nothing may come before what binds something. -/
theorem bind_adds (hm : Quiet changes M m)
    (hf : ∀ b, Gives changes M m b → Adds changes M scope es (f b)) :
    Adds changes M scope es (m >>= f) := by
  have hquiet : Adds changes M scope [] m := hm.adds
  have hbind := hquiet.bind hf fun _ _ => List.not_mem_nil
  rw [List.append_nil] at hbind
  exact hbind

/-- Computations that bind nothing do so in sequence. -/
theorem bind (hm : Quiet changes M m) (hf : ∀ b, Gives changes M m b → Quiet changes M (f b)) :
    Quiet changes M (m >>= f) :=
  hm.bind_adds hf

theorem pure (b : α) : Quiet changes M (Pure.pure b) :=
  fun _ hactions _ => ⟨hactions, .refl _⟩

theorem throw (stop : Stop N) : Quiet changes M (throw stop : Exec N α) :=
  fun _ hactions _ => ⟨hactions, .refl _⟩

/-- Looking at the state binds nothing. -/
theorem look (g : State N → Option α) : Quiet changes M (M.look g) := by
  intro actions hactions _
  rw [Meaning.look]
  cases g (M.after actions) with
  | none => exact ⟨hactions, .refl _⟩
  | some b => exact ⟨hactions, .refl _⟩

/-- An action that leaves the scopes alone. -/
theorem perform {g : State N → Option (α × Action N)}
    (h : ∀ s : State N, ∀ b action, g s = some (b, action) →
      action.Tame changes s ∧ (M.act s action).scopes = s.scopes) :
    Quiet changes M (M.perform g) :=
  Adds.perform fun s _ _ b action hg => by
    obtain ⟨htame, hscopes⟩ := h s b action hg
    refine ⟨htame, Nat.le_of_eq (congrArg _ hscopes.symm), fun k _ e he => .inl ?_⟩
    rw [State.bound, hscopes] at he
    exact he

end Quiet

/-- The rounds of a loop add what its first round adds. -/
theorem Adds.thenRounds {m rest : Exec N Unit} (hm : Adds changes M scope es m)
    (hrest : Quiet changes M rest) : Adds changes M scope es (Semantics.thenRounds m rest) := by
  intro actions hactions hfree
  obtain ⟨horderly, hgrows⟩ := hm actions hactions hfree
  rw [Semantics.thenRounds]
  cases hb : m actions with
  | ok b actions' =>
    rw [hb] at horderly hgrows
    have hquiet : Adds changes M scope [] rest := hrest.adds
    obtain ⟨horderly', hgrows'⟩ := hquiet actions' horderly (List.forall_mem_nil _)
    exact ⟨horderly', hgrows.trans hgrows'⟩
  | error stop actions' =>
    rw [hb] at horderly hgrows
    cases stop <;> exact ⟨horderly, hgrows⟩

/-! ### Steps -/

/-- A declaration binds its entity in the innermost scope. -/
theorem adds_declare (env : List Nat) (hauto : ∀ a, e = .auto a → ∃ b id, x = .auto b id) :
    Adds changes M scope [e] (M.declare (scope :: env) e x) :=
  .perform fun s _ hfree b action hg => by
    cases hg
    refine ⟨⟨hfree e List.mem_cons_self, hauto⟩, length_scopes_act M s _, fun k _ e' he' => ?_⟩
    exact (mem_bound_declare he').imp_right fun h => ⟨h.1, List.mem_singleton.2 h.2⟩

/-- An assignment binds nothing. -/
theorem quiet_assign (env : List Nat) {v : Variable} (hv : v.readOnly = false) :
    Quiet changes M (M.assign env (.var v) x) :=
  Adds.perform fun s _ _ b action hg => by
    obtain ⟨id, hid, hg⟩ := Option.map_eq_some_iff.1 hg
    cases hg
    refine ⟨⟨v, rfl, hv⟩, length_scopes_act M s _, fun k _ e' he' => .inl ?_⟩
    rcases mem_bound_declare (M := M) he' with he' | ⟨rfl, rfl⟩
    · exact he'
    · -- The scope that is assigned in is one that binds the variable already.
      have hsome := List.find?_some hid
      obtain ⟨y, hy⟩ := Option.isSome_iff_exists.1 hsome
      exact State.mem_bound_of_value? hy

theorem newScope_bind (bindings : List (Entity × Value N)) (f : Nat → Exec N β)
    (actions : List (Action N)) :
    (M.newScope bindings >>= f) actions =
      f (M.after actions).scopes.length (actions ++ [Action.newScope bindings]) :=
  rfl

/-- A new scope comes to bind the entities of what is computed in it, but the scopes
    that were open before do not. -/
theorem quiet_scope {bindings : List (Entity × Value N)} {f : Nat → Exec N β}
    (hvars : ∀ b ∈ bindings, ∃ v, b.1 = .var v) (hes : ∀ e ∈ es, e ∉ bindings.map Prod.fst)
    (hf : ∀ scope, Adds changes M scope es (f scope)) :
    Quiet changes M (M.newScope bindings >>= f) := by
  intro actions hactions _
  rw [newScope_bind]
  have hnew := M.after_concat actions (.newScope bindings)
  have hfree : ∀ e ∈ es, (M.after (actions ++ [Action.newScope bindings])).Free
      (M.after actions).scopes.length e := by
    intro e he
    rw [hnew, Meaning.act, State.Free, State.bound, List.length_append,
      List.getD_eq_getElem?_getD, List.getElem?_concat_length]
    exact ⟨Nat.lt_succ_self _, hes e he⟩
  obtain ⟨horderly, hgrows⟩ := hf _ _ (hactions.concat (a := .newScope bindings) hvars) hfree
  rw [hnew] at hgrows
  refine ⟨horderly, Nat.le_trans (length_scopes_act M _ _) hgrows.length_le, fun k hk e he => ?_⟩
  rcases hgrows.bound k (Nat.lt_of_lt_of_le hk (length_scopes_act M _ _)) e he with he | ⟨rfl, -⟩
  · rw [State.bound, Meaning.act, getD_concat_of_lt _ _ hk] at he
    exact .inl he
  · exact absurd hk (Nat.lt_irrefl _)

/-- Reading a variable binds nothing. -/
theorem quiet_variable (env : List Nat) (v : Variable) :
    Quiet changes M (M.readVariable env v) := by
  unfold Meaning.readVariable
  cases M.constant? v with
  | some x => exact .pure x
  | none => exact .look _

/-- Reading an automation binds nothing. -/
theorem quiet_automation (env : List Nat) (callee : Automation) :
    Quiet changes M (M.readAutomation env callee) := by
  unfold Meaning.readAutomation
  split
  · exact .pure _
  · exact .look _

/-- An automation of the language is the value of its own name only. -/
theorem standard_of_gives {env : List Nat} {callee b : Automation}
    (h : Gives changes M (M.readAutomation env callee) (.standard b)) :
    b = callee ∧ b.builtin = true := by
  obtain ⟨actions, actions', hactions, h⟩ := h
  unfold Meaning.readAutomation at h
  split at h
  · next hbuiltin =>
    cases h
    exact ⟨rfl, hbuiltin⟩
  · unfold Meaning.read Meaning.look at h
    split at h
    · next x hx =>
      cases h
      -- It is read from a scope, and scopes bind automations to closures only.
      obtain ⟨id, -, hid⟩ := List.exists_of_findSome?_eq_some hx
      obtain ⟨c, k, hc⟩ := hactions.tame.autos id callee _ hid
      cases hc
    · cases h

/-- Calling a standard automation binds nothing. -/
theorem quiet_standard {name : String} (args : List (Value N))
    (hname : name = "append" ∨ name = "remove" → changes) :
    Quiet changes M (M.callStandard name args) := by
  unfold Meaning.callStandard
  split
  · refine .bind (.perform fun s b action hg => ?_) fun _ _ => .pure _
    cases hg
    exact ⟨hname (.inl rfl), rfl⟩
  · refine .bind (.perform fun s b action hg => ?_) fun _ _ => .pure _
    cases hg
    exact ⟨hname (.inr rfl), rfl⟩
  · exact .bind (.look _) fun _ _ => .pure _
  · exact .pure _
  · refine .perform fun s b action hg => ?_
    cases hg
    exact ⟨trivial, rfl⟩
  · exact .pure _
  · exact .throw _

/-! ### Programs -/

variable {again : List Nat → Task → Exec N Unit}

/-- What is left to be done takes tame actions, and it binds what the statements
    declare in their scope. -/
structure AgainAdds (changes : Prop) (M : Meaning N) (again : List Nat → Task → Exec N Unit) :
    Prop where
  stmts : ∀ scope env ss, (stmtsExposed ss).Nodup → stmtsSteady ss →
    Permitted changes (stmtsCalls ss) →
      Adds changes M scope (stmtsExposed ss) (again (scope :: env) (.stmts ss))
  rounds : ∀ env item list index body, (stmtsExposed body ++ [Entity.var item]).Nodup →
    stmtsSteady body → Permitted changes (stmtsCalls body) →
      Quiet changes M (again env (.rounds item list index body))

/-- Applying a value to arguments binds nothing in scopes that are open. -/
theorem quiet_apply (h : AgainAdds changes M again) {f : Value N} (args : List (Value N))
    (hf : ∀ b, f = .standard b → b.name = "append" ∨ b.name = "remove" → changes) :
    Quiet changes M (M.apply again f args) := by
  cases f with
  | standard b => exact quiet_standard args (hf b rfl)
  | auto b id =>
    refine .bind (.look _) fun c hc => ?_
    -- The body is not part of the statements at hand: the state vouches for it.
    have hsteady : c.Steady changes := by
      obtain ⟨actions, actions', hactions, hlook⟩ := hc
      rw [Meaning.closure, Meaning.look] at hlook
      split at hlook
      · next c' hc' =>
        cases hlook
        exact hactions.tame.closures _ (List.mem_of_getElem? hc')
      · cases hlook
    have hkeys : ∀ b ∈ (c.params.map Entity.var).zip args, b.1 ∈ c.params.map Entity.var :=
      fun b hb => (List.of_mem_zip hb).1
    refine quiet_scope (fun b hb => ?_) (fun e he hin => ?_) fun scope =>
      .outputOf (h.stmts scope c.scopes c.body hsteady.nodup.of_append_left hsteady.body
        hsteady.calls)
    · obtain ⟨v, -, hv⟩ := List.mem_map.1 (hkeys b hb)
      exact ⟨v, hv.symm⟩
    · obtain ⟨b, hb, rfl⟩ := List.mem_map.1 hin
      exact List.disjoint_of_nodup_append hsteady.nodup he (hkeys b hb)
  | _ => exact .throw _

/-- What is called is the automation of that name, if it comes with the language. -/
theorem quiet_call (h : AgainAdds changes M again) {env : List Nat} {callee : Automation}
    {f : Value N} (hcallee : callee.ChangesList → changes)
    (hf : Gives changes M (M.readAutomation env callee) f) (args : List (Value N)) :
    Quiet changes M (M.apply again f args) := by
  refine quiet_apply h args fun b hb hname => ?_
  subst hb
  obtain ⟨rfl, hbuiltin⟩ := standard_of_gives hf
  exact hcallee ⟨hbuiltin, hname⟩

mutual

/-- Evaluating an expression binds nothing in scopes that are open. -/
theorem quiet_expr (h : AgainAdds changes M again) (env : List Nat) :
    ∀ e : Expr, Permitted changes e.calls → Quiet changes M (M.evalExpr again env e)
  | .num _, _ | .bool _, _ | .word _, _ => by
    rw [Meaning.evalExpr]
    exact .pure _
  | .var v, _ => by
    rw [Meaning.evalExpr]
    exact quiet_variable env v
  | .auto a, _ => by
    rw [Meaning.evalExpr]
    exact quiet_automation env a
  | .list elements, hcalls => by
    rw [Meaning.evalExpr]
    refine .bind (quiet_exprs h env elements hcalls) fun xs _ => .perform fun s b action hg => ?_
    cases hg
    exact ⟨trivial, rfl⟩
  | .arith op left right, hcalls => by
    obtain ⟨hleft, hright⟩ := List.forall_mem_append.1 hcalls
    rw [Meaning.evalExpr]
    exact .bind (quiet_expr h env left hleft) fun _ _ =>
      .bind (quiet_expr h env right hright) fun _ _ => .look _
  | .compare op left right, hcalls => by
    obtain ⟨hleft, hright⟩ := List.forall_mem_append.1 hcalls
    rw [Meaning.evalExpr]
    exact .bind (quiet_expr h env left hleft) fun _ _ =>
      .bind (quiet_expr h env right hright) fun _ _ => .bind (.look _) fun _ _ => .pure _
  | .paren inner, hcalls => by
    rw [Meaning.evalExpr]
    exact quiet_expr h env inner hcalls
  | .call callee args, hcalls => by
    obtain ⟨hcallee, hargs⟩ := List.forall_mem_cons.1 hcalls
    rw [Meaning.evalExpr]
    exact .bind (quiet_automation env callee) fun f hf =>
      .bind (quiet_exprs h env args hargs) fun xs _ => quiet_call h hcallee hf xs

theorem quiet_exprs (h : AgainAdds changes M again) (env : List Nat) :
    ∀ es : List Expr, Permitted changes (exprsCalls es) →
      Quiet changes M (M.evalExprs again env es)
  | [], _ => by
    rw [Meaning.evalExprs]
    exact .pure _
  | e :: es, hcalls => by
    obtain ⟨he, hes⟩ := List.forall_mem_append.1 hcalls
    rw [Meaning.evalExprs]
    exact .bind (quiet_expr h env e he) fun _ _ => .bind (quiet_exprs h env es hes) fun _ _ =>
      .pure _

end

theorem quiet_test (h : AgainAdds changes M again) (env : List Nat) (test : Expr)
    (hcalls : Permitted changes test.calls) : Quiet changes M (M.evalTest again env test) := by
  refine .bind (quiet_expr h env test hcalls) fun x _ => ?_
  cases x with
  | bool b => exact .pure b
  | _ => exact .throw _

theorem quiet_listOf (h : AgainAdds changes M again) (env : List Nat) (list : Expr)
    (hcalls : Permitted changes list.calls) : Quiet changes M (M.evalList again env list) := by
  refine .bind (quiet_expr h env list hcalls) fun x _ => ?_
  cases x with
  | list id => exact .pure id
  | _ => exact .throw _

mutual

/-- Executing a statement binds what it declares for what follows it. -/
theorem adds_stmt (h : AgainAdds changes M again) : ∀ (s : Stmt) (scope : Nat) (env : List Nat),
    s.exposed.Nodup → s.Steady → Permitted changes s.calls →
      Adds changes M scope s.exposed (M.execStmt again (scope :: env) s)
  | .declare v init, scope, env, _, _, hcalls => by
    rw [Meaning.execStmt]
    exact (quiet_expr h _ init hcalls).bind_adds fun _ _ => adds_declare env fun _ he => nomatch he
  | .assign target source, scope, env, _, hsteady, hcalls => by
    rw [Meaning.execStmt]
    exact (quiet_expr h _ source hcalls).bind_adds fun _ _ => (quiet_assign _ hsteady).adds
  | .change op target term, scope, env, _, hsteady, hcalls => by
    rw [Meaning.execStmt]
    exact (quiet_variable _ target).bind_adds fun _ _ =>
      (quiet_expr h _ term hcalls).bind_adds fun _ _ =>
        (Quiet.look _).bind_adds fun _ _ => (quiet_assign _ hsteady).adds
  | .print argument, scope, env, _, _, hcalls => by
    rw [Meaning.execStmt]
    refine (quiet_expr h _ argument hcalls).bind_adds fun x _ =>
      Quiet.adds (.perform fun s b action hg => ?_)
    cases hg
    exact ⟨trivial, rfl⟩
  | .automate a params body, scope, env, _, ⟨hnodup, hbody⟩, hcalls => by
    rw [Meaning.execStmt]
    refine Quiet.bind_adds (.perform fun s b action hg => ?_) fun id _ =>
      adds_declare env fun b hb => ⟨a, id, rfl⟩
    cases hg
    exact ⟨⟨hnodup, hbody, hcalls⟩, rfl⟩
  | .call callee args, scope, env, _, _, hcalls => by
    obtain ⟨hcallee, hargs⟩ := List.forall_mem_cons.1 hcalls
    rw [Meaning.execStmt]
    exact (quiet_automation _ callee).bind_adds fun f hf =>
      (quiet_exprs h _ args hargs).bind_adds fun xs _ =>
        (quiet_call h hcallee hf xs).bind_adds fun _ _ => Quiet.adds (.pure _)
  | .output none _, _, _, _, _, _ => by
    rw [Meaning.execStmt]
    exact Quiet.adds (.throw _)
  | .output (some value) _, _, _, _, _, hcalls => by
    rw [Meaning.execStmt]
    exact (quiet_expr h _ value hcalls).bind_adds fun _ _ => Quiet.adds (.throw _)
  | .ifElse test body none, scope, env, hnodup, hsteady, hcalls => by
    obtain ⟨htest, hbody⟩ := List.forall_mem_append.1 hcalls
    rw [Meaning.execStmt]
    refine (quiet_test h _ test htest).bind_adds fun b _ => ?_
    cases b with
    | true => exact adds_stmts h body scope env hnodup hsteady hbody
    | false => exact Quiet.adds (.pure _)
  | .ifElse test body (some alternate), scope, env, hnodup, ⟨hsteady, hsteady'⟩, hcalls => by
    obtain ⟨htest, hcalls⟩ := List.forall_mem_append.1 hcalls
    obtain ⟨hbody, halternate⟩ := List.forall_mem_append.1 hcalls
    rw [Meaning.execStmt]
    refine (quiet_test h _ test htest).bind_adds fun b _ => ?_
    cases b with
    | true =>
      exact (adds_stmts h body scope env hnodup.of_append_right hsteady hbody).mono
        (List.subset_append_right _ _)
    | false =>
      exact (adds_stmts h alternate scope env hnodup.of_append_left hsteady' halternate).mono
        (List.subset_append_left _ _)
  | .loopWhile test body, scope, env, _, ⟨hnodup, hsteady⟩, hcalls => by
    obtain ⟨htest, hbody⟩ := List.forall_mem_append.1 hcalls
    rw [Meaning.execStmt]
    refine (quiet_test h _ test htest).bind_adds fun b _ => ?_
    cases b with
    | true =>
      refine Quiet.adds (quiet_scope (List.forall_mem_nil _) (fun _ _ => List.not_mem_nil)
        fun inner => .thenRounds (adds_stmts h body inner _ hnodup hsteady hbody) ?_)
      -- The loop itself declares nothing in the scope around it.
      have hloop : stmtsSteady [.loopWhile test body] := ⟨⟨hnodup, hsteady⟩, trivial⟩
      have hcalls : Permitted changes (stmtsCalls [.loopWhile test body]) := by
        rw [Program.stmtsCalls_singleton]
        exact hcalls
      exact .of_adds (h.stmts scope env [.loopWhile test body] .nil hloop hcalls)
    | false => exact Quiet.adds (.pure _)
  | .loopOver item list body, scope, env, _, ⟨hnodup, hsteady⟩, hcalls => by
    obtain ⟨hlist, hbody⟩ := List.forall_mem_append.1 hcalls
    rw [Meaning.execStmt]
    exact (quiet_listOf h _ list hlist).bind_adds fun id _ =>
      (h.rounds _ item id 0 body hnodup hsteady hbody).adds
  | .breakLoop, _, _, _, _, _ => by
    rw [Meaning.execStmt]
    exact Quiet.adds (.throw _)

/-- Executing statements binds what they declare for what follows them. -/
theorem adds_stmts (h : AgainAdds changes M again) :
    ∀ (ss : List Stmt) (scope : Nat) (env : List Nat), (stmtsExposed ss).Nodup → stmtsSteady ss →
      Permitted changes (stmtsCalls ss) →
        Adds changes M scope (stmtsExposed ss) (M.execStmts again (scope :: env) ss)
  | [], _, _, _, _, _ => by
    rw [Meaning.execStmts]
    exact Quiet.adds (.pure _)
  | s :: ss, scope, env, hnodup, ⟨hs, hss⟩, hcalls => by
    obtain ⟨hcalls, hcalls'⟩ := List.forall_mem_append.1 hcalls
    rw [Meaning.execStmts]
    -- Nothing is declared twice, so the rest finds the entities it declares free.
    exact .bind (adds_stmt h s scope env hnodup.of_append_right hs hcalls)
      (fun _ _ => adds_stmts h ss scope env hnodup.of_append_left hss hcalls')
      fun e he he' => List.disjoint_of_nodup_append hnodup he he'

end

/-- If what is left to be done takes tame actions, then so does a task. -/
theorem adds_task (h : AgainAdds changes M again) : AgainAdds changes M (M.execTask again) where
  stmts scope env ss hnodup hsteady hcalls := adds_stmts h ss scope env hnodup hsteady hcalls
  rounds env item list index body hnodup hsteady hcalls := by
    rw [Meaning.execTask]
    refine .bind (.look _) fun xs _ => ?_
    cases xs[index]? with
    | none => exact .pure _
    | some x =>
      refine quiet_scope (fun b hb => ?_) (fun e he hin => ?_) fun scope =>
        .thenRounds (adds_stmts h body scope env hnodup.of_append_left hsteady hcalls)
          (h.rounds env item list (index + 1) body hnodup hsteady hcalls)
      · rw [List.mem_singleton.1 hb]
        exact ⟨item, rfl⟩
      · exact List.disjoint_of_nodup_append hnodup he hin

/-- Whatever the depth, the actions of a run are tame. -/
theorem adds_exec (depth : Nat) : AgainAdds changes M (M.exec depth) := by
  induction depth with
  | zero => exact ⟨fun _ _ _ _ _ _ => Quiet.adds (.throw _), fun _ _ _ _ _ _ _ _ => .throw _⟩
  | succ depth ih => exact adds_task ih

/-- The runs of a steady program are orderly. -/
theorem orderly_trace {program : Program} (hnodup : (stmtsExposed program.stmts).Nodup)
    (hsteady : stmtsSteady program.stmts) (hcalls : Permitted changes (stmtsCalls program.stmts))
    (M : Meaning N) (depth : Nat) : Orderly changes M (M.trace depth program).2 := by
  have hadds := (adds_exec (M := M) depth).stmts 0 [] program.stmts hnodup hsteady hcalls
  have horderly := (hadds [] trivial fun e _ => ⟨Nat.zero_lt_one, List.not_mem_nil⟩).1
  rw [Meaning.trace]
  cases hresult : M.exec depth [0] (.stmts program.stmts) [] with
  | ok b actions =>
    rw [hresult] at horderly
    exact horderly
  | error stop actions =>
    rw [hresult] at horderly
    exact horderly

end Semantics

end Toal
