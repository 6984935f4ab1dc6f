import Mathlib.Data.List.Nodup
import Mathlib.Data.List.Perm.Basic
import Toal.Prelude
import Toal.Proofs.FrameArena
import Toal.Proofs.Visibility

/-!
# Frames form a stack without shadowing

The operations on a context can be followed without one. What matters of a frame
is what it was entered with and what has been added to it (`FrameHistory`), and an
operation adds an entity to the innermost frame, or enters or leaves a frame
(`FrameHistory.after`). An entity is *live* if it has been added to a frame that
has not been left.

After any operations on a context, in any order, its frames hold exactly the live
entities and have the flags that the innermost overrides set (`Follows`), which
every operation keeps (`Follows.step`). So a name stands for the one live entity of
that name, and for nothing if there is none. Operations that leave every frame
they enter leave the frames around the current one as they are
(`run?_of_balanced`), and leaving the current one restores what was there before
it was entered.

* `runs_form_a_stack`: all of this for every run from the start, also in terms of
  arenas.
-/

namespace Toal

/-- A frame binds the names of its entities. -/
theorem Frame.binds_iff {f : Frame} {x : String} :
    f.binds x = true ↔ ∃ e ∈ f.entities, e.name = x := by
  rw [binds, Bool.or_eq_true, List.any_eq_true, List.any_eq_true]
  simp only [beq_iff_eq, entities, List.mem_append, List.mem_map]
  constructor
  · rintro (⟨v, hv, rfl⟩ | ⟨a, ha, rfl⟩)
    · exact ⟨.var v, .inl ⟨v, hv, rfl⟩, rfl⟩
    · exact ⟨.auto a, .inr ⟨a, ha, rfl⟩, rfl⟩
  · rintro ⟨_, ⟨v, hv, rfl⟩ | ⟨a, ha, rfl⟩, rfl⟩
    · exact .inl ⟨v, hv, rfl⟩
    · exact .inr ⟨a, ha, rfl⟩

namespace Context

variable {cx cx' : Context} {e : Entity} {x : String}

/-- A context sees the names of its entities. -/
theorem sees_iff : cx.sees x = true ↔ ∃ e ∈ cx.entities, e.name = x := by
  rw [sees, List.any_eq_true]
  simp only [Frame.binds_iff, entities, List.mem_flatMap]
  constructor
  · rintro ⟨f, hf, e, he, hx⟩
    exact ⟨e, ⟨f, hf, he⟩, hx⟩
  · rintro ⟨e, ⟨f, hf, he⟩, hx⟩
    exact ⟨f, hf, e, he, hx⟩

/-- If names are bound once, a name stands for the entity of that name. -/
theorem find?_iff (hnames : (cx.entities.map Entity.name).Nodup) :
    cx.find? x = some e ↔ e ∈ cx.entities ∧ e.name = x := by
  refine ⟨find?_eq_some, fun ⟨he, hx⟩ => ?_⟩
  have hsees : cx.sees x = true := sees_iff.2 ⟨e, he, hx⟩
  rw [sees_eq_isSome_find?] at hsees
  obtain ⟨e', he'⟩ := Option.isSome_iff_exists.1 hsees
  obtain ⟨hmem, hname⟩ := find?_eq_some he'
  rw [he', List.inj_on_of_nodup_map hnames hmem he (hname.trans hx.symm)]

/-- Looking a name up gives what is found under it. -/
theorem lookup_eq_ok : cx.lookup x = .ok e ↔ cx.find? x = some e := by
  unfold lookup
  cases cx.find? x with
  | none => simp
  | some e' => simp

/-- Adding an entity fails if its name is visible already. -/
theorem step?_add (cx : Context) (e : Entity) :
    cx.step? (.add e) =
      if cx.sees e.name then some (cx, .added (.error (.alreadyDeclared e.name)))
      else some (cx.insert e, .added (.ok ())) := by
  rw [step?, declare]
  by_cases hsees : cx.sees e.name = true
  · rw [if_pos hsees, if_pos hsees]
  · rw [if_neg hsees, if_neg hsees]

/-- Only leaving the outermost frame is impossible. -/
theorem step?_eq_none {op : Op} : cx.step? op = none ↔ op = .exit ∧ cx.id = 0 := by
  cases op with
  | add e =>
    rw [step?_add]
    split <;> simp
  | exit =>
    rw [step?, exit?, if_pos rfl, Option.join_some, Option.map_eq_none_iff, parent?, id]
    cases cx.outer <;> simp
  | _ => simp [step?]

end Context

/-! ## Histories -/

/-- What happened to a frame that has not been left. -/
structure FrameHistory where
  /-- What it was entered with. -/
  overrides : Overrides
  /-- What was added to it, the latest first. -/
  added : List Entity

namespace FrameHistory

open Context (Op)

/-- The entities added to frames that have not been left. -/
def live (h : List FrameHistory) : List Entity := h.flatMap added

/-- What the innermost frame with an override for loops says, if there is one. -/
def inLoop (h : List FrameHistory) : Bool := (h.findSome? (·.overrides.inLoop)).getD false

/-- The automation of the innermost frame that was entered with one. -/
def automation (h : List FrameHistory) : Option Automation :=
  h.findSome? (·.overrides.automation)

/-- The history after an operation. An entity is added unless there is a live one of
    its name. -/
def after (h : List FrameHistory) : Op → List FrameHistory
  | .add e =>
    if e.name ∈ (live h).map Entity.name then h
    else h.modifyHead fun f => { f with added := e :: f.added }
  | .sees _ | .lookup _ => h
  | .enter o => ⟨o, []⟩ :: h
  | .exit => h.tail

/-- The history of a context with the given entities in it, after the operations. -/
def ofRun (entities : List Entity) (ops : List Op) : List FrameHistory :=
  ops.foldl after [⟨{}, entities.reverse⟩]

end FrameHistory

open FrameHistory (live after ofRun)

/-- The frames have the histories, one by one: they hold what was added to them, and
    their flags are what the innermost overrides say. -/
inductive Frame.Tracks : List Frame → List FrameHistory → Prop
  | nil : Tracks [] []
  | cons {f fs l h} : f.entities.Perm l.added → f.inLoop = FrameHistory.inLoop (l :: h) →
      f.automation = FrameHistory.automation (l :: h) → Tracks fs h → Tracks (f :: fs) (l :: h)

namespace Frame.Tracks

variable {fs : List Frame} {h : List FrameHistory}

/-- There are as many frames as histories. -/
theorem length_eq (ht : Tracks fs h) : fs.length = h.length := by
  induction ht with
  | nil => rfl
  | cons _ _ _ _ ih => exact congrArg (· + 1) ih

/-- The entities of the frames are the live ones. -/
theorem perm (ht : Tracks fs h) : (fs.flatMap Frame.entities).Perm (live h) := by
  induction ht with
  | nil => exact .refl _
  | cons hf _ _ _ ih => exact hf.append ih

end Frame.Tracks

namespace Context

/-- The context has the history, and no two live entities have the same name. -/
structure Follows (cx : Context) (h : List FrameHistory) : Prop where
  frames : Frame.Tracks cx.frames h
  names : ((live h).map Entity.name).Nodup

namespace Follows

variable {cx cx' : Context} {h : List FrameHistory} {op : Op} {answer : Answer} {e : Entity}
  {x : String}

/-- The entities of the context are the live ones. -/
theorem perm (hf : cx.Follows h) : cx.entities.Perm (live h) := hf.frames.perm

/-- The visible names are those of the live entities. -/
theorem sees_iff (hf : cx.Follows h) : cx.sees x = true ↔ x ∈ (live h).map Entity.name := by
  rw [Context.sees_iff, List.mem_map]
  simp only [hf.perm.mem_iff]

/-- No name is bound twice. -/
theorem nodup (hf : cx.Follows h) : (cx.entities.map Entity.name).Nodup :=
  (hf.perm.map Entity.name).nodup_iff.2 hf.names

/-- A name stands for the live entity with that name. -/
theorem lookup_iff (hf : cx.Follows h) :
    cx.lookup x = .ok e ↔ e ∈ live h ∧ e.name = x := by
  rw [lookup_eq_ok, find?_iff hf.nodup, hf.perm.mem_iff]

/-- The current frame and the frames around it have histories of their own. -/
theorem inLoop_eq (hf : cx.Follows h) : cx.inLoop = FrameHistory.inLoop h := by
  obtain ⟨hframes, -⟩ := hf
  cases h with
  | nil => cases hframes
  | cons l h =>
    cases hframes with
    | cons _ hloop _ _ => exact hloop

/-- The current automation is the one that the history gives. -/
theorem automation_eq (hf : cx.Follows h) : cx.automation = FrameHistory.automation h := by
  obtain ⟨hframes, -⟩ := hf
  cases h with
  | nil => cases hframes
  | cons l h =>
    cases hframes with
    | cons _ _ hauto _ => exact hauto

/-- A new entity is added to the history of the current frame. -/
theorem insert (hf : cx.Follows h) (hx : e.name ∉ (live h).map Entity.name) :
    (cx.insert e).Follows (h.modifyHead fun f => { f with added := e :: f.added }) := by
  obtain ⟨hframes, hnames⟩ := hf
  cases h with
  | nil => cases hframes
  | cons l h =>
    cases hframes with
    | cons hadded hloop hauto hrest =>
      refine ⟨.cons ?_ ?_ ?_ hrest, List.nodup_cons.2 ⟨hx, hnames⟩⟩
      · exact (cx.current.entities_insert e).trans (hadded.cons e)
      · exact inLoop_insert.trans hloop
      · exact automation_insert.trans hauto

/-- A frame that is entered has an empty history. -/
theorem enter (hf : cx.Follows h) (o : Overrides) : (cx.enter o).Follows (⟨o, []⟩ :: h) := by
  refine ⟨.cons (.refl _) ?_ ?_ hf.frames, hf.names⟩
  · change o.inLoop.getD cx.inLoop = _
    rw [hf.inLoop_eq, FrameHistory.inLoop, FrameHistory.inLoop, List.findSome?_cons]
    cases o.inLoop <;> rfl
  · change (o.automation <|> cx.automation) = _
    rw [hf.automation_eq, FrameHistory.automation, FrameHistory.automation, List.findSome?_cons]
    cases o.automation <;> rfl

/-- Leaving a frame leaves its history. -/
theorem leave (hf : cx.Follows h) (hparent : cx.parent? = some cx') : cx'.Follows h.tail := by
  obtain ⟨hframes, hnames⟩ := hf
  obtain ⟨f, fs⟩ := cx
  cases fs with
  | nil => cases hparent
  | cons g gs =>
    cases hparent
    cases hframes with
    | cons _ _ _ hrest =>
      rw [live, List.flatMap_cons, List.map_append] at hnames
      exact ⟨hrest, hnames.of_append_right⟩

/-- Every operation does to the context what it does to the history. -/
theorem step (hf : cx.Follows h) (hstep : cx.step? op = some (cx', answer)) :
    cx'.Follows (after h op) := by
  cases op with
  | add e =>
    rw [step?_add] at hstep
    rw [after]
    by_cases hx : e.name ∈ (live h).map Entity.name
    · -- The name is taken, so neither the context nor the history changes.
      rw [if_pos (hf.sees_iff.2 hx)] at hstep
      cases hstep
      rwa [if_pos hx]
    · rw [if_neg (mt hf.sees_iff.1 hx)] at hstep
      cases hstep
      rw [if_neg hx]
      exact hf.insert hx
  | sees x =>
    cases hstep
    exact hf
  | lookup x =>
    cases hstep
    exact hf
  | enter o =>
    cases hstep
    exact hf.enter o
  | exit =>
    rw [step?, exit?, if_pos rfl, Option.join_some] at hstep
    obtain ⟨outside, hparent, heq⟩ := Option.map_eq_some_iff.1 hstep
    cases heq
    exact hf.leave hparent

/-- A run follows the history of its operations. -/
theorem run {ops : List Op} {answers : List Answer} (hf : cx.Follows h)
    (hrun : cx.run? ops = some (cx', answers)) : cx'.Follows (ops.foldl after h) := by
  induction ops generalizing cx h answers with
  | nil =>
    cases hrun
    exact hf
  | cons op ops ih =>
    obtain ⟨between, answer, rest, hstep, hrest, -⟩ := run?_cons.1 hrun
    exact ih (hf.step hstep) hrest

/-- Entities with new and different names are added to the history of the current frame. -/
theorem insertAll {entities : List Entity} (hf : cx.Follows h)
    (hnames : (entities.map Entity.name).Nodup)
    (hnew : ∀ e ∈ entities, e.name ∉ (live h).map Entity.name) :
    (entities.foldl Context.insert cx).Follows
      (h.modifyHead fun f => { f with added := entities.reverse ++ f.added }) := by
  induction entities generalizing cx h with
  | nil =>
    cases h with
    | nil => cases hf.frames
    | cons l h => exact hf
  | cons e es ih =>
    obtain ⟨he, hes⟩ := List.forall_mem_cons.1 hnew
    obtain ⟨hne, hnames⟩ := List.nodup_cons.1 hnames
    cases h with
    | nil => cases hf.frames
    | cons l h =>
      -- No two names are the same, so the others are still new after the first one.
      have hrest : ∀ e' ∈ es, e'.name ∉
          (live ({ l with added := e :: l.added } :: h)).map Entity.name := by
        intro e' he' hmem
        rcases List.mem_cons.1 hmem with heq | hmem
        · exact hne (heq ▸ List.mem_map_of_mem he')
        · exact hes e' he' hmem
      have hfollows := ih (hf.insert he) hnames hrest
      simp only [List.modifyHead_cons] at hfollows ⊢
      rw [List.reverse_cons, List.append_assoc]
      exact hfollows

/-- A context begins with the history of its entities. -/
theorem ofEntities {entities : List Entity} (hnames : (entities.map Entity.name).Nodup) :
    (Context.ofEntities entities).Follows (ofRun entities []) := by
  have hempty : Context.empty.Follows [⟨{}, []⟩] :=
    ⟨.cons (.refl _) rfl rfl .nil, List.nodup_nil⟩
  have hfollows := hempty.insertAll hnames fun _ _ => List.not_mem_nil
  simp only [List.modifyHead_cons, List.append_nil] at hfollows
  exact hfollows

end Follows

/-! ## Frames that are left again -/

/-- The operations leave every frame that they enter, and no other. -/
inductive Balanced : List Op → Prop
  | nil : Balanced []
  | add {e ops} : Balanced ops → Balanced (.add e :: ops)
  | sees {x ops} : Balanced ops → Balanced (.sees x :: ops)
  | lookup {x ops} : Balanced ops → Balanced (.lookup x :: ops)
  | scope {o inner ops} : Balanced inner → Balanced ops →
      Balanced (.enter o :: (inner ++ .exit :: ops))

variable {cx cx' : Context}

/-- Runs may be put one after the other. -/
theorem run?_append {cx between cx' : Context} {ops ops' : List Op} {answers answers' : List Answer}
    (h : cx.run? ops = some (between, answers)) (h' : between.run? ops' = some (cx', answers')) :
    cx.run? (ops ++ ops') = some (cx', answers ++ answers') := by
  induction ops generalizing cx answers with
  | nil =>
    cases h
    exact h'
  | cons op ops ih =>
    obtain ⟨next, answer, rest, hstep, hrest, rfl⟩ := run?_cons.1 h
    exact run?_cons.2 ⟨next, answer, rest ++ answers', hstep, ih hrest, rfl⟩

/-- Leaving the frame that was entered last restores what was there before. -/
theorem step?_exit {o : Overrides} (h : cx'.outer = (cx.enter o).outer) :
    cx'.step? .exit = some (cx, .left) := by
  have hid : cx'.id = (cx.enter o).id := congrArg List.length h
  rw [step?, hid, exit?_of_outer h]
  rfl

/-- Operations that leave every frame that they enter can be carried out, and leave
    the frames around the current one as they are. -/
theorem run?_of_balanced {ops : List Op} (h : Balanced ops) (cx : Context) :
    ∃ cx' answers, cx.run? ops = some (cx', answers) ∧ cx'.outer = cx.outer := by
  induction h generalizing cx with
  | nil => exact ⟨cx, [], rfl, rfl⟩
  | @add e _ _ ih =>
    have hstep := cx.step?_add e
    by_cases hsees : cx.sees e.name = true
    · rw [if_pos hsees] at hstep
      obtain ⟨last, answers, hrun, hlast⟩ := ih cx
      exact ⟨last, _, run?_cons.2 ⟨cx, _, answers, hstep, hrun, rfl⟩, hlast⟩
    · rw [if_neg hsees] at hstep
      obtain ⟨last, answers, hrun, hlast⟩ := ih (cx.insert e)
      exact ⟨last, _, run?_cons.2 ⟨cx.insert e, _, answers, hstep, hrun, rfl⟩, hlast⟩
  | sees _ ih =>
    obtain ⟨last, answers, hrun, hlast⟩ := ih cx
    exact ⟨last, _, run?_cons.2 ⟨cx, _, answers, rfl, hrun, rfl⟩, hlast⟩
  | lookup _ ih =>
    obtain ⟨last, answers, hrun, hlast⟩ := ih cx
    exact ⟨last, _, run?_cons.2 ⟨cx, _, answers, rfl, hrun, rfl⟩, hlast⟩
  | @scope o _ _ _ _ ihinner ih =>
    -- The inner operations leave `cx` among the outer frames, for `exit` to restore.
    obtain ⟨inside, answers, hinner, hinside⟩ := ihinner (cx.enter o)
    obtain ⟨last, answers', hrun, hlast⟩ := ih cx
    have hexit := run?_cons.2 ⟨cx, _, answers', step?_exit hinside, hrun, rfl⟩
    exact ⟨last, _, run?_cons.2 ⟨cx.enter o, _, _, rfl, run?_append hinner hexit, rfl⟩, hlast⟩

/-! ## Runs -/

/-- The frames of the context are a stack without shadowing, with the given
    history. -/
structure IsStack (cx : Context) (h : List FrameHistory) : Prop where
  /-- Frames are numbered from the outside in, and the current one is the last. -/
  depth : cx.depth = h.length ∧ cx.id + 1 = cx.depth
  /-- No name is bound twice, be it to a variable and an automation. -/
  bound_once : (cx.entities.map Entity.name).Nodup
  /-- A name that is visible stands for something. -/
  sees_iff : ∀ x, cx.sees x = true ↔ ∃ e, cx.lookup x = .ok e
  /-- It stands for the live entity of that name. -/
  lookup_iff : ∀ x e, cx.lookup x = .ok e ↔ e ∈ live h ∧ e.name = x
  /-- An entity is added unless its name is visible; if it is, nothing changes. -/
  add : ∀ e, cx.step? (.add e) =
    if cx.sees e.name then some (cx, .added (.error (.alreadyDeclared e.name)))
    else some (cx.insert e, .added (.ok ()))
  /-- The problem with a visible name is of a kind of its own. -/
  add_fails : ∀ e, cx.sees e.name = true ↔ ∃ problem, problem.kind = .contextAdd ∧
    cx.step? (.add e) = some (cx, .added (.error problem))
  /-- Flags are what the innermost overrides say. -/
  flags : cx.inLoop = FrameHistory.inLoop h ∧ cx.automation = FrameHistory.automation h
  /-- Only the outermost frame cannot be left, and everything else can be done. -/
  stuck_iff : ∀ op, cx.step? op = none ↔ op = .exit ∧ cx.id = 0
  /-- Leaving a frame restores what was there before it was entered. -/
  restores : ∀ o ops, Balanced ops → ∃ cx' answers,
    cx.run? (.enter o :: ops) = some (cx', answers) ∧ cx'.step? .exit = some (cx, .left)

/-- A context that follows a history is a stack with that history. -/
theorem Follows.isStack {h : List FrameHistory} (hf : cx.Follows h) : cx.IsStack h where
  depth := ⟨hf.frames.length_eq, rfl⟩
  bound_once := hf.nodup
  sees_iff x := by
    rw [sees_eq_isSome_find?, Option.isSome_iff_exists]
    simp only [lookup_eq_ok]
  lookup_iff _ _ := hf.lookup_iff
  add e := cx.step?_add e
  add_fails e := by
    rw [step?_add]
    by_cases hsees : cx.sees e.name = true
    · simp [hsees, Problem.kind]
    · simp [hsees]
  flags := ⟨hf.inLoop_eq, hf.automation_eq⟩
  stuck_iff _ := step?_eq_none
  restores o ops hops := by
    obtain ⟨inside, answers, hrun, hinside⟩ := run?_of_balanced hops (cx.enter o)
    exact ⟨inside, _, run?_cons.2 ⟨cx.enter o, _, answers, rfl, hrun, rfl⟩, step?_exit hinside⟩

/-- After any operations, the frames of a context are a stack without shadowing, and
    an arena on which the same operations are carried out gives the same answers and
    holds these frames and no others. -/
theorem runs_form_a_stack {entities : List Entity} (hnames : (entities.map Entity.name).Nodup)
    {ops : List Op} {cx : Context} {answers : List Answer}
    (hrun : (Context.ofEntities entities).run? ops = some (cx, answers)) :
    cx.IsStack (ofRun entities ops) ∧
      (Arena.ofEntities entities).run? ops = some (cx.arena, answers) ∧ cx.arena.IsChain := by
  refine ⟨((Follows.ofEntities hnames).run hrun).isStack, ?_, Arena.isChain_arena cx⟩
  rw [Arena.ofEntities_eq_arena, Arena.run?_arena, hrun]
  rfl

section Redeclaration

/-- A variable. -/
def counter : Entity := .var ⟨9, "x", false, .num, false⟩

/-- An automation of the same name. -/
def namesake : Entity := .auto ⟨10, "x", [], .none, false⟩

/-- The name of a variable is declared again inside a loop, which fails. -/
def redeclaration : List Op :=
  [.add counter, .enter .loop, .add namesake, .lookup "x", .exit, .sees "x"]

/-- A name that is declared once more in an inner frame. -/
theorem runs_form_a_stack_redeclaration :
    (Prelude.standard.map Entity.name).Nodup ∧
      (Context.ofEntities Prelude.standard).run? redeclaration =
        some ((Context.ofEntities Prelude.standard).insert counter,
          [.added (.ok ()), .entered 1, .added (.error (.alreadyDeclared "x")),
            .found (.ok counter), .left, .seen true]) ∧
      ((Context.ofEntities Prelude.standard).insert counter).IsStack
        (ofRun Prelude.standard redeclaration) := by
  have hnames : (Prelude.standard.map Entity.name).Nodup := by decide
  have hrun : (Context.ofEntities Prelude.standard).run? redeclaration =
      some ((Context.ofEntities Prelude.standard).insert counter,
        [.added (.ok ()), .entered 1, .added (.error (.alreadyDeclared "x")),
          .found (.ok counter), .left, .seen true]) := rfl
  exact ⟨hnames, hrun, (runs_form_a_stack hnames hrun).1⟩

end Redeclaration

end Context

end Toal
