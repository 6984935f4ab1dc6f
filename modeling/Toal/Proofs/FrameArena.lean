import Toal.Context
import Mathlib.Data.List.Basic

/-!
# Frames in an arena

The frames around a place need not be kept as a stack. In an *arena* frames are
known by their numbers, and each has the number of the frame around it: the
frames around a place are found by going from the current frame to the frame
around it, and so on (`Arena.chain`). A new frame is put at the end, with the
current one around it, and leaving a frame cuts the arena off before it.

Carried out from the start, operations on an arena do what they do on a context
(`Arena.run?_arena`), and the arena always holds the frames of the context and no
others, from the outside in: the current frame is the last one, and the frame
around each is the one before it (`Context.arena`).
-/

namespace Toal

/-! ## Operations -/

namespace Context

/-- The operations on the frames around a place. -/
inductive Op
  /-- Declares an entity under its own name. -/
  | add (e : Entity)
  /-- Asks whether a name is visible. -/
  | sees (x : String)
  /-- Asks what a name stands for. -/
  | lookup (x : String)
  /-- Enters a new frame. -/
  | enter (o : Overrides)
  /-- Leaves the current frame, unless it is the outermost one. -/
  | exit

/-- What an operation answers. -/
inductive Answer
  | added (result : Except Problem Unit)
  | seen (visible : Bool)
  | found (result : Except Problem Entity)
  /-- The number of the new frame. -/
  | entered (id : Nat)
  | left

/-- The context after an operation, and the answer. -/
def step? (cx : Context) : Op → Option (Context × Answer)
  | .add e =>
    match cx.declare e.name e with
    | .ok cx' => some (cx', .added (.ok ()))
    | .error problem => some (cx, .added (.error problem))
  | .sees x => some (cx, .seen (cx.sees x))
  | .lookup x => some (cx, .found (cx.lookup x))
  | .enter o => some (cx.enter o, .entered (cx.enter o).id)
  | .exit => (cx.exit? cx.id).join.map (·, .left)

/-- The context after the operations of a list, and the answers. -/
def run? (cx : Context) : List Op → Option (Context × List Answer)
  | [] => some (cx, [])
  | op :: ops => do
    let (cx, answer) ← cx.step? op
    let (cx, answers) ← cx.run? ops
    return (cx, answer :: answers)

/-- Operations are carried out one after the other, and their answers are collected. -/
theorem run?_cons {cx cx' : Context} {op : Op} {ops : List Op} {answers : List Answer} :
    cx.run? (op :: ops) = some (cx', answers) ↔
      ∃ between answer rest, cx.step? op = some (between, answer) ∧
        between.run? ops = some (cx', rest) ∧ answers = answer :: rest := by
  rw [run?]
  cases cx.step? op with
  | none => simp
  | some r =>
    obtain ⟨between, answer⟩ := r
    cases hrun : between.run? ops with
    | none => simp [hrun]
    | some r => simp [hrun, Prod.ext_iff, eq_comm]

end Context

/-! ## Arenas -/

/-- A frame in an arena. -/
structure Arena.Slot extends Frame where
  /-- The number of the frame around it. -/
  parent : Option Nat

/-- Frames that are known by their numbers. -/
structure Arena where
  /-- The frames, by number. -/
  slots : List Arena.Slot
  /-- The number of the current frame. -/
  current : Nat

namespace Arena

open Context (Op Answer)

/-- The frames that are met from the given one on, from the inside out. -/
def chainFrom (slots : List Slot) (i : Nat) : List Frame :=
  match slots[i]? with
  | none => []
  | some s =>
    s.toFrame ::
      match s.parent with
      | none => []
      | some p => if p < i then chainFrom slots p else []
termination_by i

/-- The frames around the current place, from the inside out. -/
def chain (a : Arena) : List Frame := chainFrom a.slots a.current

/-- The number of frames around the current place. -/
def depth (a : Arena) : Nat := a.chain.length

/-- The current frame. -/
def frame (a : Arena) : Frame := (a.slots[a.current]?.map Slot.toFrame).getD .empty

/-- Whether the name is visible. -/
def sees (a : Arena) (x : String) : Bool := a.chain.any (·.binds x)

/-- What the name stands for, or the problem that it stands for nothing. -/
def lookup (a : Arena) (x : String) : Except Problem Entity :=
  match a.chain.findSome? (·.find? x) with
  | some e => .ok e
  | none => .error (.notDeclared x)

/-- The arena with one more entity in the current frame. -/
def insert (a : Arena) (e : Entity) : Arena :=
  { a with slots := a.slots.modify a.current fun s => { s with toFrame := s.toFrame.insert e } }

/-- The arena with one more entity in the current frame, or the problem that its
    name is visible already. -/
def declare (a : Arena) (e : Entity) : Except Problem Arena :=
  if a.sees e.name then .error (.alreadyDeclared e.name) else .ok (a.insert e)

/-- The arena with a new frame inside the current one. -/
def enter (a : Arena) (o : Overrides) : Arena where
  slots := a.slots ++
    [{ Frame.empty with
        inLoop := o.inLoop.getD a.frame.inLoop
        automation := o.automation <|> a.frame.automation
        parent := some a.current }]
  current := a.slots.length

/-- The arena without the current frame and whatever comes after it. -/
def exit (a : Arena) : Arena where
  slots := a.slots.take a.current
  current := (a.slots[a.current]?.bind Slot.parent).getD 0

/-- A frame outside of everything, with nothing in it. -/
def empty : Arena := ⟨[{ Frame.empty with parent := none }], 0⟩

/-- The outermost frame with the given entities in it. -/
def ofEntities (entities : List Entity) : Arena := entities.foldl insert empty

/-- The arena after an operation, and the answer. -/
def step? (a : Arena) : Op → Option (Arena × Answer)
  | .add e =>
    match a.declare e with
    | .ok a' => some (a', .added (.ok ()))
    | .error problem => some (a, .added (.error problem))
  | .sees x => some (a, .seen (a.sees x))
  | .lookup x => some (a, .found (a.lookup x))
  | .enter o => some (a.enter o, .entered (a.enter o).current)
  | .exit => if a.current = 0 then none else some (a.exit, .left)

/-- The arena after the operations of a list, and the answers. -/
def run? (a : Arena) : List Op → Option (Arena × List Answer)
  | [] => some (a, [])
  | op :: ops => do
    let (a, answer) ← a.step? op
    let (a, answers) ← a.run? ops
    return (a, answer :: answers)

/-! ## The arena of a context -/

/-- The number of the frame around the one with the given number, if frames are
    numbered from the outside in. -/
def below : Nat → Option Nat
  | 0 => none
  | n + 1 => some n

/-- The frames as an arena holds them, given from the inside out. -/
def layout : List Frame → List Slot
  | [] => []
  | f :: fs => layout fs ++ [⟨f, below fs.length⟩]

/-- The frames of the arena are exactly those around the current place: the current
    frame is the last one, and the frame around each is the one before it. -/
structure IsChain (a : Arena) : Prop where
  chain_eq : a.chain = (a.slots.map Slot.toFrame).reverse
  current_last : a.current + 1 = a.slots.length
  parent_eq : ∀ i s, a.slots[i]? = some s → s.parent = below i
  depth_eq : a.depth = a.slots.length

theorem length_layout (fs : List Frame) : (layout fs).length = fs.length := by
  induction fs with
  | nil => rfl
  | cons f fs ih => rw [layout, List.length_append, ih, List.length_singleton, List.length_cons]

/-- The slots of frames hold these frames, the outermost first. -/
theorem toFrame_layout (fs : List Frame) : (layout fs).map Slot.toFrame = fs.reverse := by
  induction fs with
  | nil => rfl
  | cons f fs ih => rw [layout, List.map_append, ih, List.reverse_cons, List.map_singleton]

/-- The frame around that of a slot is in the slot before it. -/
theorem parent_layout {fs : List Frame} {i : Nat} {s : Slot} (h : (layout fs)[i]? = some s) :
    s.parent = below i := by
  induction fs with
  | nil => cases h
  | cons f fs ih =>
    rw [layout, List.getElem?_append, length_layout] at h
    split at h
    · exact ih h
    · -- Past the frames around it there is only the frame itself.
      obtain ⟨hi, hs⟩ := List.getElem?_eq_some_iff.1 h
      rw [List.length_singleton] at hi
      have hfs : i = fs.length := by omega
      subst hfs
      rw [← hs, List.getElem_singleton]

/-- The current frame is in the last slot that belongs to a frame. -/
theorem getElem?_layout (f : Frame) (fs : List Frame) (rest : List Slot) :
    (layout (f :: fs) ++ rest)[fs.length]? = some ⟨f, below fs.length⟩ := by
  rw [layout, List.append_assoc, List.getElem?_append_right (Nat.le_of_eq (length_layout fs)),
    length_layout, Nat.sub_self]
  rfl

/-- Going from frame to frame leads through exactly those around the first one. -/
theorem chainFrom_layout (f : Frame) (fs : List Frame) (rest : List Slot) :
    chainFrom (layout (f :: fs) ++ rest) fs.length = f :: fs := by
  induction fs generalizing f rest with
  | nil =>
    rw [chainFrom, getElem?_layout]
    rfl
  | cons g fs ih =>
    rw [chainFrom, getElem?_layout]
    simp only [List.length_cons, below, Nat.lt_succ_self, if_true]
    rw [layout, List.append_assoc, ih]

end Arena

namespace Context

/-- A scope without another around it has the number zero. -/
theorem id_of_parent?_eq_none {cx : Context} (h : cx.parent? = none) : cx.id = 0 := by
  unfold parent? at h
  split at h
  next houter => exact congrArg List.length houter
  next => cases h

/-- A scope has one frame more around it than the scope around it has. -/
theorem id_of_parent?_eq_some {cx outside : Context} (h : cx.parent? = some outside) :
    cx.id = outside.id + 1 := by
  unfold parent? at h
  split at h
  next => cases h
  next houter =>
    cases h
    exact congrArg List.length houter

end Context

/-- The arena that holds the frames of a context. -/
def Context.arena (cx : Context) : Arena := ⟨Arena.layout cx.frames, cx.id⟩

namespace Arena

open Context (Op Answer)

variable (cx : Context)

/-- The frames of a context are those of its arena, from the inside out. -/
theorem chain_arena : cx.arena.chain = cx.frames := by
  have h := chainFrom_layout cx.current cx.outer []
  rwa [List.append_nil] at h

theorem isChain_arena : cx.arena.IsChain where
  chain_eq := by
    rw [chain_arena, Context.arena, toFrame_layout, List.reverse_reverse]
  current_last := (length_layout cx.frames).symm
  parent_eq _ _ h := parent_layout h
  depth_eq := by
    rw [depth, chain_arena]
    exact (length_layout cx.frames).symm

theorem getElem?_arena : cx.arena.slots[cx.arena.current]? = some ⟨cx.current, below cx.id⟩ := by
  have h := getElem?_layout cx.current cx.outer []
  rwa [List.append_nil] at h

theorem frame_arena : cx.arena.frame = cx.current := by
  rw [frame, getElem?_arena]
  rfl

/-- What is visible in a context is visible in its arena. -/
theorem sees_arena (x : String) : cx.arena.sees x = cx.sees x := by
  rw [sees, chain_arena]
  rfl

/-- Looking up a name gives the same in a context and in its arena. -/
theorem lookup_arena (x : String) : cx.arena.lookup x = cx.lookup x := by
  rw [lookup, chain_arena]
  rfl

/-- Declaring an entity in a context does to its arena what declaring it there does. -/
theorem insert_arena (e : Entity) : cx.arena.insert e = (cx.insert e).arena := by
  have hmodify : ∀ (slots : List Slot) (s : Slot) (f : Slot → Slot),
      (slots ++ [s]).modify slots.length f = slots ++ [f s] := by
    intro slots s f
    induction slots with
    | nil => rfl
    | cons t slots ih => exact congrArg (t :: ·) ih
  have hid : cx.id = (layout cx.outer).length := (length_layout cx.outer).symm
  have hslots : cx.arena.slots.modify cx.id (fun s => { s with toFrame := s.toFrame.insert e }) =
      (cx.insert e).arena.slots := by
    rw [hid]
    exact hmodify _ _ _
  exact congrArg (Arena.mk · cx.id) hslots

/-- A declaration fails in a context if it fails in its arena, and otherwise does the
    same. -/
theorem declare_arena (e : Entity) :
    cx.arena.declare e = (cx.declare e.name e).map Context.arena := by
  rw [declare, Context.declare, sees_arena, insert_arena]
  split <;> rfl

/-- Entering a scope does the same in a context and in its arena. -/
theorem enter_arena (o : Overrides) : cx.arena.enter o = (cx.enter o).arena := by
  rw [enter, frame_arena, Context.arena, length_layout]
  rfl

/-- Leaving a scope does the same in a context and in its arena. -/
theorem exit_arena {outside : Context} (h : cx.parent? = some outside) :
    cx.arena.exit = outside.arena := by
  obtain ⟨f, fs⟩ := cx
  cases fs with
  | nil => cases h
  | cons g gs =>
    cases h
    rw [exit, getElem?_arena]
    refine congrArg (Arena.mk · gs.length) ?_
    have hlength : (layout (g :: gs)).length = (g :: gs).length := length_layout _
    exact List.take_left' hlength

/-- An operation on an arena does what it does on a context. -/
theorem step?_arena (op : Op) :
    cx.arena.step? op = (cx.step? op).map (Prod.map Context.arena id) := by
  cases op with
  | add e =>
    rw [step?, Context.step?, declare_arena]
    cases cx.declare e.name e <;> rfl
  | sees x =>
    rw [step?, sees_arena]
    rfl
  | lookup x =>
    rw [step?, lookup_arena]
    rfl
  | enter o =>
    rw [step?, enter_arena]
    rfl
  | exit =>
    rw [step?, Context.step?, Context.exit?, if_pos rfl, Option.join_some]
    cases hparent : cx.parent? with
    | none =>
      have hid : cx.arena.current = 0 := Context.id_of_parent?_eq_none hparent
      rw [if_pos hid]
      rfl
    | some outside =>
      have hid : cx.arena.current ≠ 0 :=
        (Context.id_of_parent?_eq_some hparent).trans_ne (Nat.succ_ne_zero _)
      rw [if_neg hid, exit_arena cx hparent]
      rfl

/-- Operations on an arena do what they do on a context. -/
theorem run?_arena (ops : List Op) :
    cx.arena.run? ops = (cx.run? ops).map (Prod.map Context.arena id) := by
  induction ops generalizing cx with
  | nil => rfl
  | cons op ops ih =>
    rw [run?, Context.run?, step?_arena]
    cases cx.step? op with
    | none => rfl
    | some r =>
      obtain ⟨cx', answer⟩ := r
      change (cx'.arena.run? ops).bind _ = Option.map _ ((cx'.run? ops).bind _)
      rw [ih]
      cases cx'.run? ops <;> rfl

/-- A program begins in the arena of the context that it begins in. -/
theorem ofEntities_eq_arena (entities : List Entity) :
    ofEntities entities = (Context.ofEntities entities).arena := by
  have hfoldl : ∀ cx : Context,
      entities.foldl insert cx.arena = (entities.foldl Context.insert cx).arena := by
    induction entities with
    | nil => exact fun _ => rfl
    | cons e es ih =>
      intro cx
      rw [List.foldl_cons, List.foldl_cons, insert_arena, ih]
  exact hfoldl .empty

end Arena

end Toal
