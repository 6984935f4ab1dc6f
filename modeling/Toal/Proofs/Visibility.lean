import Toal.Context
import Mathlib.Data.List.Basic

/-!
# What a context makes visible

The frames of a context are only a way to keep track of which entity a name
stands for (`Context.find?`). A declaration adds one name to them, provided it
was not visible before, and changes nothing else (`Context.find?_insert`). What a
name stands for is one of the entities in the frames (`Context.entities`), and it
has that name.
-/

namespace Toal

namespace Frame

/-- The entities of a frame. -/
def entities (f : Frame) : List Entity := f.vars.map .var ++ f.autos.map .auto

variable {f : Frame} {e : Entity} {x : String}

/-- What is found in a frame is in it and has the name. -/
theorem find?_eq_some (h : f.find? x = some e) : e ∈ f.entities ∧ e.name = x := by
  unfold find? at h
  cases hv : f.vars.find? (·.name == x) with
  | some v =>
    rw [hv] at h
    cases h
    have hname := List.find?_some hv
    exact ⟨List.mem_append_left _ (List.mem_map_of_mem (List.mem_of_find?_eq_some hv)),
      beq_iff_eq.1 hname⟩
  | none =>
    rw [hv] at h
    obtain ⟨a, ha, rfl⟩ := Option.map_eq_some_iff.1 h
    have hname := List.find?_some ha
    exact ⟨List.mem_append_right _ (List.mem_map_of_mem (List.mem_of_find?_eq_some ha)),
      beq_iff_eq.1 hname⟩

/-- A frame binds a name if something is found under it. -/
theorem binds_eq_isSome_find? (f : Frame) (x : String) : f.binds x = (f.find? x).isSome := by
  unfold binds find?
  rw [← List.isSome_find?, ← List.isSome_find?]
  cases f.vars.find? (·.name == x) with
  | some v => rfl
  | none => rw [Option.isSome_map, Option.isSome_none, Bool.false_or]

/-- Inserting an entity adds it to the entities of a frame. -/
theorem entities_insert (f : Frame) (e : Entity) :
    (f.insert e).entities.Perm (e :: f.entities) := by
  cases e with
  | var v => exact .refl _
  | auto a => exact List.perm_middle

/-- A name that a frame binds to nothing stands for an entity once it is put
    there, and all other names stand for what they stood for. -/
theorem find?_insert (h : f.binds e.name = false) :
    (f.insert e).find? x = if e.name = x then some e else f.find? x := by
  rw [binds, Bool.or_eq_false_iff] at h
  cases e with
  | var v =>
    by_cases hx : v.name = x
    · simp [insert, find?, Entity.name, hx]
    · have hne : (v.name == x) = false := beq_eq_false_iff_ne.2 hx
      simp [insert, find?, Entity.name, hx, hne]
  | auto a =>
    by_cases hx : a.name = x
    · -- Variables are found before automations, but none has this name.
      have hvars : f.vars.find? (·.name == x) = none := by
        rw [← Option.isNone_iff_eq_none, ← Option.not_isSome, List.isSome_find?, ← hx]
        exact congrArg not h.1
      simp [insert, find?, Entity.name, hx, hvars]
    · have hne : (a.name == x) = false := beq_eq_false_iff_ne.2 hx
      simp [insert, find?, Entity.name, hx, hne]

end Frame

namespace Context

/-- The entities of all frames. -/
def entities (cx : Context) : List Entity := cx.frames.flatMap Frame.entities

variable {cx : Context} {e : Entity} {x : String}

/-- What is found in a context is visible and has the name. -/
theorem find?_eq_some (h : cx.find? x = some e) : e ∈ cx.entities ∧ e.name = x := by
  obtain ⟨f, hf, hx⟩ := List.exists_of_findSome?_eq_some h
  obtain ⟨he, hname⟩ := f.find?_eq_some hx
  exact ⟨List.mem_flatMap.2 ⟨f, hf, he⟩, hname⟩

theorem mem_entities_of_find? (h : cx.find? x = some e) : e ∈ cx.entities :=
  (find?_eq_some h).1

/-- What a name stands for has that name. -/
theorem name_of_find? (h : cx.find? x = some e) : e.name = x :=
  (find?_eq_some h).2

/-- A context sees a name if something is found under it. -/
theorem sees_eq_isSome_find? (cx : Context) (x : String) : cx.sees x = (cx.find? x).isSome := by
  unfold sees find?
  induction cx.frames with
  | nil => rfl
  | cons f fs ih =>
    rw [List.any_cons, List.findSome?_cons, ih, Frame.binds_eq_isSome_find?]
    cases f.find? x <;> rfl

theorem sees_eq_false_iff : cx.sees x = false ↔ cx.find? x = none := by
  rw [sees_eq_isSome_find?]
  simp

/-- Inserting an entity makes it visible. -/
theorem entities_insert (cx : Context) (e : Entity) :
    (cx.insert e).entities.Perm (e :: cx.entities) :=
  (cx.current.entities_insert e).append_right _

theorem entities_enter (cx : Context) (o : Overrides) : (cx.enter o).entities = cx.entities := rfl

/-- Nothing is visible but the entities that are given. -/
theorem entities_ofEntities (es : List Entity) : (ofEntities es).entities ⊆ es := by
  have hfoldl : ∀ cx : Context, (es.foldl insert cx).entities ⊆ es ++ cx.entities := by
    induction es with
    | nil => exact fun cx => List.Subset.refl _
    | cons e es ih =>
      intro cx e' he'
      rcases List.mem_append.1 (ih (cx.insert e) he') with he' | he'
      · exact List.mem_append_left _ (List.mem_cons_of_mem _ he')
      · rcases List.mem_cons.1 ((cx.entities_insert e).mem_iff.1 he') with rfl | he'
        · exact List.mem_append_left _ List.mem_cons_self
        · exact List.mem_append_right _ he'
  have hempty := hfoldl .empty
  rw [show empty.entities = [] from rfl, List.append_nil] at hempty
  exact hempty

/-- Declaring an entity whose name is not visible adds that name. -/
theorem find?_insert (h : cx.sees e.name = false) :
    (cx.insert e).find? x = if e.name = x then some e else cx.find? x := by
  rw [sees, frames, List.any_cons, Bool.or_eq_false_iff] at h
  rw [find?, find?, frames, frames, insert, List.findSome?_cons, List.findSome?_cons,
    Frame.find?_insert h.1]
  by_cases hx : e.name = x
  · rw [if_pos hx, if_pos hx]
  · rw [if_neg hx, if_neg hx]

/-- A declaration does not change whether there is a loop. -/
@[simp]
theorem inLoop_insert : (cx.insert e).inLoop = cx.inLoop := by
  cases e <;> rfl

/-- A declaration does not change the current automation. -/
@[simp]
theorem automation_insert : (cx.insert e).automation = cx.automation := by
  cases e <;> rfl

/-- Leaving the frame that was entered last leads back. -/
theorem exit?_of_outer {inner : Context} {o : Overrides}
    (h : inner.outer = (cx.enter o).outer) : inner.exit? (cx.enter o).id = some (some cx) := by
  unfold exit? id parent?
  rw [h, if_pos rfl]
  rfl

end Context

end Toal
