import Toal.Proofs.Calls
import Toal.Typing.Stmt

/-!
# Spelling names differently

The names in a program are there to be told apart, and only those of the standard
entities mean something. A *respelling* takes names to names such that no two become the
same and the standard ones stay (`Respelling`). It can be applied to everything that has
names in it: to programs as written, entities, contexts, problems, typed programs and
scripts. Names of types, spans, serial numbers and the numbers of a script's names stay
as they are.

Looking up a name in a context, and declaring one, commute with respelling
(`Context.find?_respell`, `Context.sees_respell`), since names are only compared.
-/

namespace Toal

/-- A way to spell names differently. -/
structure Respelling where
  /-- The new spelling of a name. -/
  spell : String → String
  /-- No two names become the same. -/
  injective : Function.Injective spell
  /-- The names of the standard entities stay. -/
  fixes : ∀ e ∈ Prelude.standard, spell e.name = e.name

namespace Respelling

variable (r : Respelling)

/-- The standard names are spelled as they are. -/
theorem spell_standard {name : String} (h : name ∈ Prelude.standard.map Entity.name) :
    r.spell name = name := by
  obtain ⟨e, he, rfl⟩ := List.mem_map.1 h
  exact r.fixes e he

/-- Only the name of a standard entity becomes that name. -/
theorem spell_eq_iff {name : String} (h : name ∈ Prelude.standard.map Entity.name) (x : String) :
    r.spell x = name ↔ x = name := by
  constructor
  · intro hx
    exact r.injective (hx.trans (r.spell_standard h).symm)
  · rintro rfl
    exact r.spell_standard h

/-- Respelling keeps names apart. -/
@[simp]
theorem spell_beq (x y : String) : (r.spell x == r.spell y) = (x == y) := by
  rw [Bool.eq_iff_iff, beq_iff_eq, beq_iff_eq, r.injective.eq_iff]

end Respelling

/-! ## Entities -/

section Entities

variable (r : Respelling)

/-- The variable with another name. -/
def Variable.respell (v : Variable) : Variable := { v with name := r.spell v.name }

/-- The parameter with another name. -/
def Param.respell (p : Param) : Param := { p with name := r.spell p.name }

/-- The automation with another name and other names of its parameters. The latter stay
    if it comes with the language: nobody refers to them. -/
def Automation.respell (a : Automation) : Automation :=
  { a with
    name := r.spell a.name
    params := if a.builtin then a.params else a.params.map (Param.respell r) }

/-- The entity with another name. -/
def Entity.respell : Entity → Entity
  | var v => var (v.respell r)
  | auto a => auto (a.respell r)

/-- Different variables are respelled differently. -/
theorem Variable.respell_injective : Function.Injective (Variable.respell r) := by
  rintro ⟨serial, name, readOnly, ty, builtin⟩ ⟨serial', name', readOnly', ty', builtin'⟩ h
  simp only [Variable.respell, Variable.mk.injEq, r.injective.eq_iff] at h ⊢
  exact h

/-- Different parameters are respelled differently. -/
theorem Param.respell_injective : Function.Injective (Param.respell r) := by
  rintro ⟨name, ty⟩ ⟨name', ty'⟩ h
  simp only [Param.respell, Param.mk.injEq, r.injective.eq_iff] at h ⊢
  exact h

/-- Different automations are respelled differently. -/
theorem Automation.respell_injective : Function.Injective (Automation.respell r) := by
  rintro ⟨serial, name, params, ty, builtin⟩ ⟨serial', name', params', ty', builtin'⟩ h
  simp only [Automation.respell, Automation.mk.injEq, r.injective.eq_iff] at h ⊢
  obtain ⟨rfl, rfl, hparams, rfl, rfl⟩ := h
  refine ⟨rfl, rfl, ?_, rfl, rfl⟩
  by_cases hbuiltin : builtin = true
  · rwa [if_pos hbuiltin, if_pos hbuiltin] at hparams
  · rw [if_neg hbuiltin, if_neg hbuiltin] at hparams
    exact (List.map_injective_iff.2 (Param.respell_injective r)) hparams

/-- Different entities are respelled differently. -/
theorem Entity.respell_injective : Function.Injective (Entity.respell r) := by
  intro e e' h
  rcases e with v | a <;> rcases e' with v' | a'
  · exact congrArg var (Variable.respell_injective r (Entity.var.inj h))
  · cases h
  · cases h
  · exact congrArg auto (Automation.respell_injective r (Entity.auto.inj h))

theorem Entity.name_respell (e : Entity) : (e.respell r).name = r.spell e.name := by
  rcases e with v | a <;> rfl

theorem Automation.length_params_respell (a : Automation) :
    (a.respell r).params.length = a.params.length := by
  unfold Automation.respell
  dsimp only
  split
  · rfl
  · exact List.length_map _

/-- Parameters accept what they accept, whatever their names are. -/
theorem Automation.map_ty_params_respell (a : Automation) :
    (a.respell r).params.map Param.ty = a.params.map Param.ty := by
  unfold Automation.respell
  dsimp only
  split
  · rfl
  · rw [List.map_map]
    rfl

/-- Every standard entity is marked as such. -/
theorem builtin_of_mem_standard : ∀ e ∈ Prelude.standard, e.builtin = true := by
  decide

/-- Standard entities stay as they are. -/
theorem Entity.respell_of_mem {e : Entity} (h : e ∈ Prelude.standard) : e.respell r = e := by
  have hname := r.fixes e h
  have hbuiltin := builtin_of_mem_standard e h
  rcases e with v | a
  · exact congrArg var (congrArg (fun name => { v with name }) hname)
  · refine congrArg auto ?_
    unfold Automation.respell
    rw [if_pos (show a.builtin = true from hbuiltin)]
    exact congrArg (fun name => { a with name }) hname

/-- The standard entities are not changed by respelling. -/
theorem map_respell_standard : Prelude.standard.map (Entity.respell r) = Prelude.standard := by
  have hmap := List.map_congr_left fun e he => Entity.respell_of_mem r (e := e) he
  exact hmap.trans (List.map_id _)

end Entities

/-! ## Contexts -/

section Contexts

variable (r : Respelling)

/-- The frame with other names. -/
def Frame.respell (f : Frame) : Frame :=
  { f with
    vars := f.vars.map (Variable.respell r)
    autos := f.autos.map (Automation.respell r)
    automation := f.automation.map (Automation.respell r) }

/-- The context with other names. -/
def Context.respell (cx : Context) : Context :=
  ⟨cx.current.respell r, cx.outer.map (Frame.respell r)⟩

/-- The overrides with other names. -/
def Overrides.respell (o : Overrides) : Overrides :=
  { o with automation := o.automation.map (Automation.respell r) }

/-- A respelled frame binds the respelled names. -/
theorem Frame.binds_respell (f : Frame) (name : String) :
    (f.respell r).binds (r.spell name) = f.binds name := by
  simp only [Frame.binds, Frame.respell, List.any_map]
  congr 1
  · congr 1
    funext v
    exact r.spell_beq v.name name
  · congr 1
    funext a
    exact r.spell_beq a.name name

/-- A respelled frame has the respelled entity under the respelled name. -/
theorem Frame.find?_respell (f : Frame) (name : String) :
    (f.respell r).find? (r.spell name) = (f.find? name).map (Entity.respell r) := by
  have hvars : (f.vars.map (Variable.respell r)).find? (·.name == r.spell name) =
      (f.vars.find? (·.name == name)).map (Variable.respell r) := by
    rw [List.find?_map]
    congr 2
    funext v
    exact r.spell_beq v.name name
  have hautos : (f.autos.map (Automation.respell r)).find? (·.name == r.spell name) =
      (f.autos.find? (·.name == name)).map (Automation.respell r) := by
    rw [List.find?_map]
    congr 2
    funext a
    exact r.spell_beq a.name name
  simp only [Frame.find?, Frame.respell, hvars, hautos]
  cases f.vars.find? (·.name == name) with
  | none =>
    rw [Option.map_none]
    dsimp only
    rw [Option.map_map, Option.map_map]
    rfl
  | some v => rfl

theorem Context.frames_respell (cx : Context) :
    (cx.respell r).frames = cx.frames.map (Frame.respell r) := rfl

/-- A respelled context sees the respelled names. -/
theorem Context.sees_respell (cx : Context) (name : String) :
    (cx.respell r).sees (r.spell name) = cx.sees name := by
  rw [Context.sees, Context.frames_respell, List.any_map]
  congr 1
  funext f
  exact f.binds_respell r name

/-- A respelled context has the respelled entity under the respelled name. -/
theorem Context.find?_respell (cx : Context) (name : String) :
    (cx.respell r).find? (r.spell name) = (cx.find? name).map (Entity.respell r) := by
  rw [Context.find?, Context.frames_respell, List.findSome?_map, Context.find?, List.map_findSome?]
  congr 1
  funext f
  exact f.find?_respell r name

/-- Inserting an entity and respelling may be exchanged. -/
theorem Context.insert_respell (cx : Context) (e : Entity) :
    (cx.insert e).respell r = (cx.respell r).insert (e.respell r) := by
  rcases e with v | a <;> rfl

/-- Entering a frame and respelling may be exchanged. -/
theorem Context.enter_respell (cx : Context) (o : Overrides) :
    (cx.enter o).respell r = (cx.respell r).enter (o.respell r) := by
  have hautomation : (o.automation <|> cx.automation).map (Automation.respell r) =
      (o.automation.map (Automation.respell r) <|>
        cx.automation.map (Automation.respell r)) := by
    rcases o.automation with _ | a <;> rfl
  simp only [Context.respell, Context.enter, Frame.respell, hautomation]
  rfl

theorem Context.id_respell (cx : Context) : (cx.respell r).id = cx.id :=
  List.length_map _

/-- The context of respelled entities is the respelled context. -/
theorem Context.ofEntities_respell (es : List Entity) :
    (Context.ofEntities es).respell r = Context.ofEntities (es.map (Entity.respell r)) := by
  have hfoldl : ∀ cx : Context, (es.foldl Context.insert cx).respell r =
      (es.map (Entity.respell r)).foldl Context.insert (cx.respell r) := by
    induction es with
    | nil => exact fun _ => rfl
    | cons e es ih =>
      intro cx
      rw [List.foldl_cons, ih, Context.insert_respell, List.map_cons, List.foldl_cons]
  exact hfoldl .empty

end Contexts

/-! ## Problems and events -/

section Problems

variable (r : Respelling)

/-- The problem with other names. -/
def Problem.respell : Problem → Problem
  | .alreadyDeclared name => .alreadyDeclared (r.spell name)
  | .notDeclared name => .notDeclared (r.spell name)
  | .valueMismatch name declared actual => .valueMismatch (r.spell name) declared actual
  | .automationAssigned name => .automationAssigned (r.spell name)
  | .constantChanged name => .constantChanged (r.spell name)
  | .noneParameter name => .noneParameter (r.spell name)
  | .missingOutput name => .missingOutput (r.spell name)
  | .missingOutputValue name ty => .missingOutputValue (r.spell name) ty
  | .outputMismatch name actual declared => .outputMismatch (r.spell name) actual declared
  | .variableCalled name => .variableCalled (r.spell name)
  | .breakLeavesAutomation name => .breakLeavesAutomation (r.spell name)
  | problem => problem

/-- The fault with other names. It is at the same place. -/
def Fault.respell (f : Fault) : Fault := ⟨f.problem.respell r, f.span⟩

/-- The event with other names. -/
def Event.respell : Event → Event
  | .raised fault => .raised (fault.respell r)
  | .bound scope name => .bound scope (r.spell name)
  | .declared name ty => .declared (r.spell name) ty
  | .automated name output => .automated (r.spell name) output
  | event => event

/-- The journal with other names. -/
def Journal.respell (journal : Journal) : Journal := journal.map (Event.respell r)

/-- Respelling does not change the kind of a problem. -/
theorem Problem.kind_respell (p : Problem) : (p.respell r).kind = p.kind := by
  cases p <;> rfl

end Problems

/-! ## Programs as written -/

namespace Surface

variable (r : Respelling)

/-- The occurrence of another name at the same place. -/
def Ident.respell (i : Ident) : Ident := { i with text := r.spell i.text }

/-- The parameter with another name. The name of its type stays. -/
def Param.respell (p : Param) : Param := { p with name := p.name.respell r }

mutual

/-- The expression with other names. -/
def Expr.respell : Expr → Expr
  | .binary op left right span => .binary op left.respell right.respell span
  | .group inner span => .group inner.respell span
  | .number value span => .number value span
  | .word contents span => .word contents span
  | .list elements span => .list (respellExprs elements) span
  | .name ident => .name (ident.respell r)
  | .call callee args span => .call (callee.respell r) (respellExprs args) span

/-- The expressions with other names. -/
def respellExprs : List Expr → List Expr
  | [] => []
  | e :: es => e.respell :: respellExprs es

end

mutual

/-- The statement with other names. The name of an output type stays. -/
def Stmt.respell : Stmt → Stmt
  | .declare readOnly name init span => .declare readOnly (name.respell r) (init.respell r) span
  | .assign target value span => .assign (target.respell r) (value.respell r) span
  | .change op target term span => .change op (target.respell r) (term.respell r) span
  | .print value span => .print (value.respell r) span
  | .automate name params output body span =>
    .automate (name.respell r) (params.map (Param.respell r)) output body.respell span
  | .call callee args callSpan span => .call (callee.respell r) (respellExprs r args) callSpan span
  | .output none span => .output none span
  | .output (some value) span => .output (some (value.respell r)) span
  | .ifElse test body none span => .ifElse (test.respell r) body.respell none span
  | .ifElse test body (some alternate) span =>
    .ifElse (test.respell r) body.respell (some alternate.respell) span
  | .loopWhile test body span => .loopWhile (test.respell r) body.respell span
  | .loopOver item list body span =>
    .loopOver (item.respell r) (list.respell r) body.respell span
  | .breakLoop span => .breakLoop span

/-- The block with other names. -/
def Block.respell : Block → Block
  | .mk stmts span => .mk (respellStmts stmts) span

/-- The statements with other names. -/
def respellStmts : List Stmt → List Stmt
  | [] => []
  | s :: ss => s.respell :: respellStmts ss

end

/-- Respelling does not move an expression. -/
theorem Expr.span_respell (e : Expr) : (e.respell r).span = e.span := by
  cases e <;> rfl

theorem map_span_respellExprs (es : List Expr) :
    (respellExprs r es).map Expr.span = es.map Expr.span := by
  induction es with
  | nil => rfl
  | cons e es ih => rw [respellExprs, List.map_cons, List.map_cons, e.span_respell, ih]

end Surface

/-! ## Typed programs -/

namespace Program

variable (r : Respelling)

mutual

/-- The expression with other names. -/
def Expr.respell : Expr → Expr
  | .num value => .num value
  | .bool value => .bool value
  | .word contents => .word contents
  | .list elements => .list (respellExprs elements)
  | .var v => .var (v.respell r)
  | .auto a => .auto (a.respell r)
  | .arith op left right => .arith op left.respell right.respell
  | .compare op left right => .compare op left.respell right.respell
  | .paren inner => .paren inner.respell
  | .call callee args => .call (callee.respell r) (respellExprs args)

/-- The expressions with other names. -/
def respellExprs : List Expr → List Expr
  | [] => []
  | e :: es => e.respell :: respellExprs es

end

mutual

/-- The statement with other names. -/
def Stmt.respell : Stmt → Stmt
  | .declare v init => .declare (v.respell r) (init.respell r)
  | .assign target source => .assign (target.respell r) (source.respell r)
  | .change op target term => .change op (target.respell r) (term.respell r)
  | .print argument => .print (argument.respell r)
  | .automate a params body =>
    .automate (a.respell r) (params.map (Variable.respell r)) (respellStmts body)
  | .call callee args => .call (callee.respell r) (respellExprs r args)
  | .output none ty => .output none ty
  | .output (some value) ty => .output (some (value.respell r)) ty
  | .ifElse test body none => .ifElse (test.respell r) (respellStmts body) none
  | .ifElse test body (some alternate) =>
    .ifElse (test.respell r) (respellStmts body) (some (respellStmts alternate))
  | .loopWhile test body => .loopWhile (test.respell r) (respellStmts body)
  | .loopOver item list body =>
    .loopOver (item.respell r) (list.respell r) (respellStmts body)
  | .breakLoop => .breakLoop

/-- The statements with other names. -/
def respellStmts : List Stmt → List Stmt
  | [] => []
  | s :: ss => s.respell :: respellStmts ss

end

/-- The program with other names. -/
def respell (program : Program) : Program := ⟨respellStmts r program.stmts⟩

/-- Respelling does not change the type of an expression. -/
theorem Expr.ty_respell : ∀ e : Expr, (e.respell r).ty = e.ty
  | .paren inner => inner.ty_respell
  | .num _ | .bool _ | .word _ | .list _ | .var _ | .auto _ | .arith .. | .compare .. | .call .. =>
    rfl

theorem length_respellExprs (es : List Expr) : (respellExprs r es).length = es.length := by
  induction es with
  | nil => rfl
  | cons e es ih => exact congrArg (· + 1) ih

theorem respellStmts_append (ss tt : List Stmt) :
    respellStmts r (ss ++ tt) = respellStmts r ss ++ respellStmts r tt := by
  induction ss with
  | nil => rfl
  | cons s ss ih => exact congrArg (s.respell r :: ·) ih

theorem length_respellStmts (ss : List Stmt) : (respellStmts r ss).length = ss.length := by
  induction ss with
  | nil => rfl
  | cons s ss ih => exact congrArg (· + 1) ih

mutual

/-- Respelling does not change whether a statement has an output. -/
theorem Stmt.hasOutput_respell : ∀ s : Stmt, (s.respell r).hasOutput = s.hasOutput
  | .ifElse _ body none => anyOutput_respell body
  | .ifElse _ body (some alternate) =>
    congrArg₂ (· || ·) (anyOutput_respell body) (anyOutput_respell alternate)
  | .loopWhile _ body => anyOutput_respell body
  | .loopOver _ _ body => anyOutput_respell body
  | .output none _ | .output (some _) _ => rfl
  | .declare .. | .assign .. | .change .. | .print _ | .automate .. | .call .. | .breakLoop => rfl

/-- Respelling does not change whether statements have an output. -/
theorem anyOutput_respell : ∀ ss : List Stmt, anyOutput (respellStmts r ss) = anyOutput ss
  | [] => rfl
  | s :: ss => congrArg₂ (· || ·) s.hasOutput_respell (anyOutput_respell ss)

end

end Program

/-! ## Scripts -/

namespace Script

variable (r : Respelling)

/-- The name with another base and the same number. -/
def Name.respell (n : Name) : Name := { n with base := r.spell n.base }

/-- The reference with another name. -/
def Ref.respell : Ref → Ref
  | .name n => .name (n.respell r)
  | ref => ref

mutual

/-- The expression with other names. -/
def Expr.respell : Expr → Expr
  | .num value => .num value
  | .bool value => .bool value
  | .word contents => .word contents
  | .list elements => .list (respellExprs elements)
  | .ref ref => .ref (ref.respell r)
  | .binary op left right => .binary op left.respell right.respell
  | .paren inner => .paren inner.respell
  | .call callee args => .call (callee.respell r) (respellExprs args)
  | .push list element => .push list.respell element.respell
  | .removeFirst list element => .removeFirst list.respell element.respell
  | .length value => .length value.respell
  | .range start stop => .range start.respell stop.respell
  | .typeOf value => .typeOf value.respell

/-- The expressions with other names. -/
def respellExprs : List Expr → List Expr
  | [] => []
  | e :: es => e.respell :: respellExprs es

end

mutual

/-- The statement with other names. -/
def Stmt.respell : Stmt → Stmt
  | .declare target init => .declare (target.respell r) (init.respell r)
  | .assign target source => .assign (target.respell r) (source.respell r)
  | .change op target term => .change op (target.respell r) (term.respell r)
  | .print argument => .print (argument.respell r)
  | .function n params body =>
    .function (n.respell r) (params.map (Ref.respell r)) (respellStmts body)
  | .eval e => .eval (e.respell r)
  | .output none => .output none
  | .output (some value) => .output (some (value.respell r))
  | .ifElse test body none => .ifElse (test.respell r) (respellStmts body) none
  | .ifElse test body (some alternate) =>
    .ifElse (test.respell r) (respellStmts body) (some (respellStmts alternate))
  | .loopWhile test body => .loopWhile (test.respell r) (respellStmts body)
  | .loopOver item list body =>
    .loopOver (item.respell r) (list.respell r) (respellStmts body)
  | .breakLoop => .breakLoop

/-- The statements with other names. -/
def respellStmts : List Stmt → List Stmt
  | [] => []
  | s :: ss => s.respell :: respellStmts ss

end

theorem respellExprs_eq_map (es : List Expr) : respellExprs r es = es.map (Expr.respell r) := by
  induction es with
  | nil => rfl
  | cons e es ih => exact congrArg (e.respell r :: ·) ih

end Script

end Toal
