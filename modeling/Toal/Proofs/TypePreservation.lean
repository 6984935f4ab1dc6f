import Mathlib
import Toal.Prelude
import Toal.Program.Simplify
import Toal.Proofs.TypedForms

/-!
# Simplifying keeps types

The static rules, read off a typed program: what typing asks of the types in each
expression and each statement (`stmtsWellTyped`), given the innermost automation
around it. Typed programs satisfy them. That an automation with an output type has
an output is not among them, since it is not about types, and pruning may well
remove the last one.

What simplifying leaves of a program is what remains of it (`Remains`): some
statements are gone, some branches stand in the place of their `if`, and all others
are the statements they were, about the same variables and automations. Their
expressions may have become smaller, but what stands at a place of an expression has
the type of what stood there before (`Expr.SameTypes`).

* `simplify_keeps_types`: simplifying a typed program leaves what remains of it, and
  this satisfies the static rules again.

Where a program is typed by evaluation, that takes the equations of the state monad, which
are not to be had from single files of Mathlib.
-/

namespace Toal

open Rules (Numeric Truth Listed Takes)

namespace Program

/-! ## Places in expressions -/

/-- The expressions that the expression is put together from. -/
def Expr.children : Expr → List Expr
  | .list elements => elements
  | .arith _ left right => [left, right]
  | .compare _ left right => [left, right]
  | .paren inner => [inner]
  | .call _ args => args
  | .num _ | .bool _ | .word _ | .var _ | .auto _ => []

/-- What stands at a place of the expression. A place is given by the way to it:
    which child to take first, which of its children then, and so on. -/
def Expr.at? (e : Expr) : List Nat → Option Expr
  | [] => some e
  | i :: path =>
    match e.children[i]? with
    | some child => child.at? path
    | none => none

/-- Every place of the second expression is one of the first, with the same type. -/
def Expr.SameTypes (e e' : Expr) : Prop :=
  ∀ path x', e'.at? path = some x' → ∃ x, e.at? path = some x ∧ x'.ty = x.ty

namespace Expr.SameTypes

variable {e e' : Expr} {es es' : List Expr}

/-- The expressions have the same type. -/
theorem ty_eq (h : e.SameTypes e') : e'.ty = e.ty := by
  obtain ⟨x, hx, hty⟩ := h [] e' rfl
  cases hx
  exact hty

/-- What has no children has one place only. -/
theorem of_leaf (hleaf : e'.children = []) (hty : e'.ty = e.ty) : e.SameTypes e' := by
  intro path x' hx'
  cases path with
  | nil =>
    cases hx'
    exact ⟨e, rfl, hty⟩
  | cons i path =>
    rw [Expr.at?, hleaf] at hx'
    cases hx'

/-- Expressions of the same type have the same types at all places if their parts do. -/
theorem of_children (hty : e'.ty = e.ty)
    (hchildren : List.Forall₂ Expr.SameTypes e.children e'.children) : e.SameTypes e' := by
  intro path x' hx'
  cases path with
  | nil =>
    cases hx'
    exact ⟨e, rfl, hty⟩
  | cons i path =>
    rw [Expr.at?] at hx' ⊢
    split at hx'
    · next child' hchild' =>
      obtain ⟨hi', rfl⟩ := List.getElem?_eq_some_iff.1 hchild'
      have hi : i < e.children.length := hchildren.length_eq ▸ hi'
      have hchild := hchildren.get hi hi'
      rw [List.getElem?_eq_getElem hi]
      exact hchild path x' hx'
    · cases hx'

/-- The expressions have the same types, one by one. -/
theorem map_ty (h : List.Forall₂ Expr.SameTypes es es') : es'.map Expr.ty = es.map Expr.ty := by
  induction h with
  | nil => rfl
  | cons h _ ih => rw [List.map_cons, List.map_cons, h.ty_eq, ih]

end Expr.SameTypes

/-! ## The static rules -/

/-- A variable that stands for a truth value has their type. -/
def TruthTyped (v : Variable) : Prop := (truth? v).isSome → v.ty = .bool

/-- There are as many arguments as parameters, and each is taken by its parameter. -/
def Admits (a : Automation) (args : List Expr) : Prop :=
  List.Forall₂ Takes (a.params.map (·.ty)) (args.map Expr.ty)

mutual

/-- The expression satisfies the static rules. -/
def Expr.WellTyped : Expr → Prop
  | .var v => TruthTyped v
  | .list elements => exprsWellTyped elements
  | .arith _ left right =>
    left.WellTyped ∧ right.WellTyped ∧ Numeric left.ty ∧ Numeric right.ty
  | .compare _ left right =>
    left.WellTyped ∧ right.WellTyped ∧ Rules.Comparable left.ty ∧ Rules.Comparable right.ty
  | .paren inner => inner.WellTyped
  | .call callee args => exprsWellTyped args ∧ Admits callee args
  | .num _ | .bool _ | .word _ | .auto _ => True

/-- The expressions satisfy the static rules. -/
def exprsWellTyped : List Expr → Prop
  | [] => True
  | e :: es => e.WellTyped ∧ exprsWellTyped es

end

mutual

/-- The statement satisfies the static rules, if the given automation is the
    innermost one around it. -/
def Stmt.WellTyped (around : Option Automation) : Stmt → Prop
  | .declare v init => init.WellTyped ∧ init.ty = v.ty ∧ v.ty ≠ .none
  | .assign target source =>
    source.WellTyped ∧ source.ty = target.ty ∧ target.readOnly = false
  | .change _ target term =>
    term.WellTyped ∧ Numeric target.ty ∧ Numeric term.ty ∧ target.readOnly = false
  | .print argument => argument.WellTyped ∧ argument.ty ≠ .none
  | .automate a params body =>
    params.map (·.ty) = a.params.map (·.ty) ∧ (∀ v ∈ params, v.ty ≠ .none) ∧ a.ty ≠ .any ∧
      stmtsWellTyped (some a) body
  | .call callee args => exprsWellTyped args ∧ Admits callee args
  | .output none ty => ty = .none ∧ around.map (·.ty) = some .none
  | .output (some value) ty =>
    value.WellTyped ∧ ty = value.ty ∧ around.map (·.ty) = some value.ty ∧ value.ty ≠ .none
  | .ifElse test body none => test.WellTyped ∧ Truth test.ty ∧ stmtsWellTyped around body
  | .ifElse test body (some alternate) =>
    test.WellTyped ∧ Truth test.ty ∧ stmtsWellTyped around body ∧ stmtsWellTyped around alternate
  | .loopWhile test body => test.WellTyped ∧ Truth test.ty ∧ stmtsWellTyped around body
  | .loopOver item list body =>
    list.WellTyped ∧ Listed list.ty ∧ item.ty = .any ∧ stmtsWellTyped around body
  | .breakLoop => True

/-- The statements satisfy the static rules. -/
def stmtsWellTyped (around : Option Automation) : List Stmt → Prop
  | [] => True
  | s :: ss => s.WellTyped around ∧ stmtsWellTyped around ss

end

/-- Statements satisfy the static rules if each part does. -/
theorem stmtsWellTyped_append {around : Option Automation} {ss tt : List Stmt}
    (hss : stmtsWellTyped around ss) (htt : stmtsWellTyped around tt) :
    stmtsWellTyped around (ss ++ tt) := by
  induction ss with
  | nil => exact htt
  | cons s ss ih => exact ⟨hss.1, ih hss.2⟩

/-! ## What remains of a program -/

mutual

/-- The second statement is the first one, with expressions that have the types they
    had and with what remains of its blocks. -/
inductive Kept : Stmt → Stmt → Prop
  | declare {v e e'} : Expr.SameTypes e e' → Kept (.declare v e) (.declare v e')
  | assign {v e e'} : Expr.SameTypes e e' → Kept (.assign v e) (.assign v e')
  | change {op v e e'} : Expr.SameTypes e e' → Kept (.change op v e) (.change op v e')
  | print {e e'} : Expr.SameTypes e e' → Kept (.print e) (.print e')
  | automate {a params ss ts} : Remains ss ts → Kept (.automate a params ss) (.automate a params ts)
  | call {a es es'} : List.Forall₂ Expr.SameTypes es es' → Kept (.call a es) (.call a es')
  | outputNone {ty} : Kept (.output none ty) (.output none ty)
  | output {e e' ty} : Expr.SameTypes e e' → Kept (.output (some e) ty) (.output (some e') ty)
  | ifThen {e e' ss ts} : Expr.SameTypes e e' → Remains ss ts →
      Kept (.ifElse e ss none) (.ifElse e' ts none)
  | ifElse {e e' ss ts ss' ts'} : Expr.SameTypes e e' → Remains ss ts → Remains ss' ts' →
      Kept (.ifElse e ss (some ss')) (.ifElse e' ts (some ts'))
  | loopWhile {e e' ss ts} : Expr.SameTypes e e' → Remains ss ts →
      Kept (.loopWhile e ss) (.loopWhile e' ts)
  | loopOver {v e e' ss ts} : Expr.SameTypes e e' → Remains ss ts →
      Kept (.loopOver v e ss) (.loopOver v e' ts)
  | breakLoop : Kept .breakLoop .breakLoop

/-- The second list is what remains of the first one: some statements are gone, and
    some branches stand in the place of their `if`. -/
inductive Remains : List Stmt → List Stmt → Prop
  | nil : Remains [] []
  | keep {s t ss ts} : Kept s t → Remains ss ts → Remains (s :: ss) (t :: ts)
  | drop {s ss ts} : Remains ss ts → Remains (s :: ss) ts
  | body {test body alternate ts ss us} : Remains body ts → Remains ss us →
      Remains (.ifElse test body alternate :: ss) (ts ++ us)
  | alternate {test body alternate ts ss us} : Remains alternate ts → Remains ss us →
      Remains (.ifElse test body (some alternate) :: ss) (ts ++ us)

end

namespace Remains

variable {ts : List Stmt}

theorem nothing (ss : List Stmt) : Remains ss [] := by
  induction ss with
  | nil => exact .nil
  | cons s ss ih => exact .drop ih

/-- What remains of two parts is what remains of each. -/
theorem append : ∀ {ss ts ss' ts' : List Stmt}, Remains ss ts → Remains ss' ts' →
    Remains (ss ++ ss') (ts ++ ts')
  | _, _, _, _, .nil, h' => h'
  | _, _, _, _, .keep hs h, h' => .keep hs (append h h')
  | _, _, _, _, .drop h, h' => .drop (append h h')
  | _, _, _, _, .body hbody h, h' => by
    rw [List.append_assoc]
    exact .body hbody (append h h')
  | _, _, _, _, .alternate halternate h, h' => by
    rw [List.append_assoc]
    exact .alternate halternate (append h h')

/-- A branch stands in the place of its `if`. -/
theorem branch {test : Expr} {body : List Stmt} {alternate : Option (List Stmt)}
    (h : Remains body ts) : Remains [.ifElse test body alternate] ts := by
  have hbody : Remains [.ifElse test body alternate] (ts ++ []) := .body h .nil
  rw [List.append_nil] at hbody
  exact hbody

/-- The second branch may stand in the place of its `if`. -/
theorem otherwise {test : Expr} {body alternate : List Stmt} (h : Remains alternate ts) :
    Remains [.ifElse test body (some alternate)] ts := by
  have halternate : Remains [.ifElse test body (some alternate)] (ts ++ []) := .alternate h .nil
  rw [List.append_nil] at halternate
  exact halternate

end Remains

/-! ## Simplifying -/

variable (p : Passes)

/-- The second expression has the types of the first one at its places, and it
    satisfies the static rules. -/
def Expr.Retyped (e e' : Expr) : Prop := e.SameTypes e' ∧ e'.WellTyped

/-- What is known of a type is still known of it. -/
theorem Expr.Retyped.of_ty {e e' : Expr} {P : Ty → Prop} (h : e.Retyped e') (hty : P e.ty) :
    P e'.ty := by
  rw [h.1.ty_eq]
  exact hty

/-- A call takes arguments of the same types. -/
theorem Admits.of_sameTypes {a : Automation} {args args' : List Expr} (hadmits : Admits a args)
    (h : List.Forall₂ Expr.SameTypes args args') : Admits a args' := by
  rw [Admits, Expr.SameTypes.map_ty h]
  exact hadmits

/-- Folding a variable keeps its type. -/
theorem retyped_foldVar {v : Variable} (h : TruthTyped v) : (Expr.var v).Retyped (foldVar v) := by
  unfold foldVar
  cases hv : truth? v with
  | some b =>
    -- The literal is of type `bool`, so the variable has to be of that type too.
    have hty : v.ty = .bool := h (by rw [hv, Option.isSome_some])
    exact ⟨.of_leaf rfl hty.symm, trivial⟩
  | none => exact ⟨.of_leaf rfl rfl, h⟩

/-- Folding an operation keeps its type. -/
theorem retyped_foldArith {op : ArithOp} {left right left' right' : Expr}
    (h : (Expr.arith op left right).Retyped (.arith op left' right')) :
    (Expr.arith op left right).Retyped (foldArith op left' right').value := by
  unfold foldArith
  split
  · split
    · exact ⟨.of_leaf rfl rfl, trivial⟩
    · exact h
  · exact h

/-- Folding a comparison keeps its type. -/
theorem retyped_foldCompare {op : CompareOp} {left right left' right' : Expr}
    (h : (Expr.compare op left right).Retyped (.compare op left' right')) :
    (Expr.compare op left right).Retyped (foldCompare op left' right').value := by
  unfold foldCompare
  split
  · exact ⟨.of_leaf rfl rfl, trivial⟩
  · exact h

/-- Removing parentheses keeps the type. -/
theorem retyped_foldParen {inner inner' : Expr}
    (h : (Expr.paren inner).Retyped (.paren inner')) :
    (Expr.paren inner).Retyped (foldParen inner') := by
  have hty := h.1.ty_eq
  cases inner' with
  | num value => exact ⟨.of_leaf rfl hty, trivial⟩
  | bool value => exact ⟨.of_leaf rfl hty, trivial⟩
  | word contents => exact ⟨.of_leaf rfl hty, trivial⟩
  | _ => exact h

mutual

/-- Simplifying an expression keeps the types at its places. -/
theorem Expr.retyped_simplify : ∀ e : Expr, e.WellTyped → e.Retyped (e.simplify p).value
  | .var v, h => by
    simp only [Expr.simplify, Reduced.value_pure]
    split
    · exact retyped_foldVar h
    · exact ⟨.of_leaf rfl rfl, h⟩
  | .arith op left right, h => by
    obtain ⟨hleft, hright, hl, hr⟩ := h
    have hleft := left.retyped_simplify hleft
    have hright := right.retyped_simplify hright
    have hnode : (Expr.arith op left right).Retyped
        (.arith op (left.simplify p).value (right.simplify p).value) :=
      ⟨.of_children rfl (.cons hleft.1 (.cons hright.1 .nil)), hleft.2, hright.2,
        hleft.of_ty hl, hright.of_ty hr⟩
    simp only [Expr.simplify, Reduced.value_bind]
    split
    · exact retyped_foldArith hnode
    · exact hnode
  | .compare op left right, h => by
    obtain ⟨hleft, hright, hl, hr⟩ := h
    have hleft := left.retyped_simplify hleft
    have hright := right.retyped_simplify hright
    have hnode : (Expr.compare op left right).Retyped
        (.compare op (left.simplify p).value (right.simplify p).value) :=
      ⟨.of_children rfl (.cons hleft.1 (.cons hright.1 .nil)), hleft.2, hright.2,
        hleft.of_ty hl, hright.of_ty hr⟩
    simp only [Expr.simplify, Reduced.value_bind]
    split
    · exact retyped_foldCompare hnode
    · exact hnode
  | .paren inner, h => by
    obtain ⟨hsame, hwell⟩ := inner.retyped_simplify h
    have hnode : (Expr.paren inner).Retyped (.paren (inner.simplify p).value) :=
      ⟨.of_children hsame.ty_eq (.cons hsame .nil), hwell⟩
    simp only [Expr.simplify, Reduced.value_bind, Reduced.value_pure]
    split
    · exact retyped_foldParen hnode
    · exact hnode
  | .list elements, h => by
    obtain ⟨hsame, hwell⟩ := retyped_simplifyExprs elements h
    exact ⟨.of_children rfl hsame, hwell⟩
  | .call callee args, h => by
    obtain ⟨hsame, hwell⟩ := retyped_simplifyExprs args h.1
    exact ⟨.of_children rfl hsame, hwell, h.2.of_sameTypes hsame⟩
  | .num _, h => ⟨.of_leaf rfl rfl, h⟩
  | .bool _, h => ⟨.of_leaf rfl rfl, h⟩
  | .word _, h => ⟨.of_leaf rfl rfl, h⟩
  | .auto _, h => ⟨.of_leaf rfl rfl, h⟩

/-- Simplifying expressions keeps the types at their places. -/
theorem retyped_simplifyExprs : ∀ es : List Expr, exprsWellTyped es →
    List.Forall₂ Expr.SameTypes es (simplifyExprs p es).value ∧
      exprsWellTyped (simplifyExprs p es).value
  | [], _ => ⟨.nil, trivial⟩
  | e :: es, h => by
    obtain ⟨hsame, hwell⟩ := e.retyped_simplify h.1
    obtain ⟨hsames, hwells⟩ := retyped_simplifyExprs es h.2
    exact ⟨.cons hsame hsames, hwell, hwells⟩

end

/-- The second list is what remains of the first one, and it satisfies the static
    rules. -/
def Leaves (around : Option Automation) (ss ts : List Stmt) : Prop :=
  Remains ss ts ∧ stmtsWellTyped around ts

theorem Leaves.single {around : Option Automation} {s t : Stmt} (hkept : Kept s t)
    (ht : t.WellTyped around) : Leaves around [s] [t] :=
  ⟨.keep hkept .nil, ht, trivial⟩

mutual

/-- Simplifying a statement leaves what satisfies the static rules. -/
theorem Stmt.leaves_simplify : ∀ (s : Stmt) {around : Option Automation}, s.WellTyped around →
    Leaves around [s] (s.simplify p).value
  | .declare v init, _, ⟨hwell, hty, hnone⟩ => by
    have hinit := init.retyped_simplify p hwell
    exact .single (.declare hinit.1) ⟨hinit.2, hinit.1.ty_eq.trans hty, hnone⟩
  | .assign target source, _, ⟨hwell, hty, hreadOnly⟩ => by
    have hsource := source.retyped_simplify p hwell
    exact .single (.assign hsource.1) ⟨hsource.2, hsource.1.ty_eq.trans hty, hreadOnly⟩
  | .change op target term, _, ⟨hwell, htarget, hty, hreadOnly⟩ => by
    have hterm := term.retyped_simplify p hwell
    exact .single (.change hterm.1) ⟨hterm.2, htarget, hterm.of_ty hty, hreadOnly⟩
  | .print argument, _, ⟨hwell, hnone⟩ => by
    have hargument := argument.retyped_simplify p hwell
    exact .single (.print hargument.1) ⟨hargument.2, hargument.of_ty (P := (· ≠ .none)) hnone⟩
  | .automate a params body, _, ⟨hparams, hnone, hany, hbody⟩ => by
    have hbody := leaves_simplifyStmts body hbody
    exact .single (.automate hbody.1) ⟨hparams, hnone, hany, hbody.2⟩
  | .call callee args, _, ⟨hwell, hadmits⟩ => by
    obtain ⟨hsame, hwell⟩ := retyped_simplifyExprs p args hwell
    exact .single (.call hsame) ⟨hwell, hadmits.of_sameTypes hsame⟩
  | .output none ty, _, h => .single .outputNone h
  | .output (some value) ty, _, ⟨hwell, hty, haround, hnone⟩ => by
    have hvalue := value.retyped_simplify p hwell
    exact .single (.output hvalue.1) ⟨hvalue.2, hty.trans hvalue.1.ty_eq.symm,
      hvalue.of_ty (P := fun τ => _ = some τ) haround, hvalue.of_ty (P := (· ≠ .none)) hnone⟩
  | .ifElse test body none, _, ⟨hwell, htruth, hbody⟩ => by
    have htest := test.retyped_simplify p hwell
    have hbody := leaves_simplifyStmts body hbody
    simp only [Stmt.simplify, Reduced.value_bind]
    cases knownTest p (test.simplify p).value with
    | none => exact .single (.ifThen htest.1 hbody.1) ⟨htest.2, htest.of_ty htruth, hbody.2⟩
    | some b =>
      cases b with
      | true => exact ⟨.branch hbody.1, hbody.2⟩
      | false => exact ⟨.nothing _, trivial⟩
  | .ifElse test body (some alternate), _, ⟨hwell, htruth, hbody, halternate⟩ => by
    have htest := test.retyped_simplify p hwell
    have hbody := leaves_simplifyStmts body hbody
    have halternate := leaves_simplifyStmts alternate halternate
    simp only [Stmt.simplify, Reduced.value_bind]
    cases knownTest p (test.simplify p).value with
    | none =>
      exact .single (.ifElse htest.1 hbody.1 halternate.1)
        ⟨htest.2, htest.of_ty htruth, hbody.2, halternate.2⟩
    | some b =>
      cases b with
      | true => exact ⟨.branch hbody.1, hbody.2⟩
      | false => exact ⟨.otherwise halternate.1, halternate.2⟩
  | .loopWhile test body, _, ⟨hwell, htruth, hbody⟩ => by
    have htest := test.retyped_simplify p hwell
    have hbody := leaves_simplifyStmts body hbody
    simp only [Stmt.simplify, Reduced.value_bind]
    split
    · exact ⟨.nothing _, trivial⟩
    · exact .single (.loopWhile htest.1 hbody.1) ⟨htest.2, htest.of_ty htruth, hbody.2⟩
  | .loopOver item list body, _, ⟨hwell, hlisted, hitem, hbody⟩ => by
    have hlist := list.retyped_simplify p hwell
    have hbody := leaves_simplifyStmts body hbody
    exact .single (.loopOver hlist.1 hbody.1) ⟨hlist.2, hlist.of_ty hlisted, hitem, hbody.2⟩
  | .breakLoop, _, _ => .single .breakLoop trivial

/-- Simplifying statements leaves what satisfies the static rules. -/
theorem leaves_simplifyStmts : ∀ (ss : List Stmt) {around : Option Automation},
    stmtsWellTyped around ss → Leaves around ss (simplifyStmts p ss).value
  | [], _, _ => ⟨.nil, trivial⟩
  | s :: ss, _, ⟨hs, hss⟩ => by
    obtain ⟨hremains, hwell⟩ := s.leaves_simplify hs
    obtain ⟨hremains', hwell'⟩ := leaves_simplifyStmts ss hss
    simp only [simplifyStmts, Reduced.value_bind]
    split
    · -- Nothing remains of what comes after a terminal statement.
      have hdropped := hremains.append (.nothing ss)
      rw [List.append_nil] at hdropped
      exact ⟨hdropped, hwell⟩
    · exact ⟨hremains.append hremains', stmtsWellTyped_append hwell hwell'⟩

end

end Program

/-! ## Typed programs satisfy the static rules -/

/-- No automation is declared with the type of everything. -/
theorem Rules.OutputType.ne_any {output : Option Surface.Ident} {ty : Ty}
    (h : Rules.OutputType output ty) : ty ≠ .any := by
  cases h with
  | none => decide
  | some _ hany => exact hany

namespace Typing

open Program (TruthTyped exprsWellTyped stmtsWellTyped)

mutual

/-- A typed expression satisfies the static rules. -/
theorem ExprForm.wellTyped {cx : Context} (hcx : ∀ v, .var v ∈ cx.entities → TruthTyped v) :
    ∀ {e : Surface.Expr} {t : Program.Expr}, ExprForm cx e t → t.WellTyped
  | _, _, .number => trivial
  | _, _, .word => trivial
  | _, _, .list hs => hs.wellTyped hcx
  | _, _, .var hx => hcx _ (Context.mem_entities_of_find? hx)
  | _, _, .auto _ => trivial
  | _, _, .group h => h.wellTyped hcx
  | _, _, .arith hl hr hln hrn => ⟨hl.wellTyped hcx, hr.wellTyped hcx, hln, hrn⟩
  | _, _, .compare hl hr hln hrn => ⟨hl.wellTyped hcx, hr.wellTyped hcx, hln, hrn⟩
  | _, _, .call _ hs hall => ⟨hs.wellTyped hcx, forall₂_takes_iff.2 hall⟩

/-- Typed expressions satisfy the static rules. -/
theorem ExprForms.wellTyped {cx : Context} (hcx : ∀ v, .var v ∈ cx.entities → TruthTyped v) :
    ∀ {es : List Surface.Expr} {ts : List Program.Expr}, ExprForms cx es ts → exprsWellTyped ts
  | _, _, .nil => trivial
  | _, _, .cons h hs => ⟨h.wellTyped hcx, hs.wellTyped hcx⟩

end

/-- The variables that are visible at the place and stand for truth values have
    their type. -/
def Spot.TruthTyped (p : Spot) : Prop := ∀ v, .var v ∈ p.context.entities → Program.TruthTyped v

namespace Spot.TruthTyped

variable {p : Spot} {e : Entity}

theorem declare (hp : p.TruthTyped) (he : ∀ v, .var v = e → Program.TruthTyped v) :
    (p.declare e).TruthTyped := by
  intro v hv
  rcases List.mem_cons.1 ((p.context.entities_insert e).mem_iff.1 hv) with hv | hv
  · exact he v hv
  · exact hp v hv

/-- Only variables that come with the language stand for truth values. -/
theorem newVariable (hp : p.TruthTyped) (n : Nat) (name : String) (readOnly : Bool) (ty : Ty) :
    (p.declare (.var ⟨n, name, readOnly, ty, false⟩)).TruthTyped :=
  hp.declare fun v hv htruth => by
    cases hv
    cases htruth

theorem newAutomation (hp : p.TruthTyped) (a : Automation) : (p.declare (.auto a)).TruthTyped :=
  hp.declare fun v hv => by cases hv

theorem enter (hp : p.TruthTyped) (o : Overrides) : (p.enter o).TruthTyped := hp

end Spot.TruthTyped

/-- Parameters have the types that they are declared with. -/
theorem ParamForms.wellTyped {p q : Spot} {ps : List Surface.Param} {ds : List Param}
    {vs : List Variable} (h : ParamForms p ps ds vs q) (hp : p.TruthTyped) :
    vs.map (·.ty) = ds.map (·.ty) ∧ (∀ v ∈ vs, v.ty ≠ .none) ∧ q.TruthTyped ∧
      q.context.automation = p.context.automation := by
  induction h with
  | nil => exact ⟨rfl, List.forall_mem_nil _, hp, rfl⟩
  | cons _ hnone _ _ ih =>
    obtain ⟨htypes, hnones, hq, hauto⟩ := ih (hp.newVariable _ _ _ _)
    exact ⟨congrArg (List.cons _) htypes, List.forall_mem_cons.2 ⟨hnone, hnones⟩, hq,
      hauto.trans Context.automation_insert⟩

mutual

/-- A typed statement satisfies the static rules, and after it truth values still have
    their type. -/
theorem StmtForm.wellTyped : ∀ {p q : Spot} {s : Surface.Stmt} {t : Program.Stmt},
    StmtForm p s t q → p.TruthTyped →
      t.WellTyped p.context.automation ∧ q.TruthTyped ∧
        q.context.automation = p.context.automation
  | _, _, _, _, .declare h hnone _, hp =>
    ⟨⟨h.wellTyped hp, rfl, hnone⟩, hp.newVariable _ _ _ _, Context.automation_insert⟩
  | _, _, _, _, .assign _ hreadOnly h hty, hp => ⟨⟨h.wellTyped hp, hty, hreadOnly⟩, hp, rfl⟩
  | _, _, _, _, .change _ hreadOnly htarget h hterm, hp =>
    ⟨⟨h.wellTyped hp, htarget, hterm, hreadOnly⟩, hp, rfl⟩
  | _, _, _, _, .print h hnone, hp => ⟨⟨h.wellTyped hp, hnone⟩, hp, rfl⟩
  | _, _, _, _, .automate houtput _ hparams hbody _, hp => by
    obtain ⟨htypes, hnones, hinner, hauto⟩ :=
      hparams.wellTyped ((hp.newAutomation _).enter _)
    obtain ⟨hbody, -, -⟩ := hbody.wellTyped hinner
    rw [hauto] at hbody
    exact ⟨⟨htypes, hnones, houtput.ne_any, hbody⟩, hp.newAutomation _,
      Context.automation_insert⟩
  | _, _, _, _, .call _ hs hall, hp => ⟨⟨hs.wellTyped hp, forall₂_takes_iff.2 hall⟩, hp, rfl⟩
  | _, _, _, _, .outputNone ha hty, hp => by
    refine ⟨⟨rfl, ?_⟩, hp, rfl⟩
    rw [ha, Option.map_some, hty]
  | _, _, _, _, .output ha hnone h hty, hp => by
    refine ⟨⟨h.wellTyped hp, rfl, ?_, ?_⟩, hp, rfl⟩
    · rw [ha, Option.map_some, hty]
    · rw [hty]
      exact hnone
  | _, _, _, _, .ifThen htest htruth hbody, hp => by
    obtain ⟨hbody, hq, hauto⟩ := hbody.wellTyped hp
    exact ⟨⟨htest.wellTyped hp, htruth, hbody⟩, hq, hauto⟩
  | _, _, _, _, .ifElse htest htruth hbody halternate, hp => by
    obtain ⟨hbody, hq, hauto⟩ := hbody.wellTyped hp
    obtain ⟨halternate, hr, hauto'⟩ := halternate.wellTyped hq
    rw [hauto] at halternate
    exact ⟨⟨htest.wellTyped hp, htruth, hbody, halternate⟩, hr, hauto'.trans hauto⟩
  | _, _, _, _, .loopWhile htest htruth hbody, hp => by
    obtain ⟨hbody, -, -⟩ := hbody.wellTyped (hp.enter _)
    exact ⟨⟨htest.wellTyped hp, htruth, hbody⟩, hp, rfl⟩
  | _, _, _, _, .loopOver hlist hlisted _ hbody, hp => by
    obtain ⟨hbody, -, -⟩ := hbody.wellTyped ((hp.enter _).newVariable _ _ _ _)
    exact ⟨⟨hlist.wellTyped hp, hlisted, rfl, hbody⟩, hp, rfl⟩
  | _, _, _, _, .breakLoop _, hp => ⟨trivial, hp, rfl⟩

/-- Typed statements satisfy the static rules. -/
theorem StmtForms.wellTyped : ∀ {p q : Spot} {ss : List Surface.Stmt} {ts : List Program.Stmt},
    StmtForms p ss ts q → p.TruthTyped →
      stmtsWellTyped p.context.automation ts ∧ q.TruthTyped ∧
        q.context.automation = p.context.automation
  | _, _, _, _, .nil, hp => ⟨trivial, hp, rfl⟩
  | _, _, _, _, .cons h hs, hp => by
    obtain ⟨hhead, hq, hauto⟩ := h.wellTyped hp
    obtain ⟨htail, hr, hauto'⟩ := hs.wellTyped hq
    rw [hauto] at htail
    exact ⟨⟨hhead, htail⟩, hr, hauto'.trans hauto⟩

end

/-- The standard truth values have the type of truth values. -/
theorem truthTyped_start : (Spot.start Prelude.standard).TruthTyped := by
  intro v hv
  have hmem := Context.entities_ofEntities Prelude.standard hv
  simp only [Prelude.standard, Prelude.number, Prelude.automation, Prelude.constant,
    Entity.withSerial, List.mapIdx_cons, List.mapIdx_nil, List.mem_cons, Entity.var.injEq,
    List.not_mem_nil, reduceCtorEq, false_or, or_false] at hmem
  rcases hmem with rfl | rfl | rfl | rfl
  · exact fun htruth => absurd htruth (by decide)
  · exact fun htruth => absurd htruth (by decide)
  · exact fun _ => rfl
  · exact fun _ => rfl

end Typing

namespace Program

/-- A typed program satisfies the static rules. What simplifying makes of it is what
    remains of it, with the types it had, and satisfies them too. -/
theorem simplify_keeps_types {stmts : List Surface.Stmt} {program : Program}
    (h : (Typing.run Prelude.standard stmts).1 = .ok program) (p : Passes) :
    stmtsWellTyped none program.stmts ∧
      Remains program.stmts (program.simplify p).value.stmts ∧
      stmtsWellTyped none (program.simplify p).value.stmts := by
  obtain ⟨last, hforms⟩ := Typing.stmtForms_of_run h
  obtain ⟨hwell, -, -⟩ := hforms.wellTyped Typing.truthTyped_start
  have hnone : (Typing.Spot.start Prelude.standard).context.automation = none := rfl
  rw [hnone] at hwell
  exact ⟨hwell, leaves_simplifyStmts p program.stmts hwell⟩

section Narrowing

open Surface in
/-- An automation that has one of its branches taken for certain, a call of it, and a
    loop that is never entered. -/
def narrowing : List Surface.Stmt :=
  let ident (x : String) : Ident := ⟨x, default⟩
  [.automate (ident "f") [⟨ident "x", some (ident "word")⟩] (some (ident "bool"))
      (.mk [.ifElse (.group (.name (ident "true")) default)
        (.mk [.output (some (.binary (.compare .eq) (.name (ident "x")) (.word "a" default)
            default)) default,
          .print (.name (ident "x")) default] default)
        (some (.mk [.output (some (.name (ident "false"))) default] default)) default]
        default) default,
    .declare false (ident "y")
      (.call (ident "f") [.group (.word "b" default) default] default) default,
    .loopWhile (.name (ident "false"))
      (.mk [.assign (ident "y") (.name (ident "true")) default] default) default]

/-- Its typed form. -/
def narrowingTyped : Program :=
  let f : Automation := ⟨9, "f", [⟨"x", .word⟩], .bool, false⟩
  let x : Variable := ⟨10, "x", false, .word, false⟩
  let y : Variable := ⟨11, "y", false, .bool, false⟩
  let yes : Variable := ⟨7, "true", true, .bool, true⟩
  let no : Variable := ⟨8, "false", true, .bool, true⟩
  ⟨[.automate f [x]
      [.ifElse (.paren (.var yes))
        [.output (some (.compare .eq (.var x) (.word "a"))) .bool, .print (.var x)]
        (some [.output (some (.var no)) .bool])],
    .declare y (.call f [.paren (.word "b")]),
    .loopWhile (.var no) [.assign y (.var yes)]]⟩

/-- What remains of it. -/
def narrowingLeft : List Stmt :=
  let f : Automation := ⟨9, "f", [⟨"x", .word⟩], .bool, false⟩
  let x : Variable := ⟨10, "x", false, .word, false⟩
  let y : Variable := ⟨11, "y", false, .bool, false⟩
  [.automate f [x] [.output (some (.compare .eq (.var x) (.word "a"))) .bool],
    .declare y (.call f [.word "b"])]

/-- What remains of the program has the types that it had. -/
theorem simplify_keeps_types_narrowing :
    (Typing.run Prelude.standard narrowing).1 = .ok narrowingTyped ∧
      (narrowingTyped.simplify .all).value = ⟨narrowingLeft⟩ ∧
      Remains narrowingTyped.stmts narrowingLeft ∧ stmtsWellTyped none narrowingLeft := by
  have hrun : (Typing.run Prelude.standard narrowing).1 = .ok narrowingTyped := by cbv
  have hleft : (narrowingTyped.simplify .all).value = ⟨narrowingLeft⟩ := rfl
  obtain ⟨-, hremains, hwell⟩ := simplify_keeps_types hrun .all
  rw [hleft] at hremains hwell
  exact ⟨hrun, hleft, hremains, hwell⟩

end Narrowing

end Program

end Toal
