import Mathlib.Data.List.Nodup
import Toal.Compiler
import Toal.Proofs.Calls
import Toal.Proofs.Elaboration

/-!
# References and what pruning discards

A statement refers to the variables and automations that it reads, calls, assigns
or changes. A reference *dangles* if what it refers to is not visible where it
stands (`stmtsDangling`): it is none of the entities that come with the language,
and no statement before it has declared it in a scope around it. The scopes are
those of typing: what the branches of an `if` declare is visible after them, what
the bodies of loops and automations declare is not.

No reference of a typed program dangles (`Typing.StmtForms.closed`). Pruning can
change that. With a branch that a test does not select, and with the statements
after a `break` or an `output`, it removes the declarations in them
(`stmtsDiscarded`), which may be all that a reference after the `if` relies on. But
it does nothing else to references.

* `dangling_iff_discarded`: what dangles in a simplified program are the references
  to entities whose declarations pruning has discarded, and no others.
-/

namespace Toal

namespace Program

open Skeleton.Stmt (declaredAll)

/-! ## References -/

mutual

/-- The entities that the expression refers to. -/
def Expr.references : Expr → List Entity
  | .num _ => []
  | .bool _ => []
  | .word _ => []
  | .list elements => exprsReferences elements
  | .var v => [.var v]
  | .auto a => [.auto a]
  | .arith _ left right => left.references ++ right.references
  | .compare _ left right => left.references ++ right.references
  | .paren inner => inner.references
  | .call callee args => .auto callee :: exprsReferences args

/-- The entities that the expressions refer to. -/
def exprsReferences : List Expr → List Entity
  | [] => []
  | e :: es => e.references ++ exprsReferences es

end

/-- The entities that the statement itself refers to, outside of its blocks. -/
def Stmt.ownReferences : Stmt → List Entity
  | .declare _ init => init.references
  | .assign target source => .var target :: source.references
  | .change _ target term => .var target :: term.references
  | .print argument => argument.references
  | .call callee args => .auto callee :: exprsReferences args
  | .output (some value) _ => value.references
  | .ifElse test _ _ => test.references
  | .loopWhile test _ => test.references
  | .loopOver _ list _ => list.references
  | .automate .. | .output none _ | .breakLoop => []

mutual

/-- The entities that the statement refers to, also in its blocks. -/
def Stmt.references : Stmt → List Entity
  | .automate _ _ body => stmtsReferences body
  | .ifElse test body none => test.references ++ stmtsReferences body
  | .ifElse test body (some alternate) =>
    test.references ++ (stmtsReferences body ++ stmtsReferences alternate)
  | .loopWhile test body => test.references ++ stmtsReferences body
  | .loopOver _ list body => list.references ++ stmtsReferences body
  | s => s.ownReferences

/-- The entities that the statements refer to. -/
def stmtsReferences : List Stmt → List Entity
  | [] => []
  | s :: ss => s.references ++ stmtsReferences ss

end

mutual

/-- The entities that the statement declares in the scope that it stands in, the
    latest first. What the branches of an `if` declare is among them. -/
def Stmt.exposed : Stmt → List Entity
  | .declare v _ => [.var v]
  | .automate a _ _ => [.auto a]
  | .ifElse _ body none => stmtsExposed body
  | .ifElse _ body (some alternate) => stmtsExposed alternate ++ stmtsExposed body
  | _ => []

/-- The entities that the statements declare in the scope that they stand in, the
    latest first. -/
def stmtsExposed : List Stmt → List Entity
  | [] => []
  | s :: ss => stmtsExposed ss ++ s.exposed

end

/-- The entities of a list that are not in scope. -/
def outside (scope es : List Entity) : List Entity := es.filter (· ∉ scope)

mutual

/-- The references of the statement that dangle, if the given entities are in scope
    before it. -/
def Stmt.dangling (scope : List Entity) : Stmt → List Entity
  | .automate a params body => stmtsDangling (params.map .var ++ .auto a :: scope) body
  | .ifElse test body none => outside scope test.references ++ stmtsDangling scope body
  | .ifElse test body (some alternate) =>
    outside scope test.references ++
      (stmtsDangling scope body ++ stmtsDangling (stmtsExposed body ++ scope) alternate)
  | .loopWhile test body => outside scope test.references ++ stmtsDangling scope body
  | .loopOver item list body =>
    outside scope list.references ++ stmtsDangling (.var item :: scope) body
  | s => outside scope s.ownReferences

/-- The references of the statements that dangle. -/
def stmtsDangling (scope : List Entity) : List Stmt → List Entity
  | [] => []
  | s :: ss => s.dangling scope ++ stmtsDangling (s.exposed ++ scope) ss

end

/-! ## Discarded declarations -/

section

variable (p : Passes)

mutual

/-- The entities whose declarations pruning removes from the statement: those in a
    branch that a known test does not select or in a loop that is never entered. -/
def Stmt.discarded : Stmt → List Entity
  | .automate _ _ body => stmtsDiscarded body
  | .ifElse test body none =>
    match knownTest p (test.simplify p).value with
    | some false => declaredAll (skeletons body)
    | _ => stmtsDiscarded body
  | .ifElse test body (some alternate) =>
    match knownTest p (test.simplify p).value with
    | some true => stmtsDiscarded body ++ declaredAll (skeletons alternate)
    | some false => declaredAll (skeletons body) ++ stmtsDiscarded alternate
    | none => stmtsDiscarded body ++ stmtsDiscarded alternate
  | .loopWhile test body =>
    match knownTest p (test.simplify p).value with
    | some false => declaredAll (skeletons body)
    | _ => stmtsDiscarded body
  | .loopOver _ _ body => stmtsDiscarded body
  | _ => []

/-- The entities whose declarations pruning removes from the statements, and with
    everything after a terminal one. -/
def stmtsDiscarded : List Stmt → List Entity
  | [] => []
  | s :: ss =>
    s.discarded ++
      if p.prune && s.isTerminal then declaredAll (skeletons ss) else stmtsDiscarded ss

end

end

/-! ## What is in scope -/

variable {scope scope' D es es' fs fs' : List Entity} {e : Entity} {p : Passes}

theorem mem_outside : e ∈ outside scope es ↔ e ∈ es ∧ e ∉ scope := by
  rw [outside, List.mem_filter, decide_eq_true_iff]

theorem outside_eq_nil (h : es ⊆ scope) : outside scope es = [] :=
  List.eq_nil_iff_forall_not_mem.2 fun _ he => (mem_outside.1 he).2 (h (mem_outside.1 he).1)

/-- Less is in scope than before, except for what is in `D`. -/
theorem outside_subset (hes : es ⊆ es') (hscope : scope ⊆ scope' ++ D) :
    outside scope' es ⊆ outside scope es' ++ D := by
  intro e he
  obtain ⟨he, hout⟩ := mem_outside.1 he
  rw [List.mem_append, mem_outside]
  by_cases hin : e ∈ scope
  · exact .inr ((List.mem_append.1 (hscope hin)).resolve_left hout)
  · exact .inl ⟨hes he, hin⟩

theorem append_subset (h : es ⊆ es' ++ D) (h' : fs ⊆ fs' ++ D) :
    es ++ fs ⊆ (es' ++ fs') ++ D := by
  intro e he
  simp only [List.mem_append]
  rcases List.mem_append.1 he with he | he
  · rcases List.mem_append.1 (h he) with he | he
    · exact .inl (.inl he)
    · exact .inr he
  · rcases List.mem_append.1 (h' he) with he | he
    · exact .inl (.inr he)
    · exact .inr he

theorem subset_left_append (h : es ⊆ es' ++ D) : es ⊆ (es' ++ fs') ++ D :=
  List.Subset.trans h (append_subset_append (List.subset_append_left _ _) (List.Subset.refl _))

theorem subset_right_append (h : fs ⊆ fs' ++ D) : fs ⊆ (es' ++ fs') ++ D :=
  List.Subset.trans h (append_subset_append (List.subset_append_right _ _) (List.Subset.refl _))

/-- What is visible after two parts is what either declares. -/
theorem stmtsExposed_append (ss tt : List Stmt) :
    stmtsExposed (ss ++ tt) = stmtsExposed tt ++ stmtsExposed ss := by
  induction ss with
  | nil => exact (List.append_nil _).symm
  | cons s ss ih => rw [List.cons_append, stmtsExposed, stmtsExposed, ih, List.append_assoc]

/-- What dangles in two parts dangles in one of them, the second with what the first
    declares in scope. -/
theorem stmtsDangling_append (ss tt : List Stmt) : ∀ scope : List Entity,
    stmtsDangling scope (ss ++ tt) =
      stmtsDangling scope ss ++ stmtsDangling (stmtsExposed ss ++ scope) tt := by
  induction ss with
  | nil => exact fun _ => rfl
  | cons s ss ih =>
    intro scope
    rw [List.cons_append, stmtsDangling, stmtsDangling, ih, stmtsExposed, List.append_assoc,
      List.append_assoc]

theorem stmtsDangling_singleton (s : Stmt) : stmtsDangling scope [s] = s.dangling scope :=
  List.append_nil _

theorem outside_subset_self (scope es : List Entity) : outside scope es ⊆ es :=
  List.filter_subset_self es

mutual

/-- What dangles in a statement is referred to in it. -/
theorem Stmt.dangling_subset :
    ∀ (s : Stmt) (scope : List Entity), s.dangling scope ⊆ s.references
  | .automate _ _ body, _ => stmtsDangling_subset body _
  | .ifElse _ body none, _ =>
    append_subset_append (outside_subset_self _ _) (stmtsDangling_subset body _)
  | .ifElse _ body (some alternate), _ =>
    append_subset_append (outside_subset_self _ _)
      (append_subset_append (stmtsDangling_subset body _) (stmtsDangling_subset alternate _))
  | .loopWhile _ body, _ =>
    append_subset_append (outside_subset_self _ _) (stmtsDangling_subset body _)
  | .loopOver _ _ body, _ =>
    append_subset_append (outside_subset_self _ _) (stmtsDangling_subset body _)
  | .declare _ _, _ => outside_subset_self _ _
  | .assign _ _, _ => outside_subset_self _ _
  | .change _ _ _, _ => outside_subset_self _ _
  | .print _, _ => outside_subset_self _ _
  | .call _ _, _ => outside_subset_self _ _
  | .output none _, _ => outside_subset_self _ _
  | .output (some _) _, _ => outside_subset_self _ _
  | .breakLoop, _ => outside_subset_self _ _

/-- What dangles in statements is referred to in them. -/
theorem stmtsDangling_subset :
    ∀ (ss : List Stmt) (scope : List Entity), stmtsDangling scope ss ⊆ stmtsReferences ss
  | [], _ => List.nil_subset _
  | s :: ss, _ => append_subset_append (s.dangling_subset _) (stmtsDangling_subset ss _)

end

/-! ## Entities that are not declared -/

/-- The declarations of two parts are those of each. -/
theorem declaredAll_skeletons_append (ss tt : List Stmt) :
    declaredAll (skeletons (ss ++ tt)) =
      declaredAll (skeletons ss) ++ declaredAll (skeletons tt) := by
  induction ss with
  | nil => rfl
  | cons s ss ih =>
    rw [List.cons_append, skeletons, declaredAll, ih, skeletons, declaredAll, List.append_assoc]

mutual

/-- What a statement declares for what follows it is among its declarations, in order. -/
theorem Stmt.exposed_sublist : ∀ s : Stmt, s.exposed.reverse.Sublist s.skeleton.declared
  | .declare _ _ => .refl _
  | .automate _ _ _ => (List.nil_sublist _).cons_cons _
  | .ifElse _ body none => stmtsExposed_sublist body
  | .ifElse _ body (some alternate) => by
    rw [Stmt.exposed, List.reverse_append]
    exact (stmtsExposed_sublist body).append (stmtsExposed_sublist alternate)
  | .assign _ _ => List.nil_sublist _
  | .change _ _ _ => List.nil_sublist _
  | .print _ => List.nil_sublist _
  | .call _ _ => List.nil_sublist _
  | .output _ _ => List.nil_sublist _
  | .loopWhile _ _ => List.nil_sublist _
  | .loopOver _ _ _ => List.nil_sublist _
  | .breakLoop => List.nil_sublist _

/-- What is exposed is declared, and in the opposite order. -/
theorem stmtsExposed_sublist :
    ∀ ss : List Stmt, (stmtsExposed ss).reverse.Sublist (declaredAll (skeletons ss))
  | [] => List.nil_sublist _
  | s :: ss => by
    rw [stmtsExposed, List.reverse_append]
    exact s.exposed_sublist.append (stmtsExposed_sublist ss)

end

theorem Stmt.exposed_subset (s : Stmt) : s.exposed ⊆ s.skeleton.declared := fun _ he =>
  s.exposed_sublist.subset (List.mem_reverse.2 he)

theorem stmtsExposed_subset (ss : List Stmt) : stmtsExposed ss ⊆ declaredAll (skeletons ss) :=
  fun _ he => (stmtsExposed_sublist ss).subset (List.mem_reverse.2 he)

/-- What is referred to and out of scope dangles. -/
theorem mem_outside_append (hscope : e ∉ scope) (h : e ∈ fs → e ∈ fs') (he : e ∈ es ++ fs) :
    e ∈ outside scope es ++ fs' := by
  rcases List.mem_append.1 he with he | he
  · exact List.mem_append_left _ (mem_outside.2 ⟨he, hscope⟩)
  · exact List.mem_append_right _ (h he)

mutual

/-- An entity that is neither in scope nor declared dangles where it is referred to. -/
theorem Stmt.mem_dangling : ∀ (s : Stmt) {scope : List Entity}, e ∉ scope →
    e ∉ s.skeleton.declared → e ∈ s.references → e ∈ s.dangling scope
  | .automate a params body, scope, hscope, hs, he => by
    obtain ⟨ha, hs⟩ := not_or.1 (mt List.mem_cons.2 hs)
    obtain ⟨hparams, hbody⟩ := not_or.1 (mt List.mem_append.2 hs)
    refine mem_stmtsDangling body (fun hin => ?_) hbody he
    rcases List.mem_append.1 hin with hin | hin
    · exact hparams hin
    · exact (List.mem_cons.1 hin).elim ha hscope
  | .ifElse _ body none, _, hscope, hs, he =>
    mem_outside_append hscope (mem_stmtsDangling body hscope hs) he
  | .ifElse _ body (some alternate), scope, hscope, hs, he => by
    obtain ⟨hbody, halternate⟩ := not_or.1 (mt List.mem_append.2 hs)
    refine mem_outside_append hscope (fun he => ?_) he
    rcases List.mem_append.1 he with he | he
    · exact List.mem_append_left _ (mem_stmtsDangling body hscope hbody he)
    · refine List.mem_append_right _ (mem_stmtsDangling alternate (fun hin => ?_) halternate he)
      exact (List.mem_append.1 hin).elim (fun hin => hbody (stmtsExposed_subset body hin)) hscope
  | .loopWhile _ body, _, hscope, hs, he =>
    mem_outside_append hscope (mem_stmtsDangling body hscope hs) he
  | .loopOver _ _ body, _, hscope, hs, he => by
    obtain ⟨hitem, hbody⟩ := not_or.1 (mt List.mem_cons.2 hs)
    refine mem_outside_append hscope (fun he => ?_) he
    exact mem_stmtsDangling body (fun hin => (List.mem_cons.1 hin).elim hitem hscope) hbody he
  | .declare _ _, _, hscope, _, he => mem_outside.2 ⟨he, hscope⟩
  | .assign _ _, _, hscope, _, he => mem_outside.2 ⟨he, hscope⟩
  | .change _ _ _, _, hscope, _, he => mem_outside.2 ⟨he, hscope⟩
  | .print _, _, hscope, _, he => mem_outside.2 ⟨he, hscope⟩
  | .call _ _, _, hscope, _, he => mem_outside.2 ⟨he, hscope⟩
  | .output none _, _, hscope, _, he => mem_outside.2 ⟨he, hscope⟩
  | .output (some _) _, _, hscope, _, he => mem_outside.2 ⟨he, hscope⟩
  | .breakLoop, _, hscope, _, he => mem_outside.2 ⟨he, hscope⟩

/-- A reference to an entity that is neither in scope nor declared dangles. -/
theorem mem_stmtsDangling : ∀ (ss : List Stmt) {scope : List Entity}, e ∉ scope →
    e ∉ declaredAll (skeletons ss) → e ∈ stmtsReferences ss → e ∈ stmtsDangling scope ss
  | s :: ss, scope, hscope, hss, he => by
    obtain ⟨hs, hss⟩ := not_or.1 (mt List.mem_append.2 hss)
    rcases List.mem_append.1 he with he | he
    · exact List.mem_append_left _ (s.mem_dangling hscope hs he)
    · refine List.mem_append_right _ (mem_stmtsDangling ss (fun hin => ?_) hss he)
      exact (List.mem_append.1 hin).elim (fun hin => hs (s.exposed_subset hin)) hscope

end

/-! ## Simplifying -/

/-- Folding a variable makes no reference to another. -/
theorem references_foldVar (v : Variable) : (foldVar v).references ⊆ [.var v] := by
  unfold foldVar
  cases truth? v with
  | some b => exact List.nil_subset _
  | none => exact List.Subset.refl _

/-- Folding an operation makes no reference that its operands do not make. -/
theorem references_foldArith (op : ArithOp) (left right : Expr) :
    (foldArith op left right).value.references ⊆ left.references ++ right.references := by
  unfold foldArith
  split
  · split
    · exact List.nil_subset _
    · exact List.Subset.refl _
  · exact List.Subset.refl _

/-- Folding a comparison makes no reference that its operands do not make. -/
theorem references_foldCompare (op : CompareOp) (left right : Expr) :
    (foldCompare op left right).value.references ⊆ left.references ++ right.references := by
  unfold foldCompare
  split
  · exact List.nil_subset _
  · exact List.Subset.refl _

theorem references_foldParen (inner : Expr) : (foldParen inner).references = inner.references := by
  cases inner <;> rfl

mutual

/-- Folding adds no reference. -/
theorem references_simplify : ∀ e : Expr, (e.simplify p).value.references ⊆ e.references
  | .var v => by
    simp only [Expr.simplify, Reduced.value_pure]
    split
    · exact references_foldVar v
    · exact List.Subset.refl _
  | .arith op left right => by
    have hsub := append_subset_append (references_simplify left) (references_simplify right)
    simp only [Expr.simplify, Reduced.value_bind]
    split
    · exact List.Subset.trans (references_foldArith op _ _) hsub
    · exact hsub
  | .compare op left right => by
    have hsub := append_subset_append (references_simplify left) (references_simplify right)
    simp only [Expr.simplify, Reduced.value_bind]
    split
    · exact List.Subset.trans (references_foldCompare op _ _) hsub
    · exact hsub
  | .paren inner => by
    simp only [Expr.simplify, Reduced.value_bind, Reduced.value_pure]
    split
    · rw [references_foldParen]
      exact references_simplify inner
    · exact references_simplify inner
  | .list elements => references_simplifyExprs elements
  | .call _ args => List.cons_subset_cons _ (references_simplifyExprs args)
  | .num _ => List.Subset.refl _
  | .bool _ => List.Subset.refl _
  | .word _ => List.Subset.refl _
  | .auto _ => List.Subset.refl _

/-- Simplifying expressions makes no new references. -/
theorem references_simplifyExprs :
    ∀ es : List Expr, exprsReferences (simplifyExprs p es).value ⊆ exprsReferences es
  | [] => List.Subset.refl _
  | e :: es => append_subset_append (references_simplify e) (references_simplifyExprs es)

end

/-- Of statements that are gone, all is discarded. -/
theorem stmtsExposed_subset_nil (ss : List Stmt) :
    stmtsExposed ss ⊆ [] ++ declaredAll (skeletons ss) :=
  stmtsExposed_subset ss

theorem append_subset_of_discard {ds ds' : List Entity} (h : es ⊆ es' ++ ds)
    (h' : fs ⊆ fs' ++ ds') : es ++ fs ⊆ (es' ++ fs') ++ (ds' ++ ds) := by
  grind

mutual

/-- What a statement declares for what follows it, simplifying keeps or discards. -/
theorem Stmt.exposed_simplify : ∀ s : Stmt,
    s.exposed ⊆ stmtsExposed (s.simplify p).value ++ s.discarded p
  | .declare _ _ => List.Subset.refl _
  | .automate _ _ _ => List.subset_append_left _ _
  | .ifElse test body none => by
    have hbody := stmtsExposed_simplify body
    simp only [Stmt.simplify, Reduced.value_bind, Stmt.discarded]
    cases knownTest p (test.simplify p).value with
    | none => exact hbody
    | some b =>
      cases b with
      | true => exact hbody
      | false => exact stmtsExposed_subset body
  | .ifElse test body (some alternate) => by
    have hbody := stmtsExposed_simplify body
    have halternate := stmtsExposed_simplify alternate
    simp only [Stmt.simplify, Reduced.value_bind, Stmt.discarded]
    cases knownTest p (test.simplify p).value with
    | none =>
      have happend := append_subset_of_discard halternate hbody
      exact happend
    | some b =>
      cases b with
      -- The branch that is not taken is discarded as a whole.
      | true => exact append_subset_of_discard (stmtsExposed_subset_nil alternate) hbody
      | false =>
        have happend := append_subset_of_discard halternate (stmtsExposed_subset_nil body)
        rw [List.append_nil] at happend
        exact happend
  | .loopWhile _ _ => List.nil_subset _
  | .loopOver _ _ _ => List.nil_subset _
  | .assign _ _ => List.nil_subset _
  | .change _ _ _ => List.nil_subset _
  | .print _ => List.nil_subset _
  | .call _ _ => List.nil_subset _
  | .output _ _ => List.nil_subset _
  | .breakLoop => List.nil_subset _

/-- What the statements declare in their scope is still declared there, unless it is
    discarded. -/
theorem stmtsExposed_simplify : ∀ ss : List Stmt,
    stmtsExposed ss ⊆ stmtsExposed (simplifyStmts p ss).value ++ stmtsDiscarded p ss
  | [] => List.nil_subset _
  | s :: ss => by
    have hs := s.exposed_simplify
    simp only [simplifyStmts, Reduced.value_bind, stmtsDiscarded]
    split
    · exact append_subset_of_discard (stmtsExposed_subset_nil ss) hs
    · simp only [Reduced.value_bind, Reduced.value_pure, stmtsExposed_append]
      exact append_subset_of_discard (stmtsExposed_simplify ss) hs

end

theorem exposed_append_subset {ds : List Entity} (h : es ⊆ es' ++ ds) (hds : ds ⊆ D)
    (hscope : scope ⊆ scope' ++ D) : es ++ scope ⊆ (es' ++ scope') ++ D :=
  append_subset (List.Subset.trans h (append_subset_append (List.Subset.refl _) hds)) hscope

mutual

/-- What dangles after simplifying a statement has dangled before or refers to what was
    discarded. -/
theorem Stmt.dangling_simplify : ∀ (s : Stmt) {scope scope' : List Entity},
    scope ⊆ scope' ++ D → s.discarded p ⊆ D →
      stmtsDangling scope' (s.simplify p).value ⊆ s.dangling scope ++ D
  | .declare _ init, _, _, hscope, _ => by
    simp only [Stmt.simplify, Reduced.value_bind, Reduced.value_pure, stmtsDangling_singleton]
    exact outside_subset (references_simplify init) hscope
  | .assign target source, _, _, hscope, _ => by
    simp only [Stmt.simplify, Reduced.value_bind, Reduced.value_pure, stmtsDangling_singleton]
    exact outside_subset (List.cons_subset_cons _ (references_simplify source)) hscope
  | .change _ target term, _, _, hscope, _ => by
    simp only [Stmt.simplify, Reduced.value_bind, Reduced.value_pure, stmtsDangling_singleton]
    exact outside_subset (List.cons_subset_cons _ (references_simplify term)) hscope
  | .print argument, _, _, hscope, _ => by
    simp only [Stmt.simplify, Reduced.value_bind, Reduced.value_pure, stmtsDangling_singleton]
    exact outside_subset (references_simplify argument) hscope
  | .automate a params body, _, _, hscope, hD => by
    simp only [Stmt.simplify, Reduced.value_bind, Reduced.value_pure, stmtsDangling_singleton]
    refine stmtsDangling_simplify body ?_ hD
    rw [List.append_assoc]
    exact append_subset_append (List.Subset.refl _) (List.cons_subset_cons _ hscope)
  | .call callee args, _, _, hscope, _ => by
    simp only [Stmt.simplify, Reduced.value_bind, Reduced.value_pure, stmtsDangling_singleton]
    exact outside_subset (List.cons_subset_cons _ (references_simplifyExprs args)) hscope
  | .output none _, _, _, _, _ => List.nil_subset _
  | .output (some value) _, _, _, hscope, _ => by
    simp only [Stmt.simplify, Reduced.value_bind, Reduced.value_pure, stmtsDangling_singleton]
    exact outside_subset (references_simplify value) hscope
  | .ifElse test body none, _, _, hscope, hD => by
    simp only [Stmt.simplify, Reduced.value_bind]
    rw [Stmt.discarded] at hD
    cases htest : knownTest p (test.simplify p).value with
    | none =>
      rw [htest] at hD
      simp only [Reduced.value_bind, Reduced.value_pure, stmtsDangling_singleton]
      exact append_subset (outside_subset (references_simplify test) hscope)
        (stmtsDangling_simplify body hscope hD)
    | some b =>
      rw [htest] at hD
      cases b with
      | true => exact subset_right_append (stmtsDangling_simplify body hscope hD)
      | false => exact List.nil_subset _
  | .ifElse test body (some alternate), _, _, hscope, hD => by
    simp only [Stmt.simplify, Reduced.value_bind]
    rw [Stmt.discarded] at hD
    cases htest : knownTest p (test.simplify p).value with
    | none =>
      rw [htest] at hD
      obtain ⟨hbody, halternate⟩ := List.append_subset.1 hD
      simp only [Reduced.value_bind, Reduced.value_pure, stmtsDangling_singleton]
      exact append_subset (outside_subset (references_simplify test) hscope)
        (append_subset (stmtsDangling_simplify body hscope hbody)
          (stmtsDangling_simplify alternate
            (exposed_append_subset (stmtsExposed_simplify body) hbody hscope) halternate))
    | some b =>
      rw [htest] at hD
      refine subset_right_append ?_
      cases b with
      | true =>
        obtain ⟨hbody, -⟩ := List.append_subset.1 hD
        exact subset_left_append (stmtsDangling_simplify body hscope hbody)
      | false =>
        -- What the body declares is gone, and the alternate may have relied on it.
        obtain ⟨hbody, halternate⟩ := List.append_subset.1 hD
        exact subset_right_append (stmtsDangling_simplify alternate
          (exposed_append_subset (stmtsExposed_subset_nil body) hbody hscope) halternate)
  | .loopWhile test body, _, _, hscope, hD => by
    simp only [Stmt.simplify, Reduced.value_bind]
    rw [Stmt.discarded] at hD
    split
    · exact List.nil_subset _
    · next htest =>
      simp only [Reduced.value_bind, Reduced.value_pure, stmtsDangling_singleton]
      refine append_subset (outside_subset (references_simplify test) hscope)
        (stmtsDangling_simplify body hscope ?_)
      split at hD
      · next hfalse => exact absurd hfalse htest
      · exact hD
  | .loopOver item list body, _, _, hscope, hD => by
    simp only [Stmt.simplify, Reduced.value_bind, Reduced.value_pure, stmtsDangling_singleton]
    exact append_subset (outside_subset (references_simplify list) hscope)
      (stmtsDangling_simplify body (List.cons_subset_cons _ hscope) hD)
  | .breakLoop, _, _, _, _ => List.nil_subset _

/-- If less is in scope than before, except for what is in `D`, and what is discarded
    is in `D`, then what dangles after simplifying did so before or is in `D`. -/
theorem stmtsDangling_simplify : ∀ (ss : List Stmt) {scope scope' : List Entity},
    scope ⊆ scope' ++ D → stmtsDiscarded p ss ⊆ D →
      stmtsDangling scope' (simplifyStmts p ss).value ⊆ stmtsDangling scope ss ++ D
  | [], _, _, _, _ => List.nil_subset _
  | s :: ss, _, _, hscope, hD => by
    simp only [simplifyStmts, Reduced.value_bind]
    obtain ⟨hs, hss⟩ := List.append_subset.1 hD
    have hhead := s.dangling_simplify hscope hs
    split
    · exact subset_left_append hhead
    · next hterminal =>
      rw [if_neg hterminal] at hss
      simp only [Reduced.value_bind, Reduced.value_pure, stmtsDangling_append]
      exact append_subset hhead
        (stmtsDangling_simplify ss (exposed_append_subset s.exposed_simplify hs hscope) hss)

end

/-! ## Every declaration is kept or discarded -/

theorem perm_append_of_discard {ds ds' : List Entity} (h : es.Perm (es' ++ ds))
    (h' : fs.Perm (fs' ++ ds')) : (es ++ fs).Perm ((es' ++ fs') ++ (ds ++ ds')) := by
  refine (h.append h').trans ?_
  rw [List.append_assoc, List.append_assoc, ← List.append_assoc ds, ← List.append_assoc fs']
  exact (List.perm_append_comm.append_right ds').append_left es'

theorem declaredAll_perm_nil (ss : List Stmt) :
    (declaredAll (skeletons ss)).Perm ([] ++ declaredAll (skeletons ss)) :=
  .refl _

theorem declaredAll_skeletons_singleton (s : Stmt) :
    declaredAll (skeletons [s]) = s.skeleton.declared :=
  List.append_nil _

mutual

/-- Every declaration of a statement is kept or discarded, and not both. -/
theorem Stmt.declared_perm : ∀ s : Stmt,
    s.skeleton.declared.Perm (declaredAll (skeletons (s.simplify p).value) ++ s.discarded p)
  | .declare _ _ => .refl _
  | .automate a params body => by
    simp only [Stmt.simplify, Reduced.value_bind, Reduced.value_pure,
      declaredAll_skeletons_singleton, Stmt.skeleton, Skeleton.Stmt.declared, Stmt.discarded]
    rw [List.cons_append, List.append_assoc]
    exact ((declaredAll_perm body).append_left _).cons _
  | .ifElse test body none => by
    simp only [Stmt.simplify, Reduced.value_bind, Stmt.discarded]
    cases knownTest p (test.simplify p).value with
    | none =>
      simp only [Reduced.value_bind, Reduced.value_pure, declaredAll_skeletons_singleton]
      exact declaredAll_perm body
    | some b =>
      cases b with
      | true => exact declaredAll_perm body
      | false => exact .refl _
  | .ifElse test body (some alternate) => by
    have hbody := declaredAll_perm body
    have halternate := declaredAll_perm alternate
    simp only [Stmt.simplify, Reduced.value_bind, Stmt.discarded]
    cases knownTest p (test.simplify p).value with
    | none =>
      simp only [Reduced.value_bind, Reduced.value_pure, declaredAll_skeletons_singleton]
      exact perm_append_of_discard hbody halternate
    | some b =>
      cases b with
      | true =>
        have happend := perm_append_of_discard hbody (declaredAll_perm_nil alternate)
        rw [List.append_nil] at happend
        exact happend
      | false => exact perm_append_of_discard (declaredAll_perm_nil body) halternate
  | .loopWhile test body => by
    simp only [Stmt.simplify, Reduced.value_bind, Stmt.discarded]
    cases knownTest p (test.simplify p).value with
    | none =>
      simp only [Reduced.value_bind, Reduced.value_pure, declaredAll_skeletons_singleton]
      exact declaredAll_perm body
    | some b =>
      cases b with
      | true =>
        simp only [Reduced.value_bind, Reduced.value_pure, declaredAll_skeletons_singleton]
        exact declaredAll_perm body
      | false => exact .refl _
  | .loopOver item list body => by
    simp only [Stmt.simplify, Reduced.value_bind, Reduced.value_pure,
      declaredAll_skeletons_singleton]
    exact (declaredAll_perm body).cons _
  | .assign _ _ => .refl _
  | .change _ _ _ => .refl _
  | .print _ => .refl _
  | .call _ _ => .refl _
  | .output none _ => .refl _
  | .output (some _) _ => .refl _
  | .breakLoop => .refl _

/-- Every declaration is kept or discarded, and none is both. -/
theorem declaredAll_perm : ∀ ss : List Stmt,
    (declaredAll (skeletons ss)).Perm
      (declaredAll (skeletons (simplifyStmts p ss).value) ++ stmtsDiscarded p ss)
  | [] => .refl _
  | s :: ss => by
    have hs := s.declared_perm
    simp only [simplifyStmts, Reduced.value_bind, stmtsDiscarded]
    split
    · have happend := perm_append_of_discard hs (declaredAll_perm_nil ss)
      rw [List.append_nil] at happend
      exact happend
    · simp only [Reduced.value_bind, Reduced.value_pure, declaredAll_skeletons_append]
      exact perm_append_of_discard hs (declaredAll_perm ss)

end

mutual

/-- Without pruning nothing is discarded. -/
theorem Stmt.discarded_eq_nil (hp : p.prune = false) : ∀ s : Stmt, s.discarded p = []
  | .automate _ _ body => stmtsDiscarded_eq_nil hp body
  | .ifElse test body none => by
    rw [Stmt.discarded, knownTest, hp]
    exact stmtsDiscarded_eq_nil hp body
  | .ifElse test body (some alternate) => by
    rw [Stmt.discarded, knownTest, hp]
    exact List.append_eq_nil_iff.2
      ⟨stmtsDiscarded_eq_nil hp body, stmtsDiscarded_eq_nil hp alternate⟩
  | .loopWhile test body => by
    rw [Stmt.discarded, knownTest, hp]
    exact stmtsDiscarded_eq_nil hp body
  | .loopOver _ _ body => stmtsDiscarded_eq_nil hp body
  | .declare _ _ => rfl
  | .assign _ _ => rfl
  | .change _ _ _ => rfl
  | .print _ => rfl
  | .call _ _ => rfl
  | .output _ _ => rfl
  | .breakLoop => rfl

/-- Only pruning discards declarations. -/
theorem stmtsDiscarded_eq_nil (hp : p.prune = false) : ∀ ss : List Stmt, stmtsDiscarded p ss = []
  | [] => rfl
  | s :: ss => by
    rw [stmtsDiscarded, hp]
    exact List.append_eq_nil_iff.2 ⟨s.discarded_eq_nil hp, stmtsDiscarded_eq_nil hp ss⟩

end

end Program

/-! ## No reference of a typed program dangles -/

namespace Typing

open Program (exprsReferences stmtsDangling stmtsExposed outside_eq_nil)

mutual

/-- A typed expression refers to visible entities only. -/
theorem ExprForm.references_subset {cx : Context} : ∀ {e : Surface.Expr} {t : Program.Expr},
    ExprForm cx e t → t.references ⊆ cx.entities
  | _, _, .number => List.nil_subset _
  | _, _, .word => List.nil_subset _
  | _, _, .list hs => hs.references_subset
  | _, _, .var hx => List.cons_subset.2 ⟨Context.mem_entities_of_find? hx, List.nil_subset _⟩
  | _, _, .auto hx => List.cons_subset.2 ⟨Context.mem_entities_of_find? hx, List.nil_subset _⟩
  | _, _, .group h => h.references_subset
  | _, _, .arith hl hr _ _ => List.append_subset.2 ⟨hl.references_subset, hr.references_subset⟩
  | _, _, .compare hl hr _ _ => List.append_subset.2 ⟨hl.references_subset, hr.references_subset⟩
  | _, _, .call hf hs _ =>
    List.cons_subset.2 ⟨Context.mem_entities_of_find? hf, hs.references_subset⟩

theorem ExprForms.references_subset {cx : Context} :
    ∀ {es : List Surface.Expr} {ts : List Program.Expr},
      ExprForms cx es ts → exprsReferences ts ⊆ cx.entities
  | _, _, .nil => List.nil_subset _
  | _, _, .cons h hs => List.append_subset.2 ⟨h.references_subset, hs.references_subset⟩

end

/-- After a declaration, what it declares is in scope as well. -/
theorem Spot.entities_declare {p : Spot} {e : Entity} {scope : List Entity}
    (hscope : p.context.entities ⊆ scope) : (p.declare e).context.entities ⊆ e :: scope :=
  List.Subset.trans (p.context.entities_insert e).subset (List.cons_subset_cons e hscope)

/-- After parameters, the entities before them and the parameters are visible. -/
theorem ParamForms.entities_subset {p q : Spot} {ps : List Surface.Param} {ds : List Param}
    {vs : List Variable} {scope : List Entity} (h : ParamForms p ps ds vs q)
    (hscope : p.context.entities ⊆ scope) : q.context.entities ⊆ vs.map .var ++ scope := by
  induction h generalizing scope with
  | nil => exact hscope
  | cons _ _ _ _ ih =>
    exact List.Subset.trans (ih (Spot.entities_declare hscope)) List.perm_middle.subset

mutual

/-- Nothing dangles in a typed statement, and after it what it declares is visible too. -/
theorem StmtForm.closed : ∀ {p q : Spot} {s : Surface.Stmt} {t : Program.Stmt},
    StmtForm p s t q → ∀ {scope : List Entity}, p.context.entities ⊆ scope →
      t.dangling scope = [] ∧ q.context.entities ⊆ t.exposed ++ scope
  | _, _, _, _, .declare h _ _, _, hscope =>
    ⟨outside_eq_nil (List.Subset.trans h.references_subset hscope), Spot.entities_declare hscope⟩
  | _, _, _, _, .assign hx _ h _, _, hscope =>
    ⟨outside_eq_nil (List.cons_subset.2 ⟨hscope (Context.mem_entities_of_find? hx),
      List.Subset.trans h.references_subset hscope⟩), hscope⟩
  | _, _, _, _, .change hx _ _ h _, _, hscope =>
    ⟨outside_eq_nil (List.cons_subset.2 ⟨hscope (Context.mem_entities_of_find? hx),
      List.Subset.trans h.references_subset hscope⟩), hscope⟩
  | _, _, _, _, .print h _, _, hscope =>
    ⟨outside_eq_nil (List.Subset.trans h.references_subset hscope), hscope⟩
  | _, _, _, _, .automate _ _ hparams hbody _, _, hscope => by
    refine ⟨(hbody.closed (hparams.entities_subset ?_)).1, Spot.entities_declare hscope⟩
    rw [Spot.enter, Context.entities_enter]
    exact Spot.entities_declare hscope
  | _, _, _, _, .call hf hs _, _, hscope =>
    ⟨outside_eq_nil (List.cons_subset.2 ⟨hscope (Context.mem_entities_of_find? hf),
      List.Subset.trans hs.references_subset hscope⟩), hscope⟩
  | _, _, _, _, .outputNone _ _, _, hscope => ⟨rfl, hscope⟩
  | _, _, _, _, .output _ _ h _, _, hscope =>
    ⟨outside_eq_nil (List.Subset.trans h.references_subset hscope), hscope⟩
  | _, _, _, _, .ifThen htest _ hbody, _, hscope => by
    obtain ⟨hdangling, hlast⟩ := hbody.closed hscope
    have hown := outside_eq_nil (List.Subset.trans htest.references_subset hscope)
    exact ⟨List.append_eq_nil_iff.2 ⟨hown, hdangling⟩, hlast⟩
  | _, _, _, _, .ifElse htest _ hbody halternate, _, hscope => by
    -- The alternate begins where the body ends, with all that the body declares.
    obtain ⟨hdangling, hmid⟩ := hbody.closed hscope
    obtain ⟨hdangling', hlast⟩ := halternate.closed hmid
    have hown := outside_eq_nil (List.Subset.trans htest.references_subset hscope)
    rw [Program.Stmt.exposed, List.append_assoc]
    exact ⟨List.append_eq_nil_iff.2 ⟨hown, List.append_eq_nil_iff.2 ⟨hdangling, hdangling'⟩⟩, hlast⟩
  | _, _, _, _, .loopWhile htest _ hbody, _, hscope => by
    have hown := outside_eq_nil (List.Subset.trans htest.references_subset hscope)
    exact ⟨List.append_eq_nil_iff.2 ⟨hown, (hbody.closed hscope).1⟩, hscope⟩
  | _, _, _, _, .loopOver hlist _ _ hbody, _, hscope => by
    have hown := outside_eq_nil (List.Subset.trans hlist.references_subset hscope)
    refine ⟨List.append_eq_nil_iff.2 ⟨hown, (hbody.closed ?_).1⟩, hscope⟩
    exact Spot.entities_declare hscope
  | _, _, _, _, .breakLoop _, _, hscope => ⟨rfl, hscope⟩

/-- No reference of typed statements dangles, and they leave in scope what they
    expose. -/
theorem StmtForms.closed : ∀ {p q : Spot} {ss : List Surface.Stmt} {ts : List Program.Stmt},
    StmtForms p ss ts q → ∀ {scope : List Entity}, p.context.entities ⊆ scope →
      stmtsDangling scope ts = [] ∧ q.context.entities ⊆ stmtsExposed ts ++ scope
  | _, _, _, _, .nil, _, hscope => ⟨rfl, hscope⟩
  | _, _, _, _, .cons h hs, _, hscope => by
    obtain ⟨hhead, hmid⟩ := h.closed hscope
    obtain ⟨htail, hlast⟩ := hs.closed hmid
    rw [stmtsExposed, List.append_assoc]
    exact ⟨List.append_eq_nil_iff.2 ⟨hhead, htail⟩, hlast⟩

end

/-- What has been numbered is pairwise different. -/
theorem Numbered.nodup {m n : Nat} {es : List Entity} (hes : Numbered m es n) : es.Nodup := by
  refine List.Nodup.of_map Entity.serial ?_
  rw [hes.1]
  exact List.nodup_range' _

/-- Numbered entities have no serial before the first. -/
theorem Numbered.le_serial {m n : Nat} {es : List Entity} {e : Entity} (hes : Numbered m es n)
    (he : e ∈ es) : m ≤ e.serial := by
  obtain ⟨i, hi⟩ := List.mem_iff_getElem?.1 he
  rw [hes.serial_of_getElem? hi]
  exact Nat.le_add_right m i

end Typing

/-! ## What dangles in a simplified program -/

namespace Program

open Skeleton.Stmt (declaredAll)
open Typing (Numbered Spot)

/-- No reference of a typed program dangles. In the simplified program those dangle
    that refer to an entity whose declaration has been discarded, and no others; so
    there are none without pruning. -/
theorem dangling_iff_discarded {entities : List Entity} {stmts : List Surface.Stmt}
    {program : Program} (h : (Typing.run entities stmts).1 = .ok program) (p : Passes) :
    stmtsDangling entities program.stmts = [] ∧
      (∀ e, e ∈ stmtsDangling entities (program.simplify p).value.stmts ↔
        e ∈ stmtsReferences (program.simplify p).value.stmts ∧
          e ∈ stmtsDiscarded p program.stmts) ∧
      (p.prune = false → stmtsDangling entities (program.simplify p).value.stmts = []) := by
  obtain ⟨last, hforms⟩ := Typing.stmtForms_of_run h
  have hclosed := (hforms.closed (Context.entities_ofEntities entities)).1
  have hnumbered := Typing.numbered_declaredAll hforms
  have hperm := declaredAll_perm (p := p) program.stmts
  have hdiscarded : stmtsDangling entities (program.simplify p).value.stmts ⊆
      stmtsDiscarded p program.stmts := by
    have hsub := stmtsDangling_simplify program.stmts (List.subset_append_left entities _)
      (List.Subset.refl (stmtsDiscarded p program.stmts))
    rw [hclosed] at hsub
    exact hsub
  refine ⟨hclosed, fun e => ⟨fun he => ?_, fun ⟨hreferences, he⟩ => ?_⟩, fun hp => ?_⟩
  · exact ⟨stmtsDangling_subset _ _ he, hdiscarded he⟩
  · have hdeclared : e ∈ declaredAll (skeletons program.stmts) :=
      hperm.mem_iff.2 (List.mem_append_right _ he)
    -- The entities at the start have smaller serials than what is declared.
    have hentities : e ∉ entities := by
      intro hin
      have hlt := Typing.serial_lt_start hin
      have hle := hnumbered.le_serial hdeclared
      omega
    -- The declaration is not kept as well, since no entity is declared twice.
    have hkept : e ∉ declaredAll (skeletons (simplifyStmts p program.stmts).value) := fun hin =>
      List.disjoint_of_nodup_append (hperm.nodup_iff.1 hnumbered.nodup) hin he
    exact mem_stmtsDangling _ hentities hkept hreferences
  · rw [stmtsDiscarded_eq_nil hp] at hdiscarded
    exact List.subset_nil.1 hdiscarded

section Abandoned

open Surface in
/-- A name that is declared after a `break`, and one that is declared in a branch
    that is never taken; both are used where they are visible. -/
def abandoned : List Surface.Stmt :=
  let ident (x : String) : Ident := ⟨x, default⟩
  [.loopOver (ident "x") (.list [] default)
      (.mk [.ifElse (.name (ident "x"))
          (.mk [.breakLoop default, .declare false (ident "y") (.word "b" default) default]
            default) none default,
        .print (.name (ident "y")) default] default) default,
    .ifElse (.name (ident "false"))
      (.mk [.declare false (ident "z") (.word "c" default) default] default)
      (some (.mk [.print (.name (ident "z")) default] default)) default]

/-- Its typed form. -/
def abandonedTyped : Program :=
  let x : Variable := ⟨9, "x", false, .any, false⟩
  let y : Variable := ⟨10, "y", false, .word, false⟩
  let z : Variable := ⟨11, "z", false, .word, false⟩
  ⟨[.loopOver x (.list [])
      [.ifElse (.var x) [.breakLoop, .declare y (.word "b")] none, .print (.var y)],
    .ifElse (.var ⟨8, "false", true, .bool, true⟩) [.declare z (.word "c")]
      (some [.print (.var z)])]⟩

/-- What dangles in the simplified program refers to what was discarded. -/
theorem dangling_iff_discarded_abandoned :
    (Typing.run Prelude.standard abandoned).1 = .ok abandonedTyped ∧
      stmtsDangling Prelude.standard abandonedTyped.stmts = [] ∧
      stmtsReferences (abandonedTyped.simplify .all).value.stmts =
        [.var ⟨9, "x", false, .any, false⟩, .var ⟨10, "y", false, .word, false⟩,
          .var ⟨11, "z", false, .word, false⟩] ∧
      stmtsDiscarded .all abandonedTyped.stmts =
        [.var ⟨10, "y", false, .word, false⟩, .var ⟨11, "z", false, .word, false⟩] ∧
      ∀ e, e ∈ stmtsDangling Prelude.standard (abandonedTyped.simplify .all).value.stmts ↔
        e ∈ stmtsReferences (abandonedTyped.simplify .all).value.stmts ∧
          e ∈ stmtsDiscarded .all abandonedTyped.stmts := by
  have hrun : (Typing.run Prelude.standard abandoned).1 = .ok abandonedTyped := by cbv
  obtain ⟨hclosed, hdangling, -⟩ := dangling_iff_discarded hrun .all
  exact ⟨hrun, hclosed, rfl, rfl, hdangling⟩

end Abandoned

section Untaken

/-- A name that is declared in a branch that is never taken and used after it. -/
def untakenText : List Char := "if false \x7b make y with 1; \x7d print y;".toList

open Surface in
/-- Its statements. -/
def untaken : List Surface.Stmt :=
  let ident (x : String) : Ident := ⟨x, default⟩
  [.ifElse (.name (ident "false"))
      (.mk [.declare false (ident "y") (.number 1 default) default] default) none default,
    .print (.name (ident "y")) default]

/-- Its typed form. -/
def untakenTyped : Program :=
  let y : Variable := ⟨9, "y", false, .num, false⟩
  ⟨[.ifElse (.var ⟨8, "false", true, .bool, true⟩) [.declare y (.num 1)] none,
    .print (.var y)]⟩

/-- Simplifying leaves a program that prints a variable it does not declare. -/
theorem untaken_branch_dangles :
    (compile .all .optimized untakenText).1.toOption.map Output.text =
        some (untakenTyped.simplify .all).value.outline.wide ∧
      (Typing.run Prelude.standard untaken).1 = .ok untakenTyped ∧
      (untakenTyped.simplify .all).value = ⟨[.print (.var ⟨9, "y", false, .num, false⟩)]⟩ ∧
      stmtsDangling Prelude.standard (untakenTyped.simplify .all).value.stmts =
        [.var ⟨9, "y", false, .num, false⟩] := by
  have hrun : (Typing.run Prelude.standard untaken).1 = .ok untakenTyped := by cbv
  exact ⟨by decide +kernel, hrun, rfl, by decide +kernel⟩

end Untaken

end Program

end Toal
