import Toal.Script.OfProgram
import Toal.Script.Text
import Mathlib.Data.List.Infix

/-!
# Scripts are renamed programs

Generating a script hands out names while it goes along. Once it is done, the names
are known, and the script is what one gets from the program by putting them in
(`Stmt.ofProgram`, `renames_stmts`). A name is given once and stays
(`Names.Agrees.mono`), no two entities share one (`Names.eq_of_name_eq`), and no two
names are written in the same way (`Name.text_injective`).
-/

namespace Toal.Script

/-! ## Putting names in -/

section

variable (ρ : Entity → Name)

/-- What a variable is in the script. -/
def Ref.ofVariable (v : Variable) : Ref := (constant? v).getD (.name (ρ (.var v)))

/-- A call, given its arguments. -/
def Expr.ofCall (callee : Automation) (args : List Expr) : Expr :=
  if callee.builtin then
    (template? callee.name (args.map operand)).getD (.call (ρ (.auto callee)) args)
  else .call (ρ (.auto callee)) args

mutual

/-- The expression with names for entities. -/
def Expr.ofProgram : Program.Expr → Expr
  | .num value => .num value
  | .bool value => .bool value
  | .word contents => .word contents
  | .list elements => .list (Expr.ofPrograms elements)
  | .var v => .ref (.ofVariable ρ v)
  | .auto a => .ref (.name (ρ (.auto a)))
  | .arith op left right => .binary (.arith op) (Expr.ofProgram left) (Expr.ofProgram right)
  | .compare op left right => .binary (.compare op) (Expr.ofProgram left) (Expr.ofProgram right)
  | .paren inner => .paren (Expr.ofProgram inner)
  | .call callee args => .ofCall ρ callee (Expr.ofPrograms args)

/-- The expressions with names for entities. -/
def Expr.ofPrograms : List Program.Expr → List Expr
  | [] => []
  | e :: es => Expr.ofProgram e :: Expr.ofPrograms es

end

mutual

/-- The statement with names for entities. -/
def Stmt.ofProgram : Program.Stmt → Stmt
  | .declare v init => .declare (.ofVariable ρ v) (.ofProgram ρ init)
  | .assign target source => .assign (.ofVariable ρ target) (.ofProgram ρ source)
  | .change op target term => .change op (.ofVariable ρ target) (.ofProgram ρ term)
  | .print argument => .print (.ofProgram ρ argument)
  | .automate a params body =>
    .function (ρ (.auto a)) (params.map (.ofVariable ρ)) (Stmt.ofPrograms body)
  | .call callee args => .eval (.ofCall ρ callee (Expr.ofPrograms ρ args))
  | .output none _ => .output none
  | .output (some value) _ => .output (some (.ofProgram ρ value))
  | .ifElse test body none => .ifElse (.ofProgram ρ test) (Stmt.ofPrograms body) none
  | .ifElse test body (some alternate) =>
    .ifElse (.ofProgram ρ test) (Stmt.ofPrograms body) (some (Stmt.ofPrograms alternate))
  | .loopWhile test body => .loopWhile (.ofProgram ρ test) (Stmt.ofPrograms body)
  | .loopOver item list body =>
    .loopOver (.ofVariable ρ item) (.ofProgram ρ list) (Stmt.ofPrograms body)
  | .breakLoop => .breakLoop

/-- The statements with names for entities. -/
def Stmt.ofPrograms : List Program.Stmt → List Stmt
  | [] => []
  | s :: ss => Stmt.ofProgram s :: Stmt.ofPrograms ss

end

end

/-! ## Names -/

namespace Names

/-- The entities that have been used are called what the function says. -/
def Agrees (names : Names) (ρ : Entity → Name) : Prop :=
  ∀ e ∈ names.used, ρ e = (names.name e).1

/-- An entity that is used has the name that it was given. -/
theorem name_of_idxOf? {names : Names} {e : Entity} {i : Nat} (h : names.used.idxOf? e = some i) :
    names.name e = (⟨e.name, i + 1⟩, names) := by
  rw [name, h]

/-- An entity that is not used gets the next number. -/
theorem name_of_notMem {names : Names} {e : Entity} (h : e ∉ names.used) :
    names.name e = (⟨e.name, names.used.length + 1⟩, ⟨names.used ++ [e]⟩) := by
  rw [name, List.idxOf?_eq_none_iff.2 h]

/-- A name that has been given stays. -/
theorem Agrees.mono {names names' : Names} {ρ : Entity → Name} (h : names'.Agrees ρ)
    (hle : names.used <+: names'.used) : names.Agrees ρ := by
  intro e he
  obtain ⟨rest, hrest⟩ := hle
  obtain ⟨i, hi⟩ := Option.isSome_iff_exists.1 (List.isSome_idxOf?.2 he)
  have hi' : names'.used.idxOf? e = some i := by
    rw [← hrest, List.idxOf?, List.findIdx?_append]
    rw [List.idxOf?] at hi
    rw [hi]
    rfl
  have hmem : e ∈ names'.used := hrest ▸ List.mem_append_left rest he
  rw [h e hmem, name_of_idxOf? hi, name_of_idxOf? hi']

/-- Giving a name takes none away, and the entity is used after it. -/
theorem used_name (names : Names) (e : Entity) :
    names.used <+: (names.name e).2.used ∧ e ∈ (names.name e).2.used := by
  by_cases he : e ∈ names.used
  · obtain ⟨i, hi⟩ := Option.isSome_iff_exists.1 (List.isSome_idxOf?.2 he)
    rw [name_of_idxOf? hi]
    exact ⟨List.prefix_rfl, he⟩
  · rw [name_of_notMem he]
    exact ⟨List.prefix_append _ _, List.mem_append_right _ List.mem_cons_self⟩

/-- The name that is given is the one that is found later. -/
theorem name_name (names : Names) (e : Entity) :
    ((names.name e).2.name e).1 = (names.name e).1 := by
  by_cases he : e ∈ names.used
  · obtain ⟨i, hi⟩ := Option.isSome_iff_exists.1 (List.isSome_idxOf?.2 he)
    rw [name_of_idxOf? hi, name_of_idxOf? hi]
  · have hi : (names.used ++ [e]).idxOf? e = some names.used.length := by
      rw [List.idxOf?, List.findIdx?_append]
      have hnone := List.idxOf?_eq_none_iff.2 he
      rw [List.idxOf?] at hnone
      rw [hnone]
      simp
    rw [name_of_notMem he, name_of_idxOf? hi]

theorem base_name (names : Names) (e : Entity) : (names.name e).1.base = e.name := by
  unfold name
  split <;> rfl

/-- Numbers are given from one on. -/
theorem suffix_pos (names : Names) (e : Entity) : 0 < (names.name e).1.suffix := by
  unfold name
  split <;> exact Nat.succ_pos _

/-- No other entity gets the name of one that has been used. -/
theorem eq_of_name_eq {names : Names} {e e' : Entity} (he : e ∈ names.used)
    (h : (names.name e).1 = (names.name e').1) : e = e' := by
  obtain ⟨i, hi⟩ := Option.isSome_iff_exists.1 (List.isSome_idxOf?.2 he)
  obtain ⟨hlt, hget, -⟩ := List.idxOf?_eq_some_iff.1 hi
  have hsuffix := congrArg Name.suffix h
  rw [name_of_idxOf? hi] at hsuffix
  by_cases he' : e' ∈ names.used
  · obtain ⟨j, hj⟩ := Option.isSome_iff_exists.1 (List.isSome_idxOf?.2 he')
    obtain ⟨hlt', hget', -⟩ := List.idxOf?_eq_some_iff.1 hj
    rw [name_of_idxOf? hj] at hsuffix
    obtain rfl : i = j := Nat.succ.inj hsuffix
    rw [← hget, hget']
  · rw [name_of_notMem he'] at hsuffix
    have hlen : i = names.used.length := Nat.succ.inj hsuffix
    omega

/-- Names for all entities, such that only the given one has its name. -/
theorem exists_agrees (names : Names) (e : Entity) :
    ∃ ρ, names.Agrees ρ ∧ ρ e = (names.name e).1 ∧ ∀ e', ρ e' = ρ e → e' = e := by
  refine ⟨fun x => if x ∈ names.used ∨ x = e then (names.name x).1 else ⟨"", 0⟩, ?_, ?_, ?_⟩
  · intro x hx
    exact if_pos (.inl hx)
  · exact if_pos (.inr rfl)
  · intro x hx
    beta_reduce at hx
    rw [if_pos (show e ∈ names.used ∨ e = e from .inr rfl)] at hx
    by_cases hused : x ∈ names.used ∨ x = e
    · rw [if_pos hused] at hx
      exact hused.elim (fun h => eq_of_name_eq h hx) id
    · rw [if_neg hused] at hx
      have hpos := names.suffix_pos e
      rw [← hx] at hpos
      exact absurd hpos (Nat.lt_irrefl 0)

end Names

/-- Different names are written differently. -/
theorem Name.text_injective : Function.Injective Name.text := by
  rintro ⟨base, suffix⟩ ⟨base', suffix'⟩ h
  have hlist : base.toList ++ '_' :: Nat.toDigits 10 suffix =
      base'.toList ++ '_' :: Nat.toDigits 10 suffix' := by
    have htoList := congrArg String.toList h
    simpa [Name.text, Nat.toString_eq_ofList_toDigits] using htoList
  obtain ⟨hbase, hsuffix⟩ : base.toList = base'.toList ∧
      Nat.toDigits 10 suffix = Nat.toDigits 10 suffix' := by
    -- The last underscore is the one before the digits.
    rcases List.append_eq_append_iff.1 hlist with ⟨xs, hxs, hdigits⟩ | ⟨xs, hxs, hdigits⟩
    · cases xs with
      | nil => simpa [hxs] using hdigits
      | cons x xs =>
        have hmem : '_' ∈ Nat.toDigits 10 suffix := by
          rw [(List.cons.inj hdigits).2]
          simp
        exact absurd hmem Nat.underscore_not_in_toDigits
    · cases xs with
      | nil => simpa [hxs] using hdigits.symm
      | cons x xs =>
        have hmem : '_' ∈ Nat.toDigits 10 suffix' := by
          rw [(List.cons.inj hdigits).2]
          simp
        exact absurd hmem Nat.underscore_not_in_toDigits
  have hsuffix' := congrArg (Nat.ofDigitChars 10 · 0) hsuffix
  simp only [Nat.ofDigitChars_ten_toDigits] at hsuffix'
  rw [String.toList_inj.1 hbase, hsuffix']

/-! ## Generating is putting names in -/

variable {α β : Type}

/-- What is generated is what the function makes of the names that have been given
    by then. -/
def Renames (m : Emit α) (f : (Entity → Name) → α) : Prop :=
  ∀ (names names' : Names) (a : α), m names = .ok (a, names') →
    names.used <+: names'.used ∧ ∀ ρ, names'.Agrees ρ → a = f ρ

theorem renames_pure (a : α) : Renames (pure a) fun _ => a := by
  intro names names' b h
  cases h
  exact ⟨List.prefix_rfl, fun _ _ => rfl⟩

theorem renames_throw (failure : Failure) (f : (Entity → Name) → α) :
    Renames (throw failure) f := by
  intro names names' a h
  cases h

/-- One part is generated after the other, the second with all names given by then. -/
theorem renames_bind {m : Emit α} {k : α → Emit β} {f : (Entity → Name) → α}
    {g : α → (Entity → Name) → β} (hm : Renames m f) (hk : ∀ a, Renames (k a) (g a)) :
    Renames (m >>= k) fun ρ => g (f ρ) ρ := by
  intro names names' b h
  change Except.bind (m names) (fun x => k x.1 x.2) = _ at h
  cases hx : m names with
  | error failure =>
    rw [hx] at h
    cases h
  | ok x =>
    obtain ⟨a, middle⟩ := x
    rw [hx] at h
    obtain ⟨hle, ha⟩ := hm _ _ _ hx
    obtain ⟨hle', hb⟩ := hk a _ _ _ h
    refine ⟨hle.trans hle', fun ρ hρ => ?_⟩
    rw [hb ρ hρ, ha ρ (hρ.mono hle')]

/-- A name is put in for its entity. -/
theorem renames_name (e : Entity) : Renames (emitName e) fun ρ => ρ e := by
  intro names names' n h
  have hname : names.name e = (n, names') := Except.ok.inj h
  obtain ⟨hle, hmem⟩ := names.used_name e
  have hlater := names.name_name e
  rw [hname] at hle hmem hlater
  exact ⟨hle, fun ρ hρ => ((hρ e hmem).trans hlater).symm⟩

/-- A variable is put in as its name, or as the constant that it is. -/
theorem renames_variable (v : Variable) : Renames (emitVariable v) fun ρ => .ofVariable ρ v := by
  unfold emitVariable Ref.ofVariable
  cases constant? v with
  | some r => exact renames_pure r
  | none => exact renames_bind (renames_name (.var v)) fun n => renames_pure (Ref.name n)

theorem renames_variables (vs : List Variable) :
    Renames (emitVariables vs) fun ρ => vs.map (.ofVariable ρ) := by
  induction vs with
  | nil => exact renames_pure []
  | cons v vs ih =>
    exact renames_bind (renames_variable v) fun r => renames_bind ih fun rs =>
      renames_pure (r :: rs)

/-- A call is put in as a template or as a call of a function. -/
theorem renames_call (callee : Automation) (args : List Expr) :
    Renames (emitCall callee args) fun ρ => .ofCall ρ callee args := by
  unfold emitCall Expr.ofCall
  cases callee.builtin with
  | true =>
    cases template? callee.name (args.map operand) with
    | some e => exact renames_pure e
    | none => exact renames_throw _ _
  | false => exact renames_bind (renames_name _) fun n => renames_pure (Expr.call n args)

mutual

/-- Generating an expression is putting names into it. -/
theorem renames_expr : ∀ e : Program.Expr, Renames (emitExpr e) fun ρ => .ofProgram ρ e
  | .num _ => renames_pure _
  | .bool _ => renames_pure _
  | .word _ => renames_pure _
  | .list elements => renames_bind (renames_exprs elements) fun es => renames_pure (Expr.list es)
  | .var v => renames_bind (renames_variable v) fun r => renames_pure (Expr.ref r)
  | .auto a => renames_bind (renames_name (.auto a)) fun n => renames_pure (Expr.ref (.name n))
  | .arith op left right =>
    renames_bind (renames_expr left) fun l => renames_bind (renames_expr right) fun r =>
      renames_pure (Expr.binary (.arith op) l r)
  | .compare op left right =>
    renames_bind (renames_expr left) fun l => renames_bind (renames_expr right) fun r =>
      renames_pure (Expr.binary (.compare op) l r)
  | .paren inner => renames_bind (renames_expr inner) fun e => renames_pure (Expr.paren e)
  | .call callee args => renames_bind (renames_exprs args) fun es => renames_call callee es

theorem renames_exprs :
    ∀ es : List Program.Expr, Renames (emitExprs es) fun ρ => Expr.ofPrograms ρ es
  | [] => renames_pure []
  | e :: es =>
    renames_bind (renames_expr e) fun e' => renames_bind (renames_exprs es) fun es' =>
      renames_pure (e' :: es')

end

mutual

/-- Generating a statement is putting names into it. -/
theorem renames_stmt (p : Place) :
    ∀ s : Program.Stmt, Renames (emitStmt p s) fun ρ => .ofProgram ρ s
  | .declare v init =>
    renames_bind (renames_variable v) fun r => renames_bind (renames_expr init) fun e =>
      renames_pure (Stmt.declare r e)
  | .assign target source =>
    renames_bind (renames_variable target) fun r => renames_bind (renames_expr source) fun e =>
      renames_pure (Stmt.assign r e)
  | .change op target term =>
    renames_bind (renames_variable target) fun r => renames_bind (renames_expr term) fun e =>
      renames_pure (Stmt.change op r e)
  | .print argument => renames_bind (renames_expr argument) fun e => renames_pure (Stmt.print e)
  | .automate a params body =>
    renames_bind (renames_name (.auto a)) fun n =>
      renames_bind (renames_variables params) fun rs =>
        renames_bind (renames_stmts (.body a) body) fun ss => renames_pure (Stmt.function n rs ss)
  | .call callee args =>
    renames_bind (renames_exprs args) fun es => renames_bind (renames_call callee es) fun e =>
      renames_pure (Stmt.eval e)
  | .output none _ => renames_pure _
  | .output (some value) _ =>
    renames_bind (renames_expr value) fun e => renames_pure (Stmt.output (some e))
  | .ifElse test body none =>
    renames_bind (renames_expr test) fun e => renames_bind (renames_stmts p body) fun ss =>
      renames_pure (Stmt.ifElse e ss none)
  | .ifElse test body (some alternate) =>
    renames_bind (renames_expr test) fun e => renames_bind (renames_stmts p body) fun ss =>
      renames_bind (renames_stmts p alternate) fun ss' => renames_pure (Stmt.ifElse e ss (some ss'))
  | .loopWhile test body =>
    renames_bind (renames_expr test) fun e => renames_bind (renames_stmts p.loop body) fun ss =>
      renames_pure (Stmt.loopWhile e ss)
  | .loopOver item list body =>
    renames_bind (renames_variable item) fun r => renames_bind (renames_expr list) fun e =>
      renames_bind (renames_stmts p.loop body) fun ss => renames_pure (Stmt.loopOver r e ss)
  | .breakLoop => by
    rw [emitStmt]
    by_cases h : p.inLoop = true
    · rw [if_pos h]
      exact renames_pure Stmt.breakLoop
    · rw [if_neg h]
      exact renames_throw _ _

/-- The statements of a script are those of the program with the names that have
    been given by the end. -/
theorem renames_stmts (p : Place) :
    ∀ ss : List Program.Stmt, Renames (emitStmts p ss) fun ρ => Stmt.ofPrograms ρ ss
  | [] => renames_pure []
  | s :: ss =>
    renames_bind (renames_stmt p s) fun s' => renames_bind (renames_stmts p ss) fun ss' =>
      renames_pure (s' :: ss')

end

end Toal.Script
