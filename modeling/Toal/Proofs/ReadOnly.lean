import Toal.Proofs.RunBindings

/-!
# Read-only variables in runs

A scope binds a read-only variable once. From that moment on the value it is bound
to never changes, at any moment of any run: no action assigns to it, and none
declares it again in that scope.

What is bound is a value, and where that value is a list, nobody promises more than
that it stays the same list. Its elements change by what is appended to it and
removed from it, through whatever variable or parameter, and by nothing else
(`Meaning.onList`); typing does not ask whether the list that is appended to is the
value of a read-only variable. Only a program that calls neither of the two leaves
all lists as they were made.

* `readOnly_fixed`: what becomes of a read-only variable and of its elements after
  its declaration.
-/

namespace Toal

open Program (stmtsExposed stmtsCalls stmtsSteady)

namespace Semantics

/-! ## Moments -/

/-- The state after the first actions, of which there are `i`. -/
def Meaning.moment {N : Type} (M : Meaning N) (actions : List (Action N)) (i : Nat) : State N :=
  M.after (actions.take i)

section

variable {N : Type} {M : Meaning N} {changes : Prop} {actions : List (Action N)} {i j scope : Nat}
  {e : Entity} {x : Value N}

/-- The first actions up to one moment, and those up to the next. -/
theorem take_append_drop_take (hij : i ≤ j) :
    actions.take i ++ (actions.take j).drop i = actions.take j := by
  have h := List.take_append_drop i (actions.take j)
  rw [List.take_take, Nat.min_eq_left hij] at h
  exact h

/-- Between two moments lie the actions in between. -/
theorem moment_eq_foldl (hij : i ≤ j) :
    M.moment actions j = ((actions.take j).drop i).foldl M.act (M.moment actions i) := by
  rw [Meaning.moment, Meaning.moment, Meaning.after, Meaning.after, ← List.foldl_append,
    take_append_drop_take hij]

/-- The first actions of an orderly run are orderly. -/
theorem Orderly.take (h : Orderly changes M actions) (n : Nat) :
    Orderly changes M (actions.take n) := by
  rw [← List.take_append_drop n actions] at h
  exact (TameFrom.append_iff.1 h).1

/-- The actions between two moments of an orderly run are tame from the first on. -/
theorem Orderly.between (h : Orderly changes M actions) (hij : i ≤ j) :
    TameFrom changes M (M.moment actions i) ((actions.take j).drop i) := by
  have htake := h.take j
  rw [← take_append_drop_take hij] at htake
  exact (TameFrom.append_iff.1 htake).2

/-- A declaration gives the entity its value. -/
theorem Orderly.value?_declare (h : Orderly changes M actions)
    (hi : actions[i]? = some (.declare scope e x)) :
    (M.moment actions (i + 1)).value? scope e = some x := by
  have hlast : actions.take (i + 1) = actions.take i ++ [Action.declare scope e x] := by
    rw [List.take_add_one, hi]
    rfl
  have htake := h.take (i + 1)
  rw [hlast] at htake
  -- The action is tame, so the scope is open and the binding is really made.
  obtain ⟨⟨⟨hopen, -⟩, -⟩, -⟩ := (TameFrom.append_iff.1 htake).2
  rw [Meaning.moment, hlast, Meaning.after_concat, Semantics.value?_declare]
  exact if_pos ⟨rfl, hopen, rfl⟩

end

end Semantics

/-! ## Typed programs -/

namespace Typing

open Skeleton.Stmt (declaredAll)

/-- No entity is declared twice in a scope that binds the given entities at first. -/
theorem Numbered.nodup_exposed {m n : Nat} {ts : List Program.Stmt} {es : List Entity}
    (h : Numbered m (es ++ declaredAll (Program.skeletons ts)) n) :
    (stmtsExposed ts ++ es).Nodup := by
  have hsublist := (List.Sublist.refl es).append (Program.stmtsExposed_sublist ts)
  have hperm : (stmtsExposed ts ++ es).Perm (es ++ (stmtsExposed ts).reverse) :=
    List.perm_append_comm.trans ((List.reverse_perm _).symm.append_left es)
  exact hperm.nodup_iff.2 (h.nodup.sublist hsublist)

/-- Typed statements declare no entity twice in their scope. -/
theorem StmtForms.nodup_exposed {p q : Spot} {ss : List Surface.Stmt} {ts : List Program.Stmt}
    (h : StmtForms p ss ts q) : (stmtsExposed ts).Nodup := by
  have hnumbered : Numbered p.next ([] ++ declaredAll (Program.skeletons ts)) q.next :=
    numbered_declaredAll h
  have hnodup := hnumbered.nodup_exposed
  rw [List.append_nil] at hnodup
  exact hnodup

mutual

/-- A typed statement assigns to no read-only variable and declares no entity twice in one
    scope. -/
theorem StmtForm.steady : ∀ {p q : Spot} {s : Surface.Stmt} {t : Program.Stmt},
    StmtForm p s t q → t.Steady
  | _, _, _, _, .declare _ _ _ => trivial
  | _, _, _, _, .assign _ hreadOnly _ _ => hreadOnly
  | _, _, _, _, .change _ hreadOnly _ _ _ => hreadOnly
  | _, _, _, _, .print _ _ => trivial
  | _, _, _, _, .automate _ _ hparams hbody _ =>
    ⟨((numbered_params hparams).append (numbered_declaredAll hbody)).nodup_exposed, hbody.steady⟩
  | _, _, _, _, .call _ _ _ => trivial
  | _, _, _, _, .outputNone _ _ => trivial
  | _, _, _, _, .output _ _ _ _ => trivial
  | _, _, _, _, .ifThen _ _ hbody => hbody.steady
  | _, _, _, _, .ifElse _ _ hbody halternate => ⟨hbody.steady, halternate.steady⟩
  | _, _, _, _, .loopWhile _ _ hbody => ⟨hbody.nodup_exposed, hbody.steady⟩
  | _, _, _, _, .loopOver _ _ _ hbody => by
    have hdeclared := numbered_declaredAll hbody
    exact ⟨Numbered.nodup_exposed (.cons rfl hdeclared), hbody.steady⟩
  | _, _, _, _, .breakLoop _ => trivial

/-- Typed statements assign to no read-only variable and declare no entity twice in
    one scope. -/
theorem StmtForms.steady : ∀ {p q : Spot} {ss : List Surface.Stmt} {ts : List Program.Stmt},
    StmtForms p ss ts q → stmtsSteady ts
  | _, _, _, _, .nil => trivial
  | _, _, _, _, .cons h hs => ⟨h.steady, hs.steady⟩

end

end Typing

namespace Semantics

variable {N : Type}

/-- From the moment at which its declaration is executed, the value of a read-only
    variable stays the same. If it is a list, then its elements are those it had,
    changed by what has been appended to it and removed from it since, and by nothing
    else; so they stay the same in a program that never calls for either. -/
theorem readOnly_fixed {entities : List Entity} {stmts : List Surface.Stmt} {program : Program}
    (h : (Typing.run entities stmts).1 = .ok program) (M : Meaning N) (depth : Nat)
    {ending : Except (Stop N) Unit} {actions : List (Action N)}
    (htrace : M.trace depth program = (ending, actions)) :
    M.run depth program = (ending, (M.after actions).printed) ∧
      ∀ i scope v x, actions[i]? = some (.declare scope (.var v) x) → v.readOnly = true →
        ∀ j, i < j →
          (M.moment actions j).value? scope (.var v) = some x ∧
          ∀ list xs, x = .list list → (M.moment actions (i + 1)).lists[list]? = some xs →
            (M.moment actions j).lists[list]? =
                some (((actions.take j).drop (i + 1)).foldl (M.onList list) xs) ∧
              ((∀ call ∈ stmtsCalls program.stmts, ¬call.1.ChangesList) →
                (M.moment actions j).lists[list]? = some xs) := by
  obtain ⟨last, hforms⟩ := Typing.stmtForms_of_run h
  have horderly (changes : Prop) (hcalls : Permitted changes (stmtsCalls program.stmts)) :
      Orderly changes M actions := by
    have htame := orderly_trace hforms.nodup_exposed hforms.steady hcalls M depth
    rw [htrace] at htame
    exact htame
  -- Lists may change in general; without calls that change them, they may not.
  have htame := horderly True fun _ _ _ => trivial
  refine ⟨?_, fun i scope v x hi hv j hij => ⟨?_, fun list xs hx hxs => ⟨?_, fun hcalls => ?_⟩⟩⟩
  · rw [Meaning.run, htrace]
  · rw [moment_eq_foldl hij]
    exact (htame.between hij).value? hv (htame.value?_declare hi)
  · rw [moment_eq_foldl hij]
    exact lists_foldl hxs _
  · have hquiet := (horderly False hcalls).between hij
    rw [moment_eq_foldl hij, lists_foldl hxs, hquiet.foldl_onList]

section Alias

open Surface in
/-- A read-only list, another variable for it, and an append through that one. -/
def aliasing : List Surface.Stmt :=
  let ident (x : String) : Ident := ⟨x, default⟩
  [.declare true (ident "l") (.list [.word "a" default] default) default,
    .declare false (ident "k") (.name (ident "l")) default,
    .call (ident "append") [.word "b" default, .name (ident "k")] default default]

/-- Its typed form. -/
def aliasingTyped : Program :=
  let l : Variable := ⟨9, "l", true, .list, false⟩
  let k : Variable := ⟨10, "k", false, .list, false⟩
  let append : Automation := ⟨0, "append", [⟨"element", .any⟩, ⟨"list", .list⟩], .none, true⟩
  ⟨[.declare l (.list [.word "a"]), .declare k (.var l), .call append [.word "b", .var k]]⟩

/-- What it does. -/
def aliasingActions : List (Action Float) :=
  [.newList [.word [97]], .declare 0 (.var ⟨9, "l", true, .list, false⟩) (.list 0),
    .declare 0 (.var ⟨10, "k", false, .list, false⟩) (.list 0), .append (.word [98]) 0]

/-- The list keeps its value, and it is appended to by another name. -/
theorem readOnly_fixed_aliasing :
    (Typing.run Prelude.standard aliasing).1 = .ok aliasingTyped ∧
      Meaning.double.trace 1 aliasingTyped = (.ok (), aliasingActions) ∧
      (Meaning.double.moment aliasingActions 2).lists[0]? = some [Value.word [97]] ∧
      (Meaning.double.moment aliasingActions 4).value? 0
        (.var ⟨9, "l", true, .list, false⟩) = some (.list 0) ∧
      (Meaning.double.moment aliasingActions 4).lists[0]? =
        some [Value.word [97], Value.word [98]] := by
  have hrun : (Typing.run Prelude.standard aliasing).1 = .ok aliasingTyped := by cbv
  have htrace : Meaning.double.trace 1 aliasingTyped = (.ok (), aliasingActions) := rfl
  have hlist : (Meaning.double.moment aliasingActions 2).lists[0]? = some [Value.word [97]] := rfl
  obtain ⟨-, hfixed⟩ := readOnly_fixed hrun Meaning.double 1 htrace
  obtain ⟨hvalue, helements⟩ :=
    hfixed 1 0 ⟨9, "l", true, .list, false⟩ (.list 0) rfl rfl 4 (by decide)
  exact ⟨hrun, htrace, hlist, hvalue, (helements 0 [.word [97]] rfl hlist).1⟩

end Alias

section Appended

/-- A read-only list and an append to it. -/
def appendedText : List Char := "constantly make l with [1]; append(2, l);".toList

open Surface in
/-- Its statements. -/
def appended : List Surface.Stmt :=
  let ident (x : String) : Ident := ⟨x, default⟩
  [.declare true (ident "l") (.list [.number 1 default] default) default,
    .call (ident "append") [.number 2 default, .name (ident "l")] default default]

/-- Its typed form. -/
def appendedTyped : Program :=
  let l : Variable := ⟨9, "l", true, .list, false⟩
  let append : Automation := ⟨0, "append", [⟨"element", .any⟩, ⟨"list", .list⟩], .none, true⟩
  ⟨[.declare l (.list [.num 1]), .call append [.num 2, .var l]]⟩

/-- What it does. -/
def appendedActions : List (Action Float) :=
  [.newList [.num 1], .declare 0 (.var ⟨9, "l", true, .list, false⟩) (.list 0),
    .append (.num 2) 0]

/-- The elements of a read-only list change after its declaration. -/
theorem appended_readOnly_changes :
    (compile .all .js appendedText).1.toOption.map Output.text =
        some "let l_1 = [1];\nl_1.push(2);" ∧
      (Typing.run Prelude.standard appended).1 = .ok appendedTyped ∧
      Meaning.double.trace 1 appendedTyped = (.ok (), appendedActions) ∧
      (Meaning.double.moment appendedActions 2).lists[0]? = some [Value.num 1] ∧
      (Meaning.double.moment appendedActions 3).lists[0]? =
        some [Value.num 1, Value.num 2] := by
  have hrun : (Typing.run Prelude.standard appended).1 = .ok appendedTyped := by cbv
  have htrace : Meaning.double.trace 1 appendedTyped = (.ok (), appendedActions) := rfl
  exact ⟨by decide +kernel, hrun, htrace, rfl, rfl⟩

end Appended

end Semantics

end Toal
