import Toal.Proofs.Calls
import Toal.Proofs.Elaboration
import Toal.Proofs.Precedence
import Toal.Proofs.Renaming
import Toal.Proofs.ScriptSymbols

/-!
# Operators keep their grouping

An expression of a program says by its tree how its operators are grouped, and the
text that a script has for it says so by the levels of the operators. The tree that
the text is read as is the tree of the expression (`Program.Expr.tree`): parentheses
are groups, a negative number is a group with a sign in it, and all else is as it
is. For every expression without calls of automations of the language, wherever it
stands in a program that has been parsed, typed and simplified, this is the only
way to read its text (`text_reads_as_tree`).
-/

namespace Toal

open Script (Tree Ref Name Names IsWord IsAtom)

/-! ## The expressions of a program -/

namespace Program

mutual

/-- An expression and all expressions in it. -/
def Expr.within : Expr → List Expr
  | .list elements => .list elements :: exprsWithin elements
  | .arith op left right => .arith op left right :: (left.within ++ right.within)
  | .compare op left right => .compare op left right :: (left.within ++ right.within)
  | .paren inner => .paren inner :: inner.within
  | .call callee args => .call callee args :: exprsWithin args
  | e => [e]

/-- The expressions and all expressions in them. -/
def exprsWithin : List Expr → List Expr
  | [] => []
  | e :: es => e.within ++ exprsWithin es

end

mutual

/-- All expressions in a statement. A call that is a statement counts as one. -/
def Stmt.exprs : Stmt → List Expr
  | .declare _ init => init.within
  | .assign _ source => source.within
  | .change _ _ term => term.within
  | .print argument => argument.within
  | .automate _ _ body => stmtsExprs body
  | .call callee args => (Expr.call callee args).within
  | .output none _ => []
  | .output (some value) _ => value.within
  | .ifElse test body none => test.within ++ stmtsExprs body
  | .ifElse test body (some alternate) => test.within ++ (stmtsExprs body ++ stmtsExprs alternate)
  | .loopWhile test body => test.within ++ stmtsExprs body
  | .loopOver _ list body => list.within ++ stmtsExprs body
  | .breakLoop => []

/-- All expressions in the statements. -/
def stmtsExprs : List Stmt → List Expr
  | [] => []
  | s :: ss => s.exprs ++ stmtsExprs ss

end

mutual

/-- All expressions within a readable one are readable. -/
theorem readable_within : ∀ {e : Expr}, e.Readable → ∀ e' ∈ e.within, e'.Readable
  | .list elements, h => List.forall_mem_cons.2 ⟨h, readable_exprsWithin h⟩
  | .arith op left right, h => by
    obtain ⟨-, -, hl, hr⟩ := (Expr.readable_binary rfl).1 h
    exact List.forall_mem_cons.2
      ⟨h, List.forall_mem_append.2 ⟨readable_within hl, readable_within hr⟩⟩
  | .compare op left right, h => by
    obtain ⟨-, -, hl, hr⟩ := (Expr.readable_binary rfl).1 h
    exact List.forall_mem_cons.2
      ⟨h, List.forall_mem_append.2 ⟨readable_within hl, readable_within hr⟩⟩
  | .paren inner, h => List.forall_mem_cons.2 ⟨h, readable_within (e := inner) h⟩
  | .call callee args, h => List.forall_mem_cons.2 ⟨h, readable_exprsWithin h.2⟩
  | .num _, h => List.forall_mem_singleton.2 h
  | .bool _, h => List.forall_mem_singleton.2 h
  | .word _, h => List.forall_mem_singleton.2 h
  | .var _, h => List.forall_mem_singleton.2 h
  | .auto _, h => List.forall_mem_singleton.2 h

theorem readable_exprsWithin : ∀ {es : List Expr}, ExprsReadable es →
    ∀ e ∈ exprsWithin es, e.Readable
  | [], _ => List.forall_mem_nil _
  | _ :: _, h => List.forall_mem_append.2 ⟨readable_within h.1, readable_exprsWithin h.2⟩

end

mutual

/-- All expressions of a readable statement are readable. -/
theorem readable_exprs : ∀ {s : Stmt}, s.Readable → ∀ e ∈ s.exprs, e.Readable
  | .declare _ init, h => readable_within (e := init) h
  | .assign _ source, h => readable_within (e := source) h
  | .change _ _ term, h => readable_within (e := term) h
  | .print argument, h => readable_within (e := argument) h
  | .automate _ _ _, h => readable_stmtsExprs h
  | .call callee args, h => readable_within (e := .call callee args) h
  | .output none _, _ => List.forall_mem_nil _
  | .output (some value) _, h => readable_within (e := value) h
  | .ifElse _ _ none, h =>
    List.forall_mem_append.2 ⟨readable_within h.1, readable_stmtsExprs h.2⟩
  | .ifElse _ _ (some _), h =>
    List.forall_mem_append.2 ⟨readable_within h.1,
      List.forall_mem_append.2 ⟨readable_stmtsExprs h.2.1, readable_stmtsExprs h.2.2⟩⟩
  | .loopWhile _ _, h => List.forall_mem_append.2 ⟨readable_within h.1, readable_stmtsExprs h.2⟩
  | .loopOver _ _ _, h => List.forall_mem_append.2 ⟨readable_within h.1, readable_stmtsExprs h.2⟩
  | .breakLoop, _ => List.forall_mem_nil _

/-- All expressions of readable statements are readable. -/
theorem readable_stmtsExprs : ∀ {ss : List Stmt}, StmtsReadable ss →
    ∀ e ∈ stmtsExprs ss, e.Readable
  | [], _ => List.forall_mem_nil _
  | _ :: _, h => List.forall_mem_append.2 ⟨readable_exprs h.1, readable_stmtsExprs h.2⟩

end

end Program

/-! ## The tree of an expression -/

/-- The text of a number without its sign. -/
def Number.unsignedText (x : Float) : String :=
  if x.isNaN then "NaN" else if x.isInf then "inf" else (magnitude x).text .plain

/-- How a number is read in a script. What is no number at all has no sign. -/
def Script.Tree.ofNumber (x : Float) : Tree :=
  if Number.isNegative x then
    .group (if x.isNaN then .atom (Number.unsignedText x)
      else .sign .minus (.atom (Number.unsignedText x)))
  else .atom (Number.unsignedText x)

namespace Skeleton.Expr

variable {α : Type} (ρ : α → String)

mutual

/-- The tree of an expression, given the texts of its names. -/
def tree : Expr α → Tree
  | .number value => .ofNumber value
  | .truth value => .atom (toString value)
  | .word contents => .atom (Script.wordText contents)
  | .list elements => .array (trees elements)
  | .name x => .atom (ρ x)
  | .binary op left right => .binary op (tree left) (tree right)
  | .group inner => .group (tree inner)
  | .call callee args => .call (.atom (ρ callee)) (trees args)

/-- The trees of expressions. -/
def trees : List (Expr α) → List Tree
  | [] => []
  | e :: es => tree e :: trees es

end

end Skeleton.Expr

/-- The text of an entity in a script, given the names of entities. -/
def Entity.scriptText (ρ : Entity → Name) : Entity → String
  | var v => (Ref.ofVariable ρ v).text
  | auto a => (ρ (.auto a)).text

/-- The tree of an expression, given the names of entities. -/
def Program.Expr.tree (ρ : Entity → Name) (e : Program.Expr) : Tree :=
  e.skeleton.tree (Entity.scriptText ρ)

/-! ## The text of an expression -/

namespace Script

/-- The text of a number is that of its tree. -/
theorem numText_eq (x : Float) : numText x = (Tree.ofNumber x).text := by
  unfold numText Tree.ofNumber Number.text Number.unsignedText
  cases Number.isNegative x with
  | false =>
    cases x.isNaN with
    | true => rfl
    | false =>
      simp only [Bool.false_eq_true, if_false, String.empty_append]
      rfl
  | true =>
    cases x.isNaN with
    | true => rfl
    | false => rfl

open Program (exprsCalls)

mutual

/-- The text of an expression without calls of automations of the language is the
    text of its tree. -/
theorem text_ofProgram (ρ : Entity → Name) : ∀ e : Program.Expr,
    (∀ c ∈ e.calls, c.1.builtin = false) → (Expr.ofProgram ρ e).text = (e.tree ρ).text
  | .num value, _ => numText_eq value
  | .bool _, _ => rfl
  | .word _, _ => rfl
  | .list elements, h => congrArg (fun s => "[" ++ s ++ "]") (textAll_ofPrograms ρ elements h)
  | .var _, _ => rfl
  | .auto _, _ => rfl
  | .arith op left right, h => by
    obtain ⟨hl, hr⟩ := List.forall_mem_append.1 h
    exact congrArg₂ (fun l r => l ++ " " ++ opText (.arith op) ++ " " ++ r)
      (text_ofProgram ρ left hl) (text_ofProgram ρ right hr)
  | .compare op left right, h => by
    obtain ⟨hl, hr⟩ := List.forall_mem_append.1 h
    exact congrArg₂ (fun l r => l ++ " " ++ opText (.compare op) ++ " " ++ r)
      (text_ofProgram ρ left hl) (text_ofProgram ρ right hr)
  | .paren inner, h => congrArg (fun s => "(" ++ s ++ ")") (text_ofProgram ρ inner h)
  | .call callee args, h => by
    obtain ⟨hcallee, hargs⟩ := List.forall_mem_cons.1 h
    rw [Expr.ofProgram, Expr.ofCall, hcallee]
    exact congrArg (fun s => (ρ (.auto callee)).text ++ "(" ++ s ++ ")")
      (textAll_ofPrograms ρ args hargs)

/-- The texts of arguments are those of their trees. -/
theorem textAll_ofPrograms (ρ : Entity → Name) : ∀ es : List Program.Expr,
    (∀ c ∈ exprsCalls es, c.1.builtin = false) →
      textAll (Expr.ofPrograms ρ es) =
        Tree.textAll (Skeleton.Expr.trees (Entity.scriptText ρ) (Program.exprSkeletons es))
  | [], _ => rfl
  | [e], h => text_ofProgram ρ e (List.forall_mem_append.1 h).1
  | e :: e' :: es, h => by
    obtain ⟨he, hes⟩ := List.forall_mem_append.1 h
    exact congrArg₂ (fun s t => s ++ ", " ++ t) (text_ofProgram ρ e he)
      (textAll_ofPrograms ρ (e' :: es) hes)

end

end Script

/-! ## The tree is grouped and written as it has to be -/

namespace Script

/-- A number binds as tightly as anything. -/
theorem Tree.level_ofNumber (x : Float) : (Tree.ofNumber x).level = 6 := by
  unfold ofNumber
  split <;> rfl

theorem Tree.grouped_ofNumber (x : Float) : (Tree.ofNumber x).Grouped := by
  unfold ofNumber
  split
  · cases x.isNaN with
    | true => trivial
    | false => exact ⟨show 5 ≤ 6 by decide, trivial⟩
  · trivial

/-- Reserved words have no digits in them. -/
theorem notMem_reserved {text : String} {c : Char} (hc : c ∈ text.toList)
    (hdigit : c.isDigit = true) : text ∉ reserved := by
  intro hmem
  have hletters : reserved.all (fun word => word.toList.all (!·.isDigit)) = true := by decide
  have hletter := List.all_eq_true.1 (List.all_eq_true.1 hletters text hmem) c hc
  rw [hdigit] at hletter
  cases hletter

/-- The text has digits and points only. -/
def HasPlaces (text : String) : Prop := ∀ c ∈ text.toList, c.isDigit = true ∨ c = '.'

instance (text : String) : Decidable (HasPlaces text) :=
  List.decidableBAll _ text.toList

/-- A numeral has digits and points only, and at least one digit. -/
theorem hasPlaces_of_isUnsigned {text : String} (h : IsUnsigned text.toList) :
    HasPlaces text ∧ ∃ c ∈ text.toList, c.isDigit = true := by
  rw [HasPlaces]
  rcases h with h | ⟨whole, fraction, heq, hwhole, hfraction⟩
  · obtain ⟨hne, hdigits⟩ := isDigits_iff.1 h
    obtain ⟨c, hc⟩ := List.exists_mem_of_ne_nil _ hne
    exact ⟨fun c hc => .inl (hdigits c hc), c, hc, hdigits c hc⟩
  · obtain ⟨hne, hdigits⟩ := isDigits_iff.1 hwhole
    obtain ⟨c, hc⟩ := List.exists_mem_of_ne_nil _ hne
    rw [heq]
    refine ⟨List.forall_mem_append.2 ⟨fun c hc => .inl (hdigits c hc), List.forall_mem_cons.2
      ⟨.inr rfl, fun c hc => .inl ((isDigits_iff.1 hfraction).2 c hc)⟩⟩, c, ?_, hdigits c hc⟩
    exact List.mem_append_left _ hc

/-- Digits with a point between them are a numeral. -/
theorem isUnsigned_take_drop {ds : List Char} (hds : ∀ d ∈ ds, d.isDigit = true) {n : Nat}
    (hpos : 0 < n) (hlt : n < ds.length) : IsUnsigned (ds.take n ++ '.' :: ds.drop n) := by
  refine .inr ⟨_, _, rfl, isDigits_iff.2 ⟨?_, fun c hc => hds c (List.mem_of_mem_take hc)⟩,
    isDigits_iff.2 ⟨?_, fun c hc => hds c (List.mem_of_mem_drop hc)⟩⟩
  · rw [← List.length_pos_iff, List.length_take]
    omega
  · rw [← List.length_pos_iff, List.length_drop]
    omega

/-- A decimal that is written in full is a numeral. -/
theorem isUnsigned_inFull (d : Number.Decimal) : IsUnsigned (d.inFull "").toList := by
  have hdigits : ∀ c ∈ Nat.toDigits 10 d.digits, c.isDigit = true := fun c hc =>
    Nat.isDigit_of_mem_toDigits (by decide) (by decide) hc
  have hzeros (n : Nat) : ∀ c ∈ List.replicate n '0', c.isDigit = true := fun c hc => by
    rw [List.eq_of_mem_replicate hc]
    rfl
  have hne : Nat.toDigits 10 d.digits ≠ [] := Nat.toDigits_ne_nil
  unfold Number.Decimal.inFull
  dsimp only
  generalize Nat.toDigits 10 d.digits = ds at hdigits hne
  split
  · have hchars : (String.ofList ds ++ Number.zeros d.exponent.toNat ++ "").toList =
        ds ++ List.replicate d.exponent.toNat '0' := by
      simp [Number.zeros]
    rw [hchars]
    exact .inl (isDigits_iff.2
      ⟨List.append_ne_nil_of_left_ne_nil hne _, List.forall_mem_append.2 ⟨hdigits, hzeros _⟩⟩)
  split
  · generalize (-(d.exponent + (ds.length : Int))).toNat = n
    have hchars : ("0." ++ Number.zeros n ++ String.ofList ds).toList =
        ['0'] ++ '.' :: (List.replicate n '0' ++ ds) := by
      simp [Number.zeros]
    rw [hchars]
    exact .inr ⟨_, _, rfl, rfl, isDigits_iff.2
      ⟨List.append_ne_nil_of_right_ne_nil _ hne, List.forall_mem_append.2 ⟨hzeros _, hdigits⟩⟩⟩
  · generalize hn : (d.exponent + (ds.length : Int)).toNat = n
    have hchars : (String.ofList (ds.take n) ++ "." ++ String.ofList (ds.drop n)).toList =
        ds.take n ++ '.' :: ds.drop n := by
      simp
    rw [hchars]
    exact isUnsigned_take_drop hdigits (by omega) (by omega)

/-- Digits and points are a word, if there is a digit. -/
theorem isWord_of_hasPlaces {text : String} (h : HasPlaces text)
    (hdigit : ∃ c ∈ text.toList, c.isDigit = true) : IsWord text := by
  obtain ⟨c, hc, hc'⟩ := hdigit
  refine ⟨List.ne_nil_of_mem hc, fun d hd => ?_, notMem_reserved hc hc'⟩
  rw [isAtomChar, Bool.or_eq_true, Bool.or_eq_true, decide_eq_true_iff]
  rcases h d hd with hdigit | hpoint
  · exact .inl (.inr hdigit)
  · exact .inr hpoint

/-- A number without its sign is a word. -/
theorem isWord_unsignedText (x : Float) : IsWord (Number.unsignedText x) := by
  unfold Number.unsignedText
  split
  · decide
  split
  · decide
  · unfold Number.Magnitude.text
    split
    · decide
    · obtain ⟨hplaces, hdigit⟩ := hasPlaces_of_isUnsigned (isUnsigned_inFull _)
      exact isWord_of_hasPlaces hplaces hdigit

theorem Tree.written_ofNumber (x : Float) : (Tree.ofNumber x).Written := by
  have hword := isWord_unsignedText x
  unfold ofNumber
  split
  · cases x.isNaN with
    | true => exact IsAtom.word hword
    | false => exact hword
  · exact IsAtom.word hword

/-- The number that ends a name in a script is written with digits. -/
theorem Name.toList_text (n : Name) :
    n.text.toList = n.base.toList ++ '_' :: Nat.toDigits 10 n.suffix := by
  rw [Name.text, Nat.toString_eq_ofList_toDigits]
  simp

/-- The name of an entity in a script is a word. -/
theorem isWord_name {n : Name} (h : Skeleton.IsName n.base) : IsWord n.text := by
  have hdigits : ∀ c ∈ Nat.toDigits 10 n.suffix, c.isDigit = true := fun c hc =>
    Nat.isDigit_of_mem_toDigits (by decide) (by decide) hc
  obtain ⟨c, hc⟩ := List.exists_mem_of_ne_nil (Nat.toDigits 10 n.suffix) Nat.toDigits_ne_nil
  have hmem : c ∈ n.text.toList := by
    rw [n.toList_text]
    exact List.mem_append_right _ (List.mem_cons_of_mem _ hc)
  refine ⟨List.ne_nil_of_mem hmem, ?_, notMem_reserved hmem (hdigits c hc)⟩
  rw [n.toList_text]
  refine List.forall_mem_append.2
    ⟨fun d hd => ?_, List.forall_mem_cons.2 ⟨by decide, fun d hd => ?_⟩⟩
  · rw [isAtomChar, h.isNameRest d hd]
    rfl
  · rw [isAtomChar, hdigits d hd, Bool.or_true]
    rfl

/-- A constant of the language is a word in a script. -/
theorem isWord_constant {v : Variable} {r : Ref} (h : constant? v = some r) : IsWord r.text := by
  unfold constant? at h
  split at h
  · split at h
    · cases h
      decide
    · cases h
      decide
    · cases h
      decide
    · cases h
      decide
    · cases h
  · cases h

/-- Entities whose names are names are names in scripts, or constants. -/
theorem isWord_scriptText {ρ : Entity → Name} (hρ : ∀ e, (ρ e).base = e.name) {e : Entity}
    (h : Skeleton.IsName e.name) : IsWord (e.scriptText ρ) := by
  cases e with
  | var v =>
    rw [Entity.scriptText, Ref.ofVariable]
    cases hv : constant? v with
    | some r => exact isWord_constant hv
    | none => exact isWord_name ((hρ (.var v)).symm ▸ h)
  | auto a => exact isWord_name ((hρ (.auto a)).symm ▸ h)

end Script

namespace Skeleton.Expr

variable {α : Type} {name ρ : α → String}

/-- The tree of an expression has the expression's level. -/
theorem level_tree (ρ : α → String) (e : Expr α) : (e.tree ρ).level = e.level := by
  cases e with
  | number value => exact Script.Tree.level_ofNumber value
  | _ => rfl

mutual

/-- The tree of a readable expression is grouped as its operators ask for. -/
theorem grouped_tree (ρ : α → String) : ∀ {e : Expr α}, (e.map name).Readable →
    (e.tree ρ).Grouped
  | .number value, _ => Script.Tree.grouped_ofNumber value
  | .truth _, _ => trivial
  | .word _, _ => trivial
  | .list _, h => grouped_trees ρ h
  | .name _, _ => trivial
  | .binary op left right, h => by
    obtain ⟨hleft, hright, hl, hr⟩ := h
    rw [level_map] at hleft hright
    refine ⟨?_, ?_, grouped_tree ρ hl, grouped_tree ρ hr⟩
    · rwa [level_tree]
    · rwa [level_tree]
  | .group inner, h => grouped_tree ρ (e := inner) h
  | .call _ _, h => ⟨Nat.le_refl _, trivial, grouped_trees ρ h.2⟩

/-- The trees of readable expressions are grouped. -/
theorem grouped_trees (ρ : α → String) : ∀ {es : List (Expr α)}, ReadableAll (mapAll name es) →
    Script.Tree.GroupedAll (trees ρ es)
  | [], _ => trivial
  | _ :: _, h => ⟨grouped_tree ρ h.1, grouped_trees ρ h.2⟩

end

mutual

/-- The tree of a readable expression has atoms for atoms. -/
theorem written_tree (hρ : ∀ x, IsName (name x) → IsWord (ρ x)) :
    ∀ {e : Expr α}, (e.map name).Readable → (e.tree ρ).Written
  | .number value, _ => Script.Tree.written_ofNumber value
  | .truth value, _ => by
    cases value with
    | true => exact .word (by decide)
    | false => exact .word (by decide)
  | .word _, h => .literal h
  | .list _, h => written_trees hρ h
  | .name x, h => .word (hρ x h)
  | .binary _ _ _, h => ⟨written_tree hρ h.2.2.1, written_tree hρ h.2.2.2⟩
  | .group inner, h => written_tree hρ (e := inner) h
  | .call callee _, h => ⟨.word (hρ callee h.1), written_trees hρ h.2⟩

/-- The trees of readable expressions are written. -/
theorem written_trees (hρ : ∀ x, IsName (name x) → IsWord (ρ x)) :
    ∀ {es : List (Expr α)}, ReadableAll (mapAll name es) → Script.Tree.WrittenAll (trees ρ es)
  | [], _ => trivial
  | _ :: _, h => ⟨written_tree hρ h.1, written_trees hρ h.2⟩

end

end Skeleton.Expr

/-! ## Generating an expression -/

namespace Script

variable {α β : Type}

/-- Nothing stops the generation. -/
def Succeeds (m : Emit α) : Prop := ∀ names, ∃ x, m names = .ok x

theorem succeeds_pure (a : α) : Succeeds (pure a) := fun names => ⟨(a, names), rfl⟩

/-- One part is generated after the other. -/
theorem succeeds_bind {m : Emit α} {k : α → Emit β} (hm : Succeeds m)
    (hk : ∀ a, Succeeds (k a)) : Succeeds (m >>= k) := by
  intro names
  obtain ⟨⟨a, names'⟩, ha⟩ := hm names
  obtain ⟨x, hx⟩ := hk a names'
  refine ⟨x, ?_⟩
  change Except.bind (m names) (fun x => k x.1 x.2) = _
  rw [ha]
  exact hx

theorem succeeds_name (e : Entity) : Succeeds (emitName e) := fun names => ⟨names.name e, rfl⟩

theorem succeeds_variable (v : Variable) : Succeeds (emitVariable v) := by
  unfold emitVariable
  cases constant? v with
  | some r => exact succeeds_pure r
  | none => exact succeeds_bind (succeeds_name _) fun _ => succeeds_pure _

mutual

/-- Nothing stops the generation of an expression without calls of automations of
    the language. -/
theorem succeeds_expr : ∀ e : Program.Expr, (∀ c ∈ e.calls, c.1.builtin = false) →
    Succeeds (emitExpr e)
  | .num _, _ => succeeds_pure _
  | .bool _, _ => succeeds_pure _
  | .word _, _ => succeeds_pure _
  | .list elements, h => succeeds_bind (succeeds_exprs elements h) fun _ => succeeds_pure _
  | .var v, _ => succeeds_bind (succeeds_variable v) fun _ => succeeds_pure _
  | .auto a, _ => succeeds_bind (succeeds_name (.auto a)) fun _ => succeeds_pure _
  | .arith _ left right, h => by
    obtain ⟨hl, hr⟩ := List.forall_mem_append.1 h
    exact succeeds_bind (succeeds_expr left hl) fun _ =>
      succeeds_bind (succeeds_expr right hr) fun _ => succeeds_pure _
  | .compare _ left right, h => by
    obtain ⟨hl, hr⟩ := List.forall_mem_append.1 h
    exact succeeds_bind (succeeds_expr left hl) fun _ =>
      succeeds_bind (succeeds_expr right hr) fun _ => succeeds_pure _
  | .paren inner, h => succeeds_bind (succeeds_expr inner h) fun _ => succeeds_pure _
  | .call callee args, h => by
    obtain ⟨hcallee, hargs⟩ := List.forall_mem_cons.1 h
    refine succeeds_bind (succeeds_exprs args hargs) fun es => ?_
    rw [emitCall, hcallee]
    exact succeeds_bind (succeeds_name _) fun _ => succeeds_pure _

/-- Expressions are generated if they have no calls of the language's own automations. -/
theorem succeeds_exprs : ∀ es : List Program.Expr,
    (∀ c ∈ Program.exprsCalls es, c.1.builtin = false) → Succeeds (emitExprs es)
  | [], _ => succeeds_pure _
  | e :: es, h => by
    obtain ⟨he, hes⟩ := List.forall_mem_append.1 h
    exact succeeds_bind (succeeds_expr e he) fun _ =>
      succeeds_bind (succeeds_exprs es hes) fun _ => succeeds_pure _

end

open Program in
/-- Take an expression of a program that has been parsed, typed and simplified,
    without calls of automations of the language. It has a text, and the only way
    to read the text is the tree of the expression. -/
theorem text_reads_as_tree {text : List Char} {stmts : List Surface.Stmt} {entities : List Entity}
    {program : Program} (hparse : parseText text = .ok stmts)
    (hrun : (Typing.run entities stmts).1 = .ok program) (passes : Passes) {e : Program.Expr}
    (he : e ∈ stmtsExprs (program.simplify passes).value.stmts)
    (hcalls : ∀ c ∈ e.calls, c.1.builtin = false) (names : Names) :
    ∃ e' names' symbols, emitExpr e names = .ok (e', names') ∧
      symbols? e'.text.toList = some symbols ∧
      ∀ t, Parses 0 symbols t ↔ t = e.tree fun x => (names'.name x).1 := by
  have hprogram : StmtsReadable program.stmts := by
    obtain ⟨last, hforms⟩ := Typing.stmtForms_of_run hrun
    rw [StmtsReadable, Typing.map_name_skeletons hforms]
    exact readable_parseText hparse
  have hreadable : e.Readable := readable_stmtsExprs (readable_simplifyStmts _ hprogram) e he
  obtain ⟨⟨e', names'⟩, hemit⟩ := succeeds_expr e hcalls names
  obtain ⟨-, hrenamed⟩ := renames_expr e names names' e' hemit
  have htext : e'.text = (e.tree fun x => (names'.name x).1).text := by
    rw [hrenamed (fun x => (names'.name x).1) fun _ _ => rfl, text_ofProgram _ e hcalls]
  have hwritten : (e.tree fun x => (names'.name x).1).Written :=
    Skeleton.Expr.written_tree (fun _ h => isWord_scriptText names'.base_name h) hreadable
  refine ⟨e', names', _, hemit, htext ▸ Tree.symbols?_text hwritten, fun t => ?_⟩
  exact parses_symbols_iff (Skeleton.Expr.grouped_tree _ hreadable)

section Power

/-- A difference whose right side is a power of a group. -/
def powerText : List Char :=
  "automate f(num: a) \x7b print a minus (a plus a) to the a; \x7d".toList

/-- Its tokens. -/
def powerTokens : List Token :=
  [⟨.keyword .automate, "automate", ⟨0, 8⟩⟩, ⟨.ident, "f", ⟨9, 10⟩⟩, ⟨.openParen, "(", ⟨10, 11⟩⟩,
    ⟨.ident, "num", ⟨11, 14⟩⟩, ⟨.colon, ":", ⟨14, 15⟩⟩, ⟨.ident, "a", ⟨16, 17⟩⟩,
    ⟨.closeParen, ")", ⟨17, 18⟩⟩, ⟨.openBrace, "\x7b", ⟨19, 20⟩⟩,
    ⟨.keyword .print, "print", ⟨21, 26⟩⟩, ⟨.ident, "a", ⟨27, 28⟩⟩,
    ⟨.keyword .minus, "minus", ⟨29, 34⟩⟩, ⟨.openParen, "(", ⟨35, 36⟩⟩, ⟨.ident, "a", ⟨36, 37⟩⟩,
    ⟨.keyword .plus, "plus", ⟨38, 42⟩⟩, ⟨.ident, "a", ⟨43, 44⟩⟩, ⟨.closeParen, ")", ⟨44, 45⟩⟩,
    ⟨.keyword .to_, "to", ⟨46, 48⟩⟩, ⟨.keyword .the, "the", ⟨49, 52⟩⟩, ⟨.ident, "a", ⟨53, 54⟩⟩,
    ⟨.semicolon, ";", ⟨54, 55⟩⟩, ⟨.closeBrace, "\x7d", ⟨56, 57⟩⟩]

open Surface in
/-- Its statements. -/
def powerStmts : List Surface.Stmt :=
  let sum : Surface.Expr :=
    .binary (.arith .add) (.name ⟨"a", ⟨36, 37⟩⟩) (.name ⟨"a", ⟨43, 44⟩⟩) ⟨36, 44⟩
  let power : Surface.Expr :=
    .binary (.arith .pow) (.group sum ⟨35, 45⟩) (.name ⟨"a", ⟨53, 54⟩⟩) ⟨35, 54⟩
  [.automate ⟨"f", ⟨9, 10⟩⟩ [⟨⟨"a", ⟨16, 17⟩⟩, some ⟨"num", ⟨11, 14⟩⟩⟩] none
    (.mk [.print (.binary (.arith .sub) (.name ⟨"a", ⟨27, 28⟩⟩) power ⟨27, 54⟩) ⟨21, 55⟩] ⟨19, 57⟩)
    ⟨0, 57⟩]

/-- The parameter of the automation. -/
def powerBase : Variable := ⟨10, "a", false, .num, false⟩

/-- The expression. -/
def powerExpr : Program.Expr :=
  let a : Program.Expr := .var powerBase
  .arith .sub a (.arith .pow (.paren (.arith .add a a)) a)

/-- The base of a power is in parentheses, and the power itself needs none. -/
theorem text_reads_as_tree_power :
    parseText powerText = .ok powerStmts ∧
      (Typing.run Prelude.standard powerStmts).1 =
        .ok ⟨[.automate ⟨9, "f", [⟨"a", .num⟩], .none, false⟩ [powerBase] [.print powerExpr]]⟩ ∧
      ∃ symbols, symbols? "a_1 - (a_1 + a_1) ** a_1".toList = some symbols ∧
        ∀ t, Parses 0 symbols t ↔ t = .binary (.arith .sub) (.atom "a_1")
          (.binary (.arith .pow)
            (.group (.binary (.arith .add) (.atom "a_1") (.atom "a_1"))) (.atom "a_1")) := by
  have hscan : Token.scan powerText = .ok powerTokens := by decide +kernel
  have hparse : parseText powerText = .ok powerStmts := by
    rw [parseText, hscan]
    cbv
  have hrun : (Typing.run Prelude.standard powerStmts).1 =
      .ok ⟨[.automate ⟨9, "f", [⟨"a", .num⟩], .none, false⟩ [powerBase] [.print powerExpr]]⟩ := by
    cbv
  obtain ⟨e', names', symbols, hemit, hsymbols, hread⟩ :=
    text_reads_as_tree hparse hrun Program.Passes.all (List.mem_cons_self : powerExpr ∈ _)
      (by decide) ⟨[]⟩
  cases hemit
  exact ⟨hparse, hrun, symbols, hsymbols, hread⟩

end Power

end Script

end Toal
