import Toal.Compiler
import Toal.Proofs.OperatorGrammar
import Toal.Proofs.ParseSound
import Toal.Proofs.Partition
import Toal.Proofs.Skeleton

/-!
# Operands have the levels that scripts ask for

Neither parsing nor simplifying knows of the levels of operators in scripts, and no
parentheses are put in when a script is written. All depends on the operands of a
program having the levels that their operators ask for in scripts; besides, names
and words have to be such as the scanner lets through (`Skeleton.Expr.Readable`).

The grammar of programs sees to it, rule by rule (`Grammar.Derivation.sound`).
Simplifying keeps it, since it replaces an expression only by one that is no looser
(`readable_simplifyExpr`).
-/

namespace Toal

/-! ## Readable programs -/

namespace Skeleton

variable {α β : Type}

/-- The characters are those of a name. -/
def IsName (x : String) : Prop := IsNameText x.toList

/-- The level of an expression in scripts. -/
def Expr.level : Expr α → Nat
  | .binary op _ _ => op.level
  | _ => 6

theorem Expr.level_map (f : α → β) (e : Expr α) : (e.map f).level = e.level := by
  cases e <;> rfl

mutual

/-- Operands have the levels that their operators ask for, and names and words are
    such as the scanner lets through. -/
def Expr.Readable : Expr String → Prop
  | .number _ => True
  | .truth _ => True
  | .word contents => Script.Contents contents.toList
  | .list elements => Expr.ReadableAll elements
  | .name x => IsName x
  | .binary op left right =>
    op.leftLevel ≤ left.level ∧ op.rightLevel ≤ right.level ∧ left.Readable ∧ right.Readable
  | .group inner => inner.Readable
  | .call callee args => IsName callee ∧ Expr.ReadableAll args

/-- All of the expressions are readable. -/
def Expr.ReadableAll : List (Expr String) → Prop
  | [] => True
  | e :: es => e.Readable ∧ Expr.ReadableAll es

end

mutual

/-- All expressions in the statement are readable, and so is its call. -/
def Stmt.Readable : Stmt String → Prop
  | .declare _ _ init => init.Readable
  | .assign _ value => value.Readable
  | .change _ _ term => term.Readable
  | .print value => value.Readable
  | .automate _ _ _ _ body => Stmt.ReadableAll body
  | .call callee args => IsName callee ∧ Expr.ReadableAll args
  | .output none => True
  | .output (some value) => value.Readable
  | .ifElse test body none => test.Readable ∧ Stmt.ReadableAll body
  | .ifElse test body (some alternate) =>
    test.Readable ∧ Stmt.ReadableAll body ∧ Stmt.ReadableAll alternate
  | .loopWhile test body => test.Readable ∧ Stmt.ReadableAll body
  | .loopOver _ list body => list.Readable ∧ Stmt.ReadableAll body
  | .breakLoop => True

/-- All expressions in the statements are readable. -/
def Stmt.ReadableAll : List (Stmt String) → Prop
  | [] => True
  | s :: ss => s.Readable ∧ Stmt.ReadableAll ss

end

end Skeleton

/-! ## Names and words of a text -/

/-- What a name may begin with may stand in it. -/
theorem isNameRest_of_isNameStart {c : Char} (h : isNameStart c = true) : isNameRest c = true := by
  rw [isNameStart, Bool.or_eq_true] at h
  rw [isNameRest, Bool.or_eq_true, Bool.or_eq_true]
  rcases h with halphabetic | hunderscore
  · exact .inl (.inl halphabetic)
  · exact .inr hunderscore

/-- Any character of a name may stand after the first. -/
theorem IsNameText.isNameRest {cs : List Char} (h : IsNameText cs) :
    ∀ c ∈ cs, isNameRest c = true := by
  cases cs with
  | nil => exact List.forall_mem_nil _
  | cons c cs => exact List.forall_mem_cons.2 ⟨isNameRest_of_isNameStart h.1, h.2⟩

/-- What the scanner takes for a name has the characters of one. -/
theorem isNameText_of_piece {c : Char} {cs text : List Char}
    (h : (Lexeme.first c cs).piece = .token .ident text) : IsNameText text := by
  rcases Lexeme.token_cases h with hkind | ⟨hkind, -⟩ | hkind | hkind | ⟨-, hstart, rfl⟩
  · unfold Lexeme.punctuation? at hkind
    split at hkind <;> cases hkind
  · cases hkind
  · cases hkind
  · cases hkind
  · exact ⟨hstart, fun d hd => List.mem_takeWhile_imp hd⟩

namespace Grammar

open Surface
open Skeleton (IsName)

/-- A name or a word is such as the scanner lets through. -/
structure Token.Sound (t : Token) : Prop where
  name : t.kind = .ident → IsName t.text
  word : t.kind = .word → Script.Contents t.text.toList

/-- The expression is readable and of the given level or a tighter one. -/
def At (level : Nat) (e : Expr) : Prop :=
  e.skeleton.Readable ∧ level ≤ e.skeleton.level

/-- What a tree for a phrase has to be for its expressions to be readable. -/
def Phrase.Sound : (p : Phrase) → p.Tree → Prop
  | .stmts, ss => Skeleton.Stmt.ReadableAll (Surface.skeletons ss)
  | .stmt, s => (Stmt.skeleton s).Readable
  | .outputValue, value => ∀ e, value = some e → At 0 e
  | .alternate, other => ∀ b, other = some b → Skeleton.Stmt.ReadableAll (Block.skeletons b)
  | .block, b => Skeleton.Stmt.ReadableAll (Block.skeletons b)
  | .args, es => Skeleton.Expr.ReadableAll (exprSkeletons es)
  | .argList, es => Skeleton.Expr.ReadableAll (exprSkeletons es)
  | .argRest, es => Skeleton.Expr.ReadableAll (exprSkeletons es)
  | .exp, e => At 0 e
  | .sum, e => At 2 e
  | .product, e => At 3 e
  | .power, e => At 4 e
  | .primary, e => At 6 e
  | .expRest, f => ∀ l, At 2 l → At 0 (f l)
  | .sumRest, f => ∀ l, At 2 l → At 2 (f l)
  | .productRest, f => ∀ l, At 3 l → At 3 (f l)
  | .powerRest, f => ∀ b, At 6 b → At 4 (f b)
  | .sumOp, op => BinOp.level (.arith op) = 2
  | .productOp, op => BinOp.level (.arith op) = 3
  | _, _ => True

/-- What a tree for a symbol has to be. -/
def Symbol.Sound : (s : Symbol) → s.Tree → Prop
  | .token kind, t => Token.kind t = kind ∧ Token.Sound t
  | .phrase p, t => p.Sound t

/-- What trees for symbols have to be. -/
def SoundAll : (ss : List Symbol) → Trees ss → Prop
  | [], _ => True
  | s :: ss, (t, ts) => s.Sound t ∧ SoundAll ss ts

/-! ## The grammar of programs -/

/-- What is tight enough for a level is tight enough for a looser one. -/
theorem At.mono {level level' : Nat} {e : Expr} (h : At level e) (hle : level' ≤ level) :
    At level' e :=
  ⟨h.1, Nat.le_trans hle h.2⟩

/-- Operators at their levels make expressions of these levels. -/
theorem At.binary {op : BinOp} {l r : Expr} (hl : At op.leftLevel l) (hr : At op.rightLevel r) :
    At op.level (Grammar.binary op l r) :=
  ⟨⟨hl.2, hr.2, hl.1, hr.1⟩, Nat.le_refl _⟩

/-- A comparison asks for no more than sums on both sides. -/
theorem levels_compare (op : CompareOp) :
    BinOp.leftLevel (.compare op) ≤ 2 ∧ BinOp.rightLevel (.compare op) ≤ 2 := by
  cases op <;> decide

/-- The operators of sums and products group to the left. -/
theorem levels_arith {op : ArithOp} (h : BinOp.level (.arith op) ≠ 4) :
    BinOp.leftLevel (.arith op) = BinOp.level (.arith op) ∧
      BinOp.rightLevel (.arith op) = BinOp.level (.arith op) + 1 := by
  cases op with
  | pow => exact absurd rfl h
  | _ => exact ⟨rfl, rfl⟩

/-- One more operand of a sum or a product. -/
theorem At.next {op : ArithOp} {level : Nat} {l r : Expr} (hop : BinOp.level (.arith op) = level)
    (hlevel : level ≠ 4) (hl : At level l) (hr : At (level + 1) r) :
    At level (Grammar.binary (.arith op) l r) := by
  subst hop
  obtain ⟨hleft, hright⟩ := levels_arith hlevel
  exact At.binary (hleft ▸ hl) (hright ▸ hr)

/-- Every rule makes sound trees of sound trees. -/
theorem Rule.sound {p : Phrase} (r : Rule p) (ts : Trees r.parts) (h : SoundAll r.parts ts) :
    p.Sound (r.tree ts) := by
  cases r with
  | noStmt => trivial
  | moreStmts => exact ⟨h.1, h.2.1⟩
  | make => exact h.2.2.2.1.1
  | constantlyMake => exact h.2.2.2.2.1.1
  | change => exact h.2.2.2.1.1
  | add => exact h.2.1.1
  | subtract => exact h.2.1.1
  | multiply => exact h.2.2.2.1.1
  | divide => exact h.2.2.2.1.1
  | raise => exact h.2.2.2.2.1.1
  | mod => exact h.2.2.2.1.1
  | print => exact h.2.1.1
  | automate => exact h.2.2.2.2.2.2.1
  | call => exact ⟨h.1.2.name h.1.1, h.2.2.1⟩
  | output =>
    obtain ⟨start, value, close, _⟩ := ts
    cases value with
    | none => trivial
    | some e => exact (h.2.1 e rfl).1
  | ifThen =>
    obtain ⟨start, test, body, other, _⟩ := ts
    cases other with
    | none => exact ⟨h.2.1.1, h.2.2.1⟩
    | some b => exact ⟨h.2.1.1, h.2.2.1, h.2.2.2.1 b rfl⟩
  | loopWhile => exact ⟨h.2.2.1.1, h.2.2.2.1⟩
  | loopOver => exact ⟨h.2.2.2.2.1.1, h.2.2.2.2.2.1⟩
  | breakLoop => trivial
  | noValue => exact fun e he => by cases he
  | value =>
    intro e he
    cases he
    exact h.1
  | noAlternate => exact fun b hb => by cases hb
  | ifNot =>
    intro b hb
    cases hb
    exact h.2.1
  | block => exact h.2.1
  | noParams => trivial
  | someParams => trivial
  | paramList => trivial
  | lastParam => trivial
  | nextParam => trivial
  | typed => trivial
  | untyped => trivial
  | noType => trivial
  | arrow => trivial
  | noArgs => trivial
  | someArgs => exact h.1
  | argList => exact ⟨h.1.1, h.2.1⟩
  | lastArg => trivial
  | nextArg => exact ⟨h.2.1.1, h.2.2.1⟩
  | exp => exact h.2.1 _ h.1
  | alone => exact fun l hl => hl.mono (by decide)
  | compared =>
    intro l hl
    have hlevels := levels_compare ts.1
    exact (At.binary (hl.mono hlevels.1) (h.2.1.mono hlevels.2)).mono (Nat.zero_le _)
  | greater => trivial
  | less => trivial
  | isNot => trivial
  | is => trivial
  | strict => trivial
  | orEqualTo => trivial
  | sum => exact h.2.1 _ (h.1.mono (by decide))
  | sumEnd => exact fun l hl => hl
  | sumNext => exact fun l hl => h.2.2.1 _ (At.next h.1 (by decide) hl h.2.1)
  | plus => rfl
  | minus => rfl
  | product => exact h.2.1 _ (h.1.mono (by decide))
  | productEnd => exact fun l hl => hl
  | productNext => exact fun l hl => h.2.2.1 _ (At.next h.1 (by decide) hl h.2.1)
  | times => rfl
  | dividedBy => rfl
  | modulo => rfl
  | power => exact h.2.1 _ h.1
  | noExponent => exact fun b hb => hb.mono (by decide)
  | toThe => exact fun b hb => @At.binary (.arith .pow) b _ hb h.2.2.1
  | numeral => exact ⟨trivial, Nat.le_refl _⟩
  | word => exact ⟨h.1.2.word h.1.1, Nat.le_refl _⟩
  | list => exact ⟨h.2.1, Nat.le_refl _⟩
  | callOf => exact ⟨⟨h.1.2.name h.1.1, h.2.2.1⟩, Nat.le_refl _⟩
  | name => exact ⟨h.1.2.name h.1.1, Nat.le_refl _⟩
  | group => exact ⟨h.2.1.1, Nat.le_refl _⟩

mutual

/-- The trees of derivations are sound if the tokens are. -/
theorem Derivation.sound {s : Symbol} : ∀ (d : Derivation s),
    (∀ t ∈ d.tokens, Token.Sound t) → s.Sound d.tree
  | .leaf t hkind, h => ⟨hkind, h t List.mem_cons_self⟩
  | .node rule parts, h => rule.sound parts.trees (parts.sound h)

/-- The trees of sound tokens are sound, one after the other. -/
theorem Derivations.sound {ss : List Symbol} : ∀ (ds : Derivations ss),
    (∀ t ∈ ds.tokens, Token.Sound t) → SoundAll ss ds.trees
  | .nil, _ => trivial
  | .cons head tail, h => by
    obtain ⟨hhead, htail⟩ := List.forall_mem_append.1 h
    exact ⟨head.sound hhead, tail.sound htail⟩

end

end Grammar

/-- The tokens of a text are such as the scanner lets through. -/
theorem sound_of_scan {text : List Char} {tokens : List Token} (h : Token.scan text = .ok tokens) :
    ∀ t ∈ tokens, Grammar.Token.Sound t := by
  intro t ht
  obtain ⟨n, hn⟩ := Scanner.exists_place_of_mem_tokens (n := 0) h ht
  obtain ⟨c, cs, chars, hpiece, htext⟩ := Scanner.exists_piece_of_next (Prod.ext hn rfl)
  refine ⟨fun hkind => ?_, fun hkind => ?_⟩
  · rw [hkind] at hpiece
    rw [Skeleton.IsName, htext, String.toList_ofList]
    exact isNameText_of_piece hpiece
  · rw [hkind] at hpiece
    rw [htext, String.toList_ofList]
    exact Script.contents_of_piece hpiece

/-- Programs are readable as they are written. -/
theorem readable_parseText {text : List Char} {stmts : List Surface.Stmt}
    (h : parseText text = .ok stmts) : Skeleton.Stmt.ReadableAll (Surface.skeletons stmts) := by
  cases hscan : Token.scan text with
  | error fault =>
    rw [parseText, hscan] at h
    cases h
  | ok tokens =>
    rw [parseText, hscan] at h
    cases hparse : Surface.parse tokens with
    | error stuck =>
      change (Surface.parse tokens).mapError _ = _ at h
      rw [hparse] at h
      cases h
    | ok ss =>
      change (Surface.parse tokens).mapError _ = _ at h
      rw [hparse] at h
      cases h
      obtain ⟨d, htokens, htree⟩ := Surface.parse_sound tokens hparse
      rw [List.append_nil] at htokens
      have hsound := d.sound (htokens ▸ sound_of_scan hscan)
      rw [htree] at hsound
      exact hsound

/-! ## Simplifying -/

namespace Program

variable {p : Passes}

/-- The level of an expression in scripts. -/
def Expr.level (e : Expr) : Nat := e.skeleton.level

/-- The expression is readable, by the names of its entities. -/
def Expr.Readable (e : Expr) : Prop := (e.skeleton.map Entity.name).Readable

/-- The expressions are readable. -/
def ExprsReadable (es : List Expr) : Prop :=
  Skeleton.Expr.ReadableAll (Skeleton.Expr.mapAll Entity.name (exprSkeletons es))

/-- The statement is readable. -/
def Stmt.Readable (s : Stmt) : Prop := (s.skeleton.map Entity.name).Readable

/-- The statements are readable. -/
def StmtsReadable (ss : List Stmt) : Prop :=
  Skeleton.Stmt.ReadableAll (Skeleton.Stmt.mapAll Entity.name (skeletons ss))

/-- An operation is readable if its operands are, and bind tightly enough. -/
theorem Expr.readable_binary {op : BinOp} {left right e : Expr}
    (he : e.skeleton = .binary op left.skeleton right.skeleton) :
    e.Readable ↔ op.leftLevel ≤ left.level ∧ op.rightLevel ≤ right.level ∧ left.Readable ∧
      right.Readable := by
  rw [Expr.Readable, he, Skeleton.Expr.map, Skeleton.Expr.Readable, Skeleton.Expr.level_map,
    Skeleton.Expr.level_map]
  rfl

/-- The second expression may stand wherever the first may. -/
def Expr.Fits (e e' : Expr) : Prop := e.Readable → e'.Readable ∧ e.level ≤ e'.level

namespace Expr.Fits

variable {e e' e'' left left' right right' : Expr}

theorem refl (e : Expr) : e.Fits e := fun h => ⟨h, Nat.le_refl _⟩

/-- What fits in the place of what fits, fits. -/
theorem trans (h : e.Fits e') (h' : e'.Fits e'') : e.Fits e'' := by
  intro he
  obtain ⟨he', hle⟩ := h he
  obtain ⟨he'', hle'⟩ := h' he'
  exact ⟨he'', Nat.le_trans hle hle'⟩

/-- A value may stand anywhere. -/
theorem of_tight (he' : e'.Readable) (hlevel : e'.level = 6) (hle : e.level ≤ 6) : e.Fits e' :=
  fun _ => ⟨he', hlevel ▸ hle⟩

/-- Operations fit if their operands do. -/
theorem binary {op : BinOp} (he : e.skeleton = .binary op left.skeleton right.skeleton)
    (he' : e'.skeleton = .binary op left'.skeleton right'.skeleton) (hl : left.Fits left')
    (hr : right.Fits right') : e.Fits e' := by
  intro h
  obtain ⟨hleft, hright, hleft', hright'⟩ := (readable_binary he).1 h
  obtain ⟨hl', hle⟩ := hl hleft'
  obtain ⟨hr', hle'⟩ := hr hright'
  refine ⟨(readable_binary he').2 ⟨Nat.le_trans hleft hle, Nat.le_trans hright hle', hl', hr'⟩, ?_⟩
  rw [level, level, he, he']
  exact Nat.le_refl _

end Expr.Fits

theorem Expr.level_le (e : Expr) : e.level ≤ 6 := by
  cases e with
  | arith op left right => exact Nat.le_trans (BinOp.level_le (.arith op)) (by decide)
  | compare op left right => exact Nat.le_trans (BinOp.level_le (.compare op)) (by decide)
  | _ => exact Nat.le_refl _

theorem fits_foldVar (v : Variable) : (Expr.var v).Fits (foldVar v) := by
  unfold foldVar
  cases truth? v with
  | none => exact .refl _
  | some b => exact .of_tight trivial rfl (Nat.le_refl _)

/-- The value of an operation fits in its place. -/
theorem fits_foldArith (op : ArithOp) (left right : Expr) :
    (Expr.arith op left right).Fits (foldArith op left right).value := by
  unfold foldArith
  split
  · split
    · exact .of_tight trivial rfl (Expr.level_le _)
    · exact .refl _
  · exact .refl _

/-- The value of a comparison fits in its place. -/
theorem fits_foldCompare (op : CompareOp) (left right : Expr) :
    (Expr.compare op left right).Fits (foldCompare op left right).value := by
  unfold foldCompare
  split
  · exact .of_tight trivial rfl (Expr.level_le _)
  · exact .refl _

/-- What is left of parentheses fits in their place. -/
theorem fits_foldParen (inner : Expr) : (Expr.paren inner).Fits (foldParen inner) := by
  unfold foldParen
  split
  · exact fun h => ⟨h, Nat.le_refl _⟩
  · exact fun h => ⟨h, Nat.le_refl _⟩
  · exact fun h => ⟨h, Nat.le_refl _⟩
  · exact .refl _

mutual

/-- A simplified expression may stand wherever the expression may. -/
theorem fits_simplify : ∀ e : Expr, e.Fits (e.simplify p).value
  | .var v => by
    rw [Expr.simplify, Reduced.value_pure]
    split
    · exact fits_foldVar v
    · exact .refl _
  | .arith op left right => by
    have hsub : (Expr.arith op left right).Fits
        (.arith op (left.simplify p).value (right.simplify p).value) :=
      .binary rfl rfl (fits_simplify left) (fits_simplify right)
    simp only [Expr.simplify, Reduced.value_bind]
    split
    · exact hsub.trans (fits_foldArith op _ _)
    · exact hsub
  | .compare op left right => by
    have hsub : (Expr.compare op left right).Fits
        (.compare op (left.simplify p).value (right.simplify p).value) :=
      .binary rfl rfl (fits_simplify left) (fits_simplify right)
    simp only [Expr.simplify, Reduced.value_bind]
    split
    · exact hsub.trans (fits_foldCompare op _ _)
    · exact hsub
  | .paren inner => by
    have hsub : (Expr.paren inner).Fits (.paren (inner.simplify p).value) :=
      fun h => ⟨(fits_simplify inner h).1, Nat.le_refl _⟩
    simp only [Expr.simplify, Reduced.value_bind, Reduced.value_pure]
    split
    · exact hsub.trans (fits_foldParen _)
    · exact hsub
  | .list elements => fun h => ⟨readable_simplifyExprs elements h, Nat.le_refl _⟩
  | .call callee args => fun h => ⟨⟨h.1, readable_simplifyExprs args h.2⟩, Nat.le_refl _⟩
  | .num _ => .refl _
  | .bool _ => .refl _
  | .word _ => .refl _
  | .auto _ => .refl _

/-- Simplifying keeps expressions readable. -/
theorem readable_simplifyExprs : ∀ es : List Expr, ExprsReadable es →
    ExprsReadable (simplifyExprs p es).value
  | [], _ => trivial
  | e :: es, h => ⟨(fits_simplify e h.1).1, readable_simplifyExprs es h.2⟩

end

theorem stmtsReadable_append {ss ts : List Stmt} (hss : StmtsReadable ss) (hts : StmtsReadable ts) :
    StmtsReadable (ss ++ ts) := by
  induction ss with
  | nil => exact hts
  | cons s ss ih => exact ⟨hss.1, ih hss.2⟩

mutual

/-- Simplifying a statement keeps it readable. -/
theorem readable_simplifyStmt : ∀ s : Stmt, s.Readable → StmtsReadable (s.simplify p).value
  | .declare v init, h => ⟨(fits_simplify init h).1, trivial⟩
  | .assign target source, h => ⟨(fits_simplify source h).1, trivial⟩
  | .change op target term, h => ⟨(fits_simplify term h).1, trivial⟩
  | .print argument, h => ⟨(fits_simplify argument h).1, trivial⟩
  | .automate a params body, h => ⟨readable_simplifyStmts body h, trivial⟩
  | .call callee args, h => ⟨⟨h.1, readable_simplifyExprs args h.2⟩, trivial⟩
  | .output none ty, _ => ⟨trivial, trivial⟩
  | .output (some value) ty, h => ⟨(fits_simplify value h).1, trivial⟩
  | .ifElse test body none, h => by
    simp only [Stmt.simplify, Reduced.value_bind]
    cases knownTest p (test.simplify p).value with
    | none => exact ⟨⟨(fits_simplify test h.1).1, readable_simplifyStmts body h.2⟩, trivial⟩
    | some b =>
      cases b with
      | true => exact readable_simplifyStmts body h.2
      | false => trivial
  | .ifElse test body (some alternate), h => by
    simp only [Stmt.simplify, Reduced.value_bind]
    cases knownTest p (test.simplify p).value with
    | none =>
      exact ⟨⟨(fits_simplify test h.1).1, readable_simplifyStmts body h.2.1,
        readable_simplifyStmts alternate h.2.2⟩, trivial⟩
    | some b =>
      cases b with
      | true => exact readable_simplifyStmts body h.2.1
      | false => exact readable_simplifyStmts alternate h.2.2
  | .loopWhile test body, h => by
    simp only [Stmt.simplify, Reduced.value_bind]
    split
    · trivial
    · exact ⟨⟨(fits_simplify test h.1).1, readable_simplifyStmts body h.2⟩, trivial⟩
  | .loopOver item list body, h =>
    ⟨⟨(fits_simplify list h.1).1, readable_simplifyStmts body h.2⟩, trivial⟩
  | .breakLoop, _ => ⟨trivial, trivial⟩

/-- Simplified statements are readable if the statements are. -/
theorem readable_simplifyStmts : ∀ ss : List Stmt, StmtsReadable ss →
    StmtsReadable (simplifyStmts p ss).value
  | [], _ => trivial
  | s :: ss, h => by
    simp only [simplifyStmts, Reduced.value_bind]
    split
    · exact readable_simplifyStmt s h.1
    · exact stmtsReadable_append (readable_simplifyStmt s h.1) (readable_simplifyStmts ss h.2)

end

end Program

end Toal
