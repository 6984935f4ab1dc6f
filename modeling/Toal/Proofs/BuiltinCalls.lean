import Toal.Proofs.CompileOutcome
import Toal.Proofs.Rescanning
import Toal.Proofs.StrayBreaks
import Toal.Proofs.Templates
import Toal.Proofs.TypePreservation

/-!
# Calls of automations of the language

What a program calls by name, a script spells out by a template, and no parentheses are put
around the arguments but for operators. Whether this is enough depends on the arguments. In
a program that has been parsed, typed and simplified, operands of arithmetic operators are no
words and what is appended to is a list, so only one thing can go wrong with a template: that
the length is taken of something that no member can be taken of (`Program.Expr.Misread`),
namely of a number that is written with digits only or of a word that names a type. Besides,
an argument may have a name or a word in it that no script can have
(`Program.Expr.Misspelled`): the characters of names are not the same in scripts, and escapes
are copied unseen. Without any of these, the only way to read the text of an expression is its
term, with the whole arguments in the templates (`calls_read_as_templates`). With one, the text
has no reading or another one (`length_misread_and_start_repeated`).
-/

namespace Toal

open Number (isDigits)
open Prelude (Known)
open Script (Names Name Ref Term Engine IsIdentifier IsIdentifierName NameLike)

/-! ## What calls are misread -/

namespace Program

/-- No member can be taken of the text that the expression has in a script: it ends in a
    numeral without a point, or it begins with `typeof`. -/
def Expr.TakesNoPoint : Expr → Prop
  | .num value => isDigits (Script.numText value).toList = true
  | .call callee _ => callee.builtin = true ∧ callee.name = "type"
  | _ => False

/-- The call takes the length of something that no member can be taken of. -/
def Expr.Misread : Expr → Prop
  | .call callee [value] =>
    callee.builtin = true ∧ callee.name = "length" ∧ value.TakesNoPoint
  | _ => False

instance : ∀ e : Expr, Decidable e.TakesNoPoint
  | .num value => inferInstanceAs (Decidable (isDigits (Script.numText value).toList = true))
  | .call callee _ => inferInstanceAs (Decidable (callee.builtin = true ∧ callee.name = "type"))
  | .bool _ | .word _ | .list _ | .var _ | .auto _ | .arith _ _ _ | .compare _ _ _ | .paren _ =>
    inferInstanceAs (Decidable False)

instance : ∀ e : Expr, Decidable e.Misread
  | .call callee [value] => inferInstanceAs
    (Decidable (callee.builtin = true ∧ callee.name = "length" ∧ value.TakesNoPoint))
  | .call _ [] | .call _ (_ :: _ :: _) => inferInstanceAs (Decidable False)
  | .num _ | .bool _ | .word _ | .list _ | .var _ | .auto _ | .arith _ _ _ | .compare _ _ _
  | .paren _ => inferInstanceAs (Decidable False)

/-- Only calls of the language's own automations are misread. -/
theorem Expr.builtin_of_misread {callee : Automation} : ∀ {args : List Expr},
    (Expr.call callee args).Misread → callee.builtin = true
  | [], h => h.elim
  | [_], h => h.1
  | _ :: _ :: _, h => h.elim

/-- The expression has a name or a word of its own that no script can have: characters of the
    name are not such that names of scripts have them, or an escape in the word has no meaning.
    Constants of the language have names of their own in scripts. -/
def Expr.Misspelled : Expr → Prop
  | .word contents => Script.Literal.units? (Script.wordText contents).toList = none
  | .var v => Script.constant? v = none ∧ ¬IsIdentifierName v.name
  | .auto a => ¬IsIdentifierName a.name
  | .call callee _ => callee.builtin = false ∧ ¬IsIdentifierName callee.name
  | _ => False

instance : ∀ e : Expr, Decidable e.Misspelled
  | .word contents =>
    inferInstanceAs (Decidable (Script.Literal.units? (Script.wordText contents).toList = none))
  | .var v => inferInstanceAs (Decidable (Script.constant? v = none ∧ ¬IsIdentifierName v.name))
  | .auto a => inferInstanceAs (Decidable ¬IsIdentifierName a.name)
  | .call callee _ =>
    inferInstanceAs (Decidable (callee.builtin = false ∧ ¬IsIdentifierName callee.name))
  | .num _ | .bool _ | .list _ | .arith _ _ _ | .compare _ _ _ | .paren _ =>
    inferInstanceAs (Decidable False)

/-! ## Sound expressions -/

/-- What is known of the expressions of a program that has been parsed, typed and
    simplified. -/
structure Expr.Sound (e : Expr) : Prop where
  readable : e.Readable
  wellTyped : e.WellTyped
  proper : Proper Known e.calls

/-- The expressions are sound. -/
structure ExprsSound (es : List Expr) : Prop where
  readable : ExprsReadable es
  wellTyped : exprsWellTyped es
  proper : Proper Known (exprsCalls es)

theorem ExprsSound.cons_iff {e : Expr} {es : List Expr} :
    ExprsSound (e :: es) ↔ e.Sound ∧ ExprsSound es := by
  constructor
  · rintro ⟨hreadable, htyped, hproper⟩
    obtain ⟨hhead, htail⟩ := List.forall_mem_append.1 hproper
    exact ⟨⟨hreadable.1, htyped.1, hhead⟩, hreadable.2, htyped.2, htail⟩
  · rintro ⟨⟨hreadable, htyped, hproper⟩, hreadable', htyped', hproper'⟩
    exact ⟨⟨hreadable, hreadable'⟩, ⟨htyped, htyped'⟩, hproper.append hproper'⟩

/-- Of sound expressions each one is sound. -/
theorem ExprsSound.sound_of_mem {es : List Expr} (h : ExprsSound es) : ∀ e ∈ es, e.Sound := by
  induction es with
  | nil => exact List.forall_mem_nil _
  | cons e es ih =>
    obtain ⟨he, hes⟩ := cons_iff.1 h
    exact List.forall_mem_cons.2 ⟨he, ih hes⟩

namespace Expr.Sound

variable {left right inner : Expr} {elements args : List Expr}

theorem list (h : (Expr.list elements).Sound) : ExprsSound elements :=
  ⟨h.readable, h.wellTyped, h.proper⟩

theorem paren (h : (Expr.paren inner).Sound) : inner.Sound :=
  ⟨h.readable, h.wellTyped, h.proper⟩

theorem arith {op : ArithOp} (h : (Expr.arith op left right).Sound) : left.Sound ∧ right.Sound := by
  obtain ⟨-, -, hleft, hright⟩ := (Expr.readable_binary rfl).1 h.readable
  obtain ⟨hl, hr⟩ := List.forall_mem_append.1 h.proper
  exact ⟨⟨hleft, h.wellTyped.1, hl⟩, hright, h.wellTyped.2.1, hr⟩

theorem compare {op : CompareOp} (h : (Expr.compare op left right).Sound) :
    left.Sound ∧ right.Sound := by
  obtain ⟨-, -, hleft, hright⟩ := (Expr.readable_binary rfl).1 h.readable
  obtain ⟨hl, hr⟩ := List.forall_mem_append.1 h.proper
  exact ⟨⟨hleft, h.wellTyped.1, hl⟩, hright, h.wellTyped.2.1, hr⟩

theorem call {callee : Automation} (h : (Expr.call callee args).Sound) : ExprsSound args :=
  ⟨h.readable.2, h.wellTyped.1, (List.forall_mem_cons.1 h.proper).2⟩

end Expr.Sound

mutual

/-- All expressions within a sound one are sound. -/
theorem sound_within : ∀ {e : Expr}, e.Sound → ∀ x ∈ e.within, x.Sound
  | .list _, h => List.forall_mem_cons.2 ⟨h, sound_exprsWithin h.list⟩
  | .arith _ _ _, h => List.forall_mem_cons.2 ⟨h,
    List.forall_mem_append.2 ⟨sound_within h.arith.1, sound_within h.arith.2⟩⟩
  | .compare _ _ _, h => List.forall_mem_cons.2 ⟨h,
    List.forall_mem_append.2 ⟨sound_within h.compare.1, sound_within h.compare.2⟩⟩
  | .paren _, h => List.forall_mem_cons.2 ⟨h, sound_within h.paren⟩
  | .call _ _, h => List.forall_mem_cons.2 ⟨h, sound_exprsWithin h.call⟩
  | .num _, h | .bool _, h | .word _, h | .var _, h | .auto _, h => List.forall_mem_singleton.2 h

theorem sound_exprsWithin : ∀ {es : List Expr}, ExprsSound es → ∀ x ∈ exprsWithin es, x.Sound
  | [], _ => List.forall_mem_nil _
  | _ :: _, h => List.forall_mem_append.2
    ⟨sound_within (ExprsSound.cons_iff.1 h).1, sound_exprsWithin (ExprsSound.cons_iff.1 h).2⟩

end

mutual

/-- All expressions of a readable and typed statement are sound. -/
theorem sound_exprs {around : Option Automation} : ∀ {s : Stmt}, s.Readable → s.WellTyped around →
    Proper Known s.calls → ∀ e ∈ s.exprs, e.Sound
  | .declare _ _, hr, hw, hp => sound_within ⟨hr, hw.1, hp⟩
  | .assign _ _, hr, hw, hp => sound_within ⟨hr, hw.1, hp⟩
  | .change _ _ _, hr, hw, hp => sound_within ⟨hr, hw.1, hp⟩
  | .print _, hr, hw, hp => sound_within ⟨hr, hw.1, hp⟩
  | .automate _ _ _, hr, hw, hp => sound_stmtsExprs hr hw.2.2.2 hp
  | .call callee args, hr, hw, hp => sound_within (e := .call callee args) ⟨hr, hw, hp⟩
  | .output none _, _, _, _ => List.forall_mem_nil _
  | .output (some _) _, hr, hw, hp => sound_within ⟨hr, hw.1, hp⟩
  | .ifElse _ _ none, hr, hw, hp => by
    obtain ⟨htest, hbody⟩ := List.forall_mem_append.1 hp
    exact List.forall_mem_append.2
      ⟨sound_within ⟨hr.1, hw.1, htest⟩, sound_stmtsExprs hr.2 hw.2.2 hbody⟩
  | .ifElse _ _ (some _), hr, hw, hp => by
    obtain ⟨htest, hblocks⟩ := List.forall_mem_append.1 hp
    obtain ⟨hbody, halternate⟩ := List.forall_mem_append.1 hblocks
    exact List.forall_mem_append.2 ⟨sound_within ⟨hr.1, hw.1, htest⟩, List.forall_mem_append.2
      ⟨sound_stmtsExprs hr.2.1 hw.2.2.1 hbody, sound_stmtsExprs hr.2.2 hw.2.2.2 halternate⟩⟩
  | .loopWhile _ _, hr, hw, hp => by
    obtain ⟨htest, hbody⟩ := List.forall_mem_append.1 hp
    exact List.forall_mem_append.2
      ⟨sound_within ⟨hr.1, hw.1, htest⟩, sound_stmtsExprs hr.2 hw.2.2 hbody⟩
  | .loopOver _ _ _, hr, hw, hp => by
    obtain ⟨hlist, hbody⟩ := List.forall_mem_append.1 hp
    exact List.forall_mem_append.2
      ⟨sound_within ⟨hr.1, hw.1, hlist⟩, sound_stmtsExprs hr.2 hw.2.2.2 hbody⟩
  | .breakLoop, _, _, _ => List.forall_mem_nil _

/-- All expressions of readable and typed statements are sound. -/
theorem sound_stmtsExprs {around : Option Automation} : ∀ {ss : List Stmt}, StmtsReadable ss →
    stmtsWellTyped around ss → Proper Known (stmtsCalls ss) → ∀ e ∈ stmtsExprs ss, e.Sound
  | [], _, _, _ => List.forall_mem_nil _
  | _ :: _, hr, hw, hp => by
    obtain ⟨hhead, htail⟩ := List.forall_mem_append.1 hp
    exact List.forall_mem_append.2
      ⟨sound_exprs hr.1 hw.1 hhead, sound_stmtsExprs hr.2 hw.2 htail⟩

end

end Program

/-! ## The term of an expression -/

/-- How an expression is read in a script, given the names of entities. -/
def Program.Expr.term (ρ : Entity → Name) (e : Program.Expr) : Term :=
  (Script.Expr.ofProgram ρ e).term

namespace Script

theorem ofPrograms_eq_map (ρ : Entity → Name) (es : List Program.Expr) :
    Expr.ofPrograms ρ es = es.map (Expr.ofProgram ρ) := by
  induction es with
  | nil => rfl
  | cons e es ih => rw [Expr.ofPrograms, ih, List.map_cons]

/-- The terms of arguments are the arguments' terms. -/
theorem terms_ofPrograms (ρ : Entity → Name) (es : List Program.Expr) :
    terms (Expr.ofPrograms ρ es) = es.map (·.term ρ) := by
  rw [terms_eq_map, ofPrograms_eq_map, List.map_map]
  rfl

/-- In ASCII, the characters of names are the same in the language and in scripts. -/
theorem isIdContinue_of_isNameRest {c : Char} (h : isNameRest c = true) :
    (isIdContinue c || decide (128 ≤ c.toNat)) = true := by
  rw [Bool.or_eq_true, decide_eq_true_iff]
  by_cases hascii : c.toNat < 128
  · refine .inl ?_
    rw [isNameRest, Text.isAlphabetic, Text.isNumeric, if_pos hascii, if_pos hascii] at h
    rw [isIdContinue, isIdStart, if_pos hascii, if_pos hascii]
    simp only [Bool.or_eq_true] at h ⊢
    tauto
  · exact .inr (Nat.le_of_not_lt hascii)

/-- The number at the end of a name is made of characters of names. -/
theorem isIdContinue_suffix (n : Name) :
    ('_' :: Nat.toDigits 10 n.suffix).all isIdContinue = true := by
  refine List.all_eq_true.2 (List.forall_mem_cons.2 ⟨by decide, fun c hc => ?_⟩)
  exact isIdContinue_of_isDigit (Nat.isDigit_of_mem_toDigits (by decide) (by decide) hc)

/-- A name begins with what it begins with in the program. -/
theorem exists_head_base {n : Name} (h : Skeleton.IsName n.base) :
    ∃ c, n.base.toList.head? = some c ∧ n.text.toList.head? = some c ∧ isNameStart c = true := by
  rw [Skeleton.IsName] at h
  rw [n.toList_text]
  cases hchars : n.base.toList with
  | nil =>
    rw [hchars] at h
    exact h.elim
  | cons c cs =>
    rw [hchars] at h
    exact ⟨c, rfl, rfl, h.1⟩

/-- A number is put after the name of an entity, and so no name is a reserved word. -/
theorem nameLike_name {n : Name} (h : Skeleton.IsName n.base) : NameLike n.text := by
  refine ⟨?_, ?_, (isWord_name h).free⟩
  · obtain ⟨c, -, hc, hstart⟩ := exists_head_base h
    rw [hc, Option.any_some, Lexeme.isDigit_eq_false_of_isNameStart hstart]
    rfl
  · refine List.all_eq_true.2 fun c hc => ?_
    rw [n.toList_text] at hc
    rcases List.mem_append.1 hc with hc | hc
    · exact isIdContinue_of_isNameRest (h.isNameRest c hc)
    · rw [List.all_eq_true.1 (isIdContinue_suffix n) c hc, Bool.true_or]

/-- Whether a script can have the name of an entity depends on the characters it has in the
    program. -/
theorem isIdentifier_name_iff {n : Name} (h : Skeleton.IsName n.base) :
    IsIdentifier n.text ↔ IsIdentifierName n.base := by
  have hsuffix := isIdContinue_suffix n
  obtain ⟨c, hbase, htext, -⟩ := exists_head_base h
  have hhead : n.text.toList.head? = n.base.toList.head? := htext.trans hbase.symm
  constructor
  · intro hid
    have hchars := hid.chars
    rw [n.toList_text, List.all_append, Bool.and_eq_true] at hchars
    exact ⟨hhead ▸ hid.begins, hchars.1⟩
  · intro hname
    refine ⟨⟨hhead ▸ hname.begins, ?_⟩, (isWord_name h).free⟩
    rw [n.toList_text, List.all_append, hname.chars, hsuffix]
    rfl

/-- A magnitude is written as a numeral without a sign. -/
theorem isUnsigned_text (a : Number.Magnitude) : IsUnsigned (a.text .plain).toList := by
  unfold Number.Magnitude.text
  split
  · exact .inl rfl
  · exact isUnsigned_inFull _

/-- A number is written as a numeral, possibly with a sign in front. -/
theorem written_ofNumber (x : Float) : (Term.ofNumber x).Written := by
  have hnan : IsIdentifier "NaN" := by decide
  have hinf : IsIdentifier "inf" := by decide
  have hfinite := isUnsigned_text (Number.magnitude x)
  exact Term.ofNumber_cases x hnan.nameLike hinf.nameLike hfinite hnan.nameLike hinf hfinite

/-- A constant of the language is written in the words of scripts. -/
theorem written_ofRef {v : Variable} {r : Ref} (h : constant? v = some r) :
    (Term.ofRef r).Written := by
  have hmath : (Term.name "Math").Written := Term.written_name (by decide)
  unfold constant? at h
  split at h
  · split at h <;> cases h
    · exact ⟨hmath, by decide⟩
    all_goals exact Term.written_name (by decide)
  · cases h

end Script

namespace Program.Expr

variable {ρ : Entity → Name} {callee : Automation} {args : List Expr}

/-- A call of an automation of the language is read as the template, with the terms of the
    arguments put in. -/
theorem Sound.template (h : (Expr.call callee args).Sound) (hbuiltin : callee.builtin = true)
    (ρ : Entity → Name) :
    Term.template? callee.name (args.map fun a => (a.term ρ).operand) =
      some ((Expr.call callee args).term ρ) := by
  obtain ⟨hlength, hknown⟩ := (List.forall_mem_cons.1 h.proper).1
  have hsome : (Script.template? callee.name
      ((Script.Expr.ofPrograms ρ args).map Script.operand)).isSome = true := by
    refine Script.isSome_template? (hknown hbuiltin) ?_
    rw [List.length_map, Script.ofPrograms_eq_map, List.length_map]
    exact hlength
  obtain ⟨e, he⟩ := Option.isSome_iff_exists.1 hsome
  have hterm : (Expr.call callee args).term ρ = e.term := by
    rw [term, Script.Expr.ofProgram, Script.Expr.ofCall, if_pos hbuiltin, he, Option.getD_some]
  have hargs : args.map (fun a => (a.term ρ).operand) =
      ((Script.Expr.ofPrograms ρ args).map Script.operand).map Script.Expr.term := by
    rw [Script.ofPrograms_eq_map, List.map_map, List.map_map]
    exact List.map_congr_left fun a _ => (Script.term_operand _).symm
  rw [hterm, hargs, Script.term_template? he]

theorem term_list (ρ : Entity → Name) (elements : List Expr) :
    (list elements).term ρ = .array (elements.map (·.term ρ)) :=
  congrArg _ (Script.terms_ofPrograms ρ elements)

/-- A call of an automation of the program is a call of the function with its name. -/
theorem term_call (hbuiltin : callee.builtin = false) (ρ : Entity → Name) :
    (call callee args).term ρ = .call (.name (ρ (.auto callee)).text) (args.map (·.term ρ)) := by
  rw [term, Script.Expr.ofProgram, Script.Expr.ofCall, hbuiltin]
  exact congrArg _ (Script.terms_ofPrograms ρ args)

mutual

/-- The term of a sound expression is written as it has to be. -/
theorem Sound.written (hρ : ∀ e, (ρ e).base = e.name) : ∀ {e : Expr}, e.Sound → (e.term ρ).Written
  | .num value, _ => Script.written_ofNumber value
  | .bool true, _ => Term.written_name (by decide)
  | .bool false, _ => Term.written_name (by decide)
  | .word contents, h => ⟨contents, h.readable, rfl⟩
  | .list elements, h => by
    rw [term_list]
    exact Term.writtenAll_iff.2 (List.forall_mem_map.2 (written_terms hρ h.list))
  | .var v, h => by
    rw [term, Script.Expr.ofProgram, Script.Expr.term, Ref.ofVariable]
    cases hv : Script.constant? v with
    | some r => exact Script.written_ofRef hv
    | none => exact Script.nameLike_name ((hρ (.var v)).symm ▸ h.readable)
  | .auto a, h => Script.nameLike_name ((hρ (.auto a)).symm ▸ h.readable)
  | .arith _ _ _, h => ⟨Sound.written hρ h.arith.1, Sound.written hρ h.arith.2⟩
  | .compare _ _ _, h => ⟨Sound.written hρ h.compare.1, Sound.written hρ h.compare.2⟩
  | .paren inner, h => Sound.written (e := inner) hρ h.paren
  | .call callee args, h => by
    have hargs := written_terms hρ h.call
    cases hbuiltin : callee.builtin with
    | true =>
      refine (Term.Template.of_eq_some (h.template hbuiltin ρ)).written ?_
      exact List.forall_mem_map.2 fun a ha => Term.written_operand (hargs a ha)
    | false =>
      rw [term_call hbuiltin]
      exact ⟨Script.nameLike_name ((hρ (.auto callee)).symm ▸ h.readable.1),
        Term.writtenAll_iff.2 (List.forall_mem_map.2 hargs)⟩

/-- The terms of sound expressions are written. -/
theorem written_terms (hρ : ∀ e, (ρ e).base = e.name) : ∀ {es : List Expr}, ExprsSound es →
    ∀ e ∈ es, (e.term ρ).Written
  | [], _ => List.forall_mem_nil _
  | _ :: _, h => List.forall_mem_cons.2 ⟨Sound.written hρ (ExprsSound.cons_iff.1 h).1,
    written_terms hρ (ExprsSound.cons_iff.1 h).2⟩

end

/-! ## Standard calls -/

/-- The calls of automations of the language, with what is known of their arguments. -/
inductive StandardCall (callee : Automation) : List Expr → Prop
  | append {element list} : callee.name = "append" → list.ty = .list →
      StandardCall callee [element, list]
  | remove {element list} : callee.name = "remove" → list.ty = .list →
      StandardCall callee [element, list]
  | length {value} : callee.name = "length" → StandardCall callee [value]
  | range {start stop} : callee.name = "range" → StandardCall callee [start, stop]
  | type {value} : callee.name = "type" → callee.ty = .word → StandardCall callee [value]

/-- A sound call of an automation of the language is one of the five. -/
theorem Sound.standardCall (h : (Expr.call callee args).Sound) (hbuiltin : callee.builtin = true) :
    StandardCall callee args := by
  obtain ⟨hlength, hknown⟩ := (List.forall_mem_cons.1 h.proper).1
  have hadmits := h.wellTyped.2
  have hmem := hknown hbuiltin
  -- One case for each automation that is in scope at the beginning.
  simp only [Prelude.standard, Prelude.number, Prelude.automation, Prelude.constant,
    Entity.withSerial, List.mapIdx_cons, List.mapIdx_nil, List.mem_cons, Entity.auto.injEq,
    List.not_mem_nil, reduceCtorEq, or_false] at hmem
  have htaken {ty : Ty} (h : Rules.Takes .list ty) : ty = .list := by
    rcases h with h | h
    · cases h
    · exact h.symm
  rcases hmem with rfl | rfl | rfl | rfl | rfl
  · obtain ⟨element, list, rfl⟩ := List.length_eq_two.1 hlength
    exact .append rfl (htaken (List.forall₂_cons.1 (List.forall₂_cons.1 hadmits).2).1)
  · obtain ⟨element, list, rfl⟩ := List.length_eq_two.1 hlength
    exact .remove rfl (htaken (List.forall₂_cons.1 (List.forall₂_cons.1 hadmits).2).1)
  · obtain ⟨value, rfl⟩ := List.length_eq_one_iff.1 hlength
    exact .length rfl
  · obtain ⟨start, stop, rfl⟩ := List.length_eq_two.1 hlength
    exact .range rfl
  · obtain ⟨value, rfl⟩ := List.length_eq_one_iff.1 hlength
    exact .type rfl rfl

/-- What a type is called is a word. -/
theorem Sound.ty_of_type (h : (Expr.call callee args).Sound) (hbuiltin : callee.builtin = true)
    (hname : callee.name = "type") : callee.ty = .word := by
  cases h.standardCall hbuiltin with
  | type _ hty => exact hty
  | append hother | remove hother | length hother | range hother =>
    rw [hname] at hother
    exact absurd hother (by decide)

/-! ## Levels -/

/-- All terms have the level that is asked for, but those of a word that names a type. -/
theorem Sound.level_term {e : Expr} (h : e.Sound) (ρ : Entity → Name) :
    e.level < (e.term ρ).level ∨ e.ty = .word ∧ (e.term ρ).level = 6 := by
  cases e with
  | num value =>
    refine .inl (Term.ofNumber_cases (P := fun t => 6 < t.level) value ?_ ?_ ?_ ?_ ?_ ?_)
    all_goals exact Nat.lt_succ_self 6
  | var v => exact .inl ((Term.takesPoint_ofRef _).1.symm ▸ Nat.lt_succ_self 6)
  | call callee args =>
    cases hbuiltin : callee.builtin with
    | true =>
      rcases (Term.Template.of_eq_some (h.template hbuiltin ρ)).takesPoint with
        ⟨hname, hlevel⟩ | ⟨-, hlevel, -⟩
      · exact .inr ⟨h.ty_of_type hbuiltin hname, hlevel⟩
      · exact .inl (hlevel ▸ Nat.lt_succ_self 6)
    | false =>
      rw [term_call hbuiltin]
      exact .inl (Nat.lt_succ_self 6)
  | bool | word | list | auto | paren => exact .inl (Nat.lt_succ_self 6)
  | arith | compare => exact .inl (Nat.lt_succ_self _)

/-- What is asked for on a side of an operator is there, since words are not operands of
    arithmetic operators. -/
theorem Sound.lt_level_term {e : Expr} (h : e.Sound) (ρ : Entity → Name) {n : Nat}
    (hn : n ≤ e.level) (hword : e.ty ≠ .word ∨ n < 6) : n < (e.term ρ).level := by
  rcases h.level_term ρ with hlevel | ⟨hty, hlevel⟩
  · exact Nat.lt_of_le_of_lt hn hlevel
  · rw [hlevel]
    exact hword.resolve_left fun hne => hne hty

theorem ne_word_of_numeric {ty : Ty} (h : Rules.Numeric ty) : ty ≠ .word := by
  rcases h with rfl | rfl <;> decide

/-- What stands in the place of an argument is an operand. -/
theorem operand_args (ρ : Entity → Name) (args : List Expr) :
    ∀ t ∈ args.map fun a => (a.term ρ).operand, 6 ≤ t.level ∧ t.opensBrace = false :=
  List.forall_mem_map.2 fun _ _ =>
    ⟨Term.le_level_operand (Script.Expr.isFunction_term _),
      Term.opensBrace_operand (Script.Expr.opensBrace_term _)⟩

/-- Members can be taken of an operand just if it does not end in a numeral without a point or
    begin with `typeof`. -/
theorem Sound.takesPoint_iff {e : Expr} (h : e.Sound) (ρ : Entity → Name) :
    (e.term ρ).operand.TakesPoint ↔ ¬e.TakesNoPoint := by
  cases e with
  | num value =>
    have hlevel : 6 ≤ (Term.ofNumber value).level := by
      refine Term.ofNumber_cases (P := fun t => 6 ≤ t.level) value ?_ ?_ ?_ ?_ ?_ ?_
      all_goals exact Nat.le_succ 6
    change (Term.ofNumber value).operand.TakesPoint ↔ ¬isDigits _ = true
    rw [Term.operand_of_le_level hlevel, Term.takesPoint_ofNumber, Bool.not_eq_true]
  | var v =>
    have hpoint : (Term.ofRef (.ofVariable ρ v)).TakesPoint := Term.takesPoint_ofRef _
    change (Term.ofRef (.ofVariable ρ v)).operand.TakesPoint ↔ ¬False
    rw [Term.operand_of_le_level (hpoint.1 ▸ Nat.le_succ 6)]
    exact iff_of_true hpoint id
  | call callee args =>
    cases hbuiltin : callee.builtin with
    | true =>
      rcases (Term.Template.of_eq_some (h.template hbuiltin ρ)).takesPoint with
        ⟨hname, hlevel⟩ | ⟨hname, hpoint⟩
      · rw [Term.operand_of_le_level hlevel.ge]
        refine iff_of_false (fun hpoint => ?_) (fun hnot => hnot ⟨hbuiltin, hname⟩)
        exact absurd (hlevel.symm.trans hpoint.1) (by decide)
      · rw [Term.operand_of_le_level (hpoint.1 ▸ Nat.le_succ 6)]
        exact iff_of_true hpoint fun hnot => hname hnot.2
    | false =>
      rw [term_call hbuiltin]
      refine iff_of_true ⟨rfl, rfl⟩ fun hnot => ?_
      exact absurd (hbuiltin.symm.trans hnot.1) (by decide)
  | bool | word | list | auto | paren | arith | compare => exact iff_of_true ⟨rfl, rfl⟩ id

/-- A member can be taken of every list. -/
theorem Sound.takesPoint_of_list {e : Expr} (h : e.Sound) (hty : e.ty = .list)
    (ρ : Entity → Name) : (e.term ρ).operand.TakesPoint := by
  rw [h.takesPoint_iff]
  intro hnot
  cases e with
  | num => cases hty
  | call callee args =>
    have hword := h.ty_of_type hnot.1 hnot.2
    exact absurd (hty.symm.trans hword) (by decide)
  | bool | word | list | var | auto | paren | arith | compare => exact hnot

/-! ## Legible terms -/

/-- A call takes members only of what they can be taken of, unless it is misread. -/
theorem Sound.objects_iff (h : (Expr.call callee args).Sound) (hbuiltin : callee.builtin = true)
    (ρ : Entity → Name) :
    (∀ a ∈ Term.objects callee.name (args.map fun a => (a.term ρ).operand), a.TakesPoint) ↔
      ¬(Expr.call callee args).Misread := by
  have hsound := h.call.sound_of_mem
  cases h.standardCall hbuiltin with
  | append hname hty =>
    rw [hname]
    refine iff_of_true (List.forall_mem_singleton.2 ?_) id
    exact (hsound _ (List.mem_cons_of_mem _ List.mem_cons_self)).takesPoint_of_list hty ρ
  | remove hname | range hname =>
    rw [hname]
    exact iff_of_true (List.forall_mem_nil _) id
  | length hname =>
    rw [hname]
    refine List.forall_mem_singleton.trans ?_
    rw [(hsound _ List.mem_cons_self).takesPoint_iff]
    exact not_congr ⟨fun hnot => ⟨hbuiltin, hname, hnot⟩, fun hmisread => hmisread.2.2⟩
  | type hname =>
    rw [hname]
    refine iff_of_true (List.forall_mem_nil _) fun hmisread => ?_
    exact absurd (hname.symm.trans hmisread.2.1) (by decide)

/-- The name of an entity is read as it should be if its characters are those of a name in
    scripts, and only then. -/
theorem legible_entity (hρ : ∀ e, (ρ e).base = e.name) {x : Entity} (hx : Skeleton.IsName x.name) :
    (Term.name (ρ x).text).Legible ↔ IsIdentifierName x.name := by
  rw [Term.legible_name, Script.isIdentifier_name_iff ((hρ x).symm ▸ hx), hρ x]

mutual

/-- The term of a sound expression is legible if nothing in the expression is misread or
    misspelled, and only then. -/
theorem Sound.legible_iff (hρ : ∀ e, (ρ e).base = e.name) : ∀ {e : Expr}, e.Sound →
    ((e.term ρ).Legible ↔ ∀ x ∈ e.within, ¬x.Misread ∧ ¬x.Misspelled)
  | .num value, _ =>
    iff_of_true (Term.legible_ofNumber value) (List.forall_mem_singleton.2 ⟨id, id⟩)
  | .bool true, _ =>
    iff_of_true (Term.legible_name.2 (by decide)) (List.forall_mem_singleton.2 ⟨id, id⟩)
  | .bool false, _ =>
    iff_of_true (Term.legible_name.2 (by decide)) (List.forall_mem_singleton.2 ⟨id, id⟩)
  | .word contents, _ => by
    refine Iff.trans ?_ List.forall_mem_singleton.symm
    refine Term.legible_quoted.trans ?_
    rw [Option.isSome_iff_ne_none]
    exact (and_iff_right id).symm
  | .list elements, h => by
    rw [term_list, Term.legible_array, List.forall_mem_map, legible_terms_iff hρ h.list, within,
      List.forall_mem_cons]
    exact (and_iff_right ⟨id, id⟩).symm
  | .var v, h => by
    refine Iff.trans ?_ List.forall_mem_singleton.symm
    rw [term, Script.Expr.ofProgram, Script.Expr.term, Ref.ofVariable]
    cases hv : Script.constant? v with
    | some r =>
      refine iff_of_true (Term.legible_of_constant? hv) ⟨id, fun hmisspelled => ?_⟩
      exact absurd (hv.symm.trans hmisspelled.1) (Option.some_ne_none r)
    | none =>
      refine (legible_entity hρ (x := .var v) h.readable).trans ?_
      exact ⟨fun hname => ⟨id, fun hmisspelled => hmisspelled.2 hname⟩,
        fun hspelled => by_contra fun hname => hspelled.2 ⟨hv, hname⟩⟩
  | .auto a, h => by
    refine Iff.trans ?_ List.forall_mem_singleton.symm
    refine (legible_entity hρ (x := .auto a) h.readable).trans ?_
    exact ⟨fun hname => ⟨id, fun hmisspelled => hmisspelled hname⟩,
      fun hspelled => by_contra hspelled.2⟩
  | .arith op left right, h => by
    obtain ⟨hleft, hright, -, -⟩ := (Expr.readable_binary rfl).1 h.readable
    obtain ⟨-, -, hleftTy, hrightTy⟩ := h.wellTyped
    obtain ⟨hl, hr⟩ := h.arith
    -- The operands are no words, so none of them begins with `typeof`.
    change (Term.binary (.arith op) (left.term ρ) (right.term ρ)).Legible ↔ _
    rw [Term.legible_binary (hl.lt_level_term ρ hleft (.inl (ne_word_of_numeric hleftTy)))
      (hr.lt_level_term ρ hright (.inl (ne_word_of_numeric hrightTy))), Sound.legible_iff hρ hl,
      Sound.legible_iff hρ hr, within, List.forall_mem_cons, List.forall_mem_append]
    exact (and_iff_right ⟨id, id⟩).symm
  | .compare op left right, h => by
    obtain ⟨hleft, hright, -, -⟩ := (Expr.readable_binary rfl).1 h.readable
    obtain ⟨hleftLevel, hrightLevel⟩ := Grammar.levels_compare op
    obtain ⟨hl, hr⟩ := h.compare
    -- Words are compared too, but `typeof` binds more tightly than a comparison.
    change (Term.binary (.compare op) (left.term ρ) (right.term ρ)).Legible ↔ _
    rw [Term.legible_binary (hl.lt_level_term ρ hleft (.inr (by omega)))
      (hr.lt_level_term ρ hright (.inr (by omega))), Sound.legible_iff hρ hl,
      Sound.legible_iff hρ hr, within, List.forall_mem_cons, List.forall_mem_append]
    exact (and_iff_right ⟨id, id⟩).symm
  | .paren inner, h => by
    rw [within, List.forall_mem_cons, ← Sound.legible_iff hρ h.paren]
    exact (and_iff_right ⟨id, id⟩).symm
  | .call callee args, h => by
    have hargs := legible_terms_iff hρ h.call
    rw [within, List.forall_mem_cons]
    cases hbuiltin : callee.builtin with
    | true =>
      have htemplate := Term.Template.of_eq_some (h.template hbuiltin ρ)
      have hspelled : ¬(Expr.call callee args).Misspelled := fun hmisspelled =>
        absurd (hbuiltin.symm.trans hmisspelled.1) (by decide)
      rw [htemplate.legible_iff (operand_args ρ args), h.objects_iff hbuiltin,
        List.forall_mem_map, ← hargs, and_comm, and_iff_left hspelled]
      simp only [Term.legible_operand]
    | false =>
      have hread : ¬(Expr.call callee args).Misread := fun hmisread =>
        absurd (hbuiltin.symm.trans (builtin_of_misread hmisread)) (by decide)
      have hcallee := legible_entity hρ (x := .auto callee) h.readable.1
      rw [term_call hbuiltin, Term.legible_call rfl, List.forall_mem_map, ← hargs, hcallee,
        and_iff_right hread]
      refine and_congr_left fun _ => ?_
      exact ⟨fun hname hmisspelled => hmisspelled.2 hname,
        fun hspelled => by_contra fun hname => hspelled ⟨hbuiltin, hname⟩⟩

/-- The terms of sound expressions are legible exactly if nothing in them is misread or
    misspelled. -/
theorem legible_terms_iff (hρ : ∀ e, (ρ e).base = e.name) : ∀ {es : List Expr}, ExprsSound es →
    ((∀ e ∈ es, (e.term ρ).Legible) ↔ ∀ x ∈ exprsWithin es, ¬x.Misread ∧ ¬x.Misspelled)
  | [], _ => iff_of_true (List.forall_mem_nil _) (List.forall_mem_nil _)
  | e :: es, h => by
    obtain ⟨he, hes⟩ := ExprsSound.cons_iff.1 h
    rw [exprsWithin, List.forall_mem_cons, List.forall_mem_append, Sound.legible_iff hρ he,
      legible_terms_iff hρ hes]

end

/-- What is done in a call of an automation of the language, given what is done to evaluate its
    arguments. -/
theorem Sound.value_call (h : (Expr.call callee args).Sound) (hbuiltin : callee.builtin = true)
    (ρ : Entity → Name) {m : Type → Type} [Monad m] [LawfulMonad m] {V : Type} (E : Engine m V) :
    ((Expr.call callee args).term ρ).value E [] =
      E.perform callee.name (args.map fun a => (a.term ρ).value E []) := by
  have hargs : ∀ t ∈ args.map fun a => (a.term ρ).operand,
      t.isFunction = false ∧ ∀ x ∈ t.free, 2 ≤ x.length := by
    refine List.forall_mem_map.2 fun a _ => ?_
    rw [Term.isFunction_operand, Term.free_operand]
    exact ⟨Script.Expr.isFunction_term _, Script.Expr.two_le_length_of_mem_free _⟩
  rw [(Term.Template.of_eq_some (h.template hbuiltin ρ)).value_eq E hargs, List.map_map]
  exact congrArg _ (List.map_congr_left fun a _ => Term.value_operand E [] _)

end Program.Expr

/-! ## The text of a call -/

namespace Script

/-- The text of an expression is generated if its calls are proper. -/
theorem succeeds_of_proper {e : Program.Expr} (h : Program.Proper Known e.calls) :
    Succeeds (emitExpr e) := by
  intro names
  have hasks := asks_expr e names
  cases hemit : emitExpr e names with
  | ok x => exact ⟨x, rfl⟩
  | error failure =>
    rw [hemit, Requests.failure?_ofExpr e h] at hasks
    cases hasks

/-- The name of an entity. -/
def Names.nameOf (names : Names) (e : Entity) : Name := (names.name e).1

open Program in
/-- Take an expression of a program that has been parsed, typed and simplified. It has a text,
    and the only way to read the text is the term of the expression, just if nowhere in it the
    length of something is taken that no member can be taken of, a name has characters that
    names of scripts do not have, or a word an escape without a meaning. In this term, every
    call of an automation of the language is its template with the whole arguments put in. But
    for the start of a range, which is evaluated with every element, each argument is evaluated
    once. -/
theorem calls_read_as_templates {text : List Char} {stmts : List Surface.Stmt} {program : Program}
    (hparse : parseText text = .ok stmts)
    (hrun : (Typing.run Prelude.standard stmts).1 = .ok program) (passes : Passes)
    {e : Program.Expr} (he : e ∈ stmtsExprs (program.simplify passes).value.stmts)
    (names : Names) :
    ∃ e' names', emitExpr e names = .ok (e', names') ∧
      ((∀ t, Term.Reads e'.text.toList t ↔ t = e.term names'.nameOf) ↔
        ∀ x ∈ e.within, ¬x.Misread ∧ ¬x.Misspelled) ∧
      ∀ callee args, .call callee args ∈ e.within → callee.builtin = true →
        Term.template? callee.name (args.map fun a => (a.term names'.nameOf).operand) =
          some ((Program.Expr.call callee args).term names'.nameOf) ∧
        ∀ (m : Type → Type) [Monad m] [LawfulMonad m] (V : Type) (E : Engine m V),
          ((Program.Expr.call callee args).term names'.nameOf).value E [] =
            E.perform callee.name (args.map fun a => (a.term names'.nameOf).value E []) ∧
          (callee.name ≠ "range" → Engine.Evaluates (List.finRange args.length).reverse
            fun xs => E.perform callee.name (List.ofFn xs)) := by
  have hreadable : StmtsReadable program.stmts := by
    obtain ⟨last, hforms⟩ := Typing.stmtForms_of_run hrun
    rw [StmtsReadable, Typing.map_name_skeletons hforms]
    exact readable_parseText hparse
  have hsound : e.Sound :=
    sound_stmtsExprs (readable_simplifyStmts _ hreadable) (simplify_keeps_types hrun passes).2.2
      (proper_simplify hrun passes) e he
  obtain ⟨⟨e', names'⟩, hemit⟩ := succeeds_of_proper hsound.proper names
  obtain ⟨-, hrenamed⟩ := renames_expr e names names' e' hemit
  -- Names are kept once they are given, so the text has the names known at the end.
  have htext : e'.text = (e.term names'.nameOf).text := by
    rw [hrenamed names'.nameOf fun _ _ => rfl, Expr.text_eq]
    rfl
  have hreads := Term.reads_text_iff (hsound.written names'.base_name)
  refine ⟨e', names', hemit, ?_, fun callee args hcall hbuiltin => ?_⟩
  · rw [htext, ← hsound.legible_iff names'.base_name]
    refine ⟨fun h => hreads.1 ((h _).2 rfl), fun hlegible t => ⟨fun h => ?_, fun h => ?_⟩⟩
    · exact h.unique (hreads.2 hlegible)
    · exact h ▸ hreads.2 hlegible
  · have hcallSound := sound_within hsound _ hcall
    have htemplate := hcallSound.template hbuiltin names'.nameOf
    exact ⟨htemplate, fun m _ _ V E => ⟨hcallSound.value_call hbuiltin names'.nameOf E,
      (Term.Template.of_eq_some htemplate).evaluates E (List.length_map _)⟩⟩

section Nested

/-- Three automations of the language, one in the other. -/
def nestedText : List Char :=
  "make xs with [\"a\"]; append(range(length(xs), π), xs);".toList

/-- Its statements. -/
def nested : List Surface.Stmt :=
  let xs : Surface.Expr := .name ⟨"xs", ⟨40, 42⟩⟩
  let range : Surface.Expr := .call ⟨"range", ⟨27, 32⟩⟩
    [.call ⟨"length", ⟨33, 39⟩⟩ [xs] ⟨33, 43⟩, .name ⟨"π", ⟨45, 47⟩⟩] ⟨27, 48⟩
  [.declare false ⟨"xs", ⟨5, 7⟩⟩ (.list [.word "a" ⟨14, 17⟩] ⟨13, 18⟩) ⟨0, 19⟩,
    .call ⟨"append", ⟨20, 26⟩⟩ [range, .name ⟨"xs", ⟨50, 52⟩⟩] ⟨20, 53⟩ ⟨20, 54⟩]

/-- The list. -/
def nestedList : Program.Expr := .var ⟨9, "xs", false, .list, false⟩

/-- The call of `length`. -/
def nestedLength : Program.Expr :=
  .call ⟨2, "length", [⟨"value", .any⟩], .num, true⟩ [nestedList]

/-- The call of `range`. -/
def nestedRange : Program.Expr :=
  .call ⟨3, "range", [⟨"start", .num⟩, ⟨"end", .num⟩], .list, true⟩
    [nestedLength, .var ⟨5, "π", true, .num, true⟩]

/-- The automation `append`. -/
def appendAutomation : Automation :=
  ⟨0, "append", [⟨"element", .any⟩, ⟨"list", .list⟩], .none, true⟩

/-- The typed form of the statements. -/
def nestedTyped : Program :=
  ⟨[.declare ⟨9, "xs", false, .list, false⟩ (.list [.word "a"]),
    .call appendAutomation [nestedRange, nestedList]]⟩

/-- An argument that is a call and arguments that are repeated, in one statement. -/
theorem calls_read_as_templates_nested :
    parseText nestedText = .ok nested ∧ (Typing.run Prelude.standard nested).1 = .ok nestedTyped ∧
      ∃ range : Term,
        range = .range (.member (.name "xs_1") "length") (.member (.name "Math") "PI") ∧
        (∀ t, Term.Reads ("xs_1.push(Array.from(\x7b length: Math.PI - xs_1.length \x7d, " ++
            "(_, i) => xs_1.length + i))").toList t ↔
          t = .call (.member (.name "xs_1") "push") [range]) ∧
        ∀ (m : Type → Type) [Monad m] [LawfulMonad m] (V : Type) (E : Engine m V),
          (Term.call (.member (.name "xs_1") "push") [range]).value E [] = (do
            let l ← (Term.name "xs_1").value E []
            let push ← E.member l "push"
            let r ← range.value E []
            E.call push (some l) [.value r]) := by
  have hscan : Token.scan nestedText = .ok [⟨.keyword .make, "make", ⟨0, 4⟩⟩,
      ⟨.ident, "xs", ⟨5, 7⟩⟩, ⟨.keyword .with_, "with", ⟨8, 12⟩⟩, ⟨.openSquare, "[", ⟨13, 14⟩⟩,
      ⟨.word, "a", ⟨14, 17⟩⟩, ⟨.closeSquare, "]", ⟨17, 18⟩⟩, ⟨.semicolon, ";", ⟨18, 19⟩⟩,
      ⟨.ident, "append", ⟨20, 26⟩⟩, ⟨.openParen, "(", ⟨26, 27⟩⟩, ⟨.ident, "range", ⟨27, 32⟩⟩,
      ⟨.openParen, "(", ⟨32, 33⟩⟩, ⟨.ident, "length", ⟨33, 39⟩⟩, ⟨.openParen, "(", ⟨39, 40⟩⟩,
      ⟨.ident, "xs", ⟨40, 42⟩⟩, ⟨.closeParen, ")", ⟨42, 43⟩⟩, ⟨.comma, ",", ⟨43, 44⟩⟩,
      ⟨.ident, "π", ⟨45, 47⟩⟩, ⟨.closeParen, ")", ⟨47, 48⟩⟩, ⟨.comma, ",", ⟨48, 49⟩⟩,
      ⟨.ident, "xs", ⟨50, 52⟩⟩, ⟨.closeParen, ")", ⟨52, 53⟩⟩, ⟨.semicolon, ";", ⟨53, 54⟩⟩] := by
    decide +kernel
  have hparse : parseText nestedText = .ok nested := by
    rw [parseText, hscan]
    cbv
  have hrun : (Typing.run Prelude.standard nested).1 = .ok nestedTyped := by cbv
  have hmem : Program.Expr.call appendAutomation [nestedRange, nestedList] ∈
      Program.stmtsExprs (nestedTyped.simplify .all).value.stmts := by
    have hstmts : (nestedTyped.simplify .all).value.stmts = nestedTyped.stmts := by cbv
    rw [hstmts]
    exact List.mem_append_right _ List.mem_cons_self
  obtain ⟨e', names', hemit, hreads, hcalls⟩ := calls_read_as_templates hparse hrun .all hmem ⟨[]⟩
  cases hemit
  obtain ⟨-, heval⟩ := hcalls _ _ List.mem_cons_self rfl
  exact ⟨hparse, hrun, _, rfl, hreads.2 (by decide), fun m _ _ V E => (heval m V E).1⟩

end Nested

section Misread

/-- The length of a whole number. -/
def wholeText : List Char := "print length(5);".toList

/-- The length of a word that names a type. -/
def misreadText : List Char := "print length(type(\"a\"));".toList

/-- The length of a list whose name has a raised numeral in it. -/
def raisedText : List Char := "make x² with []; print length(x²);".toList

/-- The length of a word with an escape that is not complete. -/
def cutText : List Char := "print length(\"\\u\");".toList

/-- A range whose start is a call. -/
def repeatedText : List Char :=
  "automate f() -> num \x7b output π; \x7d print range(f(), π);".toList

/-- An engine that counts calls. All members are `3`, and all operators subtract. -/
def counting : Engine (StateM Nat) Nat where
  name _ := pure 0
  number _ := pure 0
  quoted _ := pure 0
  array _ := pure 0
  record _ size := pure size
  member _ _ := pure 3
  call _ _ args :=
    match args with
    | [.value size, .function f] => (List.range size).foldlM (fun _ i => f [0, i]) 0
    | _ => modifyGet fun n => (0, n + 1)
  unary _ v := pure v
  binary _ v w := pure (v - w)
  truth v := v != 0
  undefined := 0
  box _ := 0

/-- The length of a whole number, of a list with a raised numeral in its name and of a word
    with half an escape cannot be read, the length of a word that names a type is read as the
    type of a length, and the start of a range of three numbers is evaluated four times. -/
theorem length_misread_and_start_repeated :
    (compile .all .js wholeText).1.toOption.map Output.text = some "console.log(5.length);" ∧
      (∀ t, ¬Term.Reads "5.length".toList t) ∧
      (compile .all .js misreadText).1.toOption.map Output.text =
        some "console.log(typeof \"a\".length);" ∧
      (∀ t, Term.Reads "typeof \"a\".length".toList t ↔
        t = .unary .typeOf (.member (.quoted "\"a\"") "length")) ∧
      (compile .all .js raisedText).1.toOption.map Output.text =
        some "let x²_1 = [];\nconsole.log(x²_1.length);" ∧
      (∀ t, ¬Term.Reads "x²_1.length".toList t) ∧
      (compile .all .js cutText).1.toOption.map Output.text =
        some "console.log(\"\\u\".length);" ∧
      (∀ t, ¬Term.Reads "\"\\u\".length".toList t) ∧
      (compile .all .js repeatedText).1.toOption.map Output.text =
        some ("function f_1() \x7b\n  return Math.PI;\n\x7d\n" ++
          "console.log(Array.from(\x7b length: Math.PI - f_1() \x7d, (_, i) => f_1() + i));") ∧
      (((Term.range (.call (.name "f_1") []) (.member (.name "Math") "PI")).value counting []).run
        0).2 = 4 := by
  have hlength : IsIdentifier "length" := by decide
  -- Terms that are not clear have texts without marks.
  have hunread {t : Term} (hwritten : t.Written) (hclear : t.clear = false) (u : Term) :
      ¬Term.Reads t.text.toList u := by
    intro hreads
    have hmarks := Term.marks?_text hwritten
    rw [hclear, hreads.1] at hmarks
    cases hmarks
  refine ⟨by decide +kernel, ?_, by decide +kernel, ?_, by decide +kernel, ?_, by decide +kernel,
    ?_, by decide +kernel, rfl⟩
  · exact hunread (t := .member (.number "5") "length") ⟨.inl rfl, hlength⟩ (by decide)
  · intro t
    have hcontents : Contents "a".toList := .plain (by decide) (by decide) .nil
    have hclear : (Term.unary .typeOf (.member (.quoted "\"a\"") "length")).clear = true := by
      have hunits := units?_wordText hcontents (by decide)
      simp only [Term.clear, Term.endsWhole, Bool.not_false, Bool.and_true]
      exact Option.isSome_iff_exists.2 ⟨_, hunits⟩
    have hreads : Term.Reads "typeof \"a\".length".toList
        (.unary .typeOf (.member (.quoted "\"a\"") "length")) :=
      (Term.reads_text_iff (t := .unary .typeOf (.member (.quoted "\"a\"") "length"))
        ⟨⟨"a", hcontents, by decide⟩, hlength⟩).2 ⟨hclear, Nat.le_succ 6, rfl, trivial⟩
    exact ⟨fun h => h.unique hreads, fun h => h ▸ hreads⟩
  · have hlike : NameLike "x²_1" := ⟨by decide, by decide, by decide⟩
    exact hunread (t := .member (.name "x²_1") "length") ⟨hlike, hlength⟩ (by decide)
  · have hcontents : Contents "\\u".toList := .escape .nil
    have hunits : Literal.units? (wordText "\\u").toList = none := by
      rw [hcontents.units?_wordText]
      change Literal.value? ['\\', 'u'] = none
      rw [Literal.value?]
      rfl
    have hclear : (Term.member (.quoted (wordText "\\u")) "length").clear = false := by
      simp only [Term.clear, hunits]
      rfl
    exact hunread (t := .member (.quoted (wordText "\\u")) "length")
      ⟨⟨"\\u", hcontents, rfl⟩, hlength⟩ hclear

end Misread

end Script

end Toal
