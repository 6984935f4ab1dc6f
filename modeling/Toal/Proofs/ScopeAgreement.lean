import Toal.Compiler
import Toal.Proofs.BranchScopes
import Toal.Proofs.Renaming
import Toal.Proofs.ScriptScopes

/-!
# Scopes of programs and of their scripts

A script has blocks where its program has branches, and a variable that is declared
in a block cannot be seen after it. So the script of a program sees the variables of
the program as if branches had scopes of their own. Going through the pieces of the
text is described by a relation with one rule for each kind of piece (`Reads`), and
the statements of a script follow the statements of the program in it
(`Marks.reads_stmts`).

A variable that does not leak from a branch is in scope wherever its name is used in
the text, and without pruning no other variable is (`in_scope_unless_leaked`). There
are programs whose variables leak, and a script uses their names where nothing
declares them (`leaking_out_of_scope`).
-/

namespace Toal.Script

/-! ## Going through the pieces of a script -/

variable {n : String} {w w₁ w₂ : View} {p : Piece} {ps qs : List Piece} {P Q : Prop}

/-- The name is seen wherever the pieces use it. -/
def Sighted (n : String) (w : View) (ps : List Piece) : Prop :=
  ∀ before rest, ps = before ++ .use n :: rest → (w.after n before).sees = true

theorem sighted_nil : Sighted n w [] := by
  intro before rest h
  simp at h

/-- The name is seen at the first piece if that uses it, and after it. -/
theorem sighted_cons :
    Sighted n w (p :: ps) ↔ (p = .use n → w.sees = true) ∧ Sighted n (w.next n p) ps := by
  constructor
  · intro h
    refine ⟨?_, fun before rest hps => ?_⟩
    · rintro rfl
      exact h [] ps rfl
    · exact h (p :: before) rest (congrArg (List.cons p) hps)
  · rintro ⟨hp, hps⟩ before rest h
    cases before with
    | nil => exact hp (List.cons.inj h).1
    | cons q before =>
      obtain ⟨rfl, rfl⟩ := List.cons.inj h
      exact hps before rest rfl

/-- The name is seen in two stretches if it is in each, the second with the view after the
    first. -/
theorem sighted_append :
    Sighted n w (ps ++ qs) ↔ Sighted n w ps ∧ Sighted n (w.after n ps) qs := by
  induction ps generalizing w with
  | nil => exact (and_iff_right sighted_nil).symm
  | cons p ps ih =>
    rw [List.cons_append, sighted_cons, sighted_cons, ih, and_assoc]
    rfl

/-- The pieces lead from one view to the other, and the condition says whether the
    name is seen wherever they use it. -/
structure Reads (n : String) (w : View) (ps : List Piece) (P : Prop) (w' : View) : Prop where
  sighted_iff : Sighted n w ps ↔ P
  after_eq : w.after n ps = w'

namespace Reads

theorem nil : Reads n w [] True w := ⟨iff_true_intro sighted_nil, rfl⟩

/-- A piece that does not use the name only changes the view. -/
theorem cons (hp : p ≠ .use n) (h : Reads n (w.next n p) ps P w₁) : Reads n w (p :: ps) P w₁ :=
  ⟨by rw [sighted_cons, h.sighted_iff, and_iff_right fun h => absurd h hp], h.after_eq⟩

theorem text {s : String} (h : Reads n w ps P w₁) : Reads n w (.text s :: ps) P w₁ :=
  cons nofun h

theorem stop (h : Reads n (w.next n .stop) ps P w₁) : Reads n w (.stop :: ps) P w₁ := cons nofun h

theorem opening (h : Reads n (w.next n .opening) ps P w₁) : Reads n w (.opening :: ps) P w₁ :=
  cons nofun h

theorem closing (h : Reads n (w.next n .closing) ps P w₁) : Reads n w (.closing :: ps) P w₁ :=
  cons nofun h

/-- Pieces are read one after the other. -/
theorem append (h : Reads n w ps P w₁) (h' : Reads n w₁ qs Q w₂) :
    Reads n w (ps ++ qs) (P ∧ Q) w₂ := by
  refine ⟨?_, ?_⟩
  · rw [sighted_append, h.sighted_iff, h.after_eq, h'.sighted_iff]
  · rw [View.after, List.foldl_append]
    exact (congrArg (fun w => List.foldl (View.next n) w qs) h.after_eq).trans h'.after_eq

theorem congr (h : Reads n w ps P w₁) (hP : P ↔ Q) : Reads n w ps Q w₁ :=
  ⟨h.sighted_iff.trans hP, h.after_eq⟩

end Reads

/-! ## Expressions -/

/-- The pieces do not change what is known about any name. -/
def Neutral (ps : List Piece) : Prop := ∀ p ∈ ps, ∀ (n : String) (w : View), w.next n p = w

namespace Neutral

theorem nil : Neutral [] := List.forall_mem_nil _

theorem text {s : String} (h : Neutral ps) : Neutral (.text s :: ps) :=
  List.forall_mem_cons.2 ⟨fun _ _ => rfl, h⟩

theorem use {m : String} (h : Neutral ps) : Neutral (.use m :: ps) :=
  List.forall_mem_cons.2 ⟨fun _ _ => rfl, h⟩

theorem append (h : Neutral ps) (h' : Neutral qs) : Neutral (ps ++ qs) :=
  List.forall_mem_append.2 ⟨h, h'⟩

/-- Neutral pieces leave the view as it is, and the name has to be seen if one of them
    uses it. -/
theorem reads (h : Neutral ps) : Reads n w ps (Piece.use n ∈ ps → w.sees = true) w := by
  induction ps with
  | nil => exact Reads.nil.congr (iff_of_true trivial fun h => absurd h List.not_mem_nil)
  | cons p ps ih =>
    obtain ⟨hp, hps⟩ := List.forall_mem_cons.1 h
    obtain ⟨hsighted, hafter⟩ := ih hps
    refine ⟨?_, ?_⟩
    · rw [sighted_cons, hp, hsighted, List.mem_cons, or_imp, eq_comm]
    · change (w.next n p).after n ps = w
      rw [hp, hafter]

end Neutral

/-- A reference is neutral. -/
theorem Ref.neutral_use (r : Ref) : Neutral [r.use] := by
  cases r with
  | name => exact .use .nil
  | pi | infinity | truth => exact .text .nil

mutual

/-- The pieces of an expression are neutral. -/
theorem Expr.neutral_pieces : ∀ e : Expr, Neutral e.pieces
  | .num _ => .text .nil
  | .bool _ => .text .nil
  | .word _ => .text .nil
  | .list elements => .text ((neutral_piecesAll elements).append (.text .nil))
  | .ref r => r.neutral_use
  | .binary _ left right => left.neutral_pieces.append (.text right.neutral_pieces)
  | .paren inner => .text (inner.neutral_pieces.append (.text .nil))
  | .call _ args => .use (.text ((neutral_piecesAll args).append (.text .nil)))
  | .push list element =>
    list.neutral_pieces.append (.text (element.neutral_pieces.append (.text .nil)))
  | .removeFirst list element =>
    .text (list.neutral_pieces.append (.text (element.neutral_pieces.append (.text .nil))))
  | .length value => value.neutral_pieces.append (.text .nil)
  | .range start stop =>
    .text (stop.neutral_pieces.append (.text (start.neutral_pieces.append
      (.text (start.neutral_pieces.append (.text .nil))))))
  | .typeOf value => .text value.neutral_pieces

theorem neutral_piecesAll : ∀ es : List Expr, Neutral (piecesAll es)
  | [] => .nil
  | [e] => e.neutral_pieces
  | e :: e' :: es => e.neutral_pieces.append (.text (neutral_piecesAll (e' :: es)))

end

/-- Expressions use the name if one of them does. -/
theorem use_mem_piecesAll : ∀ es : List Expr,
    Piece.use n ∈ piecesAll es ↔ ∃ e ∈ es, Piece.use n ∈ e.pieces
  | [] => by simp [piecesAll]
  | [e] => by simp [piecesAll]
  | e :: e' :: es => by
    change Piece.use n ∈ e.pieces ++ Piece.text ", " :: piecesAll (e' :: es) ↔ _
    simp [use_mem_piecesAll (e' :: es)]

/-- Putting an operand in parentheses does not change which names are used. -/
theorem use_mem_operand (e : Expr) : Piece.use n ∈ (operand e).pieces ↔ Piece.use n ∈ e.pieces := by
  unfold operand
  split
  · change Piece.use n ∈ Piece.text "(" :: (_ ++ [Piece.text ")"]) ↔ _
    simp
  · rfl

/-- A template uses the names that the arguments use. -/
theorem use_mem_template {name : String} {args : List Expr} {e : Expr}
    (h : template? name args = some e) :
    Piece.use n ∈ e.pieces ↔ ∃ a ∈ args, Piece.use n ∈ a.pieces := by
  unfold template? at h
  split at h <;> cases h
  · simp [Expr.pieces, or_comm]
  · simp [Expr.pieces, or_comm]
  · simp [Expr.pieces]
  · simp [Expr.pieces, or_comm]
  · simp [Expr.pieces]

theorem ne_name_of_constant? {x : Variable} {r : Ref} (hx : constant? x = some r) (m : Name) :
    r ≠ .name m := by
  unfold constant? at hx
  split at hx
  · split at hx <;> cases hx <;> exact nofun
  · cases hx

/-- Among the names of the entities, the given one is that of the variable and of
    nothing else. -/
structure Marks (ρ : Entity → Name) (v : Variable) (n : String) : Prop where
  constant?_eq : constant? v = none
  text_eq : (ρ (.var v)).text = n
  eq_of_text_eq : ∀ e, (ρ e).text = n → e = .var v

section Marked

variable {ρ : Entity → Name} {v : Variable}

/-- An automation does not have the name of the variable. -/
theorem Marks.text_ne_auto (h : Marks ρ v n) (a : Automation) : (ρ (.auto a)).text ≠ n := fun ha =>
  Entity.noConfusion (h.eq_of_text_eq _ ha)

/-- Another variable does not have the name of the variable. -/
theorem Marks.text_beq (h : Marks ρ v n) (x : Variable) : ((ρ (.var x)).text == n) = (v == x) := by
  refine Bool.eq_iff_iff.2 ?_
  rw [beq_iff_eq, beq_iff_eq]
  refine ⟨fun hx => (Entity.var.inj (h.eq_of_text_eq _ hx)).symm, ?_⟩
  rintro rfl
  exact h.text_eq

/-- The variable is no constant. -/
theorem Marks.beq_eq_false (h : Marks ρ v n) {x : Variable} {r : Ref} (hx : constant? x = some r) :
    (v == x) = false := by
  refine beq_eq_false_iff_ne.2 ?_
  rintro rfl
  rw [h.constant?_eq] at hx
  cases hx

/-- The references with the name are those to the variable. -/
theorem Marks.use_eq_iff (h : Marks ρ v n) (x : Variable) :
    .use n = (Ref.ofVariable ρ x).use ↔ (v == x) = true := by
  unfold Ref.ofVariable
  cases hx : constant? x with
  | some r =>
    rw [h.beq_eq_false hx]
    have hr := ne_name_of_constant? hx
    cases r with
    | name m => exact absurd rfl (hr m)
    | pi | infinity | truth => simp [Ref.use]
  | none =>
    rw [← h.text_beq, beq_iff_eq, eq_comm]
    exact Piece.use.injEq _ _ ▸ Iff.rfl

/-- A declaration of the variable begins a declaration of the name. -/
theorem Marks.next_binder (h : Marks ρ v n) (x : Variable) (w : View) :
    w.next n (Ref.ofVariable ρ x).binder = { w with declaring := v == x || w.declaring } := by
  unfold Ref.ofVariable
  cases hx : constant? x with
  | some r =>
    rw [h.beq_eq_false hx]
    have hr := ne_name_of_constant? hx
    cases r with
    | name m => exact absurd rfl (hr m)
    | pi | infinity | truth => rfl
  | none =>
    rw [← h.text_beq]
    rfl

/-- A call uses the name if one of its arguments does. -/
theorem Marks.use_mem_call (h : Marks ρ v n) (callee : Automation) (args : List Expr) :
    Piece.use n ∈ (Expr.ofCall ρ callee args).pieces ↔ ∃ a ∈ args, Piece.use n ∈ a.pieces := by
  have hcall : Piece.use n ∈ (Expr.call (ρ (.auto callee)) args).pieces ↔
      ∃ a ∈ args, Piece.use n ∈ a.pieces := by
    simp [Expr.pieces, use_mem_piecesAll, (h.text_ne_auto callee).symm]
  unfold Expr.ofCall
  cases callee.builtin with
  | false => exact hcall
  | true =>
    cases htemplate : template? callee.name (args.map operand) with
    | none => exact hcall
    | some e =>
      have hmem := use_mem_template (n := n) htemplate
      simpa [use_mem_operand] using hmem

mutual

/-- The name is used in an expression of the script just if the variable is in that
    of the program. -/
theorem Marks.use_mem_pieces (h : Marks ρ v n) : ∀ e : Program.Expr,
    Piece.use n ∈ (Expr.ofProgram ρ e).pieces ↔ e.uses v = true
  | .num _ => by simp [Expr.ofProgram, Expr.pieces, Program.Expr.uses]
  | .bool _ => by simp [Expr.ofProgram, Expr.pieces, Program.Expr.uses]
  | .word _ => by simp [Expr.ofProgram, Expr.pieces, Program.Expr.uses]
  | .list elements => by
    simp [Expr.ofProgram, Expr.pieces, Program.Expr.uses, use_mem_piecesAll,
      h.exists_use_mem_pieces elements]
  | .var x => by
    simp [Expr.ofProgram, Expr.pieces, Program.Expr.uses, h.use_eq_iff]
  | .auto a => by
    simp [Expr.ofProgram, Expr.pieces, Program.Expr.uses, Ref.use, (h.text_ne_auto a).symm]
  | .arith _ left right => by
    simp [Expr.ofProgram, Expr.pieces, Program.Expr.uses, h.use_mem_pieces left,
      h.use_mem_pieces right]
  | .compare _ left right => by
    simp [Expr.ofProgram, Expr.pieces, Program.Expr.uses, h.use_mem_pieces left,
      h.use_mem_pieces right]
  | .paren inner => by
    simp [Expr.ofProgram, Expr.pieces, Program.Expr.uses, h.use_mem_pieces inner]
  | .call callee args => by
    rw [Expr.ofProgram, h.use_mem_call, h.exists_use_mem_pieces args, Program.Expr.uses]

/-- Generated expressions use the name if the expressions use the variable. -/
theorem Marks.exists_use_mem_pieces (h : Marks ρ v n) : ∀ es : List Program.Expr,
    (∃ x ∈ Expr.ofPrograms ρ es, Piece.use n ∈ x.pieces) ↔ Program.exprsUse v es = true
  | [] => by simp [Expr.ofPrograms, Program.exprsUse]
  | e :: es => by
    simp [Expr.ofPrograms, Program.exprsUse, h.use_mem_pieces e, h.exists_use_mem_pieces es]

end

/-- Reading a generated expression: if it uses the variable, the name has to be seen. -/
theorem Marks.reads_expr (h : Marks ρ v n) (e : Program.Expr) (w : View) :
    Reads n w (Expr.ofProgram ρ e).pieces (e.uses v = true → w.sees = true) w :=
  (Expr.neutral_pieces _).reads.congr (imp_congr (h.use_mem_pieces e) Iff.rfl)

/-! ## Statements -/

variable {c b x : Bool} {bs : List Bool}

theorem Reads.line (h : Reads n w ps P w₁) : Reads n w [ps].flatten P w₁ := by
  rw [List.flatten_singleton]
  exact h

/-- A line that opens a block, the lines of the block, and the line that closes it. -/
theorem Reads.block {lines : List (List Piece)} (hps : Reads n w ps P ⟨b, c :: bs, false⟩)
    (hlines : Reads n ⟨b, c :: bs, false⟩ lines.flatten Q ⟨x, c :: bs, false⟩) (depth : Nat) :
    Reads n w (ps :: (lines ++ [[indentation depth, .closing]])).flatten (P ∧ Q)
      ⟨c || false, bs, false⟩ := by
  have hclosing : Reads n ⟨x, c :: bs, false⟩ [indentation depth, .closing] True ⟨c, bs, false⟩ :=
    .text (.closing .nil)
  rw [List.flatten_cons, List.flatten_append, List.flatten_singleton, Bool.or_false]
  exact hps.append ((hlines.append hclosing).congr (and_iff_left trivial))

/-- An expression in parentheses, and the brace that opens a block. -/
theorem Marks.reads_head (h : Marks ρ v n) (e : Program.Expr) :
    Reads n ⟨c, bs, b⟩ ((Expr.ofProgram ρ e).pieces ++ [Piece.text ") ", .opening])
      (e.uses v = true → (c || bs.any id) = true) ⟨b, c :: bs, false⟩ := by
  have hopening : Reads n ⟨c, bs, b⟩ [.text ") ", .opening] True ⟨b, c :: bs, false⟩ :=
    .text (.opening .nil)
  exact ((h.reads_expr e _).append hopening).congr (and_iff_left trivial)

/-- An expression and the end of the statement. -/
theorem Marks.reads_last (h : Marks ρ v n) (e : Program.Expr) :
    Reads n ⟨c, bs, b⟩ ((Expr.ofProgram ρ e).pieces ++ [Piece.stop])
      (e.uses v = true → (c || bs.any id) = true) ⟨c || b, bs, false⟩ := by
  have hstop : Reads n ⟨c, bs, b⟩ [.stop] True ⟨c || b, bs, false⟩ := .stop .nil
  exact ((h.reads_expr e _).append hstop).congr (and_iff_left trivial)

/-- A variable that is given a value, and the rest of the statement. -/
theorem Marks.reads_target (h : Marks ρ v n) (y : Variable) (e : Program.Expr) {s : String} :
    Reads n ⟨c, bs, b⟩
      ((Ref.ofVariable ρ y).use :: .text s :: ((Expr.ofProgram ρ e).pieces ++ [Piece.stop]))
      ((v == y || e.uses v) = true → (c || bs.any id) = true) ⟨c || b, bs, false⟩ := by
  have huse : Reads n ⟨c, bs, b⟩ [(Ref.ofVariable ρ y).use]
      ((v == y) = true → (c || bs.any id) = true) ⟨c, bs, b⟩ :=
    (Ref.neutral_use _).reads.congr
      (imp_congr (List.mem_singleton.trans (h.use_eq_iff y)) Iff.rfl)
  rw [Bool.or_eq_true, or_imp]
  exact huse.append (.text (h.reads_last e))

/-- Reading a declared name. -/
theorem Marks.reads_binder (h : Marks ρ v n) (y : Variable)
    (hps : Reads n { w with declaring := v == y || w.declaring } ps P w₁) :
    Reads n w ((Ref.ofVariable ρ y).binder :: ps) P w₁ := by
  refine .cons ?_ (h.next_binder y w ▸ hps)
  cases Ref.ofVariable ρ y <;> exact nofun

/-- Reading parameters: the name is being declared if the variable is among them. -/
theorem Marks.reads_params (h : Marks ρ v n) (params : List Variable) (w : View) :
    Reads n w (paramPieces (params.map (.ofVariable ρ))) True
      { w with declaring := params.contains v || w.declaring } := by
  induction params generalizing w with
  | nil => exact .nil
  | cons y ys ih =>
    cases ys with
    | nil =>
      rw [List.contains_cons, List.contains_nil, Bool.or_false]
      exact h.reads_binder y .nil
    | cons z zs =>
      have hrest :=
        h.reads_binder y (.text (s := ", ") (ih { w with declaring := v == y || w.declaring }))
      rw [Bool.or_left_comm, ← Bool.or_assoc] at hrest
      exact hrest

mutual

/-- Reading a generated statement: the name is seen wherever it is used if the variable is
    in scope wherever it is used, and it is declared afterwards if the statement exposes
    the variable. -/
theorem Marks.reads_stmt (h : Marks ρ v n) (depth : Nat) : ∀ (s : Program.Stmt) (c : Bool)
    (bs : List Bool), Reads n ⟨c, bs, false⟩ ((Stmt.ofProgram ρ s).pieceLines depth).flatten
      (s.Scoped v true (c || bs.any id)) ⟨c || s.exposes v true, bs, false⟩
  | .declare y init, c, bs => by
    refine .line (.text (.text (h.reads_binder y (.text ?_))))
    rw [Bool.or_false]
    exact h.reads_last init
  | .assign y source, c, bs => .line (.text (h.reads_target y source))
  | .change op y term, c, bs => .line (.text (h.reads_target y term))
  | .print argument, c, bs => by
    have hlast : Reads n ⟨c, bs, false⟩ [.text ")", .stop] True ⟨c || false, bs, false⟩ :=
      .text (.stop .nil)
    exact .line (.text (.text (((h.reads_expr argument _).append hlast).congr
      (and_iff_left trivial))))
  | .automate a params body, c, bs => by
    -- The parameters are pending until the brace, and then belong to the new block.
    have hopening : Reads n ⟨c, bs, params.contains v || false⟩ [.text ") ", .opening] True
        ⟨params.contains v || false, c :: bs, false⟩ := .text (.opening .nil)
    have hhead := (h.reads_params params ⟨c, bs, false⟩).append hopening
    have hbody := h.reads_stmts (depth + 1) body (params.contains v) (c :: bs)
    rw [Bool.or_false] at hhead
    rw [Bool.or_comm] at hbody
    exact (Reads.block (.text (.text hhead)) hbody depth).congr
      (and_iff_right ⟨trivial, trivial⟩)
  | .call callee args, c, bs => .line (.text (h.reads_last (.call callee args)))
  | .output none ty, c, bs => by
    have hlast : Reads n ⟨c, bs, false⟩ [.text "return", .stop] True ⟨c || false, bs, false⟩ :=
      .text (.stop .nil)
    have hseen : (Program.Stmt.output none ty).Scoped v true (c || bs.any id) := fun hu =>
      absurd hu Bool.false_ne_true
    exact .line (.text (hlast.congr (iff_of_true trivial hseen)))
  | .output (some value) ty, c, bs => .line (.text (.text (h.reads_last value)))
  | .ifElse test body none, c, bs =>
    .block (.text (.text (h.reads_head test))) (h.reads_stmts (depth + 1) body false (c :: bs))
      depth
  | .ifElse test body (some alternate), c, bs => by
    have hhead : Reads n ⟨c, bs, false⟩ (indentation depth :: .text "if (" :: _) _ _ :=
      .text (.text (h.reads_head test))
    have hbody := h.reads_stmts (depth + 1) body false (c :: bs)
    -- Between the branches the first block is left with all that it declares.
    have helse : Reads n ⟨Program.stmtsExpose v true body, c :: bs, false⟩
        [indentation depth, .closing, .text " else ", .opening] True ⟨false, c :: bs, false⟩ :=
      .text (.closing (.text (.opening .nil)))
    have halternate := helse.block (h.reads_stmts (depth + 1) alternate false (c :: bs)) depth
    have hall := hhead.append (hbody.append (halternate.congr (and_iff_right trivial)))
    rw [Stmt.ofProgram, Stmt.pieceLines, List.flatten_cons, List.flatten_append,
      Program.Stmt.Scoped, Bool.not_true, Bool.false_and, Bool.or_false]
    exact hall
  | .loopWhile test body, c, bs =>
    .block (.text (.text (h.reads_head test))) (h.reads_stmts (depth + 1) body false (c :: bs))
      depth
  | .loopOver y list body, c, bs => by
    have hbody := h.reads_stmts (depth + 1) body (v == y) (c :: bs)
    rw [Bool.or_comm] at hbody
    refine .block (.text (.text (h.reads_binder y (.text ?_)))) hbody depth
    rw [Bool.or_false]
    exact h.reads_head list
  | .breakLoop, c, bs => .line (.text (.text (.stop .nil)))

/-- Going through the statements of a script, one sees the name wherever it is used
    just if the variable is visible wherever the program uses it, with scopes of their
    own for branches. -/
theorem Marks.reads_stmts (h : Marks ρ v n) (depth : Nat) : ∀ (ss : List Program.Stmt) (c : Bool)
    (bs : List Bool), Reads n ⟨c, bs, false⟩ (pieceLinesAll depth (Stmt.ofPrograms ρ ss)).flatten
      (Program.StmtsScoped v true (c || bs.any id) ss)
      ⟨c || Program.stmtsExpose v true ss, bs, false⟩
  | [], c, bs => by
    rw [Program.stmtsExpose, Bool.or_false]
    exact .nil
  | s :: ss, c, bs => by
    have hss := h.reads_stmts depth ss (c || s.exposes v true) bs
    rw [Bool.or_right_comm c (s.exposes v true), Bool.or_assoc c (s.exposes v true)] at hss
    rw [Stmt.ofPrograms, pieceLinesAll, List.flatten_append]
    exact (h.reads_stmt depth s c bs).append hss

end

end Marked

/-- Line breaks do not change what is read. -/
theorem Reads.intercalate {s : String} {lines : List (List Piece)}
    (h : Reads n w lines.flatten P w₁) : Reads n w ([.text s].intercalate lines) P w₁ := by
  induction lines generalizing w P with
  | nil => exact h
  | cons l lines ih =>
    cases lines with
    | nil =>
      rw [List.flatten_singleton] at h
      rw [List.intercalate_singleton]
      exact h
    | cons l' lines =>
      rw [List.flatten_cons] at h
      rw [List.intercalate_cons_cons, List.append_assoc]
      have hrest : Reads n (w.after n l) (l' :: lines).flatten
          (Sighted n (w.after n l) (l' :: lines).flatten) w₁ := by
        refine ⟨Iff.rfl, ?_⟩
        rw [← h.after_eq, View.after, View.after, View.after, List.foldl_append]
      have hl : Reads n w l (Sighted n w l) (w.after n l) := ⟨Iff.rfl, rfl⟩
      refine (hl.append (.text (ih hrest))).congr ?_
      rw [← sighted_append, h.sighted_iff]

/-! ## Programs -/

/-- A variable that is not a constant has no known truth value. -/
theorem truth?_eq_none {v : Variable} (h : constant? v = none) : Program.truth? v = none := by
  unfold constant? at h
  unfold Program.truth?
  cases hbuiltin : v.builtin with
  | false => rfl
  | true =>
    have htrue : v.name ≠ "true" := fun hname => by simp [hbuiltin, hname] at h
    have hfalse : v.name ≠ "false" := fun hname => by simp [hbuiltin, hname] at h
    simp [htrue, hfalse]

/-- Before typing, no variable is visible but the standard ones. -/
theorem holds_start_eq_false {v : Variable} (h : constant? v = none) :
    (Typing.Spot.start Prelude.standard).context.holds v = false := by
  have hconstants : ∀ f ∈ (Typing.Spot.start Prelude.standard).context.frames, ∀ x ∈ f.vars,
      constant? x ≠ none := by decide
  refine Bool.eq_false_iff.2 fun hv => ?_
  obtain ⟨f, hf, hmem⟩ := List.any_eq_true.1 hv
  exact hconstants f hf v (List.contains_iff_mem.1 hmem) h

theorem exists_names {program : Program} {script : List Stmt}
    (h : ofProgram program = .ok script) :
    ∃ names, emitStmts .outside program.stmts .empty = .ok (script, names) := by
  change Except.map Prod.fst (emitStmts .outside program.stmts .empty) = .ok script at h
  cases hemit : emitStmts .outside program.stmts .empty with
  | error failure =>
    rw [hemit] at h
    cases h
  | ok x =>
    rw [hemit] at h
    obtain ⟨stmts, names⟩ := x
    cases h
    exact ⟨names, rfl⟩

/-- The name of a variable is in scope wherever the script uses it just if the variable
    is visible wherever the program does, with scopes of their own for branches. -/
theorem inScope_iff_scoped {stmts : List Program.Stmt} {script : List Stmt} {names : Names}
    {v : Variable} (hemit : emitStmts .outside stmts .empty = .ok (script, names))
    (hv : constant? v = none) :
    (∀ before rest, pieces script = before ++ Piece.use (names.name (.var v)).1.text :: rest →
        InScope (names.name (.var v)).1.text before) ↔ Program.StmtsScoped v true false stmts := by
  obtain ⟨ρ, hagrees, hname, hunique⟩ := names.exists_agrees (.var v)
  have hmarks : Marks ρ v (names.name (.var v)).1.text := by
    rw [← hname]
    exact ⟨hv, rfl, fun e he => hunique e (Name.text_injective he)⟩
  obtain rfl : script = Stmt.ofPrograms ρ stmts :=
    (renames_stmts .outside stmts _ _ _ hemit).2 ρ hagrees
  have hreads := (hmarks.reads_stmts 0 stmts false []).intercalate (s := "\n")
  refine Iff.trans ?_ hreads.sighted_iff
  exact forall₂_congr fun before _ => imp_congr_right fun _ => (View.sees_after_iff _ before).symm

/-- The scopes of the script are those of the program for every variable that does not
    leak from a branch: wherever the name of the variable is used in the text of the
    script, a declaration of that name has ended before, and the block it is for has not
    been left. For a variable that leaks this fails, unless statements are pruned. -/
theorem in_scope_unless_leaked {stmts : List Surface.Stmt} {program : Program}
    (hrun : (Typing.run Prelude.standard stmts).1 = .ok program) (passes : Program.Passes)
    {script : List Stmt} (hscript : ofProgram (program.simplify passes).value = .ok script) :
    spell (pieces script) = text script ∧
      ∃ names, emitStmts .outside (program.simplify passes).value.stmts .empty =
          .ok (script, names) ∧
        (∀ e ∈ names.used, ∀ e', (names.name e).1.text = (names.name e').1.text → e = e') ∧
        ∀ v, constant? v = none →
          (Program.stmtsLeak v program.stmts = false → ∀ before rest,
            pieces script = before ++ .use (names.name (.var v)).1.text :: rest →
              InScope (names.name (.var v)).1.text before) ∧
          (passes.prune = false → Program.stmtsLeak v program.stmts = true → ∃ before rest,
            pieces script = before ++ .use (names.name (.var v)).1.text :: rest ∧
              ¬InScope (names.name (.var v)).1.text before) := by
  obtain ⟨names, hemit⟩ := exists_names hscript
  refine ⟨spell_pieces script, names, hemit, ?_, fun v hv => ?_⟩
  · exact fun e he e' htext => Names.eq_of_name_eq he (Name.text_injective htext)
  obtain ⟨last, hforms⟩ := Typing.stmtForms_of_run hrun
  have hkeeps : Program.Keeps passes (Program.StmtsScoped v true false program.stmts)
      (Program.StmtsScoped v true false (program.simplify passes).value.stmts) :=
    Program.stmtsKeep_scoped (truth?_eq_none hv) program.stmts false
  refine ⟨fun hleak => (inScope_iff_scoped hemit hv).2 (hkeeps.1 ?_), fun hprune hleak => ?_⟩
  · have hshared := (Typing.StmtForms.scoped (v := v) hforms).1
    rw [holds_start_eq_false hv] at hshared
    exact Program.scoped_own_of_not_leak hshared hleak
  · -- If no use were out of scope, the variable would be visible with scopes of their
    -- own for branches, in the simplified program and so in the program.
    by_contra hnone
    refine Typing.StmtForms.not_scoped_of_leak hforms hleak (hkeeps.2 hprune ?_)
    refine (inScope_iff_scoped hemit hv).1 fun before rest heq => ?_
    by_contra hscope
    exact hnone ⟨before, rest, heq, hscope⟩

section Nesting

open Surface in
/-- An automation with a parameter, a branch with a variable of its own and a loop in
    the other branch. -/
def nesting : List Surface.Stmt :=
  let name (x : String) : Surface.Expr := .name ⟨x, default⟩
  let block (ss : List Surface.Stmt) : Block := .mk ss default
  [.automate ⟨"f", default⟩ [⟨⟨"x", default⟩, none⟩] none
    (block [.ifElse (.binary (.compare .eq) (name "x") (.word "a" default) default)
      (block [.declare true ⟨"y", default⟩ (name "x") default, .print (name "y") default])
      (some (block [.loopOver ⟨"z", default⟩ (.list [name "x"] default)
        (block [.print (name "z") default]) default])) default]) default]

/-- The variable of the branch. -/
def nestingLocal : Variable := ⟨11, "y", true, .any, false⟩

/-- Its typed form. -/
def nestingTyped : Program :=
  let x : Variable := ⟨10, "x", false, .any, false⟩
  let z : Variable := ⟨12, "z", false, .any, false⟩
  ⟨[.automate ⟨9, "f", [⟨"x", .any⟩], .none, false⟩ [x]
    [.ifElse (.compare .eq (.var x) (.word "a"))
      [.declare nestingLocal (.var x), .print (.var nestingLocal)]
      (some [.loopOver z (.list [.var x]) [.print (.var z)]])]]⟩

/-- Its script. -/
def nestingScript : List Stmt :=
  let name (base : String) (suffix : Nat) : Ref := .name ⟨base, suffix⟩
  [.function ⟨"f", 1⟩ [name "x" 2]
    [.ifElse (.binary (.compare .eq) (.ref (name "x" 2)) (.word "a"))
      [.declare (name "y" 3) (.ref (name "x" 2)), .print (.ref (name "y" 3))]
      (some [.loopOver (name "z" 4) (.list [.ref (name "x" 2)]) [.print (.ref (name "z" 4))]])]]

/-- The variable of the branch does not leak, and its name is in scope wherever it is used. -/
theorem in_scope_unless_leaked_nesting :
    (Typing.run Prelude.standard nesting).1 = .ok nestingTyped ∧
      ofProgram (nestingTyped.simplify .all).value = .ok nestingScript ∧
      Program.stmtsLeak nestingLocal nestingTyped.stmts = false ∧
      ∀ before rest, pieces nestingScript = before ++ .use "y_3" :: rest →
        InScope "y_3" before := by
  have hrun : (Typing.run Prelude.standard nesting).1 = .ok nestingTyped := by cbv
  have hscript : ofProgram (nestingTyped.simplify .all).value = .ok nestingScript := rfl
  have hleak : Program.stmtsLeak nestingLocal nestingTyped.stmts = false := by decide
  obtain ⟨-, names, hemit, -, hscopes⟩ := in_scope_unless_leaked hrun .all hscript
  cases hemit
  exact ⟨hrun, hscript, hleak, (hscopes nestingLocal rfl).1 hleak⟩

end Nesting

section Leaking

/-- A variable that is declared in a branch and printed after it. -/
def leakingText : List Char :=
  "make x with \"a\"; if x is \"a\" \x7b make y with \"b\"; \x7d print y;".toList

open Surface in
/-- Its statements. -/
def leaking : List Surface.Stmt :=
  let name (x : String) : Surface.Expr := .name ⟨x, default⟩
  [.declare false ⟨"x", default⟩ (.word "a" default) default,
    .ifElse (.binary (.compare .eq) (name "x") (.word "a" default) default)
      (.mk [.declare false ⟨"y", default⟩ (.word "b" default) default] default) none default,
    .print (name "y") default]

/-- Its typed form. -/
def leakingTyped : Program :=
  let x : Variable := ⟨9, "x", false, .word, false⟩
  let y : Variable := ⟨10, "y", false, .word, false⟩
  ⟨[.declare x (.word "a"),
    .ifElse (.compare .eq (.var x) (.word "a")) [.declare y (.word "b")] none,
    .print (.var y)]⟩

/-- Its script. -/
def leakingScript : List Stmt :=
  let x : Ref := .name ⟨"x", 1⟩
  let y : Ref := .name ⟨"y", 2⟩
  [.declare x (.word "a"),
    .ifElse (.binary (.compare .eq) (.ref x) (.word "a")) [.declare y (.word "b")] none,
    .print (.ref y)]

/-- The script prints a name that is declared in a block that has been closed. -/
theorem leaking_out_of_scope :
    (compile .all .js leakingText).1.toOption.map Output.text = some (text leakingScript) ∧
      (Typing.run Prelude.standard leaking).1 = .ok leakingTyped ∧
      ofProgram (leakingTyped.simplify .all).value = .ok leakingScript ∧
      text leakingScript =
        "let x_1 = \"a\";\nif (x_1 === \"a\") \x7b\n  let y_2 = \"b\";\n\x7d\nconsole.log(y_2);" ∧
      ∃ before, pieces leakingScript = before ++ [.use "y_2", .text ")", .stop] ∧
        ¬InScope "y_2" before := by
  refine ⟨by decide +kernel, by cbv, rfl, by decide,
    (pieces leakingScript).dropLast.dropLast.dropLast, ?_, ?_⟩
  · decide
  · decide

end Leaking

end Toal.Script
