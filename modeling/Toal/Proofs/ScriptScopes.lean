import Toal.Script.Text
import Mathlib.Data.List.Infix

/-!
# Scopes of a script

Where a name of a script is visible can be read off the text. The text falls into
pieces (`Stmt.pieces`, `spell_pieces`): names that are used, names of variables that
are declared, the braces of blocks, the semicolons that end statements, and what
stands between these. A declaration ends with the next semicolon or opening brace,
and counts from there on: that of a `let` until the block around it is closed, that
of a parameter or of the item of a loop until the block that the brace opens is
closed. A name is in scope after some pieces if one of its declarations counts there
(`InScope`).

Going through the pieces from left to right, one can keep for each block that is
open whether the name is declared in it (`View`), and this decides what is in scope
(`sees_after_iff`).
-/

namespace Toal.Script

/-! ## Pieces -/

/-- A part of the text of a script. -/
inductive Piece
  /-- A name that is used. -/
  | use (name : String)
  /-- The name of a variable in its declaration. -/
  | binder (name : String)
  /-- The brace that opens a block. -/
  | opening
  /-- The brace that closes a block. -/
  | closing
  /-- The semicolon at the end of a statement. -/
  | stop
  /-- Anything else. -/
  | text (s : String)
deriving DecidableEq, Repr

/-- How a piece is written. -/
def Piece.spelling : Piece → String
  | .use name => name
  | .binder name => name
  | .opening => "\x7b"
  | .closing => "\x7d"
  | .stop => ";"
  | .text s => s

@[simp]
theorem Piece.spelling_text (s : String) : (Piece.text s).spelling = s := rfl

@[simp]
theorem Piece.spelling_use (name : String) : (Piece.use name).spelling = name := rfl

@[simp]
theorem Piece.spelling_stop : Piece.stop.spelling = ";" := rfl

@[simp]
theorem Piece.spelling_opening : Piece.opening.spelling = "\x7b" := rfl

@[simp]
theorem Piece.spelling_closing : Piece.closing.spelling = "\x7d" := rfl

/-- How pieces are written. -/
def spell (ps : List Piece) : String := String.join (ps.map Piece.spelling)

/-- The piece for a reference that is used. -/
def Ref.use : Ref → Piece
  | .name n => .use n.text
  | r => .text r.text

/-- The piece for a reference that is declared. -/
def Ref.binder : Ref → Piece
  | .name n => .binder n.text
  | r => .text r.text

mutual

/-- The pieces of an expression. -/
def Expr.pieces : Expr → List Piece
  | .num value => [.text (numText value)]
  | .bool value => [.text (toString value)]
  | .word contents => [.text (wordText contents)]
  | .list elements => .text "[" :: (piecesAll elements ++ [.text "]"])
  | .ref r => [r.use]
  | .binary op left right => left.pieces ++ .text (" " ++ opText op ++ " ") :: right.pieces
  | .paren inner => .text "(" :: (inner.pieces ++ [.text ")"])
  | .call callee args => .use callee.text :: .text "(" :: (piecesAll args ++ [.text ")"])
  | .push list element => list.pieces ++ .text ".push(" :: (element.pieces ++ [.text ")"])
  | .removeFirst list element =>
    .text "((l, e) => \x7b const i = l.indexOf(e); if (i !== -1) l.splice(i, 1); \x7d)(" ::
      (list.pieces ++ .text ", " :: (element.pieces ++ [.text ")"]))
  | .length value => value.pieces ++ [.text ".length"]
  | .range start stop =>
    .text "Array.from(\x7b length: " :: (stop.pieces ++ .text " - " :: (start.pieces ++
      .text " \x7d, (_, i) => " :: (start.pieces ++ [.text " + i)"])))
  | .typeOf value => .text "typeof " :: value.pieces

/-- The pieces of expressions, separated by commas. -/
def piecesAll : List Expr → List Piece
  | [] => []
  | [e] => e.pieces
  | e :: es => e.pieces ++ .text ", " :: piecesAll es

end

/-- The pieces of the parameters of a function. -/
def paramPieces (params : List Ref) : List Piece :=
  [Piece.text ", "].intercalate (params.map fun r => [r.binder])

/-- The spaces at the beginning of a line. -/
def indentation (depth : Nat) : Piece := .text (String.ofList (List.replicate (2 * depth) ' '))

mutual

/-- The pieces of the lines of a statement at the given depth. -/
def Stmt.pieceLines (depth : Nat) : Stmt → List (List Piece)
  | .declare target init =>
    [indentation depth :: .text "let " :: target.binder :: .text " = " :: (init.pieces ++ [.stop])]
  | .assign target source =>
    [indentation depth :: target.use :: .text " = " :: (source.pieces ++ [.stop])]
  | .change op target term =>
    [indentation depth :: target.use :: .text (" " ++ arithText op ++ "= ") ::
      (term.pieces ++ [.stop])]
  | .print argument =>
    [indentation depth :: .text "console.log(" :: (argument.pieces ++ [.text ")", .stop])]
  | .function n params body =>
    (indentation depth :: .text ("function " ++ n.text ++ "(") ::
        (paramPieces params ++ [.text ") ", .opening])) ::
      (pieceLinesAll (depth + 1) body ++ [[indentation depth, .closing]])
  | .eval e => [indentation depth :: (e.pieces ++ [.stop])]
  | .output none => [[indentation depth, .text "return", .stop]]
  | .output (some value) => [indentation depth :: .text "return " :: (value.pieces ++ [.stop])]
  | .ifElse test body none =>
    (indentation depth :: .text "if (" :: (test.pieces ++ [.text ") ", .opening])) ::
      (pieceLinesAll (depth + 1) body ++ [[indentation depth, .closing]])
  | .ifElse test body (some alternate) =>
    (indentation depth :: .text "if (" :: (test.pieces ++ [.text ") ", .opening])) ::
      (pieceLinesAll (depth + 1) body ++
        [indentation depth, .closing, .text " else ", .opening] ::
          (pieceLinesAll (depth + 1) alternate ++ [[indentation depth, .closing]]))
  | .loopWhile test body =>
    (indentation depth :: .text "while (" :: (test.pieces ++ [.text ") ", .opening])) ::
      (pieceLinesAll (depth + 1) body ++ [[indentation depth, .closing]])
  | .loopOver item list body =>
    (indentation depth :: .text "for (let " :: item.binder :: .text " of " ::
        (list.pieces ++ [.text ") ", .opening])) ::
      (pieceLinesAll (depth + 1) body ++ [[indentation depth, .closing]])
  | .breakLoop => [[indentation depth, .text "break", .stop]]

/-- The pieces of the lines of the statements of a list. -/
def pieceLinesAll (depth : Nat) : List Stmt → List (List Piece)
  | [] => []
  | s :: ss => s.pieceLines depth ++ pieceLinesAll depth ss

end

/-- The pieces of a script. -/
def pieces (stmts : List Stmt) : List Piece :=
  [Piece.text "\n"].intercalate (pieceLinesAll 0 stmts)

section Spelling

/-- No pieces spell nothing. -/
@[simp]
theorem spell_nil : spell [] = "" := rfl

/-- Pieces are spelled one after the other. -/
@[simp]
theorem spell_cons (p : Piece) (ps : List Piece) : spell (p :: ps) = p.spelling ++ spell ps := by
  rw [spell, List.map_cons, String.join_cons, spell]

/-- The spelling of two stretches is that of the first and then that of the second. -/
@[simp]
theorem spell_append (ps qs : List Piece) : spell (ps ++ qs) = spell ps ++ spell qs := by
  rw [spell, List.map_append, String.join_append, spell, spell]

theorem spell_text (s : String) : spell [.text s] = s := by
  rw [spell_cons, spell_nil, Piece.spelling_text, String.append_empty]

/-- Separated pieces spell separated texts. -/
theorem spell_intercalate (separator : String) (ls : List (List Piece)) :
    spell ([Piece.text separator].intercalate ls) = separator.intercalate (ls.map spell) := by
  induction ls with
  | nil => rfl
  | cons l ls ih =>
    cases ls with
    | nil => simp
    | cons l' ls =>
      rw [List.intercalate_cons_cons, spell_append, spell_append, ih]
      simp [String.intercalate_cons_cons]

/-- A use of a reference is spelled as the reference. -/
@[simp]
theorem spelling_refUse (r : Ref) : r.use.spelling = r.text := by
  cases r <;> rfl

/-- A binder of a reference is spelled as the reference. -/
@[simp]
theorem spelling_refBinder (r : Ref) : r.binder.spelling = r.text := by
  cases r <;> rfl

/-- The pieces of parameters spell their names. -/
theorem spell_paramPieces (params : List Ref) :
    spell (paramPieces params) = ", ".intercalate (params.map (·.text)) := by
  rw [paramPieces, spell_intercalate, List.map_map]
  congr 1
  refine List.map_congr_left fun r _ => ?_
  simp

mutual

/-- The pieces of an expression spell its text. -/
theorem Expr.spell_pieces : ∀ e : Expr, spell e.pieces = e.text
  | .num _ => spell_text _
  | .bool _ => spell_text _
  | .word _ => spell_text _
  | .list elements => by
    show spell (Piece.text "[" :: (piecesAll elements ++ [Piece.text "]"])) =
      "[" ++ textAll elements ++ "]"
    simp [spell_piecesAll elements, String.append_assoc]
  | .ref r => by
    show spell [r.use] = r.text
    simp
  | .binary op left right => by
    show spell (left.pieces ++ Piece.text (" " ++ opText op ++ " ") :: right.pieces) =
      left.text ++ " " ++ opText op ++ " " ++ right.text
    simp [left.spell_pieces, right.spell_pieces, String.append_assoc]
  | .paren inner => by
    show spell (Piece.text "(" :: (inner.pieces ++ [Piece.text ")"])) = "(" ++ inner.text ++ ")"
    simp [inner.spell_pieces, String.append_assoc]
  | .call callee args => by
    show spell (Piece.use callee.text :: .text "(" :: (piecesAll args ++ [Piece.text ")"])) =
      callee.text ++ "(" ++ textAll args ++ ")"
    simp [spell_piecesAll args, String.append_assoc]
  | .push list element => by
    show spell (list.pieces ++ Piece.text ".push(" :: (element.pieces ++ [Piece.text ")"])) =
      list.text ++ ".push(" ++ element.text ++ ")"
    simp [list.spell_pieces, element.spell_pieces, String.append_assoc]
  | .removeFirst list element => by
    show spell (Piece.text _ :: (list.pieces ++ Piece.text ", " ::
        (element.pieces ++ [Piece.text ")"]))) =
      _ ++ list.text ++ ", " ++ element.text ++ ")"
    simp [list.spell_pieces, element.spell_pieces, String.append_assoc]
  | .length value => by
    show spell (value.pieces ++ [Piece.text ".length"]) = value.text ++ ".length"
    simp [value.spell_pieces]
  | .range start stop => by
    show spell (Piece.text "Array.from(\x7b length: " :: (stop.pieces ++ Piece.text " - " ::
        (start.pieces ++ Piece.text " \x7d, (_, i) => " ::
          (start.pieces ++ [Piece.text " + i)"])))) =
      "Array.from(\x7b length: " ++ stop.text ++ " - " ++ start.text ++ " \x7d, (_, i) => " ++
        start.text ++ " + i)"
    simp [start.spell_pieces, stop.spell_pieces, String.append_assoc]
  | .typeOf value => by
    show spell (Piece.text "typeof " :: value.pieces) = "typeof " ++ value.text
    simp [value.spell_pieces]

/-- The pieces of expressions spell their texts. -/
theorem spell_piecesAll : ∀ es : List Expr, spell (piecesAll es) = textAll es
  | [] => rfl
  | [e] => e.spell_pieces
  | e :: e' :: es => by
    simp [piecesAll, textAll, e.spell_pieces, spell_piecesAll (e' :: es),
      String.append_assoc]

end

mutual

/-- The pieces of a statement spell its lines. -/
theorem Stmt.map_spell_pieceLines (depth : Nat) :
    ∀ s : Stmt, (s.pieceLines depth).map spell = (s.lines depth).map Line.indented
  | .declare target init => by
    simp [Stmt.pieceLines, Stmt.lines, Line.indented, indentation,
      init.spell_pieces, String.append_assoc]
  | .assign target source => by
    simp [Stmt.pieceLines, Stmt.lines, Line.indented, indentation,
      source.spell_pieces, String.append_assoc]
  | .change op target term => by
    simp [Stmt.pieceLines, Stmt.lines, Line.indented, indentation,
      term.spell_pieces, String.append_assoc]
  | .print argument => by
    simp [Stmt.pieceLines, Stmt.lines, Line.indented, indentation,
      argument.spell_pieces, String.append_assoc]
  | .function n params body => by
    simp [Stmt.pieceLines, Stmt.lines, Line.indented, indentation,
      spell_paramPieces, map_spell_pieceLinesAll (depth + 1) body, String.append_assoc]
  | .eval e => by
    simp [Stmt.pieceLines, Stmt.lines, Line.indented, indentation,
      e.spell_pieces]
  | .output none => by
    simp [Stmt.pieceLines, Stmt.lines, Line.indented, indentation]
  | .output (some value) => by
    simp [Stmt.pieceLines, Stmt.lines, Line.indented, indentation,
      value.spell_pieces, String.append_assoc]
  | .ifElse test body none => by
    simp [Stmt.pieceLines, Stmt.lines, Line.indented, indentation,
      test.spell_pieces, map_spell_pieceLinesAll (depth + 1) body, String.append_assoc]
  | .ifElse test body (some alternate) => by
    simp [Stmt.pieceLines, Stmt.lines, Line.indented, indentation,
      test.spell_pieces, map_spell_pieceLinesAll (depth + 1) body,
      map_spell_pieceLinesAll (depth + 1) alternate, String.append_assoc]
  | .loopWhile test body => by
    simp [Stmt.pieceLines, Stmt.lines, Line.indented, indentation,
      test.spell_pieces, map_spell_pieceLinesAll (depth + 1) body, String.append_assoc]
  | .loopOver item list body => by
    simp [Stmt.pieceLines, Stmt.lines, Line.indented, indentation,
      list.spell_pieces, map_spell_pieceLinesAll (depth + 1) body, String.append_assoc]
  | .breakLoop => by
    simp [Stmt.pieceLines, Stmt.lines, Line.indented, indentation]

/-- The pieces of statements spell their lines. -/
theorem map_spell_pieceLinesAll (depth : Nat) :
    ∀ ss : List Stmt, (pieceLinesAll depth ss).map spell = (linesAll depth ss).map Line.indented
  | [] => rfl
  | s :: ss => by
    rw [pieceLinesAll, linesAll, List.map_append, List.map_append, s.map_spell_pieceLines depth,
      map_spell_pieceLinesAll depth ss]

end

/-- The pieces of a script make up its text. -/
theorem spell_pieces (stmts : List Stmt) : spell (pieces stmts) = text stmts := by
  rw [pieces, spell_intercalate, map_spell_pieceLinesAll, text]

end Spelling

/-! ## What is in scope -/

/-- No declaration ends among the pieces, and no block. -/
def Calm (ps : List Piece) : Prop := ∀ p ∈ ps, p ≠ .stop ∧ p ≠ .opening ∧ p ≠ .closing

/-- The pieces are those of a declaration of the name, from the name to the end of
    the declaration. -/
def Declares (n : String) (ps : List Piece) : Prop :=
  ∃ inner last, ps = .binder n :: (inner ++ [last]) ∧ Calm inner ∧ (last = .stop ∨ last = .opening)

/-- The pieces never lead out of the block in which they begin. -/
def Stays (ps : List Piece) : Prop :=
  ∀ qs, qs <+: ps → qs.count .closing ≤ qs.count .opening

/-- The name is in scope after the pieces: one of its declarations has ended, and the
    block in which it ended has not been left since. -/
def InScope (n : String) (ps : List Piece) : Prop :=
  ∃ before declaration since, ps = before ++ (declaration ++ since) ∧
    Declares n declaration ∧ Stays since

/-- What can be known about a name after some pieces. -/
structure View where
  /-- Whether the name is declared in the innermost block. -/
  current : Bool
  /-- The same for the blocks around it, from the inside out. -/
  around : List Bool
  /-- Whether a declaration of the name has begun and not ended. -/
  declaring : Bool

namespace View

/-- At the beginning. -/
def outside : View := ⟨false, [], false⟩

/-- Whether the name is declared in one of the blocks. -/
def sees (w : View) : Bool := w.current || w.around.any id

/-- What is known after one more piece. -/
def next (n : String) (w : View) : Piece → View
  | .use _ => w
  | .binder m => { w with declaring := m == n || w.declaring }
  | .opening => ⟨w.declaring, w.current :: w.around, false⟩
  | .closing => ⟨w.around.headD false, w.around.tail, false⟩
  | .stop => ⟨w.current || w.declaring, w.around, false⟩
  | .text _ => w

/-- What is known after more pieces. -/
def after (n : String) (w : View) (ps : List Piece) : View := ps.foldl (next n) w

end View

section

variable {n : String} {k : Nat} {p : Piece} {ps : List Piece}

/-- Pieces are calm if all but the last one are, and so is that one. -/
theorem calm_concat : Calm (ps ++ [p]) ↔ Calm ps ∧ p ≠ .stop ∧ p ≠ .opening ∧ p ≠ .closing := by
  simp only [Calm, List.forall_mem_append, List.forall_mem_singleton]

/-- Pieces stay in their block if all but the last one do, and the last one does not lead
    out of it. -/
theorem stays_concat :
    Stays (ps ++ [p]) ↔ Stays ps ∧ (ps ++ [p]).count .closing ≤ (ps ++ [p]).count .opening := by
  constructor
  · intro h
    exact ⟨fun qs hqs => h qs (hqs.trans (List.prefix_append _ _)), h _ List.prefix_rfl⟩
  · rintro ⟨h, hwhole⟩ qs hqs
    obtain rfl | hqs := List.prefix_concat_iff.1 hqs
    · exact hwhole
    · exact h qs hqs

/-- A declaration of the name has begun and not ended. -/
def Declaring (n : String) (ps : List Piece) : Prop :=
  ∃ before inner, ps = before ++ .binder n :: inner ∧ Calm inner

/-- The name is in scope after the pieces, and would still be if `k` blocks were
    closed. -/
def InScopeAt (n : String) (k : Nat) (ps : List Piece) : Prop :=
  ∃ before declaration since, ps = before ++ (declaration ++ since) ∧
    Declares n declaration ∧ Stays since ∧ since.count .closing + k ≤ since.count .opening

/-- A name is in scope if it is with no block closed. -/
theorem inScopeAt_zero : InScopeAt n 0 ps ↔ InScope n ps := by
  constructor
  · rintro ⟨before, declaration, since, heq, hdeclares, hstays, -⟩
    exact ⟨before, declaration, since, heq, hdeclares, hstays⟩
  · rintro ⟨before, declaration, since, heq, hdeclares, hstays⟩
    exact ⟨before, declaration, since, heq, hdeclares, hstays, hstays _ List.prefix_rfl⟩

theorem not_declaring_nil : ¬Declaring n [] := by
  rintro ⟨before, inner, h, -⟩
  simp at h

theorem not_inScopeAt_nil : ¬InScopeAt n k [] := by
  rintro ⟨before, _, since, h, ⟨inner, last, rfl, -⟩, -⟩
  simp at h

/-- A name is being declared if the last piece is its binder, or if it was and the last
    piece does not end the declaration. -/
theorem declaring_concat :
    Declaring n (ps ++ [p]) ↔
      p = .binder n ∨ (Declaring n ps ∧ p ≠ .stop ∧ p ≠ .opening ∧ p ≠ .closing) := by
  constructor
  · rintro ⟨before, inner, h, hcalm⟩
    induction inner using List.reverseRecOn with
    | nil => exact .inl (List.append_inj_right' h rfl |> List.singleton_inj.1)
    | append_singleton inner q _ =>
      rw [← List.cons_append, ← List.append_assoc] at h
      obtain ⟨rfl, hq⟩ := List.append_inj' h rfl
      obtain rfl := List.singleton_inj.1 hq
      obtain ⟨hinner, hp⟩ := calm_concat.1 hcalm
      exact .inr ⟨⟨before, inner, rfl, hinner⟩, hp⟩
  · rintro (rfl | ⟨⟨before, inner, rfl, hcalm⟩, hp⟩)
    · exact ⟨ps, [], rfl, List.forall_mem_nil _⟩
    · exact ⟨before, inner ++ [p], by simp, calm_concat.2 ⟨hcalm, hp⟩⟩

/-- The number of blocks to be closed before the piece, for `k` to be closed after
    it. -/
def Piece.lower (k : Nat) : Piece → Nat
  | .opening => k - 1
  | .closing => k + 1
  | _ => k

/-- Closing blocks after a piece is closing more, or fewer, before it. -/
theorem stays_concat_and_count :
    (Stays (ps ++ [p]) ∧ (ps ++ [p]).count .closing + k ≤ (ps ++ [p]).count .opening) ↔
      Stays ps ∧ ps.count .closing + p.lower k ≤ ps.count .opening := by
  have hle : Stays ps → ps.count .closing ≤ ps.count .opening := fun h => h _ List.prefix_rfl
  rw [stays_concat, List.count_append, List.count_append, List.count_singleton,
    List.count_singleton]
  cases p <;> simp [Piece.lower] <;> grind

/-- Either a declaration ends with the last piece, or one has ended before. -/
theorem inScopeAt_concat :
    InScopeAt n k (ps ++ [p]) ↔
      (k = 0 ∧ (p = .stop ∨ p = .opening) ∧ Declaring n ps) ∨ InScopeAt n (p.lower k) ps := by
  constructor
  · rintro ⟨before, _, since, h, ⟨inner, last, rfl, hcalm, hlast⟩, hstays, hk⟩
    induction since using List.reverseRecOn with
    | nil =>
      rw [List.append_nil, ← List.cons_append, ← List.append_assoc] at h
      obtain ⟨rfl, hp⟩ := List.append_inj' h rfl
      obtain rfl := List.singleton_inj.1 hp
      exact .inl ⟨by simpa using hk, hlast, before, inner, rfl, hcalm⟩
    | append_singleton since q _ =>
      rw [← List.append_assoc, ← List.append_assoc] at h
      obtain ⟨rfl, hq⟩ := List.append_inj' h rfl
      obtain rfl := List.singleton_inj.1 hq
      exact .inr ⟨before, _, since, List.append_assoc _ _ _, ⟨inner, last, rfl, hcalm, hlast⟩,
        stays_concat_and_count.1 ⟨hstays, hk⟩⟩
  · rintro (⟨rfl, hp, before, inner, rfl, hcalm⟩ | ⟨before, declaration, since, rfl, hd, hs⟩)
    · refine ⟨before, _, [], ?_, ⟨inner, p, rfl, hcalm, hp⟩, ?_, Nat.le_refl _⟩
      · simp
      · intro qs hqs
        rw [List.prefix_nil.1 hqs]
        exact Nat.le_refl _
    · exact ⟨before, declaration, since ++ [p], by simp, hd, stays_concat_and_count.2 hs⟩

end

namespace View

variable (n : String)

/-- All blocks, from the inside out. -/
def blocks (w : View) : List Bool := w.current :: w.around

theorem after_concat (w : View) (ps : List Piece) (p : Piece) :
    w.after n (ps ++ [p]) = (w.after n ps).next n p := by
  rw [after, List.foldl_append, List.foldl_cons, List.foldl_nil, after]

/-- A view knows whether the name is being declared. -/
theorem declaring_after_iff (ps : List Piece) :
    (outside.after n ps).declaring = true ↔ Declaring n ps := by
  induction ps using List.reverseRecOn with
  | nil => simp [after, outside, not_declaring_nil]
  | append_singleton ps p ih =>
    rw [after_concat, declaring_concat, ← ih]
    cases p <;> simp [next]

/-- A view knows in which of the open blocks the name is in scope. -/
theorem any_drop_blocks_iff (ps : List Piece) (k : Nat) :
    ((outside.after n ps).blocks.drop k).any id = true ↔ InScopeAt n k ps := by
  induction ps using List.reverseRecOn generalizing k with
  | nil => cases k <;> simp [after, outside, blocks, not_inScopeAt_nil]
  | append_singleton ps p ih =>
    rw [after_concat, inScopeAt_concat, ← ih, ← declaring_after_iff]
    generalize outside.after n ps = w
    obtain ⟨current, around, declaring⟩ := w
    cases p with
    | use | binder | text => simp [next, blocks, Piece.lower]
    | opening => cases k <;> simp [next, blocks, Piece.lower]
    | closing => cases around <;> cases k <;> simp [next, blocks, Piece.lower]
    | stop => cases k <;> simp [next, blocks, Piece.lower, or_assoc, or_left_comm]

/-- What is known about a name decides whether it is in scope. -/
theorem sees_after_iff (ps : List Piece) : (outside.after n ps).sees = true ↔ InScope n ps := by
  rw [← inScopeAt_zero, ← any_drop_blocks_iff]
  rfl

end View

instance (n : String) (ps : List Piece) : Decidable (InScope n ps) :=
  decidable_of_iff _ (View.sees_after_iff n ps)

end Toal.Script
