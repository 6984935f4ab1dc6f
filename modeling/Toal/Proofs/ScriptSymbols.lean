import Toal.Proofs.OperatorGrammar
import Toal.Proofs.TextPieces

/-!
# The symbols of an expression's text

The text of an expression is taken apart into operators, brackets and atoms (`symbols?`).
Here it is the operators that matter, and atoms are opaque: runs of the characters that
names and numbers of the language have, or quoted words from one quote to the next that is
not escaped. Whether a script could have such a name or such a word is not asked. Of the
operators the longest is taken that the text begins with. Reserved words and operators that
no expression here has are not symbols.

The text of a tree has blanks around its operators and after its commas
(`Tree.text`). If the atoms are atoms, it falls into the symbols of the tree again
(`symbols?_text`).
-/

namespace Toal.Script

/-! ## Taking a text apart -/

/-- Whether `c` may stand in an atom: the characters of names and numbers of the language. -/
def isAtomChar (c : Char) : Bool :=
  isNameRest c || c.isDigit || c = '.'

/-- The words that are not names in scripts. -/
def reserved : List String :=
  ["await", "break", "case", "catch", "class", "const", "continue", "debugger", "default",
    "delete", "do", "else", "enum", "export", "extends", "finally", "for", "function", "if",
    "import", "in", "instanceof", "let", "new", "return", "static", "super", "switch", "throw",
    "try", "typeof", "var", "void", "while", "with", "yield"]

/-- The operators of scripts, each before those that it begins with, and what those
    are that expressions here have. Two of them begin a comment. -/
def operators : List (String × Option BinOp) :=
  [(">>>=", none), ("===", some (.compare .eq)), ("!==", some (.compare .ne)), ("**=", none),
    ("<<=", none), (">>=", none), (">>>", none), ("&&=", none), ("||=", none), ("??=", none),
    ("//", none), ("/*", none), ("=>", none), ("==", none), ("!=", none),
    ("<=", some (.compare .le)), (">=", some (.compare .ge)), ("&&", none), ("||", none),
    ("??", none), ("?.", none), ("++", none), ("--", none), ("+=", none), ("-=", none),
    ("*=", none), ("/=", none), ("%=", none), ("&=", none), ("|=", none), ("^=", none),
    ("<<", none), (">>", none), ("**", some (.arith .pow)), ("<", some (.compare .lt)),
    (">", some (.compare .gt)), ("+", some (.arith .add)), ("-", some (.arith .sub)),
    ("*", some (.arith .mul)), ("/", some (.arith .div)), ("%", some (.arith .rem)),
    ("=", none), ("&", none), ("|", none), ("^", none), ("!", none), ("~", none), ("?", none)]

/-- The operator that a text begins with, and the number of its characters. -/
def operator? (cs : List Char) : Option (BinOp × Nat) :=
  match operators.find? (·.1.toList.isPrefixOf cs) with
  | some (text, some op) => some (op, text.length)
  | _ => none

/-- The symbol that is made up of one character. -/
def bracket? : Char → Option Sym
  | '(' => some .openParen
  | ')' => some .closeParen
  | '[' => some .openSquare
  | ']' => some .closeSquare
  | ',' => some .comma
  | _ => none

/-- The first symbol of a text that begins with `c` and goes on with `cs`, and how
    many characters of `cs` belong to it. An atom is taken as it stands, as far as the
    characters of the language's names and numbers go or up to the closing quote. -/
def firstSymbol? (c : Char) (cs : List Char) : Option (Sym × Nat) :=
  if let some s := bracket? c then some (s, 0)
  else if c = '"' then
    (Literal.scan cs).map fun (body, _) =>
      (.atom (String.ofList (c :: body ++ ['"'])), body.length + 1)
  else if isAtomChar c then
    let run := cs.takeWhile isAtomChar
    let text := String.ofList (c :: run)
    if text ∈ reserved then none else some (.atom text, run.length)
  else (operator? (c :: cs)).map fun (op, n) => (.op op, n - 1)

/-- The symbols of a text. -/
def symbols? (cs : List Char) : Option (List Sym) := pieces? firstSymbol? cs

/-! ## The text of a tree -/

/-- The text of a sign. -/
def Sign.text : Sign → String
  | plus => "+"
  | minus => "-"

namespace Tree

mutual

/-- The text of a tree. -/
def text : Tree → String
  | .atom text => text
  | .group inner => "(" ++ inner.text ++ ")"
  | .array elements => "[" ++ textAll elements ++ "]"
  | .call callee args => callee.text ++ "(" ++ textAll args ++ ")"
  | .sign s operand => s.text ++ operand.text
  | .binary op left right => left.text ++ " " ++ opText op ++ " " ++ right.text

/-- The texts of trees, separated by commas. -/
def textAll : List Tree → String
  | [] => ""
  | [t] => t.text
  | t :: ts => t.text ++ ", " ++ textAll ts

end

end Tree

/-- A name or a number. -/
structure IsWord (text : String) : Prop where
  nonempty : text.toList ≠ []
  chars : ∀ c ∈ text.toList, isAtomChar c = true
  free : text ∉ reserved

instance (text : String) : Decidable (IsWord text) :=
  decidable_of_iff
    (text.toList ≠ [] ∧ text.toList.all isAtomChar = true ∧ text ∉ reserved)
    ⟨fun ⟨hnil, hchars, hfree⟩ => ⟨hnil, List.all_eq_true.1 hchars, hfree⟩,
      fun h => ⟨h.nonempty, List.all_eq_true.2 h.chars, h.free⟩⟩

/-- What an atom may be: a name, a number, or a quoted word. -/
inductive IsAtom : String → Prop
  | word {text} : IsWord text → IsAtom text
  | literal {contents : String} : Contents contents.toList → IsAtom (wordText contents)

namespace Tree

mutual

/-- All atoms are atoms, and signs stand in front of names and numbers only. -/
def Written : Tree → Prop
  | .atom text => IsAtom text
  | .group inner => inner.Written
  | .array elements => WrittenAll elements
  | .call callee args => callee.Written ∧ WrittenAll args
  | .sign _ (.atom text) => IsWord text
  | .sign _ _ => False
  | .binary _ left right => left.Written ∧ right.Written

/-- All atoms in the trees are atoms. -/
def WrittenAll : List Tree → Prop
  | [] => True
  | t :: ts => t.Written ∧ WrittenAll ts

end

end Tree

/-! ## One symbol after the other -/

/-- The text does not go on with a name or a number. -/
def Ends (cs : List Char) : Prop := ∀ c ∈ cs.head?, isAtomChar c = false

/-- A text that is over does not go on. -/
theorem ends_nil : Ends [] := by
  intro c hc
  cases hc

/-- A text does not go on with another character. -/
theorem ends_cons {c : Char} (h : isAtomChar c = false) (cs : List Char) : Ends (c :: cs) := by
  intro d hd
  cases hd
  exact h

/-- A bracket is a symbol. -/
theorem symbols?_bracket {c : Char} {s : Sym} (h : bracket? c = some s) (cs : List Char) :
    symbols? (c :: cs) = (symbols? cs).map (s :: ·) := by
  have hblank : c ≠ ' ' := by
    rintro rfl
    cases h
  exact pieces?_char hblank (by rw [firstSymbol?, h])

/-- A character of a name or a number is none that means something else. -/
theorem ne_of_isAtomChar {c d : Char} (hc : isAtomChar c = true) (hd : isAtomChar d = false) :
    c ≠ d := by
  rintro rfl
  rw [hc] at hd
  cases hd

/-- No bracket stands in a name or a number. -/
theorem bracket?_of_isAtomChar {c : Char} (h : isAtomChar c = true) : bracket? c = none := by
  rw [bracket?]
  · exact ne_of_isAtomChar h (by decide)
  · exact ne_of_isAtomChar h (by decide)
  · exact ne_of_isAtomChar h (by decide)
  · exact ne_of_isAtomChar h (by decide)
  · exact ne_of_isAtomChar h (by decide)

/-- A name or a number is a symbol, if it does not go on. -/
theorem symbols?_word {text : String} {rest : List Char} (h : IsWord text) (hrest : Ends rest) :
    symbols? (text.toList ++ rest) = (symbols? rest).map (.atom text :: ·) := by
  obtain ⟨hne, hchars, hfree⟩ := h
  obtain ⟨c, cs, hcs⟩ := List.exists_cons_of_ne_nil hne
  rw [hcs] at hchars ⊢
  obtain ⟨hc, hrun⟩ := List.forall_mem_cons.1 hchars
  have htext : String.ofList (c :: cs) = text := by
    rw [← hcs, String.ofList_toList]
  have hfirst : firstSymbol? c (cs ++ rest) = some (.atom text, cs.length) := by
    rw [firstSymbol?, bracket?_of_isAtomChar hc]
    simp only [ne_of_isAtomChar hc (by decide : isAtomChar '"' = false), hc, if_true, if_false,
      takeWhile_append_eq hrun hrest, htext, hfree]
  exact pieces?_cons (ne_of_isAtomChar hc (by decide)) hfirst

/-- A text in quotes is a symbol. -/
theorem symbols?_literal {contents : String} (h : Contents contents.toList) (rest : List Char) :
    symbols? ((wordText contents).toList ++ rest) =
      (symbols? rest).map (.atom (wordText contents) :: ·) := by
  have hfirst : firstSymbol? '"' ((wordChars contents.toList ++ ['"']) ++ rest) =
      some (.atom (wordText contents), (wordChars contents.toList ++ ['"']).length) := by
    rw [List.append_assoc, List.singleton_append, firstSymbol?, h.scan_wordChars,
      List.length_append]
    rfl
  rw [toList_wordText]
  exact pieces?_cons (by decide) hfirst

/-- The operator before a space is recognised. -/
theorem operator?_opText (op : BinOp) (cs : List Char) :
    operator? ((opText op).toList ++ ' ' :: cs) = some (op, (opText op).toList.length) := by
  rcases op with (_ | _ | _ | _ | _ | _) | (_ | _ | _ | _ | _ | _) <;> rfl

/-- A character that begins an operator and nothing else. -/
structure BeginsOperator (c : Char) : Prop where
  blank : c ≠ ' '
  bracket : bracket? c = none
  quote : c ≠ '"'
  atom : isAtomChar c = false

/-- An operator that is recognised is a symbol. -/
theorem symbols?_operator {c : Char} (hc : BeginsOperator c) {ds cs : List Char} {op : BinOp}
    (h : operator? (c :: ds ++ cs) = some (op, ds.length + 1)) :
    symbols? (c :: ds ++ cs) = (symbols? cs).map (.op op :: ·) := by
  have hfirst : firstSymbol? c (ds ++ cs) = some (.op op, ds.length) := by
    rw [firstSymbol?, hc.bracket]
    rw [List.cons_append] at h
    simp only [hc.quote, hc.atom, if_false, h, Option.map_some, Nat.add_sub_cancel]
    rfl
  exact pieces?_cons hc.blank hfirst

/-- The text of an operator begins with a character that begins operators only. -/
theorem exists_opText_eq_cons (op : BinOp) :
    ∃ c ds, (opText op).toList = c :: ds ∧ BeginsOperator c := by
  rcases op with (_ | _ | _ | _ | _ | _) | (_ | _ | _ | _ | _ | _) <;>
    exact ⟨_, _, rfl, by decide, by decide, by decide, by decide⟩

/-- The text of an operator and a space fall into the operator. -/
theorem symbols?_op (op : BinOp) (cs : List Char) :
    symbols? ((opText op).toList ++ ' ' :: cs) = (symbols? cs).map (.op op :: ·) := by
  have hoperator := operator?_opText op cs
  obtain ⟨c, ds, htext, hc⟩ := exists_opText_eq_cons op
  rw [htext] at hoperator ⊢
  exact (symbols?_operator hc hoperator).trans (by rw [symbols?, pieces?_blank]; rfl)

/-- A sign is an operator by itself if nothing follows that makes it longer. -/
theorem operator?_sign (s : Sign) {c : Char} (hc : c ∉ ['+', '-', '=']) (cs : List Char) :
    operator? (s.text.toList ++ c :: cs) = some (s.op, 1) := by
  simp only [List.mem_cons, List.not_mem_nil, or_false, not_or] at hc
  have hplus : ('+' == c) = false := beq_eq_false_iff_ne.2 (Ne.symm hc.1)
  have hminus : ('-' == c) = false := beq_eq_false_iff_ne.2 (Ne.symm hc.2.1)
  have hequal : ('=' == c) = false := beq_eq_false_iff_ne.2 (Ne.symm hc.2.2)
  cases s with
  | plus =>
    simp [operator?, operators, Sign.text, Sign.op, List.isPrefixOf, hplus, hequal]
    rfl
  | minus =>
    simp [operator?, operators, Sign.text, Sign.op, List.isPrefixOf, hminus, hequal]
    rfl

/-- A sign before a name or a number is a symbol. -/
theorem symbols?_sign (s : Sign) {c : Char} (hc : isAtomChar c = true) (cs : List Char) :
    symbols? (s.text.toList ++ c :: cs) = (symbols? (c :: cs)).map (.op s.op :: ·) := by
  have hnot : c ∉ ['+', '-', '='] := by
    simp [ne_of_isAtomChar hc (by decide : isAtomChar '+' = false),
      ne_of_isAtomChar hc (by decide : isAtomChar '-' = false),
      ne_of_isAtomChar hc (by decide : isAtomChar '=' = false)]
  have hoperator := operator?_sign s hnot cs
  cases s with
  | plus => exact symbols?_operator ⟨by decide, by decide, by decide, by decide⟩ hoperator
  | minus => exact symbols?_operator ⟨by decide, by decide, by decide, by decide⟩ hoperator

/-! ## All symbols -/

/-- The text falls into the symbols, if no name or number goes on after it. -/
abbrev Spells (cs : List Char) (ss : List Sym) : Prop :=
  Falls firstSymbol? Ends (fun _ => true) cs ss

namespace Spells

variable {cs ds : List Char} {ss ts : List Sym}

/-- A bracket comes before what a text falls into. -/
theorem bracket {c : Char} {s : Sym} (hc : bracket? c = some s) (h : Spells ds ts) :
    Spells (c :: ds) (s :: ts) :=
  h.cons fun rest _ => symbols?_bracket hc (ds ++ rest)

/-- An operator and a space come before what a text falls into. -/
theorem op (op : BinOp) (h : Spells ds ts) :
    Spells ((opText op).toList ++ ' ' :: ds) (.op op :: ts) := by
  refine h.cons fun rest _ => ?_
  rw [List.append_assoc]
  exact symbols?_op op (ds ++ rest)

/-- What follows begins with a character that is in no name or number. -/
theorem append (h : Spells cs ss) {c : Char} (hc : isAtomChar c = false)
    (hds : Spells (c :: ds) ts) : Spells (cs ++ c :: ds) (ss ++ ts) :=
  Falls.append h hds fun rest _ => ends_cons hc (ds ++ rest)

end Spells

namespace Tree

mutual

/-- The text of a tree falls into the symbols of the tree. -/
theorem spells_text : ∀ {t : Tree}, t.Written → Spells t.text.toList t.symbols
  | .atom text, h => by
    cases h with
    | word hword => exact .single fun rest hrest => symbols?_word hword hrest
    | literal hcontents => exact .single fun rest _ => symbols?_literal hcontents rest
  | .group inner, h => by
    have hinner := (spells_text (t := inner) h).append (by decide) (.bracket (c := ')') rfl .nil)
    have hchars : (group inner).text.toList = '(' :: (inner.text.toList ++ [')']) := by
      simp [text]
    rw [hchars]
    exact .bracket rfl hinner
  | .array elements, h => by
    have hinner := (spells_textAll (show WrittenAll elements from h)).append (by decide)
      (.bracket (c := ']') rfl .nil)
    have hchars : (array elements).text.toList = '[' :: ((textAll elements).toList ++ [']']) := by
      simp [text]
    rw [hchars]
    exact .bracket rfl hinner
  | .call callee args, h => by
    have hargs := (spells_textAll h.2).append (by decide) (.bracket (c := ')') rfl .nil)
    have hchars : (call callee args).text.toList =
        callee.text.toList ++ '(' :: ((textAll args).toList ++ [')']) := by
      simp [text]
    rw [hchars]
    exact (spells_text h.1).append (by decide) (.bracket rfl hargs)
  | .sign s (.atom text), h => by
    obtain ⟨c, cs, hcs⟩ := List.exists_cons_of_ne_nil h.nonempty
    have hc : isAtomChar c = true := h.chars c (by rw [hcs]; exact List.mem_cons_self)
    have hword : Spells text.toList [.atom text] :=
      .single fun rest hrest => symbols?_word h hrest
    have hchars : (sign s (atom text)).text.toList = s.text.toList ++ text.toList := by
      simp [Tree.text]
    rw [hchars]
    refine hword.cons fun rest _ => ?_
    rw [List.append_assoc, hcs]
    exact symbols?_sign s hc (cs ++ rest)
  | .binary op left right, h => by
    have hright := Spells.op op (spells_text h.2)
    have hchars : (binary op left right).text.toList =
        left.text.toList ++ ' ' :: ((opText op).toList ++ ' ' :: right.text.toList) := by
      simp [text]
    rw [hchars]
    exact (spells_text h.1).append (by decide) hright.blank

/-- The texts of written trees fall into the symbols of the trees. -/
theorem spells_textAll : ∀ {ts : List Tree}, WrittenAll ts →
    Spells (textAll ts).toList (symbolsAll ts)
  | [], _ => .nil
  | [t], h => spells_text h.1
  | t :: u :: us, h => by
    have hchars : (textAll (t :: u :: us)).toList =
        t.text.toList ++ ',' :: ' ' :: (textAll (u :: us)).toList := by
      simp [textAll]
    rw [hchars]
    exact (spells_text h.1).append (by decide) (.bracket rfl (spells_textAll h.2).blank)

end

/-- The symbols of a tree's text are those of the tree. -/
theorem symbols?_text {t : Tree} (h : t.Written) : symbols? t.text.toList = some t.symbols :=
  (spells_text h).pieces?_eq ends_nil

end Tree

end Toal.Script
