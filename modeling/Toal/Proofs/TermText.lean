import Toal.Proofs.Partition
import Toal.Proofs.ScriptNames
import Toal.Proofs.ScriptSymbols

/-!
# The marks of a term's text

How a script takes the text of a term apart (`marks?`). Each mark goes as far as it can. A
name has the characters that names of scripts have, and a quoted word only the escapes that
literals have. A numeral takes a point that follows it, even if no digit follows the point,
and right after a numeral there must be no name. So `1.5.length` is a member of a number,
but in `5.length` the point belongs to the number, and the text has no marks at all; nor have
`x²` or `"\u"`.

The text of a term (`Term.text`) falls into the marks of the term exactly if all names in it
are names of scripts, all words have values, and no member is taken of what ends in a numeral
without a point (`Term.clear`, `Term.marks?_text`). If the parts of the term have the levels
that are asked for too, it is the only way to read its text, and otherwise it is none
(`Term.reads_text_iff`, `Term.Reads.unique`).
-/

namespace Toal.Script

open Number (isDigits)

/-! ## Taking a text apart -/

namespace Mark

/-- The mark that is made up of one character. -/
def ofChar? : Char → Option Mark
  | '(' => some .openParen
  | ')' => some .closeParen
  | '[' => some .openSquare
  | ']' => some .closeSquare
  | '{' => some .openBrace
  | '}' => some .closeBrace
  | ',' => some .comma
  | ':' => some .colon
  | ';' => some .semicolon
  | _ => none

/-- The mark that a word is. -/
def ofWord? (text : String) : Option Mark :=
  if text = "typeof" then some .typeOf
  else if text = "const" then some .const
  else if text = "if" then some .if_
  else if text ∈ reserved then none
  else some (.name text)

/-- The mark that a text begins with, if it is an operator of scripts, and the number of
    its characters. -/
def ofOperator? (cs : List Char) : Option (Mark × Nat) :=
  match operators.find? (·.1.toList.isPrefixOf cs) with
  | some (text, some o) => some (.op o, text.length)
  | some ("=>", none) => some (.arrow, 2)
  | some ("=", none) => some (.assign, 1)
  | _ => none

end Mark

/-- The numeral that a text begins with: digits, and a point and more digits if there is a
    point. -/
def numeralChars (cs : List Char) : List Char :=
  let whole := cs.takeWhile Char.isDigit
  match cs.dropWhile Char.isDigit with
  | '.' :: rest => whole ++ '.' :: rest.takeWhile Char.isDigit
  | _ => whole

/-- The first mark of a text that begins with `c` and goes on with `cs`, and how many
    characters of `cs` belong to it. -/
def firstMark? (c : Char) (cs : List Char) : Option (Mark × Nat) :=
  if let some k := Mark.ofChar? c then some (k, 0)
  else if c = '"' then
    (Literal.scan cs).bind fun (body, _) => (Literal.value? body).map fun _ =>
      (.quoted (String.ofList (c :: body ++ ['"'])), body.length + 1)
  else if c.isDigit then
    let text := numeralChars (c :: cs)
    if ((c :: cs).drop text.length).head?.any isIdStart then none
    else some (.number (String.ofList text), text.length - 1)
  else if isIdStart c then
    let run := cs.takeWhile isIdContinue
    (Mark.ofWord? (String.ofList (c :: run))).map (·, run.length)
  else if c = '.' then if cs.head?.any Char.isDigit then none else some (.dot, 0)
  else (Mark.ofOperator? (c :: cs)).map fun (k, n) => (k, n - 1)

/-- The marks of a text. -/
def marks? (cs : List Char) : Option (List Mark) := pieces? firstMark? cs

/-! ## The text of a term -/

/-- The text in front of an operand. -/
def Unary.text : Unary → String
  | plus => "+"
  | minus => "-"
  | typeOf => "typeof "

/-- The characters are those of a name in scripts. -/
structure IsIdentifierName (x : String) : Prop where
  begins : x.toList.head?.any isIdStart = true
  chars : x.toList.all isIdContinue = true

/-- A name of scripts: its characters are those of a name, and it is no reserved word. -/
structure IsIdentifier (x : String) : Prop extends IsIdentifierName x where
  free : x ∉ reserved

instance (x : String) : Decidable (IsIdentifierName x) :=
  decidable_of_iff (x.toList.head?.any isIdStart = true ∧ x.toList.all isIdContinue = true)
    ⟨fun ⟨hbegins, hchars⟩ => ⟨hbegins, hchars⟩, fun h => ⟨h.begins, h.chars⟩⟩

instance (x : String) : Decidable (IsIdentifier x) :=
  decidable_of_iff (IsIdentifierName x ∧ x ∉ reserved)
    ⟨fun ⟨hname, hfree⟩ => ⟨hname, hfree⟩, fun h => ⟨h.toIsIdentifierName, h.free⟩⟩

namespace Term

/-- The text of the parameters of a function. -/
def paramText : List String → String
  | [] => ""
  | [x] => x
  | x :: xs => x ++ ", " ++ paramText xs

mutual

/-- The text of a term. -/
def text : Term → String
  | .name x => x
  | .number x => x
  | .quoted x => x
  | .group inner => "(" ++ inner.text ++ ")"
  | .array elements => "[" ++ textAll elements ++ "]"
  | .record field value => "\x7b " ++ field ++ ": " ++ value.text ++ " \x7d"
  | .member object field => object.text ++ "." ++ field
  | .call callee args => callee.text ++ "(" ++ textAll args ++ ")"
  | .unary op operand => op.text ++ operand.text
  | .binary op left right => left.text ++ " " ++ opText op ++ " " ++ right.text
  | .arrow params body => "(" ++ paramText params ++ ") => " ++ body.text
  | .function params body => "(" ++ paramText params ++ ") => \x7b " ++ textBlock body ++ "\x7d"

/-- The texts of terms, separated by commas. -/
def textAll : List Term → String
  | [] => ""
  | [t] => t.text
  | t :: ts => t.text ++ ", " ++ textAll ts

/-- The text of a statement. -/
def commandText : Command → String
  | .declare x init => "const " ++ x ++ " = " ++ init.text ++ ";"
  | .test condition body => "if (" ++ condition.text ++ ") " ++ body.text ++ ";"
  | .eval e => e.text ++ ";"

/-- The texts of statements, each with a blank after it. -/
def textBlock : List Command → String
  | [] => ""
  | c :: cs => commandText c ++ " " ++ textBlock cs

end

/-- Whether the text ends in a numeral without a point. -/
def endsWhole : Term → Bool
  | .number x => isDigits x.toList
  | .unary _ operand => operand.endsWhole
  | .binary _ _ right => right.endsWhole
  | .arrow _ body => body.endsWhole
  | _ => false

mutual

/-- The text of the term has marks: all names are names of scripts, all words have values,
    and no member is taken of what ends in a numeral without a point. -/
def clear : Term → Bool
  | .name x => decide (IsIdentifier x)
  | .number _ => true
  | .quoted x => (Literal.units? x.toList).isSome
  | .group inner => inner.clear
  | .array elements => clearAll elements
  | .record _ value => value.clear
  | .member object _ => object.clear && !object.endsWhole
  | .call callee args => callee.clear && clearAll args
  | .unary _ operand => operand.clear
  | .binary _ left right => left.clear && right.clear
  | .arrow _ body => body.clear
  | .function _ body => clearBlock body

/-- The texts of the terms have marks. -/
def clearAll : List Term → Bool
  | [] => true
  | t :: ts => t.clear && clearAll ts

/-- The text of the statement has marks. -/
def clearCommand : Command → Bool
  | .declare _ init => init.clear
  | .test condition body => condition.clear && body.clear
  | .eval e => e.clear

/-- The texts of the statements have marks. -/
def clearBlock : List Command → Bool
  | [] => true
  | c :: cs => clearCommand c && clearBlock cs

end

end Term

/-- What names of programs look like in a script: no digit is in front, all characters of
    ASCII are such that names have them, and no reserved word is meant. Whether a script
    takes it for a name depends on the other characters. -/
structure NameLike (x : String) : Prop where
  begins : x.toList.head?.any (fun c => !c.isDigit) = true
  chars : x.toList.all (fun c => isIdContinue c || 128 ≤ c.toNat) = true
  free : x ∉ reserved

namespace Term

mutual

/-- All names look like names, all numbers are numerals and all words quoted words, and signs
    stand in front of names and numbers only. -/
def Written : Term → Prop
  | .name x => NameLike x
  | .number x => IsUnsigned x.toList
  | .quoted x => ∃ contents : String, Contents contents.toList ∧ x = wordText contents
  | .group inner => inner.Written
  | .array elements => WrittenAll elements
  | .record field value => IsIdentifier field ∧ value.Written
  | .member object field => object.Written ∧ IsIdentifier field
  | .call callee args => callee.Written ∧ WrittenAll args
  | .unary .typeOf operand => operand.Written
  | .unary _ (.name x) => IsIdentifier x
  | .unary _ (.number x) => IsUnsigned x.toList
  | .unary _ _ => False
  | .binary _ left right => left.Written ∧ right.Written
  | .arrow params body => (∀ x ∈ params, IsIdentifier x) ∧ body.Written
  | .function params body => (∀ x ∈ params, IsIdentifier x) ∧ WrittenBlock body

/-- The terms are written as they have to be. -/
def WrittenAll : List Term → Prop
  | [] => True
  | t :: ts => t.Written ∧ WrittenAll ts

/-- The statement is written as it has to be. -/
def WrittenCommand : Command → Prop
  | .declare x init => IsIdentifier x ∧ init.Written
  | .test condition body => condition.Written ∧ body.Written
  | .eval e => e.Written

/-- The statements are written as they have to be. -/
def WrittenBlock : List Command → Prop
  | [] => True
  | c :: cs => WrittenCommand c ∧ WrittenBlock cs

end

end Term

/-! ## One mark after the other -/

theorem isDigit_eq_false_of_isIdContinue {c : Char} (h : isIdContinue c = false) :
    c.isDigit = false := by
  by_contra hdigit
  rw [Bool.not_eq_false] at hdigit
  rw [isIdContinue_of_isDigit hdigit] at h
  cases h

/-- A character of a name is none that means something else. -/
theorem ne_of_isIdContinue {c d : Char} (hc : isIdContinue c = true) (hd : isIdContinue d = false) :
    c ≠ d := by
  rintro rfl
  rw [hc] at hd
  cases hd

/-- What follows a name or a number: no character of a name, and a point only in front of a
    name. -/
def Follows (rest : List Char) : Prop :=
  ∀ c cs, rest = c :: cs → isIdContinue c = false ∧
    (c = '.' → ∃ d ds, cs = d :: ds ∧ isIdStart d = true)

theorem follows_nil : Follows [] := nofun

theorem follows_cons {c : Char} (hc : isIdContinue c = false) (hpoint : c ≠ '.')
    (cs : List Char) : Follows (c :: cs) := by
  rintro _ _ ⟨⟩
  exact ⟨hc, fun h => absurd h hpoint⟩

/-- What follows a name begins with no character of a name. -/
theorem Follows.isIdContinue_head? {rest : List Char} (h : Follows rest) :
    ∀ c ∈ rest.head?, isIdContinue c = false := by
  intro c hc
  obtain ⟨cs, rfl⟩ := List.head?_eq_some_iff.1 hc
  exact (h c cs rfl).1

theorem Follows.isDigit_head? {rest : List Char} (h : Follows rest) :
    ∀ c ∈ rest.head?, c.isDigit = false :=
  fun c hc => isDigit_eq_false_of_isIdContinue (h.isIdContinue_head? c hc)

/-- A character that is a mark by itself. -/
theorem marks?_char {c : Char} {k : Mark} (h : Mark.ofChar? c = some k) (cs : List Char) :
    marks? (c :: cs) = (marks? cs).map (k :: ·) := by
  have hblank : c ≠ ' ' := by
    rintro rfl
    cases h
  exact pieces?_char hblank (by rw [firstMark?, h])

/-- A character of a name is no mark by itself. -/
theorem ofChar?_of_isIdContinue {c : Char} (h : isIdContinue c = true) : Mark.ofChar? c = none := by
  rw [Mark.ofChar?]
  all_goals exact ne_of_isIdContinue h (by decide)

/-- A word goes as far as its characters do. -/
theorem firstMark?_word {c : Char} {cs rest : List Char} (hc : isIdStart c = true)
    (hcs : ∀ d ∈ cs, isIdContinue d = true) (hrest : ∀ d ∈ rest.head?, isIdContinue d = false) :
    firstMark? c (cs ++ rest) = (Mark.ofWord? (String.ofList (c :: cs))).map (·, cs.length) := by
  have hname := isIdContinue_of_isIdStart hc
  rw [firstMark?, ofChar?_of_isIdContinue hname]
  simp only [ne_of_isIdContinue hname (by decide : isIdContinue '"' = false), hc,
    isDigit_eq_false_of_isIdStart hc, if_false, if_true, takeWhile_append_eq hcs hrest,
    Bool.false_eq_true]

/-- A word is a mark, if it does not go on. -/
theorem marks?_word {c : Char} {cs rest : List Char} {k : Mark} (hc : isIdStart c = true)
    (hcs : ∀ d ∈ cs, isIdContinue d = true)
    (hk : Mark.ofWord? (String.ofList (c :: cs)) = some k)
    (hrest : ∀ d ∈ rest.head?, isIdContinue d = false) :
    marks? (c :: (cs ++ rest)) = (marks? rest).map (k :: ·) := by
  have hfirst := firstMark?_word hc hcs hrest
  rw [hk, Option.map_some] at hfirst
  exact pieces?_cons (ne_of_isIdContinue (isIdContinue_of_isIdStart hc) (by decide)) hfirst

/-! ### Characters that are in no mark -/

section Foreign

variable {c d : Char}

theorem ne_of_ascii (hc : 128 ≤ c.toNat) (hd : d.toNat < 128) : c ≠ d := by
  rintro rfl
  omega

/-- No operator begins with a character outside of ASCII. -/
theorem find?_operators_of_foreign (hc : 128 ≤ c.toNat) (cs : List Char) :
    operators.find? (·.1.toList.isPrefixOf (c :: cs)) = none := by
  have hascii : operators.all (·.1.toList.head?.any (·.toNat < 128)) = true := by decide
  refine List.find?_eq_none.2 fun o ho hbegins => ?_
  have hhead := List.all_eq_true.1 hascii o ho
  cases hchars : o.1.toList with
  | nil =>
    rw [hchars] at hhead
    cases hhead
  | cons d ds =>
    rw [hchars] at hhead hbegins
    have heq : d = c := eq_of_beq (Bool.and_eq_true_iff.1 hbegins).1
    exact ne_of_ascii hc (of_decide_eq_true hhead) heq.symm

/-- Outside ASCII, all marks are names. -/
theorem firstMark?_of_foreign (hc : 128 ≤ c.toNat) (hstart : isIdStart c = false)
    (cs : List Char) : firstMark? c cs = none := by
  have hchar : Mark.ofChar? c = none := by
    rw [Mark.ofChar?]
    all_goals exact ne_of_ascii hc (by decide)
  have hdigit : c.isDigit = false := by
    by_contra hdigit
    rw [Bool.not_eq_false] at hdigit
    have hrange := toNat_of_isDigit hdigit
    omega
  have hoperator : Mark.ofOperator? (c :: cs) = none := by
    rw [Mark.ofOperator?, find?_operators_of_foreign hc]
  rw [firstMark?, hchar]
  simp only [ne_of_ascii hc (by decide : '"'.toNat < 128),
    ne_of_ascii hc (by decide : '.'.toNat < 128), hdigit, hstart, hoperator, if_false,
    Bool.false_eq_true, Option.map_none]

/-- A text has no marks if it begins with a character outside of ASCII that cannot begin a
    name. -/
theorem marks?_of_foreign (hc : 128 ≤ c.toNat) (hstart : isIdStart c = false) (cs : List Char) :
    marks? (c :: cs) = none :=
  pieces?_eq_none (ne_of_ascii hc (by decide)) (firstMark?_of_foreign hc hstart cs)

/-- A word that another character breaks off. -/
theorem marks?_word_of_foreign {run : List Char} (hc : isIdStart c = true)
    (hrun : ∀ e ∈ run, isIdContinue e = true) (hd : 128 ≤ d.toNat) (hname : isIdContinue d = false)
    (cs : List Char) : marks? (c :: (run ++ d :: cs)) = none := by
  have hhead : ∀ e ∈ (d :: cs).head?, isIdContinue e = false := by
    rintro _ ⟨⟩
    exact hname
  cases hk : Mark.ofWord? (String.ofList (c :: run)) with
  | none =>
    have hfirst := firstMark?_word hc hrun hhead
    rw [hk] at hfirst
    exact pieces?_eq_none (ne_of_isIdContinue (isIdContinue_of_isIdStart hc) (by decide)) hfirst
  | some k =>
    rw [marks?_word hc hrun hk hhead, marks?_of_foreign hd (isIdStart_eq_false hname)]
    rfl

end Foreign

/-! ### Numerals -/

section Numerals

variable {ds fraction rest : List Char}

theorem dropWhile_isDigit (hds : ∀ d ∈ ds, d.isDigit = true)
    (hrest : ∀ c ∈ rest.head?, c.isDigit = false) : (ds ++ rest).dropWhile Char.isDigit = rest := by
  rw [List.dropWhile_append_of_pos hds]
  cases rest with
  | nil => rfl
  | cons c rest => exact List.dropWhile_cons_of_neg (by rw [hrest c rfl]; decide)

/-- A numeral without a point goes as far as its digits. -/
theorem numeralChars_whole (hds : ∀ d ∈ ds, d.isDigit = true)
    (hrest : ∀ c ∈ rest.head?, c.isDigit = false) (hpoint : rest.head? ≠ some '.') :
    numeralChars (ds ++ rest) = ds := by
  rw [numeralChars, takeWhile_append_eq hds hrest, dropWhile_isDigit hds hrest]
  cases rest with
  | nil => rfl
  | cons c rest =>
    split
    · rename_i heq
      cases heq
      exact absurd rfl hpoint
    · rfl

/-- A numeral with a point goes as far as the digits after the point. -/
theorem numeralChars_fraction (hds : ∀ d ∈ ds, d.isDigit = true)
    (hfraction : ∀ d ∈ fraction, d.isDigit = true)
    (hrest : ∀ c ∈ rest.head?, c.isDigit = false) :
    numeralChars (ds ++ ('.' :: (fraction ++ rest))) = ds ++ '.' :: fraction := by
  have hpoint : ∀ c ∈ ('.' :: (fraction ++ rest)).head?, c.isDigit = false := by
    rintro _ ⟨⟩
    decide
  rw [numeralChars, takeWhile_append_eq hds hpoint, dropWhile_isDigit hds hpoint]
  simp only [takeWhile_append_eq hfraction hrest]

/-- Right after a numeral there is no name. -/
theorem marks?_numeral {d : Char} {ds after : List Char} (hd : d.isDigit = true)
    (hnumeral : numeralChars (d :: (ds ++ after)) = d :: ds) :
    marks? (d :: (ds ++ after)) = if after.head?.any isIdStart then none
      else (marks? after).map (.number (String.ofList (d :: ds)) :: ·) := by
  have hname := isIdContinue_of_isDigit hd
  have hblank : d ≠ ' ' := ne_of_isIdContinue hname (by decide)
  have hquote : d ≠ '"' := ne_of_isIdContinue hname (by decide)
  have hafter : (d :: (ds ++ after)).drop (ds.length + 1) = after := by
    rw [List.drop_succ_cons, List.drop_left]
  have hfirst : firstMark? d (ds ++ after) = if after.head?.any isIdStart then none
      else some (.number (String.ofList (d :: ds)), ds.length) := by
    rw [firstMark?, ofChar?_of_isIdContinue hname]
    simp only [hquote, hd, if_false, if_true, hnumeral, List.length_cons, hafter,
      Nat.add_sub_cancel]
  by_cases hany : after.head?.any isIdStart = true
  · rw [if_pos hany] at hfirst ⊢
    exact pieces?_eq_none hblank hfirst
  · rw [if_neg hany] at hfirst ⊢
    exact pieces?_cons hblank hfirst

theorem Follows.head?_any (h : Follows rest) : rest.head?.any isIdStart = false := by
  cases rest with
  | nil => rfl
  | cons c rest => exact isIdStart_eq_false (h c rest rfl).1

/-- A numeral without a point takes one that follows it, and then there is no number. -/
theorem marks?_whole (hds : isDigits ds = true) (hrest : Follows rest) :
    marks? (ds ++ rest) = if rest.head? = some '.' then none
      else (marks? rest).map (.number (String.ofList ds) :: ·) := by
  obtain ⟨hne, hdigits⟩ := isDigits_iff.1 hds
  obtain ⟨d, ds, rfl⟩ := List.exists_cons_of_ne_nil hne
  have hd := hdigits d List.mem_cons_self
  by_cases hpoint : rest.head? = some '.'
  · obtain ⟨rest, rfl⟩ : ∃ cs, rest = '.' :: cs := List.head?_eq_some_iff.1 hpoint
    obtain ⟨-, hnext⟩ := hrest '.' rest rfl
    obtain ⟨c, cs, rfl, hc⟩ := hnext rfl
    have hnot : ∀ x ∈ (c :: cs).head?, x.isDigit = false := by
      rintro _ ⟨⟩
      exact isDigit_eq_false_of_isIdStart hc
    -- The numeral takes the point, and then the name follows without a blank.
    have hnumeral : numeralChars (d :: ((ds ++ ['.']) ++ c :: cs)) = d :: (ds ++ ['.']) := by
      simpa using numeralChars_fraction hdigits (List.forall_mem_nil _) hnot
    have hmarks := marks?_numeral hd hnumeral
    rw [List.head?_cons, Option.any_some, hc, if_pos rfl] at hmarks
    rw [if_pos hpoint]
    simpa using hmarks
  · have hnumeral : numeralChars (d :: (ds ++ rest)) = d :: ds :=
      numeralChars_whole hdigits hrest.isDigit_head? hpoint
    rw [if_neg hpoint, List.cons_append, marks?_numeral hd hnumeral, hrest.head?_any]
    rfl

/-- After a numeral with a point there may be another point. -/
theorem marks?_fraction (hds : isDigits ds = true) (hfraction : isDigits fraction = true)
    (hrest : Follows rest) : marks? (ds ++ '.' :: fraction ++ rest) =
      (marks? rest).map (.number (String.ofList (ds ++ '.' :: fraction)) :: ·) := by
  obtain ⟨hne, hdigits⟩ := isDigits_iff.1 hds
  obtain ⟨d, ds, rfl⟩ := List.exists_cons_of_ne_nil hne
  have hnumeral : numeralChars (d :: ((ds ++ '.' :: fraction) ++ rest)) =
      d :: (ds ++ '.' :: fraction) := by
    simpa using numeralChars_fraction hdigits (isDigits_iff.1 hfraction).2 hrest.isDigit_head?
  have hmarks := marks?_numeral (hdigits d List.mem_cons_self) hnumeral
  rw [hrest.head?_any] at hmarks
  exact hmarks

end Numerals

/-! ## All marks -/

/-- The text falls into the marks if `p` holds, and there are no marks if it does not. If it
    ends in a numeral without a point, no point may follow it. -/
abbrev Marked (cs : List Char) (p : Bool) (ks : List Mark) (whole : Bool) : Prop :=
  Falls firstMark? Follows (fun rest => p && !(whole && rest.head? == some '.')) cs ks

namespace Marked

variable {cs ds : List Char} {p q whole whole' : Bool} {ks ls : List Mark}

theorem nil : Marked [] true [] false := Falls.nil

/-- A text that is one mark. -/
theorem single {k : Mark}
    (h : ∀ rest, Follows rest → marks? (cs ++ rest) = (marks? rest).map (k :: ·)) :
    Marked cs true [k] false :=
  Falls.single h

/-- A text that has no marks. -/
theorem none (h : ∀ rest, Follows rest → marks? (cs ++ rest) = Option.none) :
    Marked cs false ks whole :=
  fun rest hrest => h rest hrest

/-- A mark that is a single character comes before what a text falls into. -/
theorem char {c : Char} {k : Mark} (hc : Mark.ofChar? c = some k) (h : Marked ds p ks whole) :
    Marked (c :: ds) p (k :: ks) whole :=
  h.cons fun rest _ => marks?_char hc (ds ++ rest)

/-- One text after the other. -/
theorem append (h : Marked cs p ks whole) {c : Char} (hc : isIdContinue c = false)
    (hpoint : c ≠ '.') (hds : Marked (c :: ds) q ls whole') :
    Marked (cs ++ c :: ds) (p && q) (ks ++ ls) whole' := by
  refine (Falls.append h hds fun rest _ => follows_cons hc hpoint (ds ++ rest)).congr
    fun rest _ => ?_
  have hnot : ((c :: ds ++ rest).head? == some '.') = false := by
    rw [List.cons_append, List.head?_cons]
    simpa using hpoint
  rw [hnot, Bool.and_false, Bool.not_false, Bool.and_true, Bool.and_assoc]

end Marked

namespace IsIdentifier

variable {x : String}

theorem exists_cons (h : IsIdentifier x) : ∃ c cs, x.toList = c :: cs ∧ isIdStart c = true ∧
    ∀ d ∈ cs, isIdContinue d = true := by
  have hbegins := h.begins
  have hchars := h.chars
  cases hx : x.toList with
  | nil =>
    rw [hx] at hbegins
    cases hbegins
  | cons c cs =>
    rw [hx] at hbegins hchars
    rw [List.all_cons, Bool.and_eq_true, List.all_eq_true] at hchars
    exact ⟨c, cs, rfl, hbegins, hchars.2⟩

/-- An identifier is a name, and no other word. -/
theorem ofWord? (h : IsIdentifier x) : Mark.ofWord? x = some (.name x) := by
  have hne {word : String} (hword : word ∈ reserved) : x ≠ word := fun heq => h.free (heq ▸ hword)
  rw [Mark.ofWord?, if_neg (hne (by decide)), if_neg (hne (by decide)), if_neg (hne (by decide)),
    if_neg h.free]

/-- An identifier falls into its name. -/
theorem marked (h : IsIdentifier x) : Marked x.toList true [.name x] false := by
  obtain ⟨c, cs, hx, hc, hcs⟩ := h.exists_cons
  have htext : String.ofList (c :: cs) = x := by rw [← hx, String.ofList_toList]
  refine .single fun rest hrest => ?_
  rw [hx]
  exact marks?_word hc hcs (htext.symm ▸ h.ofWord?) hrest.isIdContinue_head?

/-- What follows the point of a member. -/
theorem follows_point (h : IsIdentifier x) (rest : List Char) :
    Follows ('.' :: (x.toList ++ rest)) := by
  obtain ⟨c, cs, hx, hc, -⟩ := h.exists_cons
  rintro _ _ ⟨⟩
  exact ⟨by decide, fun _ => ⟨c, cs ++ rest, by rw [hx, List.cons_append], hc⟩⟩

/-- A point and an identifier fall into a point and a name. -/
theorem marked_point (h : IsIdentifier x) :
    Marked ('.' :: x.toList) true [.dot, .name x] false := by
  obtain ⟨c, cs, hx, hc, -⟩ := h.exists_cons
  refine h.marked.cons fun rest _ => ?_
  have hfirst : firstMark? '.' (x.toList ++ rest) = some (.dot, 0) := by
    have hhead : (x.toList ++ rest).head?.any Char.isDigit = false := by
      rw [hx]
      exact isDigit_eq_false_of_isIdStart hc
    have hpoint : Mark.ofChar? '.' = .none := by decide
    rw [firstMark?, hpoint]
    simp only [hhead, if_false, Bool.false_eq_true, if_true,
      (by decide : ('.' = '"') = False), (by decide : Char.isDigit '.' = false),
      (by decide : isIdStart '.' = false)]
  exact pieces?_char (by decide) hfirst

/-- An identifier looks like a name. -/
theorem nameLike (h : IsIdentifier x) : NameLike x := by
  obtain ⟨c, cs, hx, hc, -⟩ := h.exists_cons
  refine ⟨?_, List.all_eq_true.2 fun d hd => ?_, h.free⟩
  · rw [hx, List.head?_cons, Option.any_some, isDigit_eq_false_of_isIdStart hc]
    rfl
  · rw [List.all_eq_true.1 h.chars d hd, Bool.true_or]

end IsIdentifier

/-- A character that may stand in what looks like a name, but not in a name, is outside of
    ASCII. -/
theorem NameLike.foreign {x : String} (h : NameLike x) {d : Char} (hd : d ∈ x.toList)
    (hname : isIdContinue d = false) : 128 ≤ d.toNat := by
  have hchar := List.all_eq_true.1 h.chars d hd
  rw [hname, Bool.false_or] at hchar
  exact of_decide_eq_true hchar

/-- What looks like a name and is none begins with a character that no name begins with, or
    some character breaks it off. -/
theorem NameLike.broken {x : String} (h : NameLike x) (hx : ¬IsIdentifier x) :
    (∃ c cs, x.toList = c :: cs ∧ isIdStart c = false ∧ 128 ≤ c.toNat) ∨
      ∃ c run d ds, x.toList = c :: (run ++ d :: ds) ∧ isIdStart c = true ∧
        (∀ e ∈ run, isIdContinue e = true) ∧ isIdContinue d = false ∧ 128 ≤ d.toNat := by
  have hbegins := h.begins
  cases hlist : x.toList with
  | nil =>
    rw [hlist] at hbegins
    cases hbegins
  | cons c cs =>
    rw [hlist, List.head?_cons, Option.any_some, Bool.not_eq_true'] at hbegins
    have hc : c ∈ x.toList := hlist ▸ List.mem_cons_self
    by_cases hstart : isIdStart c = true
    · cases hdrop : cs.dropWhile isIdContinue with
      | nil =>
        have hall : x.toList.all isIdContinue = true := by
          rw [hlist, List.all_cons, isIdContinue_of_isIdStart hstart, Bool.true_and]
          exact List.all_eq_true.2 (List.dropWhile_eq_nil_iff.1 hdrop)
        exact absurd ⟨⟨by rw [hlist]; exact hstart, hall⟩, h.free⟩ hx
      | cons d ds =>
        have hd : isIdContinue d = false := by
          have hhead := List.head?_dropWhile_not isIdContinue cs
          rwa [hdrop] at hhead
        have hcs : cs = cs.takeWhile isIdContinue ++ d :: ds := by
          rw [← hdrop, List.takeWhile_append_dropWhile]
        have hmem : d ∈ cs := hcs ▸ List.mem_append_right _ List.mem_cons_self
        exact .inr ⟨c, cs.takeWhile isIdContinue, d, ds, by rw [← hcs], hstart,
          fun e he => List.mem_takeWhile_imp he, hd,
          h.foreign (hlist ▸ List.mem_cons_of_mem _ hmem) hd⟩
    · -- Of the characters of names, only digits and some outside of ASCII cannot be in front.
      rw [Bool.not_eq_true] at hstart
      refine .inl ⟨c, cs, rfl, hstart, ?_⟩
      by_contra hascii
      have hname : isIdContinue c = false := by
        rw [isIdContinue, hstart, Bool.false_or, if_pos (Nat.not_le.1 hascii), hbegins]
      exact hascii (h.foreign hc hname)

/-- What looks like a name is a mark if it is a name of scripts, and otherwise there are no
    marks. -/
theorem NameLike.marked {x : String} (h : NameLike x) :
    Marked x.toList (decide (IsIdentifier x)) [.name x] false := by
  by_cases hx : IsIdentifier x
  · rw [decide_eq_true hx]
    exact hx.marked
  rw [decide_eq_false hx]
  refine .none fun rest _ => ?_
  rcases h.broken hx with ⟨c, cs, heq, hstart, hc⟩ | ⟨c, run, d, ds, heq, hstart, hrun, hname, hd⟩
  · rw [heq]
    exact marks?_of_foreign hc hstart (cs ++ rest)
  · rw [heq, List.cons_append, List.append_assoc]
    exact marks?_word_of_foreign hstart hrun hd hname (ds ++ rest)

namespace Marked

variable {cs ds : List Char} {p whole : Bool} {ks : List Mark}

/-- A member of what has been written. If that ends in a numeral without a point, there are
    no marks. -/
theorem member (h : Marked cs p ks whole) {x : String} (hx : IsIdentifier x) :
    Marked (cs ++ '.' :: x.toList) (p && !whole) (ks ++ [Mark.dot, .name x]) false := by
  refine (Falls.append h hx.marked_point fun rest _ => hx.follows_point rest).congr fun rest _ => ?_
  cases p with
  | false => rfl
  | true => cases whole <;> rfl

/-- A numeral falls into its number. -/
theorem number {x : String} (hx : IsUnsigned x.toList) :
    Marked x.toList true [.number x] (isDigits x.toList) := by
  rcases hx with hx | ⟨ds, fraction, hx, hds, hfraction⟩
  · intro rest hrest
    refine (marks?_whole hx hrest).trans ?_
    rw [String.ofList_toList, hx]
    by_cases hpoint : rest.head? = some '.'
    · rw [if_pos hpoint, if_neg (by simp [hpoint])]
    · rw [if_neg hpoint, if_pos (by simp [hpoint])]
      rfl
  · have hnot : isDigits x.toList = false := by
      rw [Bool.eq_false_iff, hx]
      intro hall
      exact absurd ((isDigits_iff.1 hall).2 '.' (by simp)) (by decide)
    rw [hnot]
    refine .single fun rest hrest => ?_
    have hmarks := marks?_fraction hds hfraction hrest
    rwa [← hx, String.ofList_toList] at hmarks

/-- A quoted word is a mark if all its escapes have a meaning, and otherwise there are no
    marks. -/
theorem quoted {contents : String} (h : Contents contents.toList) :
    Marked (wordText contents).toList (Literal.units? (wordText contents).toList).isSome
      [.quoted (wordText contents)] false := by
  have hfirst (rest : List Char) :
      firstMark? '"' ((wordChars contents.toList ++ ['"']) ++ rest) =
        (Literal.value? (wordChars contents.toList)).map fun _ =>
          (.quoted (wordText contents), (wordChars contents.toList ++ ['"']).length) := by
    rw [List.append_assoc, List.singleton_append, firstMark?, h.scan_wordChars,
      List.length_append]
    rfl
  rw [h.units?_wordText]
  cases hvalue : Literal.value? (wordChars contents.toList) with
  | none =>
    refine .none fun rest _ => ?_
    rw [toList_wordText]
    exact pieces?_eq_none (by decide) ((hfirst rest).trans (by rw [hvalue]; rfl))
  | some units =>
    refine .single fun rest _ => ?_
    rw [toList_wordText]
    exact pieces?_cons (by decide) ((hfirst rest).trans (by rw [hvalue]; rfl))

/-- A reserved word and a blank in front of a text. -/
theorem word {word : String} {k : Mark} (hword : Mark.ofWord? word = some k)
    (hbegins : word.toList.head?.any isIdStart = true)
    (hchars : word.toList.all isIdContinue = true) (h : Marked ds p ks whole) :
    Marked (word.toList ++ ' ' :: ds) p (k :: ks) whole := by
  refine h.cons fun rest _ => ?_
  cases hx : word.toList with
  | nil =>
    rw [hx] at hbegins
    cases hbegins
  | cons c cs =>
    rw [hx] at hchars hbegins
    rw [List.all_cons, Bool.and_eq_true, List.all_eq_true] at hchars
    have htext : String.ofList (c :: cs) = word := by rw [← hx, String.ofList_toList]
    have hblank : ∀ d ∈ (' ' :: (ds ++ rest)).head?, isIdContinue d = false := by
      rintro _ ⟨⟩
      decide
    have hmarks := marks?_word hbegins hchars.2 (htext.symm ▸ hword) hblank
    rw [List.append_assoc]
    exact hmarks.trans (by rw [marks?, pieces?_blank])

end Marked

/-! ### Operators -/

/-- What is an operator of two operands is an operator. -/
theorem ofOperator?_of_operator? {cs : List Char} {op : BinOp} {n : Nat}
    (h : operator? cs = some (op, n)) : Mark.ofOperator? cs = some (.op op, n) := by
  unfold operator? at h
  unfold Mark.ofOperator?
  cases hfind : operators.find? (·.1.toList.isPrefixOf cs) with
  | none =>
    rw [hfind] at h
    cases h
  | some found =>
    obtain ⟨text, op'⟩ := found
    rw [hfind] at h
    cases op' with
    | none => cases h
    | some op' =>
      cases h
      rfl

/-- A character that begins an operator and no other mark. -/
structure OpensOperator (c : Char) : Prop where
  blank : c ≠ ' '
  char : Mark.ofChar? c = none
  quote : c ≠ '"'
  name : isIdContinue c = false
  point : c ≠ '.'

/-- An operator that is recognised is a mark. -/
theorem marks?_operator {c : Char} (hc : OpensOperator c) {ds cs : List Char} {k : Mark}
    (h : Mark.ofOperator? (c :: ds ++ cs) = some (k, ds.length + 1)) :
    marks? (c :: (ds ++ cs)) = (marks? cs).map (k :: ·) := by
  have hfirst : firstMark? c (ds ++ cs) = some (k, ds.length) := by
    rw [firstMark?, hc.char]
    rw [List.cons_append] at h
    simp only [hc.quote, isIdStart_eq_false hc.name, isDigit_eq_false_of_isIdContinue hc.name,
      hc.point, if_false, h, Option.map_some, Nat.add_sub_cancel, Bool.false_eq_true]
  exact pieces?_cons hc.blank hfirst

theorem exists_opText_opens (op : BinOp) :
    ∃ c ds, (opText op).toList = c :: ds ∧ OpensOperator c := by
  rcases op with (_ | _ | _ | _ | _ | _) | (_ | _ | _ | _ | _ | _) <;>
    exact ⟨_, _, rfl, by decide, by decide, by decide, by decide, by decide⟩

theorem opensOperator_equal : OpensOperator '=' :=
  ⟨by decide, by decide, by decide, by decide, by decide⟩

namespace Marked

variable {ds : List Char} {p whole : Bool} {ks : List Mark}

/-- An operator and a space come before what a text falls into. -/
theorem op (op : BinOp) (h : Marked ds p ks whole) :
    Marked ((opText op).toList ++ ' ' :: ds) p (.op op :: ks) whole := by
  refine h.cons fun rest _ => ?_
  have hoperator := ofOperator?_of_operator? (operator?_opText op (ds ++ rest))
  obtain ⟨c, cs, htext, hc⟩ := exists_opText_opens op
  rw [htext] at hoperator ⊢
  rw [List.append_assoc]
  exact (marks?_operator hc hoperator).trans (by rw [marks?, pieces?_blank])

/-- An arrow and a space come before what a text falls into. -/
theorem arrow (h : Marked ds p ks whole) :
    Marked ('=' :: '>' :: ' ' :: ds) p (.arrow :: ks) whole := by
  refine h.cons fun rest _ => ?_
  have hmarks : marks? ('=' :: ['>'] ++ ' ' :: (ds ++ rest)) =
      (marks? (' ' :: (ds ++ rest))).map (.arrow :: ·) := marks?_operator opensOperator_equal rfl
  exact hmarks.trans (by rw [marks?, pieces?_blank])

/-- A sign of assignment and a space come before what a text falls into. -/
theorem assign (h : Marked ds p ks whole) : Marked ('=' :: ' ' :: ds) p (.assign :: ks) whole := by
  refine h.cons fun rest _ => ?_
  have hmarks : marks? ('=' :: [] ++ ' ' :: (ds ++ rest)) =
      (marks? (' ' :: (ds ++ rest))).map (.assign :: ·) := marks?_operator opensOperator_equal rfl
  exact hmarks.trans (by rw [marks?, pieces?_blank])

/-- A sign in front of a name or a number. -/
theorem sign (s : Sign) {c : Char} (hc : isIdContinue c = true) (h : Marked (c :: ds) p ks whole) :
    Marked (s.text.toList ++ c :: ds) p (.op s.op :: ks) whole := by
  refine h.cons fun rest _ => ?_
  have hnot : c ∉ ['+', '-', '='] := by
    simp [ne_of_isIdContinue hc (by decide : isIdContinue '+' = false),
      ne_of_isIdContinue hc (by decide : isIdContinue '-' = false),
      ne_of_isIdContinue hc (by decide : isIdContinue '=' = false)]
  have hoperator := ofOperator?_of_operator? (operator?_sign s hnot (ds ++ rest))
  obtain ⟨d, hd, hopens⟩ : ∃ d, s.text.toList = [d] ∧ OpensOperator d := by
    cases s with
    | plus => exact ⟨'+', rfl, by decide, by decide, by decide, by decide, by decide⟩
    | minus => exact ⟨'-', rfl, by decide, by decide, by decide, by decide, by decide⟩
  rw [hd] at hoperator ⊢
  exact marks?_operator hopens hoperator

end Marked

/-- A mark that is a single character is no character of a name. -/
theorem isIdContinue_of_ofChar? {c : Char} {k : Mark} (h : Mark.ofChar? c = some k) :
    isIdContinue c = false := by
  by_contra hname
  rw [Bool.not_eq_false] at hname
  rw [ofChar?_of_isIdContinue hname] at h
  cases h

/-- A text and a character after it. -/
theorem Marked.append_char {cs ds : List Char} {p q whole whole' : Bool} {ks ls : List Mark}
    (h : Marked cs p ks whole) {c : Char} {k : Mark} (hc : Mark.ofChar? c = some k)
    (hds : Marked ds q ls whole') : Marked (cs ++ c :: ds) (p && q) (ks ++ k :: ls) whole' := by
  refine h.append (isIdContinue_of_ofChar? hc) ?_ (hds.char hc)
  rintro rfl
  cases hc

/-- A mark that is a single character comes after what a text falls into. -/
theorem Marked.concat_char {cs : List Char} {p whole : Bool} {ks : List Mark}
    (h : Marked cs p ks whole) {c : Char} {k : Mark} (hc : Mark.ofChar? c = some k) :
    Marked (cs ++ [c]) p (ks ++ [k]) false := by
  have happend := h.append_char hc .nil
  rwa [Bool.and_true] at happend

namespace Term

/-- Parameters fall into their names. -/
theorem marked_paramText : ∀ {params : List String}, (∀ x ∈ params, IsIdentifier x) →
    Marked (paramText params).toList true (paramMarks params) false
  | [], _ => .nil
  | [x], h => (h x List.mem_cons_self).marked
  | x :: y :: ys, h => by
    obtain ⟨hx, hrest⟩ := List.forall_mem_cons.1 h
    have hchars : (paramText (x :: y :: ys)).toList =
        x.toList ++ ',' :: ' ' :: (paramText (y :: ys)).toList := by
      simp [paramText]
    rw [hchars]
    exact hx.marked.append_char rfl (marked_paramText hrest).blank

/-- A sign and what it stands in front of. -/
theorem marked_sign (s : Sign) {x : String} {p whole : Bool} {ks : List Mark}
    (hx : ∃ c cs, x.toList = c :: cs ∧ isIdContinue c = true) (h : Marked x.toList p ks whole) :
    Marked (s.text ++ x).toList p (.op s.op :: ks) whole := by
  obtain ⟨c, cs, hx, hc⟩ := hx
  rw [hx] at h
  rw [String.toList_append, hx]
  exact .sign s hc h

theorem exists_cons_of_isIdentifier {x : String} (h : IsIdentifier x) :
    ∃ c cs, x.toList = c :: cs ∧ isIdContinue c = true := by
  obtain ⟨c, cs, hx, hc, -⟩ := h.exists_cons
  exact ⟨c, cs, hx, isIdContinue_of_isIdStart hc⟩

theorem exists_cons_of_isUnsigned {x : String} (h : IsUnsigned x.toList) :
    ∃ c cs, x.toList = c :: cs ∧ isIdContinue c = true := by
  cases hx : x.toList with
  | nil =>
    rw [hx] at h
    exact absurd h not_isUnsigned_nil
  | cons c cs =>
    rw [hx] at h
    exact ⟨c, cs, rfl, isIdContinue_of_isDigit (isDigit_of_isUnsigned h)⟩

mutual

/-- The text of a term falls into its marks if it is clear, and has no marks otherwise. -/
theorem marked_text : ∀ t : Term, t.Written → Marked t.text.toList t.clear t.marks t.endsWhole
  | .name _, h => h.marked
  | .number _, h => .number h
  | .quoted _, h => by
    obtain ⟨contents, hcontents, rfl⟩ := h
    exact .quoted hcontents
  | .group inner, h => by
    have hchars : (group inner).text.toList = '(' :: (inner.text.toList ++ [')']) := by
      simp [text]
    rw [hchars]
    exact ((marked_text inner h).concat_char rfl).char rfl
  | .array elements, h => by
    have hchars : (array elements).text.toList = '[' :: ((textAll elements).toList ++ [']']) := by
      simp [text]
    obtain ⟨whole, helements⟩ := marked_textAll elements h
    rw [hchars]
    exact (helements.concat_char rfl).char rfl
  | .record field value, ⟨hfield, h⟩ => by
    have hchars : (record field value).text.toList =
        '{' :: ' ' :: (field.toList ++ ':' :: ' ' :: (value.text.toList ++ [' ', '}'])) := by
      simp [text]
    have hvalue := (marked_text value h).append (by decide) (by decide)
      (Marked.nil.char (c := '}') rfl).blank
    rw [Bool.and_true] at hvalue
    rw [hchars]
    exact .char rfl (.blank (hfield.marked.append_char rfl hvalue.blank))
  | .member object field, ⟨h, hfield⟩ => by
    have hchars : (member object field).text.toList =
        object.text.toList ++ '.' :: field.toList := by
      simp [text]
    rw [hchars]
    exact (marked_text object h).member hfield
  | .call callee args, ⟨h, hargs⟩ => by
    have hchars : (call callee args).text.toList =
        callee.text.toList ++ '(' :: ((textAll args).toList ++ [')']) := by
      simp [text]
    obtain ⟨whole, hargs⟩ := marked_textAll args hargs
    rw [hchars]
    exact (marked_text callee h).append_char rfl (hargs.concat_char rfl)
  | .unary .typeOf operand, h => by
    have hchars : (unary .typeOf operand).text.toList =
        "typeof".toList ++ ' ' :: operand.text.toList := by
      simp [text, Unary.text]
    rw [hchars]
    exact (marked_text operand h).word rfl (by decide) (by decide)
  | .unary .plus (.name x), h =>
    marked_sign .plus (exists_cons_of_isIdentifier h) h.nameLike.marked
  | .unary .minus (.name x), h =>
    marked_sign .minus (exists_cons_of_isIdentifier h) h.nameLike.marked
  | .unary .plus (.number x), h => marked_sign .plus (exists_cons_of_isUnsigned h) (.number h)
  | .unary .minus (.number x), h => marked_sign .minus (exists_cons_of_isUnsigned h) (.number h)
  | .binary op left right, ⟨hleft, hright⟩ => by
    have hchars : (binary op left right).text.toList =
        left.text.toList ++ ' ' :: ((opText op).toList ++ ' ' :: right.text.toList) := by
      simp [text]
    rw [hchars]
    exact (marked_text left hleft).append (by decide) (by decide)
      (Marked.op op (marked_text right hright)).blank
  | .arrow params body, ⟨hparams, h⟩ => by
    have hchars : (arrow params body).text.toList = '(' :: ((paramText params).toList ++
        ')' :: ' ' :: '=' :: '>' :: ' ' :: body.text.toList) := by
      simp [text]
    rw [hchars]
    exact ((marked_paramText hparams).append_char rfl (marked_text body h).arrow.blank).char rfl
  | .function params body, ⟨hparams, h⟩ => by
    have hchars : (function params body).text.toList = '(' :: ((paramText params).toList ++
        ')' :: ' ' :: '=' :: '>' :: ' ' :: '{' :: ' ' :: ((textBlock body).toList ++ ['}'])) := by
      simp [text]
    have hinner := (marked_textBlock body h).concat_char (c := '}') rfl
    have hblock := Marked.char (c := '{') rfl hinner.blank
    rw [hchars]
    exact .char rfl ((marked_paramText hparams).append_char rfl hblock.arrow.blank)

/-- The texts of written terms fall into the marks of the terms. -/
theorem marked_textAll : ∀ ts : List Term, WrittenAll ts →
    ∃ whole, Marked (textAll ts).toList (clearAll ts) (marksAll ts) whole
  | [], _ => ⟨_, .nil⟩
  | [t], h => ⟨_, by
    have ht := marked_text t h.1
    rw [clearAll, clearAll, Bool.and_true]
    exact ht⟩
  | t :: u :: us, h => by
    obtain ⟨whole, hus⟩ := marked_textAll (u :: us) h.2
    have hchars : (textAll (t :: u :: us)).toList =
        t.text.toList ++ ',' :: ' ' :: (textAll (u :: us)).toList := by
      simp [textAll]
    rw [hchars]
    exact ⟨_, (marked_text t h.1).append_char rfl hus.blank⟩

/-- The text of a written command falls into its marks. -/
theorem marked_commandText : ∀ c : Command, WrittenCommand c →
    Marked (commandText c).toList (clearCommand c) (commandMarks c) false
  | .declare x init, ⟨hx, h⟩ => by
    have hchars : (commandText (.declare x init)).toList = "const".toList ++
        ' ' :: (x.toList ++ ' ' :: '=' :: ' ' :: (init.text.toList ++ [';'])) := by
      simp [commandText]
    have hinit := ((marked_text init h).concat_char (c := ';') rfl).assign.blank
    rw [hchars]
    exact (hx.marked.append (by decide) (by decide) hinit).word rfl (by decide) (by decide)
  | .test condition body, ⟨hcondition, h⟩ => by
    have hchars : (commandText (.test condition body)).toList = "if".toList ++
        ' ' :: '(' :: (condition.text.toList ++ ')' :: ' ' :: (body.text.toList ++ [';'])) := by
      simp [commandText]
    have hbody := ((marked_text body h).concat_char (c := ';') rfl).blank
    rw [hchars]
    exact (((marked_text condition hcondition).append_char rfl hbody).char rfl).word rfl
      (by decide) (by decide)
  | .eval e, h => by
    have hchars : (commandText (.eval e)).toList = e.text.toList ++ [';'] := by
      simp [commandText]
    rw [hchars]
    exact (marked_text e h).concat_char rfl

/-- The text of a written block falls into its marks. -/
theorem marked_textBlock : ∀ cs : List Command, WrittenBlock cs →
    Marked (textBlock cs).toList (clearBlock cs) (marksBlock cs) false
  | [], _ => .nil
  | c :: cs, ⟨hc, h⟩ => by
    have hchars : (textBlock (c :: cs)).toList =
        (commandText c).toList ++ ' ' :: (textBlock cs).toList := by
      simp [textBlock]
    rw [hchars]
    exact (marked_commandText c hc).append (by decide) (by decide) (marked_textBlock cs h).blank

end

/-- The marks of a term's text are those of the term, if it has any. -/
theorem marks?_text {t : Term} (h : t.Written) :
    marks? t.text.toList = if t.clear then some t.marks else none := by
  have hmarks := (marked_text t h).pieces?_eq follows_nil
  rwa [List.head?_nil, beq_false_of_ne (Option.some_ne_none '.').symm, Bool.and_false,
    Bool.not_false, Bool.and_true] at hmarks

/-! ## Readings -/

/-- A way to read the text. -/
def Reads (cs : List Char) (t : Term) : Prop :=
  Script.marks? cs = some t.marks ∧ t.Grouped

/-- There is at most one way to read a text. -/
theorem Reads.unique {cs : List Char} {t t' : Term} (h : Reads cs t) (h' : Reads cs t') :
    t = t' := by
  refine eq_of_marks_eq h.2 h'.2 ?_
  rw [← Option.some_inj, ← h.1, ← h'.1]

/-- A term is the way to read its text if it has marks and its parts have the levels that are
    asked for, and only then. -/
theorem reads_text_iff {t : Term} (h : t.Written) :
    Reads t.text.toList t ↔ t.clear = true ∧ t.Grouped := by
  rw [Reads, marks?_text h]
  cases t.clear with
  | true => simp
  | false => simp

end Term

end Toal.Script
