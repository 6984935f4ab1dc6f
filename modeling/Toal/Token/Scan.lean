import Toal.Problem
import Toal.Source.Position
import Toal.Text.Alphanumeric
import Toal.Token

/-!
# Scanning

A text falls into pieces: tokens, blanks, comments, and the two things that are
wrong, namely a character with which no token begins and a quoted word that
never ends. `Lexeme.first` takes the first piece off a text. It takes at least
one character and depends on nothing but what follows, so that scanning can go
on after a fault just as well as after a token.

A `Scanner` is a place in a text. `Scanner.next` gives the next token or fault,
skipping blanks and comments, and the scanner after it; `Token.scan` gives all
tokens of a text.
-/

namespace Toal

open Source Text

/-- What a piece of a text is. -/
inductive Piece
  /-- A token, with its text. -/
  | token (kind : Token.Kind) (text : List Char)
  /-- A space, tab, carriage return or line feed. -/
  | blank
  /-- Two slashes and what follows them on their line. -/
  | comment
  /-- A character with which no token begins. -/
  | unexpected (c : Char)
  /-- A quoted word without its closing quote. -/
  | unterminated
deriving DecidableEq, Repr

/-- The first piece of a text, the characters it takes, and those it leaves. -/
structure Lexeme where
  /-- What the piece is. -/
  piece : Piece
  /-- The characters of the piece. -/
  taken : List Char
  /-- The rest of the text. -/
  rest : List Char
deriving DecidableEq, Repr

/-- Whether a name may begin with `c`. -/
def isNameStart (c : Char) : Bool :=
  isAlphabetic c || c = '_'

/-- Whether a name may go on with `c`. -/
def isNameRest (c : Char) : Bool :=
  isAlphabetic c || isNumeric c || c = '_'

namespace Lexeme

/-- The kind of the token that one character makes up. -/
def punctuation? : Char → Option Token.Kind
  | '(' => some .openParen
  | ')' => some .closeParen
  | '{' => some .openBrace
  | '}' => some .closeBrace
  | '[' => some .openSquare
  | ']' => some .closeSquare
  | ',' => some .comma
  | ';' => some .semicolon
  | ':' => some .colon
  | _ => none

/-- Whether `c` only separates tokens. -/
def isBlank (c : Char) : Bool :=
  c = ' ' || c = '\t' || c = '\r' || c = '\n'

/-- The kind of a name: a keyword if it is spelled like one. -/
def nameKind (name : List Char) : Token.Kind :=
  match Keyword.ofText? (String.ofList name) with
  | some k => .keyword k
  | none => .ident

/-- The contents of a quoted word up to the closing quote, and what follows that
    quote. A backslash keeps the character after it from closing the word. -/
def quoted? : List Char → Option (List Char × List Char)
  | [] => none
  | '"' :: cs => some ([], cs)
  | ['\\'] => none
  | '\\' :: c :: cs => (quoted? cs).map fun (contents, rest) => ('\\' :: c :: contents, rest)
  | c :: cs => (quoted? cs).map fun (contents, rest) => (c :: contents, rest)

/-- The digits of a numeral and its fraction, if a point and a digit follow, and
    the rest of the text. -/
def numeral (cs : List Char) : List Char × List Char :=
  let whole := cs.takeWhile Char.isDigit
  let rest := cs.dropWhile Char.isDigit
  match rest with
  | '.' :: d :: more =>
    if d.isDigit then
      (whole ++ '.' :: d :: more.takeWhile Char.isDigit, more.dropWhile Char.isDigit)
    else (whole, rest)
  | _ => (whole, rest)

/-- The first piece of a text that begins with `c` and goes on with `cs`. -/
def first (c : Char) (cs : List Char) : Lexeme :=
  if let some kind := punctuation? c then ⟨.token kind [c], [c], cs⟩
  else if isBlank c then ⟨.blank, [c], cs⟩
  else if c = '"' then
    match quoted? cs with
    | some (contents, rest) => ⟨.token .word contents, c :: contents ++ [c], rest⟩
    | none => ⟨.unterminated, c :: cs, []⟩
  else if c = '-' then
    match cs with
    | '>' :: rest => ⟨.token .arrow ['-', '>'], ['-', '>'], rest⟩
    | d :: _ =>
      if d.isDigit then
        let (digits, rest) := numeral cs
        ⟨.token .numeral (c :: digits), c :: digits, rest⟩
      else ⟨.unexpected c, [c], cs⟩
    | [] => ⟨.unexpected c, [c], []⟩
  else if c = '/' then
    match cs with
    | '/' :: cs' =>
      ⟨.comment, '/' :: '/' :: cs'.takeWhile (· ≠ '\n'), cs'.dropWhile (· ≠ '\n')⟩
    | _ => ⟨.unexpected c, [c], cs⟩
  else if c.isDigit then
    let (digits, rest) := numeral (c :: cs)
    ⟨.token .numeral digits, digits, rest⟩
  else if isNameStart c then
    let name := c :: cs.takeWhile isNameRest
    ⟨.token (nameKind name) name, name, cs.dropWhile isNameRest⟩
  else ⟨.unexpected c, [c], cs⟩

/-- A quoted word is its contents, the closing quote, and what follows. -/
theorem append_of_quoted? {cs contents rest : List Char} (h : quoted? cs = some (contents, rest)) :
    contents ++ '"' :: rest = cs := by
  fun_induction quoted? cs generalizing contents rest with
  | case1 => simp at h
  | case2 cs => simp_all
  | case3 => simp at h
  | case4 c cs ih =>
    obtain ⟨⟨a, b⟩, h', e⟩ := Option.map_eq_some_iff.1 h
    cases e
    simp [ih h']
  | case5 c cs _ _ _ ih =>
    obtain ⟨⟨a, b⟩, h', e⟩ := Option.map_eq_some_iff.1 h
    cases e
    simp [ih h']

/-- A numeral and the rest are the text it was read from. -/
theorem numeral_append (cs : List Char) : (numeral cs).1 ++ (numeral cs).2 = cs := by
  have whole := List.takeWhile_append_dropWhile (p := Char.isDigit) (l := cs)
  unfold numeral
  dsimp only
  split
  · rename_i d more h
    split
    · rw [h] at whole
      simpa [List.takeWhile_append_dropWhile] using whole
    · exact whole
  · exact whole

/-- A numeral that is read where a digit stands is not empty. -/
theorem numeral_ne_nil {c : Char} (h : c.isDigit = true) (cs : List Char) :
    (numeral (c :: cs)).1 ≠ [] := by
  unfold numeral
  dsimp only
  split
  · split <;> simp [h]
  · simp [h]

/-- The first piece and the rest are the whole text. -/
theorem first_append (c : Char) (cs : List Char) :
    (first c cs).taken ++ (first c cs).rest = c :: cs := by
  unfold first
  split
  · rfl
  split
  · rfl
  split
  · split
    · rename_i h
      simp [*, append_of_quoted? h]
    · simp
  split
  · split
    · simp [*]
    · split
      · simp [numeral_append]
      · rfl
    · rfl
  split
  · split
    · simp [*]
    · rfl
  split
  · simp [numeral_append]
  split
  · simp
  · rfl

/-- The first piece takes at least one character. -/
theorem taken_ne_nil (c : Char) (cs : List Char) : (first c cs).taken ≠ [] := by
  unfold first
  split
  · simp
  split
  · simp
  split
  · split <;> simp
  split
  · split
    · simp
    · split <;> simp
    · simp
  split
  · split <;> simp
  split
  · exact numeral_ne_nil ‹_› cs
  split <;> simp

/-- The rest is no longer than what follows the first character. -/
theorem length_rest_le (c : Char) (cs : List Char) : (first c cs).rest.length ≤ cs.length := by
  have h := congrArg List.length (first_append c cs)
  have := List.length_pos_iff.2 (taken_ne_nil c cs)
  simp only [List.length_append, List.length_cons] at h
  omega

end Lexeme

/-- A place in a text. -/
structure Scanner where
  /-- The number of bytes before the place. -/
  offset : Nat
  /-- The text from the place on. -/
  rest : List Char
deriving DecidableEq, Repr

namespace Scanner

/-- The start of a text. -/
def start (text : List Char) : Scanner := ⟨0, text⟩

/-- The place after a piece. -/
def after (s : Scanner) (l : Lexeme) : Scanner :=
  ⟨s.offset + byteLength l.taken, l.rest⟩

/-- The next token or fault and the place after it. At the end of the text there
    is no token, now or ever after. -/
def next (s : Scanner) : Except Fault (Option Token) × Scanner :=
  match _ : s.rest with
  | [] => (.ok none, s)
  | c :: cs =>
    let lexeme := Lexeme.first c cs
    let place := s.after lexeme
    let span : Span := ⟨s.offset, place.offset⟩
    match lexeme.piece with
    | .token kind text => (.ok (some ⟨kind, String.ofList text, span⟩), place)
    | .blank | .comment => next place
    | .unexpected c => (.error ⟨.unexpectedCharacter c, span⟩, place)
    | .unterminated => (.error ⟨.unterminatedWord, span⟩, place)
termination_by s.rest.length
decreasing_by
  all_goals
    rw [‹s.rest = c :: cs›]
    exact Nat.lt_succ_of_le (Lexeme.length_rest_le c cs)

/-- A token takes at least one character. -/
theorem rest_lt_of_next {s place : Scanner} {t : Token} (h : s.next = (.ok (some t), place)) :
    place.rest.length < s.rest.length := by
  fun_induction next s with
  | case1 s hs => simp at h
  | case2 s c cs hs lexeme after span kind text hp =>
    obtain ⟨-, rfl⟩ := Prod.mk.inj h
    have := Lexeme.length_rest_le c cs
    simp only [hs, List.length_cons, after, Scanner.after, lexeme]
    omega
  | case3 s c cs hs lexeme after hp ih =>
    have lt := ih h
    have := Lexeme.length_rest_le c cs
    simp only [after, Scanner.after, lexeme] at lt
    simp only [hs, List.length_cons]
    omega
  | case4 s c cs hs lexeme after hp ih =>
    have lt := ih h
    have := Lexeme.length_rest_le c cs
    simp only [after, Scanner.after, lexeme] at lt
    simp only [hs, List.length_cons]
    omega
  | case5 s c cs hs lexeme after span d hp => simp at h
  | case6 s c cs hs lexeme after span hp => simp at h

/-- All tokens from the place on, or the first fault. -/
def tokens (s : Scanner) : Except Fault (List Token) :=
  match _ : s.next with
  | (.ok none, _) => .ok []
  | (.ok (some t), place) => (tokens place).map (t :: ·)
  | (.error fault, _) => .error fault
termination_by s.rest.length
decreasing_by exact rest_lt_of_next ‹_›

end Scanner

/-- All tokens of a text, or its first fault. -/
def Token.scan (text : List Char) : Except Fault (List Token) :=
  (Scanner.start text).tokens

end Toal
