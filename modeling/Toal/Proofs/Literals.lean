import Toal.Program.Constant
import Toal.Proofs.Numerals
import Toal.Script.Text
import Mathlib.Data.List.Lex

/-!
# Quoted words survive

A word passes from a program to a script: the scanner cuts it out of the text, and
the script has it again, between quotes of its own. Here is how a script reads it.
`Literal.scan` looks for the end of a literal, where a backslash takes the next
character with it, an unescaped quote closes the literal, and an unescaped line
end breaks it off. `Literal.value?` is the sequence of code units that a literal
stands for, and by these units scripts compare words (`Literal.Holds`).

What the scanner takes for the contents of a word has no unescaped quote in it and
does not end in a lone backslash (`Contents`). That is all it takes for a script to
find the end where it belongs, since line ends are escaped on the way
(`Contents.scan_wordChars`). A word without a backslash stands for its own code
units (`value?_wordChars`), so that comparing two such words before the program
runs gives what the script would find (`word_literals_agree`).
-/

namespace Toal

/-- What the scanner takes for a token: punctuation, a word, an arrow, a numeral, or
    a name. -/
theorem Lexeme.token_cases {c : Char} {cs : List Char} {kind : Token.Kind} {text : List Char}
    (h : (first c cs).piece = .token kind text) :
    punctuation? c = some kind ∨
      (kind = .word ∧ ∃ rest, quoted? cs = some (text, rest)) ∨ kind = .arrow ∨
      kind = .numeral ∨
      (kind = nameKind text ∧ isNameStart c = true ∧ text = c :: cs.takeWhile isNameRest) := by
  unfold first at h
  split at h
  · next hkind =>
    cases h
    exact .inl hkind
  split at h
  · cases h
  split at h
  · split at h
    · next hquoted =>
      cases h
      exact .inr (.inl ⟨rfl, _, hquoted⟩)
    · cases h
  split at h
  · split at h
    · cases h
      exact .inr (.inr (.inl rfl))
    · split at h
      · cases h
        exact .inr (.inr (.inr (.inl rfl)))
      · cases h
    · cases h
  split at h
  · split at h
    · cases h
    · cases h
  split at h
  · cases h
    exact .inr (.inr (.inr (.inl rfl)))
  split at h
  · next hstart =>
    cases h
    exact .inr (.inr (.inr (.inr ⟨rfl, hstart, rfl⟩)))
  · cases h

namespace Script

/-! ## How scripts read literals -/

namespace Literal

/-- The scan of a literal from after its opening quote: what stands before the
    closing quote, and what follows it, unless the line or the text ends first. -/
def scan : List Char → Option (List Char × List Char)
  | [] => none
  | '"' :: cs => some ([], cs)
  | '\n' :: _ => none
  | '\r' :: _ => none
  | ['\\'] => none
  | '\\' :: c :: cs => (scan cs).map fun (body, rest) => ('\\' :: c :: body, rest)
  | c :: cs => (scan cs).map fun (body, rest) => (c :: body, rest)

/-- What stands between the quotes of a text that is one literal from its first to
    its last character. -/
def body? : List Char → Option (List Char)
  | '"' :: cs =>
    match scan cs with
    | some (body, []) => some body
    | _ => none
  | _ => none

/-- The value of a hexadecimal digit. -/
def hexDigit? (c : Char) : Option Nat :=
  if c.isDigit then some (c.toNat - '0'.toNat)
  else if 'a' ≤ c ∧ c ≤ 'f' then some (c.toNat - 'a'.toNat + 10)
  else if 'A' ≤ c ∧ c ≤ 'F' then some (c.toNat - 'A'.toNat + 10)
  else none

/-- The value of a sequence of one or more hexadecimal digits. -/
def hexValue? (ds : List Char) : Option Nat :=
  if ds.isEmpty then none
  else ds.foldlM (fun n d => (hexDigit? d).map (16 * n + ·)) 0

/-- The code units of a code point, of which there is none beyond U+10FFFF. -/
def codePointUnits? (n : Nat) : Option (List Nat) :=
  if n < 0x10000 then some [n]
  else if n < 0x110000 then
    some [0xD800 + (n - 0x10000) / 0x400, 0xDC00 + (n - 0x10000) % 0x400]
  else none

/-- What an escape stands for, given what follows its backslash, and how many
    characters of that belong to it. A line end stands for nothing, and a character
    without a meaning of its own for itself. -/
def escape? : List Char → Option (List Nat × Nat)
  | [] => none
  | 'b' :: _ => some ([0x08], 1)
  | 't' :: _ => some ([0x09], 1)
  | 'n' :: _ => some ([0x0A], 1)
  | 'v' :: _ => some ([0x0B], 1)
  | 'f' :: _ => some ([0x0C], 1)
  | 'r' :: _ => some ([0x0D], 1)
  | '0' :: cs => if cs.head?.any Char.isDigit then none else some ([0], 1)
  | 'x' :: a :: b :: _ => (hexValue? [a, b]).map fun n => ([n], 3)
  | 'u' :: '{' :: cs =>
    let digits := cs.takeWhile (· ≠ '}')
    if digits.length = cs.length then none
    else ((hexValue? digits).bind codePointUnits?).map fun us => (us, digits.length + 3)
  | 'u' :: a :: b :: c :: d :: _ => (hexValue? [a, b, c, d]).map fun n => ([n], 5)
  | '\r' :: '\n' :: _ => some ([], 2)
  | c :: _ =>
    if c = '\n' || c = '\r' || c = '\u2028' || c = '\u2029' then some ([], 1)
    else if c.isDigit || c = 'x' || c = 'u' then none
    else some (Text.charUnits c, 1)

/-- The code units that a literal stands for, given what stands between its
    quotes. -/
def value? (cs : List Char) : Option (List Nat) :=
  match cs with
  | [] => some []
  | '\\' :: cs =>
    match escape? cs with
    | some (us, taken) => (value? (cs.drop taken)).map (us ++ ·)
    | none => none
  | c :: cs => (value? cs).map (Text.charUnits c ++ ·)
termination_by cs.length
decreasing_by
  · rw [List.length_cons, List.length_drop]
    omega
  · exact Nat.lt_succ_self _

/-- The code units that a literal stands for, given its text with the quotes. -/
def units? (literal : List Char) : Option (List Nat) :=
  (body? literal).bind value?

/-- The comparison holds between the sequences of code units, which are ordered
    lexicographically. -/
def Holds : CompareOp → List Nat → List Nat → Prop
  | .gt, us, vs => vs < us
  | .lt, us, vs => us < vs
  | .ge, us, vs => ¬us < vs
  | .le, us, vs => ¬vs < us
  | .eq, us, vs => us = vs
  | .ne, us, vs => us ≠ vs

instance (op : CompareOp) (us vs : List Nat) : Decidable (Holds op us vs) :=
  match op with
  | .gt => inferInstanceAs (Decidable (vs < us))
  | .lt => inferInstanceAs (Decidable (us < vs))
  | .ge => inferInstanceAs (Decidable ¬us < vs)
  | .le => inferInstanceAs (Decidable ¬vs < us)
  | .eq => inferInstanceAs (Decidable (us = vs))
  | .ne => inferInstanceAs (Decidable (us ≠ vs))

end Literal

/-! ## The contents of words -/

/-- The contents of a word: no quote stands in it but after a backslash, and every
    backslash has a character after it. -/
inductive Contents : List Char → Prop
  | nil : Contents []
  | escape {c cs} : Contents cs → Contents ('\\' :: c :: cs)
  | plain {c cs} : c ≠ '"' → c ≠ '\\' → Contents cs → Contents (c :: cs)

/-- What stands between two quotes has the contents of a word. -/
theorem contents_of_quoted? {cs contents rest : List Char}
    (h : Lexeme.quoted? cs = some (contents, rest)) : Contents contents := by
  fun_induction Lexeme.quoted? cs generalizing contents rest with
  | case1 => cases h
  | case2 cs =>
    cases h
    exact .nil
  | case3 => cases h
  | case4 c cs ih =>
    obtain ⟨⟨inner, _⟩, hinner, heq⟩ := Option.map_eq_some_iff.1 h
    cases heq
    exact .escape (ih hinner)
  | case5 c cs hquote hlast hbackslash ih =>
    obtain ⟨⟨inner, _⟩, hinner, heq⟩ := Option.map_eq_some_iff.1 h
    cases heq
    -- A backslash is followed by another character or by nothing, and both are other cases.
    refine .plain hquote ?_ (ih hinner)
    rintro rfl
    cases cs with
    | nil => exact hlast rfl rfl
    | cons d ds => exact hbackslash d ds rfl rfl

/-- What the scanner takes for a word has the contents of one. -/
theorem contents_of_piece {c : Char} {cs contents : List Char}
    (h : (Lexeme.first c cs).piece = .token .word contents) : Contents contents := by
  rcases Lexeme.token_cases h with hkind | ⟨-, rest, hquoted⟩ | harrow | hnumeral | ⟨hkind, -⟩
  · exact absurd rfl (Lexeme.literal_ne_of_punctuation? hkind).2
  · exact contents_of_quoted? hquoted
  · cases harrow
  · cases hnumeral
  · exact absurd hkind.symm (Lexeme.literal_ne_nameKind _).2

/-- Some call of the scanner gives the word on the text. -/
def IsWordOf (text : List Char) (contents : String) : Prop :=
  ∃ n t, (Scanner.place text n).next.1 = .ok (some t) ∧ t.kind = .word ∧ t.text = contents

/-- The words of a text have the contents of words. -/
theorem IsWordOf.contents {text : List Char} {s : String} (h : IsWordOf text s) :
    Contents s.toList := by
  obtain ⟨n, t, hnext, hkind, rfl⟩ := h
  obtain ⟨c, cs, contents, hpiece, htext⟩ := Scanner.exists_piece_of_next (Prod.ext hnext rfl)
  rw [hkind] at hpiece
  rw [htext, String.toList_ofList]
  exact contents_of_piece hpiece

/-! ## Words in a script -/

/-- The character means nothing to the scan of a literal. -/
def Plain (c : Char) : Prop :=
  c ≠ '"' ∧ c ≠ '\\' ∧ c ≠ '\n' ∧ c ≠ '\r'

instance (c : Char) : Decidable (Plain c) :=
  inferInstanceAs (Decidable (_ ∧ _))

/-- A script has the escape in place of the line end: a backslash, a letter, and
    some digits. -/
inductive LineEnd : Char → Char → List Char → Prop
  | feed : LineEnd '\n' 'n' []
  | carriage : LineEnd '\r' 'r' []
  | line : LineEnd '\u2028' 'u' ['2', '0', '2', '8']
  | paragraph : LineEnd '\u2029' 'u' ['2', '0', '2', '9']

/-- No digit of an escape means anything to the scan. -/
theorem LineEnd.plain {c letter : Char} {digits : List Char} (h : LineEnd c letter digits) :
    ∀ d ∈ digits, Plain d := by
  cases h <;> simp [Plain]

/-- A character that is not part of an escape is kept, unless it is a line end. -/
theorem wordChars_cons {c : Char} (h : c ≠ '\\') (cs : List Char) :
    (c ≠ '\n' ∧ c ≠ '\r' ∧ wordChars (c :: cs) = c :: wordChars cs) ∨
      ∃ letter digits, LineEnd c letter digits ∧
        wordChars (c :: cs) = '\\' :: letter :: (digits ++ wordChars cs) := by
  by_cases hfeed : c = '\n'
  · subst hfeed
    exact .inr ⟨_, _, .feed, by rw [wordChars]; rfl⟩
  by_cases hcarriage : c = '\r'
  · subst hcarriage
    exact .inr ⟨_, _, .carriage, by rw [wordChars]; rfl⟩
  by_cases hline : c = '\u2028'
  · subst hline
    exact .inr ⟨_, _, .line, by rw [wordChars]; rfl⟩
  by_cases hparagraph : c = '\u2029'
  · subst hparagraph
    exact .inr ⟨_, _, .paragraph, by rw [wordChars]; rfl⟩
  · refine .inl ⟨hfeed, hcarriage, ?_⟩
    rw [wordChars]
    · exact fun hc _ => h hc
    · exact fun _ _ hc _ => h hc
    · exact hfeed
    · exact hcarriage
    · exact hline
    · exact hparagraph

/-- A backslash takes the next character with it. -/
theorem scan_escape (c : Char) (cs : List Char) :
    Literal.scan ('\\' :: c :: cs) =
      (Literal.scan cs).map fun (body, rest) => ('\\' :: c :: body, rest) := by
  rw [Literal.scan]

theorem scan_plain {c : Char} (h : Plain c) (cs : List Char) :
    Literal.scan (c :: cs) = (Literal.scan cs).map fun (body, rest) => (c :: body, rest) := by
  obtain ⟨hquote, hbackslash, hfeed, hcarriage⟩ := h
  rw [Literal.scan]
  · exact hquote
  · exact hfeed
  · exact hcarriage
  · exact fun hc _ => hbackslash hc
  · exact fun _ _ hc _ => hbackslash hc

/-- Plain characters are scanned as they stand. -/
theorem scan_append {ds cs body rest : List Char} (hds : ∀ d ∈ ds, Plain d)
    (h : Literal.scan cs = some (body, rest)) :
    Literal.scan (ds ++ cs) = some (ds ++ body, rest) := by
  induction ds with
  | nil => exact h
  | cons d ds ih =>
    obtain ⟨hd, hds⟩ := List.forall_mem_cons.1 hds
    rw [List.cons_append, scan_plain hd, ih hds]
    rfl

/-- A script finds the end of a word where it is, whatever follows. -/
theorem Contents.scan_wordChars {cs : List Char} (h : Contents cs) (rest : List Char) :
    Literal.scan (wordChars cs ++ '"' :: rest) = some (wordChars cs, rest) := by
  induction h with
  | nil => rfl
  | escape _ ih =>
    rw [wordChars, List.cons_append, List.cons_append, scan_escape, ih]
    rfl
  | @plain c cs hquote hbackslash _ ih =>
    rcases wordChars_cons hbackslash cs with ⟨hfeed, hcarriage, heq⟩ | ⟨letter, digits, he, heq⟩
    · rw [heq, List.cons_append, scan_plain ⟨hquote, hbackslash, hfeed, hcarriage⟩, ih]
      rfl
    · rw [heq, List.cons_append, List.cons_append, scan_escape, List.append_assoc,
        scan_append he.plain ih]
      rfl

/-- An escaped line end stands for the line end. -/
theorem LineEnd.value? {c letter : Char} {digits cs : List Char} (h : LineEnd c letter digits) :
    Literal.value? ('\\' :: letter :: (digits ++ cs)) =
      (Literal.value? cs).map (Text.charUnits c ++ ·) := by
  cases h with
  | feed | carriage | line | paragraph =>
    rw [Literal.value?]
    rfl

/-- A character that is not escaped stands for its own code units. -/
theorem value?_cons {c : Char} (h : c ≠ '\\') (cs : List Char) :
    Literal.value? (c :: cs) = (Literal.value? cs).map (Text.charUnits c ++ ·) := by
  rw [Literal.value?]
  exact h

/-- A word without a backslash stands for its own code units. -/
theorem value?_wordChars {cs : List Char} (h : '\\' ∉ cs) :
    Literal.value? (wordChars cs) = some (cs.flatMap Text.charUnits) := by
  induction cs with
  | nil => rw [wordChars, Literal.value?, List.flatMap_nil]
  | cons c cs ih =>
    have hc : c ≠ '\\' := fun hc => h (hc ▸ List.mem_cons_self)
    have hcs := ih fun hmem => h (List.mem_cons_of_mem c hmem)
    rcases wordChars_cons hc cs with ⟨-, -, heq⟩ | ⟨letter, digits, he, heq⟩
    · rw [heq, value?_cons hc, hcs, List.flatMap_cons]
      rfl
    · rw [heq, he.value?, hcs, List.flatMap_cons]
      rfl

/-! ## Comparisons -/

/-- What the order of code units by comparing them one by one says. -/
theorem compareUnits_cases (us vs : List Nat) :
    (Text.compareUnits us vs = .lt ∧ us < vs) ∨ (Text.compareUnits us vs = .eq ∧ us = vs) ∨
      (Text.compareUnits us vs = .gt ∧ vs < us) := by
  induction us generalizing vs with
  | nil =>
    cases vs with
    | nil => exact .inr (.inl ⟨rfl, rfl⟩)
    | cons v vs => exact .inl ⟨rfl, List.nil_lt_cons v vs⟩
  | cons u us ih =>
    cases vs with
    | nil => exact .inr (.inr ⟨rfl, List.nil_lt_cons u us⟩)
    | cons v vs =>
      rw [Text.compareUnits]
      rcases Nat.lt_trichotomy u v with h | rfl | h
      · rw [Nat.compare_eq_lt.2 h]
        exact .inl ⟨rfl, List.cons_lt_cons_iff.2 (.inl h)⟩
      · rw [Nat.compare_eq_eq.2 rfl]
        simpa using ih vs
      · rw [Nat.compare_eq_gt.2 h]
        exact .inr (.inr ⟨rfl, List.cons_lt_cons_iff.2 (.inl h)⟩)

/-- Comparing words by the order of their code units is what scripts do. -/
theorem orderHolds_compareUnits (op : CompareOp) (us vs : List Nat) :
    Program.orderHolds op (Text.compareUnits us vs) = decide (Literal.Holds op us vs) := by
  rcases compareUnits_cases us vs with ⟨ho, h⟩ | ⟨ho, rfl⟩ | ⟨ho, h⟩
  · have hnot : ¬vs < us := lt_asymm h
    cases op <;> simp [Program.orderHolds, Literal.Holds, ho, h, h.ne, hnot, -not_lt]
  · cases op <;> simp [Program.orderHolds, Literal.Holds, ho]
  · have hnot : ¬us < vs := lt_asymm h
    cases op <;> simp [Program.orderHolds, Literal.Holds, ho, h, h.ne', hnot, -not_lt]

theorem hasEscape_eq_false {s : String} (h : '\\' ∉ s.toList) : Program.hasEscape s = false := by
  simpa [Program.hasEscape] using h

/-- The literal of a word stands for what its characters stand for. -/
theorem Contents.units?_wordText {s : String} (hs : Contents s.toList) :
    Literal.units? (wordText s).toList = Literal.value? (wordChars s.toList) := by
  rw [Literal.units?, wordText, String.toList_ofList, List.cons_append, Literal.body?,
    hs.scan_wordChars []]
  rfl

/-- The literal of a word without a backslash stands for the code units of the
    word. -/
theorem units?_wordText {s : String} (hs : Contents s.toList) (h : '\\' ∉ s.toList) :
    Literal.units? (wordText s).toList = some (Text.units s) :=
  hs.units?_wordText.trans (value?_wordChars h)

/-- Words survive on their way from the text of a program to a script. The literal
    of a word that the scanner gives is one literal, whatever follows it. If there
    is no backslash in the word, the literal stands for its code units; and a
    comparison of two such words that is evaluated before the program runs has the
    value that the script would find for their literals. -/
theorem word_literals_agree {text : List Char} {s : String} (hs : IsWordOf text s) :
    (∃ body, (wordText s).toList = '"' :: body ++ ['"'] ∧
      ∀ rest, Literal.scan (body ++ '"' :: rest) = some (body, rest)) ∧
    ('\\' ∉ s.toList → Literal.units? (wordText s).toList = some (Text.units s)) ∧
    ∀ {text' : List Char} {t : String}, IsWordOf text' t → '\\' ∉ s.toList → '\\' ∉ t.toList →
      ∃ us vs, Literal.units? (wordText s).toList = some us ∧
        Literal.units? (wordText t).toList = some vs ∧
        ∀ op, Program.evalCompare op (.word s) (.word t) =
          some (decide (Literal.Holds op us vs)) := by
  refine ⟨⟨wordChars s.toList, ?_, hs.contents.scan_wordChars⟩, units?_wordText hs.contents, ?_⟩
  · rw [wordText, String.toList_ofList]
  · intro text' t ht hs' ht'
    refine ⟨_, _, units?_wordText hs.contents hs', units?_wordText ht.contents ht', fun op => ?_⟩
    rw [Program.evalCompare, hasEscape_eq_false hs', hasEscape_eq_false ht', Program.compareWords,
      orderHolds_compareUnits]
    rfl

/-- The character `😀` is beyond U+FFFF and comes before `｡` in a script. -/
theorem word_literals_agree_faces :
    IsWordOf "\"😀\n\"".toList "😀\n" ∧ IsWordOf "\"｡\"".toList "｡" ∧
      Literal.units? (wordText "😀\n").toList = some [0xD83D, 0xDE00, 0x0A] ∧
      Program.evalCompare .lt (.word "😀\n") (.word "｡") = some true := by
  have hface : IsWordOf "\"😀\n\"".toList "😀\n" :=
    ⟨0, ⟨.word, "😀\n", ⟨0, 7⟩⟩, by rw [Scanner.place, Scanner.start, Scanner.next]; rfl, rfl, rfl⟩
  have hstop : IsWordOf "\"｡\"".toList "｡" :=
    ⟨0, ⟨.word, "｡", ⟨0, 5⟩⟩, by rw [Scanner.place, Scanner.start, Scanner.next]; rfl, rfl, rfl⟩
  obtain ⟨-, hunits, hcompare⟩ := word_literals_agree hface
  refine ⟨hface, hstop, hunits (by decide), ?_⟩
  obtain ⟨us, vs, hus, hvs, hholds⟩ := hcompare hstop (by decide) (by decide)
  rw [hunits (by decide)] at hus
  rw [(word_literals_agree hstop).2.1 (by decide)] at hvs
  cases hus
  cases hvs
  exact hholds .lt

end Script

end Toal
