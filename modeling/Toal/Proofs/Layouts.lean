import Toal.Proofs.Rescanning

/-!
# Scanning what was written

Tokens can be written down one after the other with anything between them that separates
them: blanks and comments in any number and order (`Separator`). A token of each kind can be
written with certain texts (`Token.Kind.Spells`), and a layout is a list of such texts, each
with what stands before it (`Entry`).

Scanning undoes this. As long as something stands between any two tokens, no token can go on
into the next (`Entry.stands`), and the scanner finds the tokens that were written where they
were written (`scan_layout`).
-/

namespace Toal

open Source
open Script (Contents)

/-! ## Layouts -/

/-- What may stand between two tokens. -/
inductive Separator
  | space
  | tab
  | carriageReturn
  | lineFeed
  /-- Two slashes and a line of any characters. -/
  | comment (line : List Char) (h : '\n' ∉ line)

/-- The characters of a separator. The line feed that ends a comment is one of them. -/
def Separator.chars : Separator → List Char
  | .space => [' ']
  | .tab => ['\t']
  | .carriageReturn => ['\r']
  | .lineFeed => ['\n']
  | .comment line _ => '/' :: '/' :: (line ++ ['\n'])

/-- The characters of separators, one after the other. -/
def gapChars (gap : List Separator) : List Char := gap.flatMap Separator.chars

/-- A token of the kind can have the text. -/
def Token.Kind.Spells : Token.Kind → List Char → Prop
  | .openParen, text => text = ['(']
  | .closeParen, text => text = [')']
  | .openBrace, text => text = ['{']
  | .closeBrace, text => text = ['}']
  | .openSquare, text => text = ['[']
  | .closeSquare, text => text = [']']
  | .comma, text => text = [',']
  | .semicolon, text => text = [';']
  | .colon, text => text = [':']
  | .arrow, text => text = ['-', '>']
  | .keyword k, text => text = k.text.toList
  | .ident, text => IsNameText text ∧ ∀ k : Keyword, text ≠ k.text.toList
  | .numeral, text => IsNumeral text
  | .word, text => Contents text

/-- A token that is written, and what stands before it. -/
structure Entry where
  /-- The separators before the token. -/
  gap : List Separator
  /-- The kind of the token. -/
  kind : Token.Kind
  /-- The text of the token. -/
  text : List Char
  spells : kind.Spells text

/-- The characters with which the token is written; a word has quotes around its text. -/
def Entry.chars (e : Entry) : List Char :=
  if e.kind = .word then '"' :: e.text ++ ['"'] else e.text

/-- The text of a layout, which ends with the separators of `tail`. -/
def layoutText : List Entry → List Separator → List Char
  | [], tail => gapChars tail
  | e :: es, tail => gapChars e.gap ++ (e.chars ++ layoutText es tail)

/-- The tokens of a layout that begins at the offset. -/
def layoutTokens : Nat → List Entry → List Token
  | _, [] => []
  | offset, e :: es =>
    let lo := offset + byteLength (gapChars e.gap)
    let hi := lo + byteLength e.chars
    ⟨e.kind, String.ofList e.text, ⟨lo, hi⟩⟩ :: layoutTokens hi es

theorem length_layoutTokens (offset : Nat) (entries : List Entry) :
    (layoutTokens offset entries).length = entries.length := by
  induction entries generalizing offset with
  | nil => rfl
  | cons e es ih => exact congrArg (· + 1) (ih _)

/-! ## Where tokens end -/

/-- The text is empty or begins with a separator. -/
def Ends (rest : List Char) : Prop :=
  rest = [] ∨ ∃ c more, rest = c :: more ∧ Splits c

/-- A separator begins with a character that ends every token. -/
theorem Separator.exists_chars (s : Separator) : ∃ c more, s.chars = c :: more ∧ Splits c := by
  cases s with
  | space => exact ⟨' ', [], rfl, by decide⟩
  | tab => exact ⟨'\t', [], rfl, by decide⟩
  | carriageReturn => exact ⟨'\r', [], rfl, by decide⟩
  | lineFeed => exact ⟨'\n', [], rfl, by decide⟩
  | comment line h => exact ⟨'/', _, rfl, by decide⟩

/-- A gap ends every token. -/
theorem ends_gap {gap : List Separator} (h : gap ≠ []) (rest : List Char) :
    Ends (gapChars gap ++ rest) := by
  obtain ⟨s, gap, rfl⟩ := List.exists_cons_of_ne_nil h
  obtain ⟨c, more, hchars, hc⟩ := s.exists_chars
  refine .inr ⟨c, more ++ (gapChars gap ++ rest), ?_, hc⟩
  rw [gapChars, List.flatMap_cons, hchars, List.append_assoc]
  rfl

/-- What follows a token of a layout cannot be part of it. -/
theorem ends_layoutText {entries : List Entry} (h : ∀ e ∈ entries, e.gap ≠ [])
    (tail : List Separator) : Ends (layoutText entries tail) := by
  cases entries with
  | nil =>
    cases tail with
    | nil => exact .inl rfl
    | cons s tail =>
      have hends := ends_gap (List.cons_ne_nil s tail) []
      rwa [List.append_nil] at hends
  | cons e es => exact ends_gap (h e List.mem_cons_self) _

/-- A token without a splitting character in it ends where one follows. -/
theorem Longest.of_ends {P : List Char → Prop} {chars rest : List Char} (h : P chars)
    (hrest : Ends rest) (hP : ∀ c cs, Splits c → P cs → c ∉ cs) : Longest P chars rest := by
  have hnil : Longest P chars [] := ⟨h, fun cs hcs _ => by rwa [List.append_nil] at hcs⟩
  rcases hrest with rfl | ⟨c, more, rfl, hc⟩
  · exact hnil
  · exact hnil.stop (fun cs hcs => hP c cs hc hcs) more

/-- A name ends where a splitting character follows. -/
theorem Longest.name_of_ends {chars rest : List Char} (h : IsNameText chars) (hrest : Ends rest) :
    Longest IsNameText chars rest :=
  .of_ends h hrest fun _ _ hc => hc.notMem_name

instance (cs : List Char) : Decidable (IsNameText cs) :=
  decidable_of_iff ((cs.head?.any isNameStart && cs.tail.all isNameRest) = true)
    (by cases cs <;> simp [IsNameText])

theorem isNameText_keyword (k : Keyword) : IsNameText k.text.toList := by
  cases k <;> decide

/-- The token stands where it is written. -/
theorem Entry.stands (e : Entry) {rest : List Char} (h : Ends rest) :
    (Piece.token e.kind e.text).Stands e.chars rest := by
  obtain ⟨gap, kind, text, hspells⟩ := e
  cases kind with
  | arrow =>
    cases hspells
    exact .arrow
  | ident =>
    obtain ⟨hname, hnone⟩ := hspells
    refine .name (.name_of_ends hname h) (.inr ⟨rfl, fun k hk => hnone k ?_⟩)
    rw [hk, String.toList_ofList]
  | word => exact .word hspells
  | numeral => exact .numeral (.of_ends hspells h fun _ _ hc => hc.notMem_numeral)
  | keyword k =>
    cases hspells
    exact .name (.name_of_ends (isNameText_keyword k) h)
      (.inl ⟨k, rfl, (String.ofList_toList).symm⟩)
  | _ =>
    cases hspells
    exact .punctuation rfl

/-! ## Scanning a layout -/

namespace Scanner

variable (offset : Nat) (rest : List Char)

theorem scans_blank {c : Char} (h : c = ' ' ∨ c = '\t' ∨ c = '\r' ∨ c = '\n') :
    Scans ⟨offset, [c] ++ rest⟩ [] ⟨offset + byteLength [c], rest⟩ :=
  .skip (.inl rfl) (.blank h) rfl .nil

/-- A separator is scanned without a token. -/
theorem scans_separator (s : Separator) :
    Scans ⟨offset, s.chars ++ rest⟩ [] ⟨offset + byteLength s.chars, rest⟩ := by
  cases s with
  | space => exact scans_blank offset rest (.inl rfl)
  | tab => exact scans_blank offset rest (.inr (.inl rfl))
  | carriageReturn => exact scans_blank offset rest (.inr (.inr (.inl rfl)))
  | lineFeed => exact scans_blank offset rest (.inr (.inr (.inr rfl)))
  | comment line h =>
    -- The line feed after a comment is a blank of its own.
    have hend := scans_blank (offset + byteLength ('/' :: '/' :: line)) rest
      (.inr (.inr (.inr rfl)))
    rw [Nat.add_assoc, ← byteLength_append] at hend
    exact .skip (.inr rfl) (.comment h (.inr ⟨rest, rfl⟩)) (by simp [Separator.chars]) hend

/-- A gap is scanned without a token. -/
theorem scans_gap (gap : List Separator) :
    Scans ⟨offset, gapChars gap ++ rest⟩ [] ⟨offset + byteLength (gapChars gap), rest⟩ := by
  induction gap generalizing offset with
  | nil => exact .nil
  | cons s gap ih =>
    have hfirst := scans_separator offset (gapChars gap ++ rest) s
    have hrest := ih (offset + byteLength s.chars)
    rw [Nat.add_assoc, ← byteLength_append] at hrest
    have hall := hfirst.append hrest
    rw [← List.append_assoc] at hall
    exact hall

/-- A layout is scanned into its tokens. -/
theorem scans_layout {entries : List Entry} (h : ∀ e ∈ entries.tail, e.gap ≠ [])
    (tail : List Separator) : Scans ⟨offset, layoutText entries tail⟩ (layoutTokens offset entries)
      ⟨offset + byteLength (layoutText entries tail), []⟩ := by
  induction entries generalizing offset with
  | nil =>
    have hgap := scans_gap offset [] tail
    rwa [List.append_nil] at hgap
  | cons e es ih =>
    have hgaps : ∀ e' ∈ es, e'.gap ≠ [] := h
    have hgap := scans_gap offset (e.chars ++ layoutText es tail) e.gap
    have hes := ih (offset + byteLength (gapChars e.gap) + byteLength e.chars)
      fun e' he' => hgaps e' (List.mem_of_mem_tail he')
    have htoken := Scans.token (s := ⟨offset + byteLength (gapChars e.gap), _⟩)
      (e.stands (ends_layoutText hgaps tail)) rfl hes
    rw [layoutText, byteLength_append, byteLength_append, ← Nat.add_assoc, ← Nat.add_assoc]
    exact hgap.append htoken

/-- The calls of a scanner give the tokens one after the other, and then nothing. -/
theorem next_place_of_tokens {text : List Char} {n : Nat} {ts : List Token}
    (h : (place text n).tokens = .ok ts) :
    (∀ k t, ts[k]? = some t → (place text (n + k)).next.1 = .ok (some t)) ∧
      (place text (n + ts.length)).next.1 = .ok none := by
  generalize hs : place text n = s at h
  fun_induction tokens s generalizing ts n with
  | case1 s after hnext =>
    cases h
    refine ⟨?_, ?_⟩
    · intro k t hk
      cases hk
    · rw [List.length_nil, Nat.add_zero, hs, hnext]
  | case2 s t after hnext ih =>
    cases htail : after.tokens with
    | error f =>
      rw [htail] at h
      cases h
    | ok us =>
      rw [htail] at h
      cases h
      -- The calls after the first one are those of the scanner that it leaves.
      have hplace : place text (n + 1) = after := by rw [place, hs, hnext]
      obtain ⟨htokens, hend⟩ := ih hplace htail
      refine ⟨fun k u hk => ?_, ?_⟩
      · cases k with
        | zero =>
          cases hk
          rw [Nat.add_zero, hs, hnext]
        | succ k =>
          have hnextCall := htokens k u hk
          rwa [Nat.add_right_comm] at hnextCall
      · rwa [Nat.add_right_comm] at hend
  | case3 s f after hnext => cases h

end Scanner

open Scanner in
/-- Scanning undoes writing. If tokens are written one after the other with separators
    between any two of them, and possibly before the first and after the last, then they
    are the tokens of the text, each with its kind, its text and the span in which it
    was written. The calls of the scanner give these tokens in order, and the next one
    finds the end of the text. -/
theorem scan_layout (entries : List Entry) (tail : List Separator)
    (h : ∀ e ∈ entries.tail, e.gap ≠ []) :
    Token.scan (layoutText entries tail) = .ok (layoutTokens 0 entries) ∧
    (∀ k t, (layoutTokens 0 entries)[k]? = some t →
      (place (layoutText entries tail) k).next.1 = .ok (some t)) ∧
    (place (layoutText entries tail) entries.length).next.1 = .ok none ∧
    (place (layoutText entries tail) (entries.length + 1)).here =
      ⟨byteLength (layoutText entries tail), byteLength (layoutText entries tail)⟩ := by
  have hscan : Token.scan (layoutText entries tail) = .ok (layoutTokens 0 entries) :=
    tokens_eq_ok_iff.2 ⟨_, scans_layout 0 h tail, rfl⟩
  obtain ⟨htokens, hend⟩ := next_place_of_tokens (n := 0) hscan
  simp only [Nat.zero_add, length_layoutTokens] at htokens hend
  have hat := isAt_place (layoutText entries tail) (entries.length + 1)
  have hoffset := hat.offset_eq_iff.2 (rest_of_next_eq_none hend)
  exact ⟨hscan, htokens, hend, by rw [here, hoffset]⟩

/-- A word with slashes and an escaped quote, a name and a numeral, and comments with a
    quote and a minus. -/
def mixedEntries : List Entry :=
  [⟨[.comment ['"'] (by decide)], .word, ['a', '/', '/', '\\', '"'],
      .plain (by decide) (by decide) (.plain (by decide) (by decide)
        (.plain (by decide) (by decide) (.escape .nil)))⟩,
    ⟨[.tab, .comment ['-'] (by decide)], .ident, ['π', '2'],
      ⟨by decide, fun k => by cases k <;> decide⟩⟩,
    ⟨[.carriageReturn, .lineFeed], .numeral, ['-', '1', '.', '5'],
      .inr ⟨_, rfl, .inr ⟨['1'], ['5'], rfl, rfl, rfl⟩⟩⟩]

/-- A comment with a quote in it, a word with a comment in it, a name and a numeral. -/
theorem scan_layout_mixed :
    (∀ e ∈ mixedEntries.tail, e.gap ≠ []) ∧
      Token.scan "//\"\n\"a//\\\"\"\t//-\nπ2\r\n-1.5 ".toList =
        .ok [⟨.word, "a//\\\"", ⟨4, 11⟩⟩, ⟨.ident, "π2", ⟨16, 19⟩⟩,
          ⟨.numeral, "-1.5", ⟨21, 25⟩⟩] := by
  have hgaps : ∀ e ∈ mixedEntries.tail, e.gap ≠ [] :=
    List.forall_mem_cons.2
      ⟨List.cons_ne_nil _ _, List.forall_mem_singleton.2 (List.cons_ne_nil _ _)⟩
  exact ⟨hgaps, (scan_layout mixedEntries [.space] hgaps).1⟩

end Toal
