import Toal.Proofs.Slices
import Toal.Token.Scan

/-!
# Where the scanner stands

A scanner that reads a text from its start stands at a boundary of the text
after every call (`Scanner.isAt_place`). The token or fault of each call has the
span of a slice, and the text of a token is that slice, or what stands between
the quotes of it (`Scanner.inside_next`). Every call takes at least one
character as long as there is one, so after as many calls as the text has
characters the scanner has come to the end (`Scanner.rest_place_length`).
-/

namespace Toal

open Source

variable {text : List Char}

/-- The span of the token is that of a slice of the text. A quoted word is the
    part of the slice between the quotes; any other token is all of it. -/
def Token.IsIn (t : Token) (text : List Char) : Prop :=
  if t.kind = .word then
    IsSlice text t.span ('"' :: t.text.toList ++ ['"']) ∧
      IsSlice text ⟨t.span.lo + 1, t.span.hi - 1⟩ t.text.toList
  else IsSlice text t.span t.text.toList

/-! ## Pieces -/

namespace Lexeme

/-- Numerals and quoted words are no punctuation. -/
theorem literal_ne_of_punctuation? {c : Char} {kind : Token.Kind}
    (h : punctuation? c = some kind) : kind ≠ .numeral ∧ kind ≠ .word := by
  unfold punctuation? at h
  split at h <;> cases h <;> exact ⟨nofun, nofun⟩

/-- Numerals and quoted words are no names. -/
theorem literal_ne_nameKind (name : List Char) :
    nameKind name ≠ .numeral ∧ nameKind name ≠ .word := by
  unfold nameKind
  split <;> exact ⟨nofun, nofun⟩

/-- A token takes its text, and a quoted word takes its quotes too. -/
theorem taken_of_piece {c : Char} {cs text : List Char} {kind : Token.Kind} {l : Lexeme}
    (hl : first c cs = l) (h : l.piece = .token kind text) :
    l.taken = if kind = .word then '"' :: text ++ ['"'] else text := by
  unfold first at hl
  -- One case for each way in which a piece can begin, in the order of `first`.
  split at hl
  · next kind' hkind =>
    subst hl
    cases h
    exact (if_neg (literal_ne_of_punctuation? hkind).2).symm
  split at hl
  · subst hl
    cases h
  split at hl
  · next hquote =>
    split at hl
    · subst hl
      cases h
      rw [if_pos rfl, hquote]
    · subst hl
      cases h
  split at hl
  · split at hl
    · subst hl
      cases h
      rfl
    · split at hl
      · subst hl
        obtain ⟨rfl, rfl⟩ := Piece.token.inj h
        rfl
      · subst hl
        cases h
    · subst hl
      cases h
  split at hl
  · split at hl
    · subst hl
      cases h
    · subst hl
      cases h
  split at hl
  · subst hl
    obtain ⟨rfl, rfl⟩ := Piece.token.inj h
    rfl
  split at hl
  · subst hl
    obtain ⟨rfl, rfl⟩ := Piece.token.inj h
    exact (if_neg (literal_ne_nameKind _).2).symm
  · subst hl
    cases h

end Lexeme

/-- What stands between the quotes of a slice is a slice. -/
theorem Source.IsSlice.unquote {span : Span} {part : List Char}
    (h : IsSlice text span ('"' :: part ++ ['"'])) :
    IsSlice text ⟨span.lo + 1, span.hi - 1⟩ part := by
  obtain ⟨before, after, rfl, rfl⟩ := h
  have hquote : byteLength ['"'] = 1 := rfl
  have hlength : byteLength ('"' :: part ++ ['"']) = 1 + byteLength part + 1 := by
    rw [byteLength_append, byteLength, hquote]
    rfl
  refine ⟨before ++ ['"'], '"' :: after, by simp, ?_⟩
  rw [byteLength_append before, hquote, hlength]
  simp only [Span.mk.injEq, true_and]
  omega

namespace Scanner

variable {s : Scanner}

/-- The scanner stands at a boundary of the text, before the rest of it. -/
def IsAt (s : Scanner) (text : List Char) : Prop :=
  IsSlice text ⟨s.offset, byteLength text⟩ s.rest

/-- What a call gives lies in the text. -/
def Inside (text : List Char) : Except Fault (Option Token) → Prop
  | .ok none => True
  | .ok (some t) => t.IsIn text
  | .error f => ∃ span part, f.span = some span ∧ IsSlice text span part

/-- A scanner at a place of the text has characters of the text before it. -/
theorem isAt_iff :
    s.IsAt text ↔ ∃ before, before ++ s.rest = text ∧ s.offset = byteLength before := by
  constructor
  · rintro ⟨before, after, rfl, hspan⟩
    obtain ⟨hlo, hhi⟩ := Span.mk.inj hspan
    -- The rest ends where the text does, and any character after it takes up a byte.
    have hafter : after = [] := by
      cases after with
      | nil => rfl
      | cons c after =>
        have hc := c.utf8Size_pos
        simp only [byteLength_append, byteLength] at hhi
        omega
    subst hafter
    exact ⟨before, by simp, hlo⟩
  · rintro ⟨before, rfl, hoffset⟩
    exact ⟨before, [], by simp, by rw [byteLength_append, hoffset]⟩

theorem isAt_start (text : List Char) : (start text).IsAt text :=
  isAt_iff.2 ⟨[], rfl, rfl⟩

/-! ## One piece -/

section Piece

variable {c : Char} {cs : List Char} (h : s.IsAt text) (hs : s.rest = c :: cs)

include h hs

/-- The characters of the next piece are a slice. -/
theorem isSlice_first :
    IsSlice text ⟨s.offset, (s.after (Lexeme.first c cs)).offset⟩ (Lexeme.first c cs).taken := by
  obtain ⟨before, rfl, hoffset⟩ := isAt_iff.1 h
  refine ⟨before, (Lexeme.first c cs).rest, ?_, ?_⟩
  · rw [Lexeme.first_append, hs]
  · rw [after, hoffset]

/-- Past a piece, the scanner is still at a place of the text. -/
theorem isAt_after : (s.after (Lexeme.first c cs)).IsAt text := by
  obtain ⟨before, rfl, hoffset⟩ := isAt_iff.1 h
  refine isAt_iff.2 ⟨before ++ (Lexeme.first c cs).taken, ?_, ?_⟩
  · rw [hs, after, List.append_assoc, Lexeme.first_append]
  · rw [byteLength_append, after, hoffset]

/-- A token that is the next piece lies in the text. -/
theorem isIn_first {kind : Token.Kind} {contents : List Char}
    (hp : (Lexeme.first c cs).piece = .token kind contents) :
    Token.IsIn ⟨kind, String.ofList contents, ⟨s.offset, (s.after (Lexeme.first c cs)).offset⟩⟩
      text := by
  have hslice := isSlice_first h hs
  rw [Lexeme.taken_of_piece rfl hp] at hslice
  unfold Token.IsIn
  rw [String.toList_ofList]
  split
  · next hword =>
    have hquoted := hslice
    rw [if_pos hword] at hquoted
    exact ⟨hquoted, hquoted.unquote⟩
  · next hword => rwa [if_neg hword] at hslice

end Piece

/-! ## One call -/

/-- After a call, the scanner is still at a place of the text. -/
theorem isAt_next (h : s.IsAt text) : s.next.2.IsAt text := by
  fun_induction next s with
  | case1 s hs => exact h
  | case2 s c cs hs => exact isAt_after h hs
  | case3 s c cs hs lexeme place hp ih => exact ih (isAt_after h hs)
  | case4 s c cs hs lexeme place hp ih => exact ih (isAt_after h hs)
  | case5 s c cs hs => exact isAt_after h hs
  | case6 s c cs hs => exact isAt_after h hs

/-- What a call gives lies inside the text. -/
theorem inside_next (h : s.IsAt text) : Inside text s.next.1 := by
  fun_induction next s with
  | case1 s hs => trivial
  | case2 s c cs hs lexeme place span kind contents hp => exact isIn_first h hs hp
  | case3 s c cs hs lexeme place hp ih => exact ih (isAt_after h hs)
  | case4 s c cs hs lexeme place hp ih => exact ih (isAt_after h hs)
  | case5 s c cs hs => exact ⟨_, _, rfl, isSlice_first h hs⟩
  | case6 s c cs hs => exact ⟨_, _, rfl, isSlice_first h hs⟩

/-- A call takes at least one character if there is one. -/
theorem length_rest_next_le (s : Scanner) : s.next.2.rest.length ≤ s.rest.length - 1 := by
  fun_induction next s with
  | case1 s hs => simp [hs]
  | case2 s c cs hs =>
    rw [hs, List.length_cons]
    exact Lexeme.length_rest_le c cs
  | case3 s c cs hs lexeme place hp ih =>
    have hle : place.rest.length ≤ cs.length := Lexeme.length_rest_le c cs
    rw [hs, List.length_cons]
    omega
  | case4 s c cs hs lexeme place hp ih =>
    have hle : place.rest.length ≤ cs.length := Lexeme.length_rest_le c cs
    rw [hs, List.length_cons]
    omega
  | case5 s c cs hs =>
    rw [hs, List.length_cons]
    exact Lexeme.length_rest_le c cs
  | case6 s c cs hs =>
    rw [hs, List.length_cons]
    exact Lexeme.length_rest_le c cs

/-! ## All calls -/

/-- The place in a text after the given number of calls. -/
def place (text : List Char) : Nat → Scanner
  | 0 => start text
  | n + 1 => (place text n).next.2

/-- After any number of calls, the scanner is at a place of the text. -/
theorem isAt_place (text : List Char) (n : Nat) : (place text n).IsAt text := by
  induction n with
  | zero => exact isAt_start text
  | succ n ih => exact isAt_next ih

/-- Every call uses up a character, until there is none. -/
theorem length_rest_place_le (text : List Char) (n : Nat) :
    (place text n).rest.length ≤ text.length - n := by
  induction n with
  | zero => exact Nat.le_refl _
  | succ n ih =>
    have hnext := length_rest_next_le (place text n)
    rw [place]
    omega

/-- After as many calls as there are characters, there is nothing left. -/
theorem rest_place_length (text : List Char) : (place text text.length).rest = [] := by
  have h := length_rest_place_le text text.length
  rw [Nat.sub_self] at h
  exact List.length_eq_zero_iff.1 (Nat.le_zero.1 h)

/-- Every token of a text is what one of the calls gives. -/
theorem exists_place_of_mem_tokens {ts : List Token} {t : Token} {n : Nat}
    (h : (place text n).tokens = .ok ts) (ht : t ∈ ts) :
    ∃ m, (place text m).next.1 = .ok (some t) := by
  -- The recursion of `tokens` moves the scanner, and the number of calls with it.
  generalize hs : place text n = s at h
  fun_induction tokens s generalizing ts n with
  | case1 s after hnext =>
    cases h
    cases ht
  | case2 s u after hnext ih =>
    cases htail : after.tokens with
    | error f =>
      rw [htail] at h
      cases h
    | ok us =>
      rw [htail] at h
      cases h
      rcases List.mem_cons.1 ht with rfl | ht
      · exact ⟨n, by rw [hs, hnext]⟩
      · exact ih ht (n := n + 1) (by rw [place, hs, hnext]) htail
  | case3 s f after hnext => cases h

/-- There are no more tokens than characters. -/
theorem length_tokens_le {ts : List Token} (h : s.tokens = .ok ts) : ts.length ≤ s.rest.length := by
  fun_induction tokens s generalizing ts with
  | case1 s after hnext =>
    cases h
    exact Nat.zero_le _
  | case2 s t after hnext ih =>
    have hlt := rest_lt_of_next hnext
    cases htail : after.tokens with
    | error f =>
      rw [htail] at h
      cases h
    | ok us =>
      rw [htail] at h
      cases h
      have hle := ih htail
      rw [List.length_cons]
      omega
  | case3 s f after hnext => cases h

end Scanner

end Toal
