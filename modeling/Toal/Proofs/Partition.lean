import Toal.Proofs.Literals

/-!
# A text falls into pieces

Scanning goes through a text piece by piece, and goes on after a fault as it does
after a token. What the pieces are can be said without a scanner: which characters
make up a token, a blank or a comment, where the rest of the text follows them
(`Piece.Stands`). Names and numerals are the longest that can be read at their place
(`Longest`). Where nothing stands, the first character is unexpected (`Piece.Fits`).

* `first_fits`: the scanner takes off pieces of this kind and no others.
* `partition_of_calls`: however often the scanner is called, what it has gone through
  falls into pieces that lie side by side, and what the calls have given are the
  tokens and faults among them, in order.
-/

namespace Toal

open Source Number
open Script (Contents)

/-! ## Pieces -/

/-- The characters of a name. -/
def IsNameText : List Char → Prop
  | [] => False
  | c :: cs => isNameStart c = true ∧ ∀ d ∈ cs, isNameRest d = true

/-- The characters of a numeral without a sign: digits, or digits with a point
    between them. -/
def IsUnsigned (cs : List Char) : Prop :=
  isDigits cs = true ∨
    ∃ whole fraction, cs = whole ++ '.' :: fraction ∧ isDigits whole = true ∧
      isDigits fraction = true

/-- The characters of a numeral. -/
def IsNumeral (cs : List Char) : Prop :=
  IsUnsigned cs ∨ ∃ ds, cs = '-' :: ds ∧ IsUnsigned ds

/-- Among the beginnings of the text `chars ++ rest` that satisfy `P`, the first part
    is the longest. -/
def Longest (P : List Char → Prop) (chars rest : List Char) : Prop :=
  P chars ∧ ∀ cs, cs <+: chars ++ rest → P cs → cs <+: chars

/-- The kind of token that a name is: a keyword if it is a reserved word. -/
def IsNameKind (kind : Token.Kind) (name : List Char) : Prop :=
  (∃ k : Keyword, kind = .keyword k ∧ k.text = String.ofList name) ∨
    (kind = .ident ∧ ∀ k : Keyword, k.text ≠ String.ofList name)

/-- The piece stands at the beginning of a text, of which it takes the first
    characters and leaves the rest. -/
inductive Piece.Stands : Piece → List Char → List Char → Prop
  | punctuation {c kind rest} : Lexeme.punctuation? c = some kind →
      Stands (.token kind [c]) [c] rest
  | arrow {rest} : Stands (.token .arrow ['-', '>']) ['-', '>'] rest
  | name {kind chars rest} : Longest IsNameText chars rest → IsNameKind kind chars →
      Stands (.token kind chars) chars rest
  | numeral {chars rest} : Longest IsNumeral chars rest → Stands (.token .numeral chars) chars rest
  /-- The text of a quoted word is what stands between the quotes. -/
  | word {contents rest} : Contents contents →
      Stands (.token .word contents) ('"' :: contents ++ ['"']) rest
  | blank {c rest} : c = ' ' ∨ c = '\t' ∨ c = '\r' ∨ c = '\n' → Stands .blank [c] rest
  /-- The line feed after a comment is not part of it. -/
  | comment {chars rest} : '\n' ∉ chars → (rest = [] ∨ ∃ rest', rest = '\n' :: rest') →
      Stands .comment ('/' :: '/' :: chars) rest
  /-- A quote that is never closed takes all there is. -/
  | unterminated {chars} : (∀ contents rest, Contents contents → contents ++ '"' :: rest ≠ chars) →
      Stands .unterminated ('"' :: chars) []

/-- The piece is the first of a text, of which it takes the first characters and
    leaves the rest. A character is unexpected if nothing else stands there. -/
def Piece.Fits (p : Piece) (chars rest : List Char) : Prop :=
  p.Stands chars rest ∨
    ∃ c, p = .unexpected c ∧ chars = [c] ∧
      ∀ (q : Piece) (chars' rest' : List Char), chars' ++ rest' = c :: rest → ¬q.Stands chars' rest'

/-! ## The longest names and numerals -/

/-- What begins a text and has characters of a kind only begins its run of that kind. -/
theorem prefix_takeWhile {p : Char → Bool} {ds cs : List Char} (hp : ∀ d ∈ ds, p d = true)
    (h : ds <+: cs) : ds <+: cs.takeWhile p := by
  obtain ⟨rest, rfl⟩ := h
  rw [List.takeWhile_append_of_pos hp]
  exact List.prefix_append _ _

theorem isDigits_iff {ds : List Char} :
    isDigits ds = true ↔ ds ≠ [] ∧ ∀ d ∈ ds, d.isDigit = true := by
  simp [isDigits]

theorem not_isUnsigned_nil : ¬IsUnsigned [] := by
  rintro (h | ⟨whole, fraction, h, -⟩)
  · cases h
  · exact List.append_ne_nil_of_right_ne_nil whole (List.cons_ne_nil '.' fraction) h.symm

/-- A numeral without a sign begins with a digit. -/
theorem isDigit_of_isUnsigned {c : Char} {cs : List Char} (h : IsUnsigned (c :: cs)) :
    c.isDigit = true := by
  rcases h with h | ⟨whole, fraction, heq, hwhole, -⟩
  · exact (isDigits_iff.1 h).2 c List.mem_cons_self
  · cases whole with
    | nil => cases hwhole
    | cons d whole =>
      obtain ⟨rfl, -⟩ := List.cons.inj heq
      exact (isDigits_iff.1 hwhole).2 c List.mem_cons_self

/-- The longest name that a text begins with is its run of characters of names. -/
theorem longest_name {c : Char} (hc : isNameStart c = true) (cs : List Char) :
    Longest IsNameText (c :: cs.takeWhile isNameRest) (cs.dropWhile isNameRest) := by
  refine ⟨⟨hc, fun d hd => List.mem_takeWhile_imp hd⟩, ?_⟩
  rintro (_ | ⟨d, ds⟩) hbegins hname
  · exact hname.elim
  · rw [List.cons_append, List.takeWhile_append_dropWhile, List.cons_prefix_cons] at hbegins
    exact List.cons_prefix_cons.2 ⟨hbegins.1, prefix_takeWhile hname.2 hbegins.2⟩

namespace Lexeme

/-- A numeral begins with the run of digits that the text begins with. -/
theorem takeWhile_prefix_numeral (cs : List Char) :
    cs.takeWhile Char.isDigit <+: (numeral cs).1 := by
  unfold numeral
  dsimp only
  split
  · split
    · exact List.prefix_append _ _
    · exact List.prefix_rfl
  · exact List.prefix_rfl

/-- A point and a digit after the whole part begin the fraction. -/
theorem numeral_fraction {whole more : List Char} {d : Char}
    (hwhole : ∀ c ∈ whole, c.isDigit = true) (hd : d.isDigit = true) :
    (numeral (whole ++ '.' :: d :: more)).1 =
      whole ++ '.' :: d :: more.takeWhile Char.isDigit := by
  have htake : (whole ++ '.' :: d :: more).takeWhile Char.isDigit = whole := by
    rw [List.takeWhile_append_of_pos hwhole]
    simp
  have hdrop : (whole ++ '.' :: d :: more).dropWhile Char.isDigit = '.' :: d :: more := by
    rw [List.dropWhile_append_of_pos hwhole]
    simp
  rw [numeral, htake, hdrop]
  exact congrArg Prod.fst (if_pos hd)

/-- Every numeral that a text begins with begins the one that is taken. -/
theorem prefix_numeral {ds cs : List Char} (h : IsUnsigned ds) (hbegins : ds <+: cs) :
    ds <+: (numeral cs).1 := by
  rcases h with hds | ⟨whole, fraction, rfl, hwhole, hfraction⟩
  · exact (prefix_takeWhile (isDigits_iff.1 hds).2 hbegins).trans (takeWhile_prefix_numeral cs)
  · obtain ⟨rest, rfl⟩ := hbegins
    obtain ⟨hne, hdigits⟩ := isDigits_iff.1 hfraction
    obtain ⟨d, more, rfl⟩ := List.exists_cons_of_ne_nil hne
    obtain ⟨hd, hmore⟩ := List.forall_mem_cons.1 hdigits
    have heq : (numeral (whole ++ '.' :: d :: (more ++ rest))).1 = _ :=
      numeral_fraction (isDigits_iff.1 hwhole).2 hd
    rw [List.append_assoc, List.cons_append, List.cons_append, heq,
      List.takeWhile_append_of_pos hmore]
    refine (List.prefix_append_right_inj whole).2 ?_
    exact List.cons_prefix_cons.2 ⟨rfl, List.cons_prefix_cons.2 ⟨rfl, List.prefix_append _ _⟩⟩

/-- What is taken from a digit on is a numeral. -/
theorem isUnsigned_numeral {d : Char} (hd : d.isDigit = true) (cs : List Char) :
    IsUnsigned (numeral (d :: cs)).1 := by
  unfold numeral
  dsimp only
  split
  · split
    · next hfirst =>
      refine .inr ⟨_, _, rfl, isDigits_takeWhile_cons hd cs, ?_⟩
      rw [← List.takeWhile_cons_of_pos hfirst]
      exact isDigits_takeWhile_cons hfirst _
    · exact .inl (isDigits_takeWhile_cons hd cs)
  · exact .inl (isDigits_takeWhile_cons hd cs)

/-- The longest numeral that a text begins with is the one that is taken. -/
theorem longest_numeral {d : Char} (hd : d.isDigit = true) (cs : List Char) :
    Longest IsNumeral (numeral (d :: cs)).1 (numeral (d :: cs)).2 := by
  refine ⟨.inl (isUnsigned_numeral hd cs), fun ds hbegins hds => ?_⟩
  rw [numeral_append] at hbegins
  rcases hds with hds | ⟨ds, rfl, -⟩
  · exact prefix_numeral hds hbegins
  · -- The text begins with a digit and not with a minus.
    obtain ⟨rfl, -⟩ := List.cons_prefix_cons.1 hbegins
    cases hd

/-- The longest numeral after a minus is the one that is taken. -/
theorem longest_numeral_minus {d : Char} (hd : d.isDigit = true) (cs : List Char) :
    Longest IsNumeral ('-' :: (numeral (d :: cs)).1) (numeral (d :: cs)).2 := by
  refine ⟨.inr ⟨_, rfl, isUnsigned_numeral hd cs⟩, fun ds hbegins hds => ?_⟩
  rw [List.cons_append, numeral_append] at hbegins
  rcases hds with hds | ⟨ds, rfl, hds⟩
  · cases ds with
    | nil => exact List.nil_prefix
    | cons c ds =>
      obtain ⟨rfl, -⟩ := List.cons_prefix_cons.1 hbegins
      exact absurd (isDigit_of_isUnsigned hds) (by decide)
  · exact List.cons_prefix_cons.2 ⟨rfl, prefix_numeral hds (List.cons_prefix_cons.1 hbegins).2⟩

/-! ## The first piece -/

theorem isNameKind_nameKind (name : List Char) : IsNameKind (nameKind name) name := by
  unfold nameKind Keyword.ofText?
  cases hfind : Keyword.all.find? (·.text == String.ofList name) with
  | some k =>
    have htext := List.find?_some hfind
    exact .inl ⟨k, rfl, beq_iff_eq.1 htext⟩
  | none =>
    refine .inr ⟨rfl, fun k hk => ?_⟩
    have hmem : k ∈ Keyword.all := by cases k <;> decide
    exact absurd (beq_iff_eq.2 hk) (List.find?_eq_none.1 hfind k hmem)

/-- The first quote that is not escaped closes a word. -/
theorem quoted?_of_contents {contents : List Char} (h : Contents contents) (rest : List Char) :
    quoted? (contents ++ '"' :: rest) = some (contents, rest) := by
  induction h with
  | nil => rfl
  | escape h ih => simp [quoted?, ih]
  | plain hquote hbackslash h ih => simp [quoted?, hbackslash, ih]

/-- The ways in which a piece can begin that is not an unexpected character. -/
def Opens (c : Char) (cs : List Char) : Prop :=
  (punctuation? c).isSome = true ∨ isBlank c = true ∨ c = '"' ∨
    (c = '-' ∧ ∃ d ds, cs = d :: ds ∧ (d = '>' ∨ d.isDigit = true)) ∨
    (c = '/' ∧ ∃ ds, cs = '/' :: ds) ∨ c.isDigit = true ∨ isNameStart c = true

/-- A piece stands only where one opens. -/
theorem opens_of_stands {p : Piece} {chars rest cs : List Char} {c : Char}
    (h : p.Stands chars rest) (heq : chars ++ rest = c :: cs) : Opens c cs := by
  cases h with
  | punctuation hkind =>
    obtain ⟨rfl, -⟩ := List.cons.inj heq
    exact .inl (Option.isSome_iff_exists.2 ⟨_, hkind⟩)
  | arrow =>
    obtain ⟨rfl, rfl⟩ := List.cons.inj heq
    exact .inr (.inr (.inr (.inl ⟨rfl, _, _, rfl, .inl rfl⟩)))
  | name hname _ =>
    cases chars with
    | nil => exact hname.1.elim
    | cons d ds =>
      obtain ⟨rfl, -⟩ := List.cons.inj heq
      exact .inr (.inr (.inr (.inr (.inr (.inr hname.1.1)))))
  | numeral hnumeral =>
    rcases hnumeral.1 with hunsigned | ⟨ds, rfl, hunsigned⟩
    · cases chars with
      | nil => exact absurd hunsigned not_isUnsigned_nil
      | cons d ds =>
        obtain ⟨rfl, -⟩ := List.cons.inj heq
        exact .inr (.inr (.inr (.inr (.inr (.inl (isDigit_of_isUnsigned hunsigned))))))
    · cases ds with
      | nil => exact absurd hunsigned not_isUnsigned_nil
      | cons d ds =>
        obtain ⟨rfl, rfl⟩ := List.cons.inj heq
        exact .inr (.inr (.inr (.inl ⟨rfl, _, _, rfl, .inr (isDigit_of_isUnsigned hunsigned)⟩)))
  | word _ =>
    obtain ⟨rfl, -⟩ := List.cons.inj heq
    exact .inr (.inr (.inl rfl))
  | blank hc =>
    obtain ⟨rfl, -⟩ := List.cons.inj heq
    exact .inr (.inl (by simpa [isBlank, or_assoc] using hc))
  | comment _ _ =>
    obtain ⟨rfl, rfl⟩ := List.cons.inj heq
    exact .inr (.inr (.inr (.inr (.inl ⟨rfl, _, rfl⟩))))
  | unterminated _ =>
    obtain ⟨rfl, -⟩ := List.cons.inj heq
    exact .inr (.inr (.inl rfl))

/-- A character that opens no piece is unexpected. -/
theorem fits_unexpected {c : Char} {cs : List Char} (h : ¬Opens c cs) :
    (Piece.unexpected c).Fits [c] cs :=
  .inr ⟨c, rfl, rfl, fun _ _ _ heq hstands => h (opens_of_stands hstands heq)⟩

/-- A minus begins an arrow or a numeral and nothing else. -/
theorem not_opens_minus {cs : List Char}
    (hcs : ∀ d ds, cs = d :: ds → d ≠ '>' ∧ d.isDigit = false) : ¬Opens '-' cs := by
  rintro (h | h | h | ⟨-, d, ds, rfl, h⟩ | ⟨h, -⟩ | h | h)
  · cases h
  · cases h
  · cases h
  · obtain ⟨harrow, hdigit⟩ := hcs d ds rfl
    rcases h with h | h
    · exact harrow h
    · rw [hdigit] at h
      cases h
  · cases h
  · cases h
  · exact absurd h (by decide)

/-- A slash begins a comment and nothing else. -/
theorem not_opens_slash {cs : List Char} (hcs : ∀ ds, cs ≠ '/' :: ds) : ¬Opens '/' cs := by
  rintro (h | h | h | ⟨h, -⟩ | ⟨-, ds, rfl⟩ | h | h)
  · cases h
  · cases h
  · cases h
  · cases h
  · exact hcs ds rfl
  · cases h
  · exact absurd h (by decide)

/-- What follows a comment is nothing or a line feed. -/
theorem dropWhile_line (cs : List Char) :
    cs.dropWhile (· ≠ '\n') = [] ∨ ∃ rest, cs.dropWhile (· ≠ '\n') = '\n' :: rest := by
  cases hdrop : cs.dropWhile (· ≠ '\n') with
  | nil => exact .inl rfl
  | cons c rest =>
    have hhead := List.head?_dropWhile_not (· ≠ '\n') cs
    rw [hdrop] at hhead
    have hc : c = '\n' := by simpa using hhead
    exact .inr ⟨rest, by rw [hc]⟩

/-- The scanner takes off what stands at the beginning of the text. -/
theorem first_fits (c : Char) (cs : List Char) :
    (first c cs).piece.Fits (first c cs).taken (first c cs).rest := by
  unfold first
  -- One case for each way in which a piece can begin, in the order of `first`.
  split
  · next hkind => exact .inl (.punctuation hkind)
  next hpunctuation =>
  have hnone : (punctuation? c).isSome = false := by
    cases h : punctuation? c with
    | none => rfl
    | some kind => exact absurd h (hpunctuation kind)
  split
  · next hblank => exact .inl (.blank (by simpa [isBlank, or_assoc] using hblank))
  next hblank =>
  split
  · next hquote =>
    subst hquote
    split
    · next hquoted => exact .inl (.word (Script.contents_of_quoted? hquoted))
    · next hquoted =>
      refine .inl (.unterminated fun contents rest hcontents heq => ?_)
      rw [← heq, quoted?_of_contents hcontents] at hquoted
      cases hquoted
  next hquote =>
  split
  · next hminus =>
    subst hminus
    split
    · exact .inl .arrow
    · next d tail harrow =>
      split
      · next hd => exact .inl (.numeral (longest_numeral_minus hd _))
      · next hd =>
        refine fits_unexpected (not_opens_minus fun d' ds heq => ?_)
        cases heq
        exact ⟨harrow, Bool.eq_false_iff.2 hd⟩
    · exact fits_unexpected (not_opens_minus fun d ds heq => by cases heq)
  next hminus =>
  split
  · next hslash =>
    subst hslash
    split
    · next tail =>
      refine .inl (.comment (fun hmem => ?_) (dropWhile_line tail))
      have hne := List.mem_takeWhile_imp hmem
      simp at hne
    · next hcomment => exact fits_unexpected (not_opens_slash hcomment)
  next hslash =>
  split
  · next hd => exact .inl (.numeral (longest_numeral hd cs))
  next hd =>
  split
  · next hstart => exact .inl (.name (longest_name hstart cs) (isNameKind_nameKind _))
  · next hstart =>
    refine fits_unexpected ?_
    rintro (h | h | h | ⟨h, -⟩ | ⟨h, -⟩ | h | h)
    · rw [hnone] at h
      cases h
    · exact hblank h
    · exact hquote h
    · exact hminus h
    · exact hslash h
    · exact hd h
    · exact hstart h

end Lexeme

/-! ## Partitions -/

/-- A piece of a text, with its characters and its place. -/
structure Segment where
  /-- What the piece is. -/
  piece : Piece
  /-- The characters of the piece. -/
  chars : List Char
  /-- Where the piece stands. -/
  span : Span

/-- The token or fault that a segment is; blanks and comments are neither. -/
def Segment.answer? (g : Segment) : Option (Except Fault Token) :=
  match g.piece with
  | .token kind text => some (.ok ⟨kind, String.ofList text, g.span⟩)
  | .unexpected c => some (.error ⟨.unexpectedCharacter c, some g.span⟩)
  | .unterminated => some (.error ⟨.unterminatedWord, some g.span⟩)
  | .blank => none
  | .comment => none

/-- The part of the text before the place falls into the segments: they lie side by
    side from the start of the text to the place, and each of them is the first piece
    of what is left of the text where it begins. -/
structure IsPartition (text : List Char) (place : Scanner) (gs : List Segment) : Prop where
  chars : gs.flatMap (·.chars) ++ place.rest = text
  bounds : 0 :: gs.map (·.span.hi) = gs.map (·.span.lo) ++ [place.offset]
  slice : ∀ g ∈ gs, IsSlice text g.span g.chars
  fits : ∀ before g after, gs = before ++ g :: after →
    g.piece.Fits g.chars (after.flatMap (·.chars) ++ place.rest)

namespace Scanner

/-- The token or fault that a call gives, if it does not come to the end of the
    text. -/
def answer? : Except Fault (Option Token) → Option (Except Fault Token)
  | .ok none => none
  | .ok (some t) => some (.ok t)
  | .error f => some (.error f)

/-- Going from one place to another, the scanner crosses the segments. -/
inductive Crosses : Scanner → List Segment → Scanner → Prop
  | nil {s} : Crosses s [] s
  | cons {s t p chars rest gs} : chars ++ rest = s.rest → p.Fits chars rest →
      Crosses ⟨s.offset + byteLength chars, rest⟩ gs t →
      Crosses s (⟨p, chars, ⟨s.offset, s.offset + byteLength chars⟩⟩ :: gs) t

namespace Crosses

variable {s t r : Scanner} {gs hs : List Segment}

/-- Crossings can be put together. -/
theorem append (h : Crosses s gs t) (h' : Crosses t hs r) : Crosses s (gs ++ hs) r := by
  induction h with
  | nil => exact h'
  | cons heq hfits _ ih => exact .cons heq hfits (ih h')

/-- The characters of the pieces are those of the text that is crossed. -/
theorem chars_eq (h : Crosses s gs t) : gs.flatMap (·.chars) ++ t.rest = s.rest := by
  induction h with
  | nil => rfl
  | cons heq _ _ ih => rw [List.flatMap_cons, List.append_assoc, ih, heq]

/-- Each piece ends where the next begins. -/
theorem bounds (h : Crosses s gs t) :
    s.offset :: gs.map (·.span.hi) = gs.map (·.span.lo) ++ [t.offset] := by
  induction h with
  | nil => rfl
  | cons _ _ _ ih =>
    rw [List.map_cons, List.map_cons, List.cons_append, ← ih]

/-- Each piece is the slice of the text at its span. -/
theorem slice {text : List Char} (h : Crosses s gs t) (hs : s.IsAt text) :
    ∀ g ∈ gs, IsSlice text g.span g.chars := by
  induction h with
  | nil => exact List.forall_mem_nil _
  | @cons s t p chars rest gs heq _ _ ih =>
    obtain ⟨before, rfl, hoffset⟩ := isAt_iff.1 hs
    refine List.forall_mem_cons.2 ⟨⟨before, rest, by rw [heq], by rw [hoffset]⟩, ih ?_⟩
    refine isAt_iff.2 ⟨before ++ chars, ?_, ?_⟩
    · rw [List.append_assoc, heq]
    · rw [byteLength_append, hoffset]

/-- Each piece fits what follows it. -/
theorem fits (h : Crosses s gs t) : ∀ before g after, gs = before ++ g :: after →
    g.piece.Fits g.chars (after.flatMap (·.chars) ++ t.rest) := by
  induction h with
  | nil => exact fun before g after heq => absurd heq.symm (by simp)
  | cons _ hfits hrest ih =>
    rintro (_ | ⟨g', before⟩) g after heq
    · obtain ⟨rfl, rfl⟩ := List.cons.inj heq
      rw [hrest.chars_eq]
      exact hfits
    · exact ih before g after (List.cons.inj heq).2

/-- What crosses a text from its start is a partition of it. -/
theorem isPartition {text : List Char} (h : Crosses (start text) gs t) : IsPartition text t gs :=
  ⟨h.chars_eq, h.bounds, h.slice (isAt_start text), h.fits⟩

end Crosses

/-- The scanner crosses the next piece. -/
theorem crosses_first {s t : Scanner} {c : Char} {cs : List Char} {gs : List Segment}
    (hs : s.rest = c :: cs) (h : Crosses (s.after (Lexeme.first c cs)) gs t) :
    Crosses s (⟨(Lexeme.first c cs).piece, (Lexeme.first c cs).taken,
      ⟨s.offset, (s.after (Lexeme.first c cs)).offset⟩⟩ :: gs) t :=
  .cons (by rw [Lexeme.first_append, hs]) (Lexeme.first_fits c cs) h

/-- A call crosses some blanks and comments, and then what it gives. -/
theorem crosses_next (s : Scanner) :
    ∃ gs, Crosses s gs s.next.2 ∧ gs.filterMap Segment.answer? = (answer? s.next.1).toList := by
  fun_induction next s with
  | case1 s hs => exact ⟨[], .nil, rfl⟩
  | case2 s c cs hs lexeme place span kind contents hp =>
    refine ⟨_, crosses_first hs .nil, ?_⟩
    simp [Segment.answer?, answer?, lexeme, hp, span, place]
  | case3 s c cs hs lexeme place hp ih =>
    obtain ⟨gs, hcrosses, hanswers⟩ := ih
    refine ⟨_, crosses_first hs hcrosses, ?_⟩
    rw [List.filterMap_cons_none (by simp [Segment.answer?, hp, lexeme]), hanswers]
  | case4 s c cs hs lexeme place hp ih =>
    obtain ⟨gs, hcrosses, hanswers⟩ := ih
    refine ⟨_, crosses_first hs hcrosses, ?_⟩
    rw [List.filterMap_cons_none (by simp [Segment.answer?, hp, lexeme]), hanswers]
  | case5 s c cs hs lexeme place span d hp =>
    refine ⟨_, crosses_first hs .nil, ?_⟩
    simp [Segment.answer?, answer?, lexeme, hp, span, place]
  | case6 s c cs hs lexeme place span hp =>
    refine ⟨_, crosses_first hs .nil, ?_⟩
    simp [Segment.answer?, answer?, lexeme, hp, span, place]

/-- Several calls cross what each of them crosses. -/
theorem crosses_place (text : List Char) (n : Nat) :
    ∃ gs, Crosses (start text) gs (place text n) ∧ gs.filterMap Segment.answer? =
      (List.range n).filterMap fun k => answer? (place text k).next.1 := by
  induction n with
  | zero => exact ⟨[], .nil, rfl⟩
  | succ n ih =>
    obtain ⟨gs, hcrosses, hanswers⟩ := ih
    obtain ⟨hs, hnext, hanswer⟩ := crosses_next (place text n)
    refine ⟨gs ++ hs, hcrosses.append hnext, ?_⟩
    rw [List.filterMap_append, hanswers, hanswer, List.range_succ, List.filterMap_append]
    cases hn : answer? (place text n).next.1 <;> simp [hn]

/-! ## The end of a text -/

/-- The scanner stands at the end of the text if and only if nothing is left of it. -/
theorem IsAt.offset_eq_iff {s : Scanner} {text : List Char} (h : s.IsAt text) :
    s.offset = byteLength text ↔ s.rest = [] := by
  obtain ⟨before, rfl, hoffset⟩ := isAt_iff.1 h
  rw [hoffset, byteLength_append]
  cases s.rest with
  | nil => simp [byteLength]
  | cons c cs =>
    have hc := c.utf8Size_pos
    simp only [byteLength, List.cons_ne_nil, iff_false]
    omega

/-- A scanner that has fewer characters left has come further. -/
theorem IsAt.offset_lt {s t : Scanner} {text : List Char} (hs : s.IsAt text) (ht : t.IsAt text)
    (h : t.rest.length < s.rest.length) : s.offset < t.offset := by
  obtain ⟨before, rfl, hoffset⟩ := isAt_iff.1 hs
  obtain ⟨before', heq, hoffset'⟩ := isAt_iff.1 ht
  -- The longer beginning of the text has the shorter one as its own beginning.
  have hlength := congrArg List.length heq
  simp only [List.length_append] at hlength
  have hbegins : before <+: before' :=
    List.prefix_of_prefix_length_le ⟨_, rfl⟩ ⟨_, heq⟩ (by omega)
  obtain ⟨passed, rfl⟩ := hbegins
  cases passed with
  | nil =>
    simp only [List.append_nil] at hlength
    omega
  | cons c passed =>
    have hc := c.utf8Size_pos
    rw [hoffset, hoffset', byteLength_append, byteLength]
    omega

/-- At the end of a text there is no token. -/
theorem next_of_rest_eq_nil {s : Scanner} (h : s.rest = []) : s.next = (.ok none, s) := by
  fun_cases next s with
  | case1 => rfl
  | _ => simp_all

/-- If there is no token, then the text has ended. -/
theorem rest_of_next_eq_none {s : Scanner} (h : s.next.1 = .ok none) : s.next.2.rest = [] := by
  fun_induction next s with
  | case1 s hs => exact hs
  | case2 s c cs hs lexeme place span kind contents hp => cases h
  | case3 s c cs hs lexeme place hp ih => exact ih h
  | case4 s c cs hs lexeme place hp ih => exact ih h
  | case5 s c cs hs lexeme place span d hp => cases h
  | case6 s c cs hs lexeme place span hp => cases h

/-- The empty span at the place. -/
def here (s : Scanner) : Span := ⟨s.offset, s.offset⟩

/-- However often the scanner is called on a text, and whether or not it has come upon
    faults, it stands at a boundary, and what it has gone through falls into pieces; the
    tokens and faults among them are what the calls have given. Before the end of the
    text every call takes it further. A call gives nothing only if it comes to the end,
    which happens at some time, and from then on every call gives nothing and leaves the
    scanner there. -/
theorem partition_of_calls (text : List Char) (n : Nat) :
    (place text n).IsAt text ∧
    ((place text n).offset < byteLength text →
      (place text n).offset < (place text (n + 1)).offset) ∧
    (∃ gs, IsPartition text (place text n) gs ∧ gs.filterMap Segment.answer? =
      (List.range n).filterMap fun k => answer? (place text k).next.1) ∧
    ((place text n).next.1 = .ok none →
      (place text (n + 1)).here = ⟨byteLength text, byteLength text⟩) ∧
    ((place text n).offset = byteLength text → ∀ k, (place text (n + k)).next.1 = .ok none ∧
      (place text (n + k + 1)).here = ⟨byteLength text, byteLength text⟩) ∧
    (place text text.length).offset = byteLength text := by
  have hat := isAt_place text
  have hend : ∀ m, (place text m).rest = [] →
      (place text m).here = ⟨byteLength text, byteLength text⟩ := by
    intro m hrest
    rw [here, (hat m).offset_eq_iff.2 hrest]
  refine ⟨hat n, fun hlt => ?_, ?_, fun hnone => ?_, fun hoffset => ?_, ?_⟩
  · have hne : (place text n).rest ≠ [] := fun hnil => by
      rw [(hat n).offset_eq_iff.2 hnil] at hlt
      exact Nat.lt_irrefl _ hlt
    have hle := length_rest_next_le (place text n)
    have hpos := List.length_pos_iff.2 hne
    refine (hat n).offset_lt (hat (n + 1)) ?_
    rw [place]
    omega
  · obtain ⟨gs, hcrosses, hanswers⟩ := crosses_place text n
    exact ⟨gs, hcrosses.isPartition, hanswers⟩
  · exact hend (n + 1) (rest_of_next_eq_none hnone)
  · -- Once nothing is left, a call leaves the scanner where it is.
    have hstays : ∀ k, (place text (n + k)).rest = [] := by
      intro k
      induction k with
      | zero => exact (hat n).offset_eq_iff.1 hoffset
      | succ k ih =>
        rw [← Nat.add_assoc, place, next_of_rest_eq_nil ih]
        exact ih
    exact fun k => ⟨congrArg Prod.fst (next_of_rest_eq_nil (hstays k)), hend _ (hstays (k + 1))⟩
  · exact (hat text.length).offset_eq_iff.2 (rest_place_length text)

end Scanner

end Toal
