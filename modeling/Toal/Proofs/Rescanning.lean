import Toal.Proofs.Partition

/-!
# Scanning parts of a text

A scanner looks ahead no further than it must. What stands at the beginning of a text
still stands there if the text is cut off somewhere behind it (`Piece.Stands.of_prefix`)
or if a line feed and more text are put to its end (`Piece.Stands.newline`). So a stretch
of a text that begins and ends with tokens has the same tokens on its own, and two texts
on lines of their own have the tokens of the one and then those of the other.

All this is said of stretches of scanning, from one place to another
(`Scanner.Scans`). What the scanner makes of a text is such a stretch from the start to
the end (`Scanner.tokens_eq_ok_iff`).
-/

namespace Toal

open Source Number
open Script (Contents)

/-! ## What follows a piece -/

namespace Longest

variable {P : List Char → Prop} {chars rest chars' rest' : List Char}

/-- There is only one longest stretch at the beginning of a text. -/
theorem eq_of_append_eq (h : Longest P chars rest) (h' : Longest P chars' rest')
    (heq : chars ++ rest = chars' ++ rest') : chars = chars' := by
  have hle : chars <+: chars' := h'.2 chars (heq ▸ List.prefix_append _ _) h.1
  have hge : chars' <+: chars := h.2 chars' (heq ▸ List.prefix_append _ _) h'.1
  exact hle.eq_of_length_le hge.length_le

/-- What is longest before a text is longest before the beginning of that text. -/
theorem of_prefix (h : Longest P chars rest) (hrest : rest' <+: rest) : Longest P chars rest' :=
  ⟨h.1, fun cs hcs => h.2 cs (hcs.trans ((List.prefix_append_right_inj chars).2 hrest))⟩

/-- What cannot go over a character stays the longest before it. -/
theorem stop (h : Longest P chars rest) {c : Char} (hP : ∀ cs, P cs → c ∉ cs) (more : List Char) :
    Longest P chars (rest ++ c :: more) := by
  refine ⟨h.1, fun cs hcs hcsP => h.2 cs ?_ hcsP⟩
  rw [← List.append_assoc] at hcs
  rcases List.prefix_or_prefix_of_prefix hcs (List.prefix_append _ _) with hle | ⟨xs, rfl⟩
  · exact hle
  · cases xs with
    | nil => simp
    | cons x xs =>
      have hx : x = c :=
        (List.cons_prefix_cons.1 ((List.prefix_append_right_inj _).1 hcs)).1
      subst hx
      exact absurd (List.mem_append_right _ List.mem_cons_self) (hP _ hcsP)

end Longest

/-- The character stands in no name and in no numeral. -/
def Splits (c : Char) : Prop :=
  isNameRest c = false ∧ c.isDigit = false ∧ c ≠ '.' ∧ c ≠ '-'

instance (c : Char) : Decidable (Splits c) := inferInstanceAs (Decidable (_ ∧ _))

namespace Splits

variable {c : Char} {cs : List Char}

/-- A character that splits stands in no name. -/
theorem notMem_name (hc : Splits c) (h : IsNameText cs) : c ∉ cs := by
  cases cs with
  | nil => exact h.elim
  | cons d ds =>
    intro hmem
    have hrest : isNameRest c = true := by
      rcases List.mem_cons.1 hmem with rfl | hmem
      · -- A name may go on with whatever it may begin with.
        have hstart := h.1
        rw [isNameStart, Bool.or_eq_true] at hstart
        rw [isNameRest, Bool.or_eq_true, Bool.or_eq_true]
        exact hstart.imp_left .inl
      · exact h.2 _ hmem
    rw [hc.1] at hrest
    cases hrest

/-- A character that splits stands in no row of digits. -/
theorem notMem_digits (hc : Splits c) (h : isDigits cs = true) : c ∉ cs := by
  intro hmem
  have hdigit := (isDigits_iff.1 h).2 _ hmem
  rw [hc.2.1] at hdigit
  cases hdigit

/-- A character that splits stands in no numeral without a sign. -/
theorem notMem_unsigned (hc : Splits c) (h : IsUnsigned cs) : c ∉ cs := by
  rcases h with h | ⟨whole, fraction, rfl, hwhole, hfraction⟩
  · exact hc.notMem_digits h
  · simp [hc.notMem_digits hwhole, hc.notMem_digits hfraction, hc.2.2.1]

/-- A character that splits stands in no numeral. -/
theorem notMem_numeral (hc : Splits c) (h : IsNumeral cs) : c ∉ cs := by
  rcases h with h | ⟨ds, rfl, h⟩
  · exact hc.notMem_unsigned h
  · simp [hc.notMem_unsigned h, hc.2.2.2]

end Splits

/-- A line break splits. -/
theorem splits_newline : Splits '\n' := by decide

namespace Piece.Stands

variable {p : Piece} {chars rest rest' : List Char}

/-- What stands at the beginning of a text stands there too if the text ends earlier. -/
theorem of_prefix (h : p.Stands chars rest) (hrest : rest' <+: rest) : p.Stands chars rest' := by
  cases h with
  | punctuation hkind => exact .punctuation hkind
  | arrow => exact .arrow
  | name hname hkind => exact .name (hname.of_prefix hrest) hkind
  | numeral hnumeral => exact .numeral (hnumeral.of_prefix hrest)
  | word hcontents => exact .word hcontents
  | blank hc => exact .blank hc
  | comment hchars hend =>
    refine .comment hchars ?_
    cases rest' with
    | nil => exact .inl rfl
    | cons c rest' =>
      obtain ⟨tail, rfl⟩ := hrest
      rcases hend with hend | ⟨more, hend⟩
      · cases hend
      · obtain ⟨rfl, -⟩ := List.cons.inj hend
        exact .inr ⟨_, rfl⟩
  | unterminated hnever =>
    rw [List.prefix_nil.1 hrest]
    exact .unterminated hnever

/-- What stands at the beginning of a text stands there too if the text goes on after a
    line feed, unless it is a quote that is never closed. -/
theorem newline (h : p.Stands chars rest) (hp : p ≠ .unterminated) (more : List Char) :
    p.Stands chars (rest ++ '\n' :: more) := by
  cases h with
  | punctuation hkind => exact .punctuation hkind
  | arrow => exact .arrow
  | name hname hkind =>
    exact .name (hname.stop (fun _ => splits_newline.notMem_name) more) hkind
  | numeral hnumeral =>
    exact .numeral (hnumeral.stop (fun _ => splits_newline.notMem_numeral) more)
  | word hcontents => exact .word hcontents
  | blank hc => exact .blank hc
  | comment hchars hend =>
    refine .comment hchars (.inr ?_)
    rcases hend with rfl | ⟨tail, rfl⟩
    · exact ⟨_, rfl⟩
    · exact ⟨_, rfl⟩
  | unterminated hnever => exact absurd rfl hp

/-- A piece is not empty. -/
theorem ne_nil (h : p.Stands chars rest) : chars ≠ [] := by
  cases h with
  | name hname hkind =>
    rintro rfl
    exact hname.1
  | numeral hnumeral =>
    rintro rfl
    rcases hnumeral.1 with hunsigned | ⟨ds, hds, -⟩
    · exact not_isUnsigned_nil hunsigned
    · cases hds
  | _ => exact List.cons_ne_nil _ _

end Piece.Stands

/-! ## The piece that stands there is the one that is taken off -/

namespace Lexeme

variable {c : Char} {cs chars rest : List Char}

/-- The characters that begin neither a name nor a numeral without a sign. -/
def marks : List Char :=
  ['(', ')', '{', '}', '[', ']', ',', ';', ':', ' ', '\t', '\r', '\n', '"', '-', '/']

/-- Only marks are punctuation. -/
theorem punctuation?_of_notMem_marks (h : c ∉ marks) : punctuation? c = none := by
  unfold punctuation?
  split
  all_goals first
    | rfl
    | exact absurd (by decide) h

/-- What does not begin with a mark begins with a numeral, a name or a fault. -/
theorem first_of_notMem_marks (h : c ∉ marks) : first c cs =
    if c.isDigit then ⟨.token .numeral (numeral (c :: cs)).1, (numeral (c :: cs)).1,
      (numeral (c :: cs)).2⟩
    else if isNameStart c then ⟨.token (nameKind (c :: cs.takeWhile isNameRest))
      (c :: cs.takeWhile isNameRest), c :: cs.takeWhile isNameRest, cs.dropWhile isNameRest⟩
    else ⟨.unexpected c, [c], cs⟩ := by
  have hblank : ¬isBlank c = true := by
    intro hblank
    refine h ?_
    simp only [isBlank, Bool.or_eq_true, decide_eq_true_iff] at hblank
    rcases hblank with ((rfl | rfl) | rfl) | rfl <;> decide
  have hquote : c ≠ '"' := fun hc => h (hc ▸ by decide)
  have hminus : c ≠ '-' := fun hc => h (hc ▸ by decide)
  have hslash : c ≠ '/' := fun hc => h (hc ▸ by decide)
  unfold first
  rw [punctuation?_of_notMem_marks h]
  dsimp only
  rw [if_neg hblank, if_neg hquote, if_neg hminus, if_neg hslash]

/-- No digit is a mark. -/
theorem notMem_marks_of_isDigit (h : c.isDigit = true) : c ∉ marks := by
  intro hmem
  have hall : marks.all (!·.isDigit) = true := by decide
  have hnot := List.all_eq_true.1 hall c hmem
  rw [h] at hnot
  cases hnot

/-- No name begins with a mark. -/
theorem notMem_marks_of_isNameStart (h : isNameStart c = true) : c ∉ marks := by
  intro hmem
  have hall : marks.all (!isNameStart ·) = true := by decide
  have hnot := List.all_eq_true.1 hall c hmem
  rw [h] at hnot
  cases hnot

/-- No name begins with a digit. -/
theorem isDigit_eq_false_of_isNameStart (h : isNameStart c = true) : c.isDigit = false := by
  rw [Bool.eq_false_iff]
  intro hd
  have hrange : 48 ≤ c.toNat ∧ c.toNat ≤ 57 := by
    simpa [Char.isDigit, UInt32.le_iff_toNat_le] using hd
  have halphabetic : Text.isAlphabetic c = (c.isUpper || c.isLower) := if_pos (by omega)
  rw [isNameStart, halphabetic, Bool.or_eq_true, Bool.or_eq_true] at h
  rcases h with (h | h) | h
  · have hle : 'A'.toNat ≤ c.toNat := (of_decide_eq_true h).1
    exact absurd (Nat.le_trans hle hrange.2) (by decide)
  · have hle : 'a'.toNat ≤ c.toNat := of_decide_eq_true (Bool.and_eq_true_iff.1 h).1
    exact absurd (Nat.le_trans hle hrange.2) (by decide)
  · obtain rfl := of_decide_eq_true h
    cases hd

/-- A name has one kind. -/
theorem nameKind_eq {kind : Token.Kind} (h : IsNameKind kind chars) : nameKind chars = kind := by
  rcases h with ⟨k, rfl, htext⟩ | ⟨rfl, hnone⟩
  · have hfound : Keyword.ofText? k.text = some k := by cases k <;> decide
    rw [nameKind, ← htext, hfound]
  · rcases isNameKind_nameKind chars with ⟨k, -, htext⟩ | ⟨hkind, -⟩
    · exact absurd htext (hnone k)
    · exact hkind

/-- The name that stands there is taken off. -/
theorem first_name {kind : Token.Kind} (hname : Longest IsNameText chars rest)
    (hkind : IsNameKind kind chars) (heq : chars ++ rest = c :: cs) :
    first c cs = ⟨.token kind chars, chars, rest⟩ := by
  cases chars with
  | nil => exact hname.1.elim
  | cons d ds =>
    obtain ⟨rfl, rfl⟩ := List.cons.inj ((List.cons_append ..).symm.trans heq)
    have hstart : isNameStart d = true := hname.1.1
    have hlongest := longest_name hstart (ds ++ rest)
    have hchars : d :: ds = d :: (ds ++ rest).takeWhile isNameRest :=
      hname.eq_of_append_eq hlongest (by simp)
    have hrest : rest = (ds ++ rest).dropWhile isNameRest := by
      have htext := List.takeWhile_append_dropWhile (p := isNameRest) (l := ds ++ rest)
      rw [← (List.cons.inj hchars).2] at htext
      exact (List.append_cancel_left htext).symm
    rw [first_of_notMem_marks (notMem_marks_of_isNameStart hstart), if_neg
      (Bool.eq_false_iff.1 (isDigit_eq_false_of_isNameStart hstart)), if_pos hstart, ← hchars,
      ← hrest, nameKind_eq hkind]

theorem numeral_eq (hchars : (numeral cs).1 = chars) (heq : chars ++ rest = cs) :
    numeral cs = (chars, rest) := by
  have htext := numeral_append cs
  rw [hchars] at htext
  exact Prod.ext hchars (List.append_cancel_left (htext.trans heq.symm))

/-- A minus sign before a digit belongs to the numeral. -/
theorem first_minus {d : Char} (hd : d.isDigit = true) (ds : List Char) :
    first '-' (d :: ds) = ⟨.token .numeral ('-' :: (numeral (d :: ds)).1),
      '-' :: (numeral (d :: ds)).1, (numeral (d :: ds)).2⟩ := by
  have hpunctuation : punctuation? '-' = none := rfl
  unfold first
  rw [hpunctuation]
  dsimp only
  rw [if_neg (by decide), if_neg (by decide), if_pos rfl]
  split
  · next hcons =>
    cases hcons
    cases hd
  · next hcons =>
    cases hcons
    exact if_pos hd
  · next hnil => cases hnil

/-- The numeral that stands there is taken off. -/
theorem first_numeral (hnumeral : Longest IsNumeral chars rest) (heq : chars ++ rest = c :: cs) :
    first c cs = ⟨.token .numeral chars, chars, rest⟩ := by
  rcases hnumeral.1 with hunsigned | ⟨ds, rfl, hunsigned⟩
  · cases chars with
    | nil => exact absurd hunsigned not_isUnsigned_nil
    | cons d ds =>
      obtain ⟨rfl, rfl⟩ := List.cons.inj ((List.cons_append ..).symm.trans heq)
      have hd := isDigit_of_isUnsigned hunsigned
      have hchars : d :: ds = (numeral (d :: (ds ++ rest))).1 :=
        hnumeral.eq_of_append_eq (longest_numeral hd _) (numeral_append _).symm
      rw [first_of_notMem_marks (notMem_marks_of_isDigit hd), if_pos hd,
        numeral_eq hchars.symm rfl]
  · cases ds with
    | nil => exact absurd hunsigned not_isUnsigned_nil
    | cons d ds =>
      obtain ⟨rfl, rfl⟩ := List.cons.inj ((List.cons_append ..).symm.trans heq)
      have hd := isDigit_of_isUnsigned hunsigned
      have hchars : '-' :: d :: ds = '-' :: (numeral (d :: (ds ++ rest))).1 :=
        hnumeral.eq_of_append_eq (longest_numeral_minus hd _)
          (congrArg ('-' :: ·) (numeral_append _).symm)
      rw [List.cons_append, first_minus hd, numeral_eq (List.cons.inj hchars).2.symm rfl]

/-- What stands at the beginning of a text is the first piece of it. -/
theorem first_of_stands {p : Piece} (h : p.Stands chars rest) (heq : chars ++ rest = c :: cs) :
    first c cs = ⟨p, chars, rest⟩ := by
  cases h with
  | punctuation hkind =>
    obtain ⟨rfl, rfl⟩ := List.cons.inj ((List.cons_append ..).symm.trans heq)
    unfold first
    rw [hkind]
    rfl
  | arrow =>
    obtain ⟨rfl, rfl⟩ := List.cons.inj ((List.cons_append ..).symm.trans heq)
    rfl
  | name hname hkind => exact first_name hname hkind heq
  | numeral hnumeral => exact first_numeral hnumeral heq
  | @word contents _ hcontents =>
    obtain ⟨rfl, rfl⟩ := List.cons.inj ((List.cons_append ..).symm.trans heq)
    have hquoted := quoted?_of_contents hcontents rest
    unfold first
    simp [punctuation?, isBlank, hquoted]
  | blank hc =>
    obtain ⟨rfl, rfl⟩ := List.cons.inj ((List.cons_append ..).symm.trans heq)
    rcases hc with rfl | rfl | rfl | rfl <;> rfl
  | @comment chars _ hchars hend =>
    obtain ⟨rfl, rfl⟩ := List.cons.inj ((List.cons_append ..).symm.trans heq)
    have hplain : ∀ d ∈ chars, decide (d ≠ '\n') = true := fun d hd =>
      decide_eq_true fun hline => hchars (hline ▸ hd)
    have htake : (chars ++ rest).takeWhile (· ≠ '\n') = chars := by
      rw [List.takeWhile_append_of_pos hplain]
      rcases hend with rfl | ⟨more, rfl⟩ <;> simp
    have hdrop : (chars ++ rest).dropWhile (· ≠ '\n') = rest := by
      rw [List.dropWhile_append_of_pos hplain]
      rcases hend with rfl | ⟨more, rfl⟩ <;> simp
    change (⟨.comment, '/' :: '/' :: (chars ++ rest).takeWhile (· ≠ '\n'),
      (chars ++ rest).dropWhile (· ≠ '\n')⟩ : Lexeme) = _
    rw [htake, hdrop]
  | @unterminated chars hnever =>
    obtain ⟨rfl, rfl⟩ := List.cons.inj ((List.cons_append ..).symm.trans heq)
    have hquoted : quoted? chars = none := by
      cases hq : quoted? chars with
      | none => rfl
      | some found =>
        obtain ⟨contents, tail⟩ := found
        exact absurd (append_of_quoted? hq) (hnever _ _ (Script.contents_of_quoted? hq))
    unfold first
    simp [punctuation?, isBlank, hquoted]

/-- The piece that is taken off stands there, unless it is an unexpected character. -/
theorem stands_first {p : Piece} (h : (first c cs).piece = p) (hp : ∀ d, p ≠ .unexpected d) :
    p.Stands (first c cs).taken (first c cs).rest := by
  rcases first_fits c cs with hstands | ⟨d, hd, -⟩
  · rwa [h] at hstands
  · exact absurd (h.symm.trans hd) (hp d)

end Lexeme

/-! ## Stretches of scanning -/

/-- The span so many bytes further on. -/
def Source.Span.shift (n : Nat) (span : Span) : Span := ⟨span.lo + n, span.hi + n⟩

/-- The token so many bytes further on. -/
def Token.shift (n : Nat) (t : Token) : Token := { t with span := t.span.shift n }

namespace Scanner

/-- The place so many bytes further on, before the same text. -/
def shift (n : Nat) (s : Scanner) : Scanner := ⟨s.offset + n, s.rest⟩

/-- The place past some characters, before the rest of the text. -/
def past (s : Scanner) (chars rest : List Char) : Scanner :=
  ⟨s.offset + byteLength chars, rest⟩

/-- Going from one place to another, the scanner comes upon the tokens and upon no
    fault. -/
inductive Scans : Scanner → List Token → Scanner → Prop
  | nil {s} : Scans s [] s
  | skip {s t chars rest ts} {p : Piece} : p = .blank ∨ p = .comment → p.Stands chars rest →
      chars ++ rest = s.rest → Scans (s.past chars rest) ts t → Scans s ts t
  | token {s t kind text chars rest ts} : (Piece.token kind text).Stands chars rest →
      chars ++ rest = s.rest → Scans (s.past chars rest) ts t →
      Scans s (⟨kind, String.ofList text, ⟨s.offset, s.offset + byteLength chars⟩⟩ :: ts) t

/-- Going past characters and shifting may be exchanged. -/
theorem shift_past (n : Nat) (s : Scanner) (chars rest : List Char) :
    (s.past chars rest).shift n = (s.shift n).past chars rest :=
  congrArg (Scanner.mk · rest) (Nat.add_right_comm ..)

/-- Past characters of the text, the scanner is still at a place of the text. -/
theorem IsAt.past {s : Scanner} {text chars rest : List Char} (h : s.IsAt text)
    (heq : chars ++ rest = s.rest) : (s.past chars rest).IsAt text := by
  obtain ⟨before, rfl, hoffset⟩ := isAt_iff.1 h
  refine isAt_iff.2 ⟨before ++ chars, ?_, ?_⟩
  · rw [Scanner.past, List.append_assoc, heq]
  · rw [Scanner.past, byteLength_append, hoffset]

section Next

variable {s t : Scanner} {p : Piece} {kind : Token.Kind} {chars rest text : List Char}

/-- The token that stands there is next. -/
theorem next_of_token (h : (Piece.token kind text).Stands chars rest)
    (heq : chars ++ rest = s.rest) :
    s.next = (.ok (some ⟨kind, String.ofList text, ⟨s.offset, s.offset + byteLength chars⟩⟩),
      s.past chars rest) := by
  obtain ⟨offset, left⟩ := s
  obtain ⟨c, cs, hcons⟩ :=
    List.exists_cons_of_ne_nil (List.append_ne_nil_of_left_ne_nil h.ne_nil rest)
  obtain rfl : c :: cs = left := hcons.symm.trans heq
  rw [next]
  simp [Lexeme.first_of_stands h hcons, after, past]

/-- A blank or a comment that stands there is skipped. -/
theorem next_of_skip (hp : p = .blank ∨ p = .comment) (h : p.Stands chars rest)
    (heq : chars ++ rest = s.rest) : s.next = (s.past chars rest).next := by
  obtain ⟨offset, left⟩ := s
  obtain ⟨c, cs, hcons⟩ :=
    List.exists_cons_of_ne_nil (List.append_ne_nil_of_left_ne_nil h.ne_nil rest)
  obtain rfl : c :: cs = left := hcons.symm.trans heq
  rw [next]
  rcases hp with rfl | rfl <;> simp [Lexeme.first_of_stands h hcons, after, past]

/-- The token that is next is the first of the tokens. -/
theorem tokens_of_next {x : Token} (h : s.next = (.ok (some x), t)) :
    s.tokens = t.tokens.map (x :: ·) := by
  rw [tokens]
  split <;> simp_all

theorem tokens_of_next_eq (h : s.next = t.next) : s.tokens = t.tokens := by
  rw [tokens.eq_def s, tokens.eq_def t]
  split <;> split <;> simp_all

/-- A call goes past some blanks and comments and past the token that it gives. -/
theorem scans_next {x : Option Token} (h : s.next = (.ok x, t)) : Scans s x.toList t := by
  fun_induction next s with
  | case1 s hs =>
    cases h
    exact .nil
  | case2 s c cs hs lexeme place span kind text hp =>
    obtain ⟨hx, rfl⟩ := Prod.mk.inj h
    cases hx
    have hstands := Lexeme.stands_first hp fun _ h => Piece.noConfusion h
    exact .token hstands ((Lexeme.first_append c cs).trans hs.symm) .nil
  | case3 s c cs hs lexeme place hp ih =>
    have hstands := Lexeme.stands_first hp fun _ h => Piece.noConfusion h
    exact .skip (.inl rfl) hstands ((Lexeme.first_append c cs).trans hs.symm) (ih h)
  | case4 s c cs hs lexeme place hp ih =>
    have hstands := Lexeme.stands_first hp fun _ h => Piece.noConfusion h
    exact .skip (.inr rfl) hstands ((Lexeme.first_append c cs).trans hs.symm) (ih h)
  | case5 s c cs hs lexeme place span d hp => cases h
  | case6 s c cs hs lexeme place span hp => cases h

end Next

namespace Scans

variable {s t r : Scanner} {ts us : List Token}

/-- Stretches of scanning follow one upon the other. -/
theorem append (h : Scans s ts t) (h' : Scans t us r) : Scans s (ts ++ us) r := by
  induction h with
  | nil => exact h'
  | skip hp hstands heq _ ih => exact .skip hp hstands heq (ih h')
  | token hstands heq _ ih => exact .token hstands heq (ih h')

/-- The tokens from a place on are those up to another place and those from there on. -/
theorem tokens_eq (h : Scans s ts t) : s.tokens = t.tokens.map (ts ++ ·) := by
  induction h with
  | @nil s => cases s.tokens <;> rfl
  | skip hp hstands heq _ ih => rw [tokens_of_next_eq (next_of_skip hp hstands heq), ih]
  | @token s t kind text chars rest ts hstands heq _ ih =>
    rw [tokens_of_next (next_of_token hstands heq), ih]
    cases t.tokens <;> rfl

/-- Scanning leads from a place of the text to another. -/
theorem isAt {text : List Char} (h : Scans s ts t) (hs : s.IsAt text) : t.IsAt text := by
  induction h with
  | nil => exact hs
  | skip _ _ heq _ ih => exact ih (hs.past heq)
  | token _ heq _ ih => exact ih (hs.past heq)

/-- Scanning depends on the place only in the spans. -/
theorem shift (n : Nat) (h : Scans s ts t) :
    Scans (s.shift n) (ts.map (Token.shift n)) (t.shift n) := by
  induction h with
  | nil => exact .nil
  | skip hp hstands heq _ ih =>
    rw [shift_past] at ih
    exact .skip hp hstands heq ih
  | @token s t kind text chars rest ts hstands heq _ ih =>
    rw [shift_past] at ih
    have htoken := Scans.token (s := s.shift n) hstands heq ih
    rwa [Scanner.shift, Nat.add_right_comm] at htoken

/-- What is scanned further on is scanned from the place itself too, and the tokens are
    shifted. -/
theorem exists_of_shift {n : Nat} (h : Scans (s.shift n) ts t) :
    ∃ us r, Scans s us r ∧ us.map (Token.shift n) = ts ∧ r.shift n = t := by
  generalize hs : s.shift n = s' at h
  induction h generalizing s with
  | nil => exact ⟨[], s, .nil, rfl, hs⟩
  | skip hp hstands heq _ ih =>
    subst hs
    obtain ⟨us, r, hscans, hus, hr⟩ := ih (shift_past n s _ _)
    exact ⟨us, r, .skip hp hstands heq hscans, hus, hr⟩
  | token hstands heq _ ih =>
    subst hs
    obtain ⟨us, r, hscans, hus, hr⟩ := ih (shift_past n s _ _)
    refine ⟨_, r, .token hstands heq hscans, ?_, hr⟩
    rw [List.map_cons, hus, Token.shift, Span.shift, Scanner.shift, Nat.add_right_comm]

/-- A line feed and more text at the end of a text make no difference to the tokens before
    them. -/
theorem newline (h : Scans s ts t) (more : List Char) :
    Scans ⟨s.offset, s.rest ++ '\n' :: more⟩ ts ⟨t.offset, t.rest ++ '\n' :: more⟩ := by
  induction h with
  | nil => exact .nil
  | @skip s t chars rest ts p hp hstands heq _ ih =>
    have hclosed : p ≠ .unterminated := by
      rintro rfl
      rcases hp with h | h <;> cases h
    exact .skip hp (hstands.newline hclosed more) (by rw [← List.append_assoc, heq]) ih
  | token hstands heq _ ih =>
    exact .token (hstands.newline nofun more) (by rw [← List.append_assoc, heq]) ih

/-- What comes after a place makes no difference to the tokens before it. -/
theorem cut (h : Scans s ts t) : ∃ chars, chars ++ t.rest = s.rest ∧
    t.offset = s.offset + byteLength chars ∧ Scans ⟨s.offset, chars⟩ ts ⟨t.offset, []⟩ := by
  induction h with
  | nil => exact ⟨[], rfl, rfl, .nil⟩
  | @skip s t chars rest ts p hp hstands heq _ ih =>
    obtain ⟨chars', rfl, hoffset, hscans⟩ := ih
    refine ⟨chars ++ chars', by rw [List.append_assoc, heq], ?_, ?_⟩
    · rw [hoffset, byteLength_append, ← Nat.add_assoc, past]
    · exact .skip hp (hstands.of_prefix (List.prefix_append _ _)) rfl hscans
  | @token s t kind text chars rest ts hstands heq _ ih =>
    obtain ⟨chars', rfl, hoffset, hscans⟩ := ih
    refine ⟨chars ++ chars', by rw [List.append_assoc, heq], ?_, ?_⟩
    · rw [hoffset, byteLength_append, ← Nat.add_assoc, past]
    · exact .token (hstands.of_prefix (List.prefix_append _ _)) rfl hscans

/-- Scanning comes to the place right after any of its tokens. -/
theorem split (h : Scans s (ts ++ us) r) : ∃ t, Scans s ts t ∧ Scans t us r ∧
    ∀ x, ts.getLast? = some x → t.offset = x.span.hi := by
  generalize hall : ts ++ us = all at h
  induction h generalizing ts with
  | nil =>
    obtain ⟨rfl, rfl⟩ := List.append_eq_nil_iff.1 hall
    exact ⟨_, .nil, .nil, nofun⟩
  | skip hp hstands heq h ih =>
    cases ts with
    | nil => exact ⟨_, .nil, (List.nil_append us).symm.trans hall ▸ .skip hp hstands heq h, nofun⟩
    | cons x ts =>
      obtain ⟨t, hscans, hrest, hlast⟩ := ih hall
      exact ⟨t, .skip hp hstands heq hscans, hrest, hlast⟩
  | @token s _ _ _ chars rest _ hstands heq h ih =>
    cases ts with
    | nil => exact ⟨_, .nil, (List.nil_append us).symm.trans hall ▸ .token hstands heq h, nofun⟩
    | cons x ts =>
      rw [List.cons_append] at hall
      obtain ⟨rfl, htail⟩ := List.cons.inj hall
      cases ts with
      | nil =>
        refine ⟨_, .token hstands heq .nil, ?_, fun y hy => ?_⟩
        · rw [List.nil_append] at htail
          exact htail ▸ h
        · cases hy
          rfl
      | cons y ts =>
        obtain ⟨t, hscans, hrest, hlast⟩ := ih htail
        exact ⟨t, .token hstands heq hscans, hrest, hlast⟩

/-- Scanning comes to the place where its first token begins. -/
theorem strip {x : Token} (h : Scans s ts r) (hx : ts.head? = some x) :
    ∃ t, Scans s [] t ∧ Scans t ts r ∧ t.offset = x.span.lo := by
  induction h with
  | nil => cases hx
  | skip hp hstands heq _ ih =>
    obtain ⟨t, hscans, hrest, hfirst⟩ := ih hx
    exact ⟨t, .skip hp hstands heq hscans, hrest, hfirst⟩
  | token hstands heq h ih =>
    cases hx
    exact ⟨_, .nil, .token hstands heq h, rfl⟩

end Scans

/-- The scanner gives tokens if it can go to the end of the text and comes upon them and
    upon no fault. -/
theorem tokens_eq_ok_iff {s : Scanner} {ts : List Token} :
    s.tokens = .ok ts ↔ ∃ t, Scans s ts t ∧ t.rest = [] := by
  constructor
  · intro h
    fun_induction tokens s generalizing ts with
    | case1 s t hnext =>
      cases h
      have hend := rest_of_next_eq_none (congrArg Prod.fst hnext)
      rw [hnext] at hend
      exact ⟨t, scans_next hnext, hend⟩
    | case2 s x t hnext ih =>
      cases htail : t.tokens with
      | error f =>
        rw [htail] at h
        cases h
      | ok us =>
        rw [htail] at h
        cases h
        obtain ⟨r, hscans, hend⟩ := ih htail
        exact ⟨r, (scans_next hnext).append hscans, hend⟩
    | case3 s f t hnext => cases h
  · rintro ⟨t, hscans, hend⟩
    have hnone : t.tokens = .ok [] := by
      rw [tokens]
      split <;> simp_all [next_of_rest_eq_nil hend]
    rw [hscans.tokens_eq, hnone]
    exact congrArg Except.ok (List.append_nil ts)

end Scanner

/-! ## Whole texts -/

open Scanner

/-- Two texts on lines of their own have the tokens of the first and those of the
    second. -/
theorem scan_newline {text text' : List Char} {ts ts' : List Token}
    (h : Token.scan text = .ok ts) (h' : Token.scan text' = .ok ts') :
    Token.scan (text ++ '\n' :: text') =
      .ok (ts ++ ts'.map (Token.shift (byteLength text + 1))) := by
  obtain ⟨t, hscans, hend⟩ := tokens_eq_ok_iff.1 h
  obtain ⟨t', hscans', hend'⟩ := tokens_eq_ok_iff.1 h'
  have hoffset : t.offset = byteLength text :=
    (hscans.isAt (isAt_start text)).offset_eq_iff.2 hend
  have hfirst := hscans.newline text'
  have hsecond := hscans'.shift (byteLength text + 1)
  rw [hend, hoffset, List.nil_append] at hfirst
  rw [Scanner.shift, start, Nat.zero_add] at hsecond
  have hline : Scans ⟨byteLength text, '\n' :: text'⟩ (ts'.map (Token.shift (byteLength text + 1)))
      (t'.shift (byteLength text + 1)) :=
    .skip (.inl rfl) (.blank (.inr (.inr (.inr rfl)))) rfl hsecond
  exact tokens_eq_ok_iff.2 ⟨_, hfirst.append hline, hend'⟩

/-- The stretch of a text from the first byte of one token to the last byte of another
    has the tokens between them, and no others. -/
theorem exists_slice {text : List Char} {before part after : List Token} {x y : Token}
    (h : Token.scan text = .ok (before ++ part ++ after)) (hx : part.head? = some x)
    (hy : part.getLast? = some y) : ∃ slice ts, IsSlice text ⟨x.span.lo, y.span.hi⟩ slice ∧
      Token.scan slice = .ok ts ∧ ts.map (Token.shift x.span.lo) = part := by
  obtain ⟨t, hscans, -⟩ := tokens_eq_ok_iff.1 h
  rw [List.append_assoc] at hscans
  obtain ⟨p, hbefore, hscans, -⟩ := hscans.split
  obtain ⟨a, hblank, hscans, hlo⟩ :=
    hscans.strip (x := x) (by rw [List.head?_append, hx, Option.some_or])
  obtain ⟨b, hpart, -, hhi⟩ := hscans.split
  obtain ⟨slice, hslice, hoffset, hpart⟩ := hpart.cut
  obtain ⟨ts, r, hts, hmap, hr⟩ := Scans.exists_of_shift (s := ⟨0, slice⟩) (n := a.offset)
    (by rwa [Scanner.shift, Nat.zero_add])
  refine ⟨slice, ts, ?_, tokens_eq_ok_iff.2 ⟨r, hts, ?_⟩, hlo ▸ hmap⟩
  · obtain ⟨before', hbefore', ha⟩ :=
      isAt_iff.1 ((hbefore.append hblank).isAt (isAt_start text))
    refine ⟨before', b.rest, by rw [hslice, hbefore'], ?_⟩
    rw [← hlo, ← hhi y hy, hoffset, ha]
  · exact congrArg Scanner.rest hr

end Toal
