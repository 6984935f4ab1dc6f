import Toal.Program.Constant
import Toal.Proofs.NearestNumbers
import Toal.Proofs.ParseSteps
import Toal.Proofs.Rescanning
import Toal.Proofs.ShortestDecimals
import Toal.Script.Text

/-!
# Numbers in scripts

A script writes a number as a decimal literal: digits without a zero before them, and possibly a
point and more digits; a negative number has a minus before the literal and parentheses around
both. The reader of the script takes the literal for the number nearest to the decimal
(`Spells`). The shortest decimal of a finite number is written in full and rounded to the number,
so the number is what is read back (`spells_numText`), and nothing else (`Spells.unique`).

Of the numbers that a script can have to write, those that folding computes are finite, and the
values of numerals are finite below the bound from which on decimals are rounded to infinity.

* `Script.spelled_unless_overflowing`: the text of every numeral and of every number from
  folding is read back as the number, except that of a numeral from the bound on.
-/

namespace Toal.Number

/-! ## Digits -/

theorem digitsValue_eq (ds : List Char) : digitsValue ds = Nat.ofDigitChars 10 ds 0 :=
  Nat.ofDigitChars_eq_foldl.symm

/-- The digits of a number have its value. -/
theorem digitsValue_toDigits (n : ℕ) : digitsValue (Nat.toDigits 10 n) = n := by
  rw [digitsValue_eq, Nat.ofDigitChars_ten_toDigits]

/-- Zeros after digits multiply by powers of ten. -/
theorem digitsValue_append_zeros (ds : List Char) (n : ℕ) :
    digitsValue (ds ++ List.replicate n '0') = digitsValue ds * 10 ^ n := by
  rw [digitsValue_eq, digitsValue_eq, Nat.ofDigitChars_append, Nat.ofDigitChars_replicate_zero,
    mul_comm]

/-- Zeros before digits change nothing. -/
theorem digitsValue_zeros_append (n : ℕ) (ds : List Char) :
    digitsValue (List.replicate n '0' ++ ds) = digitsValue ds := by
  rw [digitsValue_eq, digitsValue_eq, Nat.ofDigitChars_append, Nat.ofDigitChars_replicate_zero,
    mul_zero]

theorem isDigit_of_mem_zeros {n : ℕ} {c : Char} (h : c ∈ List.replicate n '0') :
    c.isDigit = true := by
  rw [List.eq_of_mem_replicate h]
  rfl

/-- A positive number is written without a zero before it. -/
theorem head?_toDigits_ne {n : ℕ} (hn : 0 < n) : (Nat.toDigits 10 n).head? ≠ some '0' := by
  induction n using Nat.strongRecOn with
  | ind n ih =>
    by_cases hlt : n < 10
    · have hchars : ∀ k < 10, 0 < k → [k.digitChar].head? ≠ some '0' := by decide
      rw [Nat.toDigits_of_lt_base hlt]
      exact hchars n hlt hn
    · rw [Nat.toDigits_of_base_le (by decide) (by omega),
        List.head?_append_of_ne_nil _ Nat.toDigits_ne_nil]
      exact ih _ (by omega) (by omega)

/-! ## Places -/

/-- The digits before and after the point of a decimal. -/
structure Places where
  /-- The digits before the point. -/
  whole : List Char
  /-- The digits after the point, if there is one. -/
  fraction : List Char
  isDigits_whole : isDigits whole = true
  isDigit_fraction : ∀ c ∈ fraction, c.isDigit = true

namespace Places

/-- The characters of the decimal. -/
def chars (p : Places) : List Char :=
  p.whole ++ if p.fraction = [] then [] else '.' :: p.fraction

/-- The rational that the decimal is. -/
def value (p : Places) : ℚ := digitsValue (p.whole ++ p.fraction) / 10 ^ p.fraction.length

/-- Digits with or without a point among them are a numeral. -/
theorem isUnsigned_chars (p : Places) : IsUnsigned p.chars := by
  by_cases hfraction : p.fraction = []
  · rw [chars, if_pos hfraction, List.append_nil]
    exact .inl p.isDigits_whole
  · rw [chars, if_neg hfraction]
    exact .inr ⟨_, _, rfl, p.isDigits_whole, isDigits_iff.2 ⟨hfraction, p.isDigit_fraction⟩⟩

/-- A numeral without a sign is digits with or without a point among them. -/
theorem exists_of_isUnsigned {cs : List Char} (h : IsUnsigned cs) : ∃ p : Places, cs = p.chars := by
  rcases h with h | ⟨whole, fraction, rfl, hwhole, hfraction⟩
  · exact ⟨⟨cs, [], h, fun _ hc => absurd hc List.not_mem_nil⟩, (List.append_nil cs).symm⟩
  · obtain ⟨hne, hdigits⟩ := isDigits_iff.1 hfraction
    refine ⟨⟨whole, fraction, hwhole, hdigits⟩, ?_⟩
    rw [chars, if_neg hne]

/-- The value of digits with a point among them, by the value of the digits alone. -/
theorem value_eq (p : Places) {exponent : ℤ} (h : (p.fraction.length : ℤ) = -exponent) :
    p.value = digitsValue (p.whole ++ p.fraction) * 10 ^ exponent := by
  rw [value, div_eq_mul_inv, ← zpow_natCast, ← zpow_neg, h, neg_neg]

theorem exists_chars_eq_cons (p : Places) :
    ∃ d ds, p.chars = d :: ds ∧ d.isDigit = true := by
  obtain ⟨hne, hdigits⟩ := isDigits_iff.1 p.isDigits_whole
  obtain ⟨d, ds, hwhole⟩ := List.exists_cons_of_ne_nil hne
  have hmem : d ∈ p.whole := by
    rw [hwhole]
    exact List.mem_cons_self
  exact ⟨d, ds ++ _, congrArg (· ++ _) hwhole, hdigits d hmem⟩

/-- A decimal is read as the number nearest to it. -/
theorem unsignedValue?_chars (p : Places) :
    ∃ y, unsignedValue? p.chars = some y ∧ IsNearest y p.value := by
  refine ⟨_, ?_, isNearest_ofScientific _ _⟩
  have hpoint (c : Char) (hc : c ∈ p.whole) := Lexeme.ne_point_of_isDigits p.isDigits_whole hc
  by_cases hfraction : p.fraction = []
  · have hspan : p.whole.span (· ≠ '.') = (p.whole, []) := by
      rw [List.span_eq_takeWhile_dropWhile, List.takeWhile_eq_self_iff.2 hpoint,
        List.dropWhile_eq_nil_iff.2 hpoint]
    rw [chars, if_pos hfraction, hfraction, List.append_nil, unsignedValue?, hspan]
    exact if_pos p.isDigits_whole
  · have hdigits : isDigits p.fraction = true := isDigits_iff.2 ⟨hfraction, p.isDigit_fraction⟩
    have hspan : (p.whole ++ '.' :: p.fraction).span (· ≠ '.') = (p.whole, '.' :: p.fraction) := by
      rw [List.span_eq_takeWhile_dropWhile, List.takeWhile_append_of_pos hpoint,
        List.dropWhile_append_of_pos hpoint]
      simp
    rw [chars, if_neg hfraction, unsignedValue?, hspan]
    exact if_pos (Bool.and_eq_true_iff.2 ⟨p.isDigits_whole, hdigits⟩)

/-- A numeral is read as the nearest number. -/
theorem unsignedValue?_of_isNearest (p : Places) {y : Float} (h : IsNearest y p.value) :
    unsignedValue? p.chars = some y := by
  obtain ⟨z, hvalue, hz⟩ := p.unsignedValue?_chars
  rw [hvalue, hz.unique h]

end Places

/-! ## Literals -/

/-- A decimal literal of a script: a zero before other digits would not be one. -/
structure Literal extends Places where
  whole_eq : whole.head? = some '0' → whole = ['0']

/-- The text of the literal. -/
def Literal.text (l : Literal) : String := String.ofList l.chars

section Layouts

variable {ds : List Char} (hne : ds ≠ []) (hhead : ds.head? ≠ some '0')
  (hdigits : ∀ c ∈ ds, c.isDigit = true)

include hne hhead hdigits

/-- Digits followed by zeros are a literal. -/
theorem exists_literal_whole (n : ℕ) :
    ∃ l : Literal, String.ofList ds ++ zeros n ++ "" = l.text ∧
      l.value = digitsValue ds * 10 ^ (n : ℤ) := by
  refine ⟨⟨⟨ds ++ List.replicate n '0', [], ?_, ?_⟩, ?_⟩, ?_, ?_⟩
  · exact isDigits_iff.2 ⟨List.append_ne_nil_of_left_ne_nil hne _,
      List.forall_mem_append.2 ⟨hdigits, fun _ => isDigit_of_mem_zeros⟩⟩
  · exact fun _ hc => absurd hc List.not_mem_nil
  · intro hzero
    rw [List.head?_append_of_ne_nil _ hne] at hzero
    exact absurd hzero hhead
  · simp [zeros, Literal.text, Places.chars]
  · rw [Places.value, List.append_nil, digitsValue_append_zeros, List.length_nil, pow_zero, div_one,
      Nat.cast_mul, Nat.cast_pow, Nat.cast_ofNat, zpow_natCast]

omit hhead in
/-- Digits after a point and zeros are a literal. -/
theorem exists_literal_below (n : ℕ) :
    ∃ l : Literal, "0." ++ zeros n ++ String.ofList ds = l.text ∧
      l.value = digitsValue ds * 10 ^ (-(n + ds.length : ℤ)) := by
  refine ⟨⟨⟨['0'], List.replicate n '0' ++ ds, rfl, ?_⟩, fun _ => rfl⟩, ?_, ?_⟩
  · exact List.forall_mem_append.2 ⟨fun _ => isDigit_of_mem_zeros, hdigits⟩
  · simp [zeros, Literal.text, Places.chars, hne, String.ext_iff]
  · rw [Places.value_eq]
    · change (digitsValue (List.replicate (n + 1) '0' ++ ds) : ℚ) * _ = _
      rw [digitsValue_zeros_append]
    · rw [List.length_append, List.length_replicate, neg_neg, Nat.cast_add]

omit hne in
/-- Digits with a point among them are a literal. -/
theorem exists_literal_within {n : ℕ} (hpos : 0 < n) (hlt : n < ds.length) :
    ∃ l : Literal, String.ofList (ds.take n) ++ "." ++ String.ofList (ds.drop n) = l.text ∧
      l.value = digitsValue ds * 10 ^ (-(ds.length - n : ℤ)) := by
  have hfraction : ds.drop n ≠ [] := by
    rw [Ne, List.drop_eq_nil_iff]
    omega
  have hwhole : ds.take n ≠ [] := by
    rw [Ne, List.take_eq_nil_iff]
    rintro (h | rfl)
    · omega
    · cases hlt
  refine ⟨⟨⟨ds.take n, ds.drop n, ?_, ?_⟩, ?_⟩, ?_, ?_⟩
  · exact isDigits_iff.2 ⟨hwhole, fun c hc => hdigits c (List.mem_of_mem_take hc)⟩
  · exact fun c hc => hdigits c (List.mem_of_mem_drop hc)
  · intro hzero
    rw [List.head?_take, if_neg hpos.ne'] at hzero
    exact absurd hzero hhead
  · simp [Literal.text, Places.chars, hfraction, String.ext_iff]
  · rw [Places.value_eq]
    · rw [List.take_append_drop]
    · rw [List.length_drop, neg_neg, Nat.cast_sub hlt.le]

end Layouts

/-- The decimal in full is a literal. -/
theorem Decimal.exists_literal {d : Decimal} (hd : 0 < d.digits) :
    ∃ l : Literal, d.inFull "" = l.text ∧ l.value = d.value := by
  have hne : Nat.toDigits 10 d.digits ≠ [] := Nat.toDigits_ne_nil
  have hhead := head?_toDigits_ne hd
  have hdigits (c : Char) (hc : c ∈ Nat.toDigits 10 d.digits) : c.isDigit = true :=
    Nat.isDigit_of_mem_toDigits (by decide) (by decide) hc
  have hvalue : d.value = digitsValue (Nat.toDigits 10 d.digits) * 10 ^ d.exponent := by
    rw [digitsValue_toDigits]
    rfl
  unfold inFull
  dsimp only
  rw [hvalue]
  generalize Nat.toDigits 10 d.digits = ds at hne hhead hdigits
  -- The point stands after the digits, before them, or among them.
  split
  · next hexponent =>
    have hplaces : d.exponent = (d.exponent.toNat : ℤ) := (Int.toNat_of_nonneg hexponent).symm
    conv in _ ^ d.exponent => rw [hplaces]
    exact exists_literal_whole hne hhead hdigits _
  split
  · next hexponent hbefore =>
    generalize hn : (-(d.exponent + (ds.length : ℤ))).toNat = n
    have hplaces : d.exponent = -(n + ds.length : ℤ) := by omega
    rw [hplaces]
    exact exists_literal_below hne hdigits n
  · next hexponent hbefore =>
    generalize hn : (d.exponent + (ds.length : ℤ)).toNat = n
    have hplaces : d.exponent = -(ds.length - n : ℤ) := by omega
    rw [hplaces]
    exact exists_literal_within hhead hdigits (by omega) (by omega)

/-- The text of a magnitude is a literal that is rounded to it. -/
theorem Magnitude.exists_literal {a : Magnitude} (ha : a.Canonical) :
    ∃ l : Literal, a.text .plain = l.text ∧ a.Near l.value := by
  unfold text
  by_cases hzero : a.mantissa = 0
  · refine ⟨⟨⟨['0'], [], rfl, fun _ hc => absurd hc List.not_mem_nil⟩, fun _ => rfl⟩, ?_, ?_⟩
    · rw [if_pos hzero]
      rfl
    · have hnear := a.near_value
      rwa [value, hzero, Nat.cast_zero, zero_mul, ← zero_div (10 ^ 0)] at hnear
  · have hpos : 0 < a.mantissa := Nat.pos_of_ne_zero hzero
    obtain ⟨l, htext, hvalue⟩ := Decimal.exists_literal (digits_shortest_pos ha hpos)
    refine ⟨l, ?_, ?_⟩
    · rw [if_neg hzero]
      exact htext
    · rw [hvalue]
      exact near_shortest ha hpos

/-! ## Reading numbers -/

/-- The number is the one nearest to the decimal, or its opposite if the sign is negative. -/
def Places.Denotes (p : Places) (x : Float) : Prop :=
  ∃ y, IsNearest y p.value ∧ x = if isNegative x then -y else y

/-- The reader of a script takes the text for the number: a literal for the number nearest to it,
    and in parentheses, with a minus before the literal, for the opposite. -/
def Spells (text : String) (x : Float) : Prop :=
  ∃ l : Literal, l.Denotes x ∧ text = if isNegative x then "(-" ++ l.text ++ ")" else l.text

/-- A number with a negative sign is negative. -/
theorem isNegative_of_signOf {x : Float} (h : signOf x = .negative) : isNegative x = true := by
  rw [signOf] at h
  split at h
  · assumption
  · cases h

/-- The opposite of a number that a decimal is rounded to. -/
theorem IsNearest.neg {y : Float} {r : ℚ} (h : IsNearest y r) :
    isNegative (-y) = true ∧ (-y).isFinite = y.isFinite ∧ (-y).isInf = y.isInf := by
  obtain ⟨hsign, h⟩ := h
  rw [← signOf_eq_positive_iff] at hsign
  by_cases hr : (Magnitude.overflow : ℚ) ≤ r
  · rw [if_pos hr] at h
    rw [eq_of_isInf h, hsign]
    exact ⟨rfl, rfl, rfl⟩
  · rw [if_neg hr] at h
    have hcanonical := canonical_magnitude y
    have hexponent := exponent_magnitude h.1
    rw [← packed_magnitude h.1, hsign, neg_packed hcanonical hexponent]
    have hfinite := isFinite_packed .positive hcanonical hexponent
    have hfinite' := isFinite_packed .negative hcanonical hexponent
    exact ⟨isNegative_of_signOf (parts_packed .negative hcanonical hexponent).1,
      hfinite'.trans hfinite.symm,
      (not_isInf_of_isFinite hfinite').2.trans (not_isInf_of_isFinite hfinite).2.symm⟩

/-- A numeral is read as the number that it denotes. -/
theorem Places.exists_denotes (p : Places) (negative : Bool) :
    ∃ x, isNegative x = negative ∧ p.Denotes x ∧
      numeralValue? (if negative then '-' :: p.chars else p.chars) = some x := by
  obtain ⟨y, hvalue, hy⟩ := p.unsignedValue?_chars
  cases negative with
  | true =>
    refine ⟨-y, hy.neg.1, ⟨y, hy, ?_⟩, ?_⟩
    · rw [if_pos hy.neg.1]
    · rw [if_pos rfl, numeralValue?, hvalue]
      rfl
  | false =>
    refine ⟨y, hy.1, ⟨y, hy, ?_⟩, ?_⟩
    · rw [hy.1]
      rfl
    · obtain ⟨d, ds, hchars, hd⟩ := p.exists_chars_eq_cons
      rw [if_neg Bool.false_ne_true, ← hvalue, hchars]
      exact Lexeme.numeralValue?_of_isDigit hd ds

/-- The decimals from the bound on denote infinity, and the others finite numbers. -/
theorem Places.Denotes.isInf_or_isFinite {p : Places} {x : Float} (h : p.Denotes x) :
    if (Magnitude.overflow : ℚ) ≤ p.value then x.isInf = true else x.isFinite = true := by
  obtain ⟨y, hy, hx⟩ := h
  have hkind : x.isFinite = y.isFinite ∧ x.isInf = y.isInf := by
    rw [hx]
    split
    · exact hy.neg.2
    · exact ⟨rfl, rfl⟩
  have hnearest := hy.2
  rw [hkind.1, hkind.2]
  split
  · next hvalue => rwa [if_pos hvalue] at hnearest
  · next hvalue =>
    rw [if_neg hvalue] at hnearest
    exact hnearest.1

section Spells

variable {text : String} {x y : Float}

theorem Literal.head?_text_ne (l : Literal) : l.text.toList.head? ≠ some '(' := by
  obtain ⟨d, ds, hchars, hd⟩ := l.exists_chars_eq_cons
  rw [text, String.toList_ofList, hchars]
  rintro ⟨⟩
  cases hd

/-- The parenthesis shows the sign. -/
theorem Spells.isNegative_iff (h : Spells text x) :
    isNegative x = true ↔ text.toList.head? = some '(' := by
  obtain ⟨l, -, htext⟩ := h
  split at htext
  · next hnegative =>
    rw [htext, hnegative]
    simp
  · next hnegative =>
    rw [htext]
    exact ⟨fun h => absurd h hnegative, fun h => absurd h l.head?_text_ne⟩

/-- A text is taken for one number only. -/
theorem Spells.unique (hx : Spells text x) (hy : Spells text y) : x = y := by
  have hsign : isNegative x = isNegative y :=
    Bool.eq_iff_iff.2 (hx.isNegative_iff.trans hy.isNegative_iff.symm)
  obtain ⟨l, ⟨a, ha, hxa⟩, hxtext⟩ := hx
  obtain ⟨l', ⟨b, hb, hyb⟩, hytext⟩ := hy
  have hchars : l.chars = l'.chars := by
    have htexts := hxtext.symm.trans hytext
    rw [hsign] at htexts
    split at htexts
    · simpa [Literal.text, String.ext_iff] using htexts
    · exact String.ofList_injective htexts
  -- The value of a literal is a function of its characters.
  have hab : a = b := by
    have hvalue := l.unsignedValue?_of_isNearest ha
    rw [hchars, l'.unsignedValue?_of_isNearest hb] at hvalue
    exact (Option.some.inj hvalue).symm
  calc x = if isNegative x then -a else a := hxa
    _ = if isNegative y then -b else b := by rw [hsign, hab]
    _ = y := hyb.symm

end Spells

end Toal.Number

namespace Toal.Script

open Number

/-- The text of a finite number spells it. -/
theorem spells_numText {x : Float} (hx : x.isFinite = true) : Spells (numText x) x := by
  have ha := canonical_magnitude x
  obtain ⟨l, htext, hnear⟩ := Magnitude.exists_literal ha
  have hplain : Number.text .plain x = (if isNegative x then "-" else "") ++ l.text := by
    rw [Number.text, (not_isInf_of_isFinite hx).1, (not_isInf_of_isFinite hx).2, ← htext]
    rfl
  refine ⟨l, ⟨packed .positive (magnitude x), isNearest_packed ha hnear, ?_⟩, ?_⟩
  · have hpacked := packed_magnitude hx
    rw [signOf] at hpacked
    split at hpacked
    · next hnegative =>
      rw [if_pos hnegative, neg_packed ha (exponent_magnitude hx), hpacked]
    · next hnegative => rw [if_neg hnegative, hpacked]
  · -- The minus is part of the text of the number, and the parentheses are not.
    rw [numText, hplain]
    split
    · simp [String.ext_iff]
    · simp

/-- A finite number is written so that it is read back, and nothing else. -/
theorem spells_numText_iff {x : Float} (hx : x.isFinite = true) (y : Float) :
    Spells (numText x) y ↔ y = x := by
  constructor
  · exact fun hy => hy.unique (spells_numText hx)
  · rintro rfl
    exact spells_numText hx

/-- The text of an infinite number spells nothing. -/
theorem numText_of_isInf {x : Float} (hx : x.isInf = true) :
    numText x = if isNegative x then "(-inf)" else "inf" := by
  have heq := eq_of_isInf hx
  generalize signOf x = s at heq
  subst heq
  cases s <;> rfl

/-- The text of an infinite number is a name, and no literal. -/
theorem not_spells_numText {x : Float} (hx : x.isInf = true) (y : Float) :
    ¬Spells (numText x) y := by
  rintro ⟨l, -, htext⟩
  obtain ⟨d, ds, hchars, hd⟩ := l.exists_chars_eq_cons
  have hname : 'i' ≠ d := by
    rintro rfl
    cases hd
  have hopen : '(' ≠ d := by
    rintro rfl
    cases hd
  have hcs := congrArg String.toList htext
  rw [numText_of_isInf hx] at hcs
  revert hcs
  split <;> split <;> simp [Literal.text, hchars, hname, hopen]

end Toal.Script

namespace Toal

open Number

/-- What the scanner takes for a numeral is one. -/
theorem Lexeme.isNumeral_of_first {c : Char} {cs text : List Char}
    (h : (first c cs).piece = .token .numeral text) : IsNumeral text := by
  have hfits := first_fits c cs
  generalize (first c cs).taken = taken, (first c cs).rest = rest at hfits
  rw [h] at hfits
  rcases hfits with hstands | ⟨_, hunexpected, -⟩
  · cases hstands with
    | punctuation hkind => exact absurd rfl (literal_ne_of_punctuation? hkind).1
    | name hname hkind =>
      rcases hkind with ⟨_, hkind, -⟩ | ⟨hkind, -⟩
      · cases hkind
      · cases hkind
    | numeral hlongest => exact hlongest.1
  · cases hunexpected

/-- The text of a numeral that the scanner gives. -/
theorem Scanner.exists_places_of_next {s place : Scanner} {t : Token}
    (h : s.next = (.ok (some t), place)) (ht : t.kind = .numeral) :
    ∃ (p : Places) (negative : Bool),
      t.text.toList = if negative then '-' :: p.chars else p.chars := by
  obtain ⟨c, cs, text, hpiece, htext⟩ := exists_piece_of_next h
  rw [ht] at hpiece
  rw [htext, String.toList_ofList]
  rcases Lexeme.isNumeral_of_first hpiece with hunsigned | ⟨ds, rfl, hunsigned⟩
  · obtain ⟨p, rfl⟩ := Places.exists_of_isUnsigned hunsigned
    exact ⟨p, false, rfl⟩
  · obtain ⟨p, rfl⟩ := Places.exists_of_isUnsigned hunsigned
    exact ⟨p, true, rfl⟩

/-- The parser reads a numeral as its value. -/
theorem Surface.reads_numeral {text : String} {x : Float} (h : numeralValue? text.toList = some x)
    (span : Source.Span) (rest : List Token) :
    Reads (primary (⟨.numeral, text, span⟩ :: rest)) (.number x span) rest := by
  rw [primary.eq_def]
  dsimp only
  rw [h]
  exact ⟨_, rfl⟩

/-- A numeral is parsed as the number that it denotes. -/
theorem Surface.exists_reads_numeral {s place : Scanner} {t : Token}
    (h : s.next = (.ok (some t), place)) (ht : t.kind = .numeral) :
    ∃ (p : Places) (x : Float), p.Denotes x ∧
      t.text = (if isNegative x then "-" else "") ++ String.ofList p.chars ∧
      ∀ rest, Reads (primary (t :: rest)) (.number x t.span) rest := by
  obtain ⟨p, negative, htext⟩ := s.exists_places_of_next h ht
  obtain ⟨x, rfl, hx, hvalue⟩ := p.exists_denotes negative
  refine ⟨p, x, hx, ?_, fun rest => ?_⟩
  · apply String.toList_injective
    rw [htext]
    split
    · simp
    · simp
  · rw [← htext] at hvalue
    obtain ⟨kind, text, span⟩ := t
    cases ht
    exact reads_numeral hvalue span rest

namespace Script

/-- Every numeral that the scanner gives is parsed as the number that it denotes, and the text of
    that number in a script is read back as the number exactly if the numeral is below the bound
    from which on decimals are rounded to infinity. Every number that folding computes is read
    back. -/
theorem spelled_unless_overflowing (s place : Scanner) (t : Token) (op : ArithOp) (x y v : Float) :
    (s.next = (.ok (some t), place) → t.kind = .numeral →
      ∃ (p : Places) (z : Float),
        t.text = (if isNegative z then "-" else "") ++ String.ofList p.chars ∧ p.Denotes z ∧
        (∀ rest, Surface.Reads (Surface.primary (t :: rest)) (.number z t.span) rest) ∧
        ((∀ w, Spells (numText z) w ↔ w = z) ↔ p.value < Magnitude.overflow) ∧
        (Magnitude.overflow ≤ p.value →
          numText z = if isNegative z then "(-inf)" else "inf")) ∧
    (Program.evalArith op x y = some v → ∀ w, Spells (numText v) w ↔ w = v) := by
  constructor
  · intro hnext ht
    obtain ⟨p, z, hz, htext, hparse⟩ := Surface.exists_reads_numeral hnext ht
    have hkind := hz.isInf_or_isFinite
    refine ⟨p, z, htext, hz, hparse, ?_, ?_⟩
    · by_cases hvalue : (Magnitude.overflow : ℚ) ≤ p.value
      · rw [if_pos hvalue] at hkind
        refine ⟨fun hspells => ?_, fun hlt => absurd hvalue (not_le.2 hlt)⟩
        exact absurd ((hspells z).2 rfl) (not_spells_numText hkind z)
      · rw [if_neg hvalue] at hkind
        exact ⟨fun _ => not_le.1 hvalue, fun _ => spells_numText_iff hkind⟩
    · intro hvalue
      rw [if_pos hvalue] at hkind
      exact numText_of_isInf hkind
  · intro hv
    unfold Program.evalArith at hv
    exact spells_numText_iff (Option.filter_eq_some_iff.1 hv).2

/-- A numeral with a sign and a fraction, and a negative number that folding computes. -/
theorem spelled_unless_overflowing_tenth :
    (Scanner.start "-0.10;".toList).next =
      (.ok (some ⟨.numeral, "-0.10", ⟨0, 5⟩⟩), ⟨5, [';']⟩) ∧
    (∃ (p : Places) (z : Float),
      "-0.10" = (if isNegative z then "-" else "") ++ String.ofList p.chars ∧ p.Denotes z ∧
      (∀ rest, Surface.Reads (Surface.primary (⟨.numeral, "-0.10", ⟨0, 5⟩⟩ :: rest))
        (.number z ⟨0, 5⟩) rest) ∧
      ((∀ w, Spells (numText z) w ↔ w = z) ↔ p.value < Magnitude.overflow) ∧
      (Magnitude.overflow ≤ p.value → numText z = if isNegative z then "(-inf)" else "inf")) ∧
    Program.evalArith .sub 1 3 = some (-2) ∧ ∀ w, Spells (numText (-2)) w ↔ w = -2 := by
  have hnext : (Scanner.start "-0.10;".toList).next =
      (.ok (some ⟨.numeral, "-0.10", ⟨0, 5⟩⟩), ⟨5, [';']⟩) := by
    cbv
  have hfold : Program.evalArith .sub 1 3 = some (-2) := by rfl
  obtain ⟨hnumeral, hnumber⟩ := spelled_unless_overflowing _ _ _ .sub 1 3 (-2)
  exact ⟨hnext, hnumeral hnext rfl, hfold, hnumber hfold⟩

/-- A one and zeros after it. -/
def oneAndZeros (n : ℕ) : Places where
  whole := ['1'] ++ List.replicate n '0'
  fraction := []
  isDigits_whole := isDigits_iff.2 ⟨List.cons_ne_nil _ _,
    List.forall_mem_cons.2 ⟨rfl, fun _ => isDigit_of_mem_zeros⟩⟩
  isDigit_fraction := fun _ hc => absurd hc List.not_mem_nil

/-- A one with so many zeros is a power of ten. -/
theorem value_oneAndZeros (n : ℕ) : (oneAndZeros n).value = (10 ^ n : ℕ) := by
  rw [Places.value, oneAndZeros, List.append_nil, digitsValue_append_zeros, List.length_nil,
    pow_zero, div_one]
  exact congrArg Nat.cast (one_mul _)

/-- A one with 309 zeros is a numeral whose number is not written as one. -/
theorem huge_numeral_unspelled :
    ∃ (place : Scanner) (t : Token) (x : Float),
      (Scanner.start (oneAndZeros 309).chars).next = (.ok (some t), place) ∧ t.kind = .numeral ∧
      (∀ rest, Surface.Reads (Surface.primary (t :: rest)) (.number x t.span) rest) ∧
      numText x = "inf" ∧ ∀ y, ¬Spells (numText x) y := by
  have hvalue : (Magnitude.overflow : ℚ) ≤ (oneAndZeros 309).value := by
    rw [value_oneAndZeros]
    exact Nat.cast_le.2 (by decide +kernel)
  generalize oneAndZeros 309 = p at hvalue
  have hlongest : Longest IsNumeral p.chars [] := by
    refine ⟨.inl p.isUnsigned_chars, fun cs hbegins _ => ?_⟩
    rwa [List.append_nil] at hbegins
  obtain ⟨x, hsign, hx, hread⟩ := p.exists_denotes false
  have hinf := hx.isInf_or_isFinite
  rw [if_pos hvalue] at hinf
  have htext := numText_of_isInf hinf
  rw [hsign] at htext
  have hnext := Scanner.next_of_token (.numeral hlongest) (s := .start p.chars) (List.append_nil _)
  refine ⟨_, _, x, hnext, rfl, fun rest => ?_, htext, not_spells_numText hinf⟩
  refine Surface.reads_numeral ?_ _ _
  rwa [String.toList_ofList]

end Script

end Toal
