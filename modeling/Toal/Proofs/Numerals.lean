import Toal.Number.Numeral
import Toal.Proofs.ScanPlaces
import Mathlib.Data.List.TakeDrop
import Mathlib.Data.List.TakeWhile

/-!
# Scanned numerals have values

A numeral is some digits, possibly followed by a point and some more digits, and
possibly with a minus before them. That is what the scanner takes for one
(`Lexeme.isSome_numeralValue?`), and it is what has a value, so the parser never
meets a numeral without one.
-/

namespace Toal

open Number

/-- The token has a value if it is a numeral. -/
def Token.HasValue (t : Token) : Prop :=
  t.kind = .numeral → (numeralValue? t.text.toList).isSome = true

namespace Lexeme

theorem isDigits_takeWhile_cons {d : Char} (hd : d.isDigit = true) (cs : List Char) :
    isDigits ((d :: cs).takeWhile Char.isDigit) = true := by
  rw [isDigits, List.takeWhile_cons_of_pos hd]
  simp [hd]

/-- No digit is a point, so a point ends the whole part of a numeral. -/
theorem ne_point_of_isDigits {ds : List Char} (h : isDigits ds = true) {c : Char} (hc : c ∈ ds) :
    decide (c ≠ '.') = true := by
  rw [isDigits, Bool.and_eq_true, List.all_eq_true] at h
  have hdigit := h.2 c hc
  rw [decide_eq_true_iff]
  rintro rfl
  cases hdigit

/-- Digits have a value. -/
theorem isSome_unsignedValue?_digits {ds : List Char} (h : isDigits ds = true) :
    (unsignedValue? ds).isSome = true := by
  have hspan : ds.span (· ≠ '.') = (ds, []) := by
    rw [List.span_eq_takeWhile_dropWhile,
      List.takeWhile_eq_self_iff.2 fun _ hc => ne_point_of_isDigits h hc,
      List.dropWhile_eq_nil_iff.2 fun _ hc => ne_point_of_isDigits h hc]
  rw [unsignedValue?, hspan]
  simp [h]

/-- Digits with a point among them have a value. -/
theorem isSome_unsignedValue?_fraction {whole fraction : List Char} (hw : isDigits whole = true)
    (hf : isDigits fraction = true) :
    (unsignedValue? (whole ++ '.' :: fraction)).isSome = true := by
  have hspan : (whole ++ '.' :: fraction).span (· ≠ '.') = (whole, '.' :: fraction) := by
    rw [List.span_eq_takeWhile_dropWhile,
      List.takeWhile_append_of_pos fun _ hc => ne_point_of_isDigits hw hc,
      List.dropWhile_append_of_pos fun _ hc => ne_point_of_isDigits hw hc]
    simp
  rw [unsignedValue?, hspan]
  simp [hw, hf]

/-- What is read as a numeral where a digit stands has a value. -/
theorem isSome_unsignedValue?_numeral {d : Char} (hd : d.isDigit = true) (cs : List Char) :
    (unsignedValue? (numeral (d :: cs)).1).isSome = true := by
  unfold numeral
  dsimp only
  split
  · split
    · next hfirst =>
      exact isSome_unsignedValue?_fraction (isDigits_takeWhile_cons hd cs) (by
        rw [← List.takeWhile_cons_of_pos hfirst]
        exact isDigits_takeWhile_cons hfirst _)
    · exact isSome_unsignedValue?_digits (isDigits_takeWhile_cons hd cs)
  · exact isSome_unsignedValue?_digits (isDigits_takeWhile_cons hd cs)

/-- The numeral begins with the digit it is read at. -/
theorem exists_numeral_eq_cons {d : Char} (hd : d.isDigit = true) (cs : List Char) :
    ∃ ds, (numeral (d :: cs)).1 = d :: ds := by
  unfold numeral
  dsimp only
  rw [List.takeWhile_cons_of_pos hd]
  split
  · split
    · exact ⟨_, rfl⟩
    · exact ⟨_, rfl⟩
  · exact ⟨_, rfl⟩

theorem numeralValue?_of_isDigit {d : Char} (hd : d.isDigit = true) (ds : List Char) :
    numeralValue? (d :: ds) = unsignedValue? (d :: ds) := by
  unfold numeralValue?
  split
  · next heq =>
    cases heq
    cases hd
  · rfl

/-- A numeral that begins a text has a value. -/
theorem isSome_numeralValue? {c : Char} {cs text : List Char}
    (h : (first c cs).piece = .token .numeral text) : (numeralValue? text).isSome = true := by
  -- Only two of the cases of `first` give numerals: a digit, and a minus before one.
  unfold first at h
  split at h
  · next hkind =>
    cases h
    exact absurd rfl (literal_ne_of_punctuation? hkind).1
  split at h
  · cases h
  split at h
  · split at h
    · cases h
    · cases h
  split at h
  · split at h
    · cases h
    · split at h
      · next hc _ d tail _ hd =>
        have htext : c :: (numeral (d :: tail)).1 = text := (Piece.token.inj h).2
        rw [← htext, hc, numeralValue?, Option.isSome_map]
        exact isSome_unsignedValue?_numeral hd tail
      · cases h
    · cases h
  split at h
  · split at h
    · cases h
    · cases h
  split at h
  · next hd =>
    have htext : (numeral (c :: cs)).1 = text := (Piece.token.inj h).2
    obtain ⟨ds, hds⟩ := exists_numeral_eq_cons hd cs
    rw [← htext, hds, numeralValue?_of_isDigit hd, ← hds]
    exact isSome_unsignedValue?_numeral hd cs
  split at h
  · exact absurd (Piece.token.inj h).1 (literal_ne_nameKind _).1
  · cases h

end Lexeme

/-- A token that the scanner gives is the first piece of some text. -/
theorem Scanner.exists_piece_of_next {s place : Scanner} {t : Token}
    (h : s.next = (.ok (some t), place)) :
    ∃ c cs text, (Lexeme.first c cs).piece = .token t.kind text ∧ t.text = String.ofList text := by
  fun_induction next s with
  | case1 s hs => cases h
  | case2 s c cs hs lexeme after span kind text hp =>
    obtain ⟨ht, -⟩ := Prod.mk.inj h
    cases ht
    exact ⟨c, cs, text, hp, rfl⟩
  | case3 s c cs hs lexeme after hp ih => exact ih h
  | case4 s c cs hs lexeme after hp ih => exact ih h
  | case5 s c cs hs lexeme after span d hp => cases h
  | case6 s c cs hs lexeme after span hp => cases h

/-- A numeral that the scanner gives has a value. -/
theorem Scanner.hasValue_of_next {s place : Scanner} {t : Token}
    (h : s.next = (.ok (some t), place)) : t.HasValue := by
  intro ht
  obtain ⟨c, cs, text, hpiece, htext⟩ := exists_piece_of_next h
  rw [ht] at hpiece
  rw [htext, String.toList_ofList]
  exact Lexeme.isSome_numeralValue? hpiece

end Toal
