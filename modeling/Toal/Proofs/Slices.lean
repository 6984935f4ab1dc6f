import Toal.Diagnostic

/-!
# Slices

The bytes between two offsets of a text are text themselves only if the offsets
are boundaries, neither of them past the end and the second not before the
first. `IsSlice` says that of a span, and what the text between is.

Bringing a span onto boundaries always gives such a slice, whatever the span was
(`isSlice_clamp`). So a fault can always be shown with the text it is located in
(`isSome_render?_diagnostic`), even one whose span makes no sense there.
-/

namespace Toal

open Source

namespace Source

variable {text part : List Char} {span : Span}

/-- The span begins and ends at boundaries of the text, and `part` is the text
    between them. -/
def IsSlice (text : List Char) (span : Span) (part : List Char) : Prop :=
  ∃ before after, before ++ (part ++ after) = text ∧
    span = ⟨byteLength before, byteLength before + byteLength part⟩

/-! ## Splitting at boundaries -/

/-- The length of two parts is the sum of their lengths. -/
@[simp]
theorem byteLength_append (a b : List Char) :
    byteLength (a ++ b) = byteLength a + byteLength b := by
  induction a with
  | nil => simp [byteLength]
  | cons c a ih => simp [byteLength, ih, Nat.add_assoc]

/-- Every text can be split at the end of its first part. -/
theorem splitBefore_append (a b : List Char) : splitBefore (byteLength a) (a ++ b) = (a, b) := by
  induction a with
  | nil =>
    cases b with
    | nil => rfl
    | cons c b =>
      have hc : ¬c.utf8Size ≤ 0 := Nat.not_le.2 c.utf8Size_pos
      exact if_neg hc
  | cons c a ih => simp [byteLength, splitBefore, ih]

/-- A text of two parts may be split between them. -/
theorem splitAt?_append (a b : List Char) : splitAt? (byteLength a) (a ++ b) = some (a, b) := by
  simp [splitAt?, splitBefore_append]

/-- Splitting a text loses nothing of it. -/
theorem append_splitBefore (n : Nat) (cs : List Char) :
    (splitBefore n cs).1 ++ (splitBefore n cs).2 = cs := by
  fun_induction splitBefore n cs with
  | case1 n => rfl
  | case2 n c cs hc before after hsplit ih =>
    rw [hsplit] at ih
    exact congrArg (c :: ·) ih
  | case3 n c cs hc => rfl

/-- A later offset splits off at least as much. -/
theorem splitBefore_mono {m n : Nat} (h : m ≤ n) (cs : List Char) :
    (splitBefore m cs).1 <+: (splitBefore n cs).1 := by
  induction cs generalizing m n with
  | nil => exact List.prefix_rfl
  | cons c cs ih =>
    by_cases hm : c.utf8Size ≤ m
    · have hn : c.utf8Size ≤ n := Nat.le_trans hm h
      simp only [splitBefore, if_pos hm, if_pos hn]
      exact List.cons_prefix_cons.2 ⟨rfl, ih (Nat.sub_le_sub_right h _)⟩
    · simp only [splitBefore, if_neg hm]
      exact List.nil_prefix

/-- Splitting at the boundary before a place is splitting before that place. -/
theorem splitBefore_floor (n : Nat) (cs : List Char) :
    splitBefore (floor n cs) cs = splitBefore n cs := by
  have h := splitBefore_append (splitBefore n cs).1 (splitBefore n cs).2
  rwa [append_splitBefore] at h

/-! ## Slices -/

/-- A slice is what is left of the text before its second end, after the text
    before its first end. -/
theorem IsSlice.splitBefore_eq (h : IsSlice text span part) :
    (splitBefore (span.hi - span.lo) (splitBefore span.lo text).2).1 = part := by
  obtain ⟨before, after, rfl, rfl⟩ := h
  simp [splitBefore_append]

/-- Whatever a span is, the ends it is brought to are the ends of a slice. -/
theorem isSlice_clamp (span : Span) (text : List Char) :
    IsSlice text (span.clamp text) (snippet span text) := by
  -- The second end is moved up to the first if it lies before it.
  have hle : floor span.lo text ≤ max span.hi (floor span.lo text) := Nat.le_max_right _ _
  have hprefix := splitBefore_mono hle text
  rw [splitBefore_floor] at hprefix
  obtain ⟨part, hpart⟩ := hprefix
  have hslice : IsSlice text (span.clamp text) part := by
    refine ⟨(splitBefore span.lo text).1, (splitBefore (span.clamp text).hi text).2, ?_, ?_⟩
    · rw [← List.append_assoc, hpart, Span.clamp, splitBefore_floor, append_splitBefore]
    · rw [← byteLength_append, hpart]
      rfl
  have hsnippet : snippet span text = part := hslice.splitBefore_eq
  rw [hsnippet]
  exact hslice

/-- A text may be split after each of its beginnings. -/
theorem exists_splitAt?_of_prefix (h : part <+: text) :
    ∃ after, splitAt? (byteLength part) text = some (part, after) := by
  obtain ⟨after, rfl⟩ := h
  exact ⟨after, splitAt?_append part after⟩

theorem firstLine_prefix (cs : List Char) : firstLine cs <+: cs :=
  List.takeWhile_prefix _

end Source

/-! ## Showing faults -/

/-- A diagnostic whose span is that of a slice can be shown with the text. -/
theorem Diagnostic.isSome_render? {d : Diagnostic} {text part : List Char} {m : Mark}
    (hm : d.mark = some m) (h : IsSlice text m.span part) : (d.render? text).isSome = true := by
  obtain ⟨before, after, rfl, hspan⟩ := h
  -- The carets go to the end of the part or of its line, whichever comes first;
  -- both are beginnings of what follows `before`.
  obtain ⟨marked, hmarked, hlength⟩ : ∃ marked, marked <+: part ++ after ∧
      byteLength marked = min (byteLength part) (byteLength (firstLine (part ++ after))) := by
    rcases Nat.le_total (byteLength part) (byteLength (firstLine (part ++ after))) with hle | hle
    · exact ⟨part, List.prefix_append _ _, (Nat.min_eq_left hle).symm⟩
    · exact ⟨_, firstLine_prefix _, (Nat.min_eq_right hle).symm⟩
  obtain ⟨rest, hrest⟩ := exists_splitAt?_of_prefix hmarked
  have hmin : min m.span.hi (m.span.lo + byteLength (firstLine (part ++ after))) - m.span.lo =
      byteLength marked := by
    rw [hlength, hspan, Nat.add_min_add_left, Nat.add_sub_cancel_left]
  have hlo : m.span.lo = byteLength before := by rw [hspan]
  have hbefore : splitAt? m.span.lo (before ++ (part ++ after)) = some (before, part ++ after) := by
    rw [hlo, splitAt?_append]
  simp [render?, hm, hbefore, hmin, hrest]

/-- A fault can be shown with the text it is located in. -/
theorem isSome_render?_diagnostic (f : Fault) (text : List Char) :
    ((f.diagnostic text).render? text).isSome = true := by
  cases hspan : f.span with
  | none =>
    have hmark : (f.diagnostic text).mark = none := by rw [Fault.diagnostic, hspan]; rfl
    simp [Diagnostic.render?, hmark]
  | some span =>
    have hmark : (f.diagnostic text).mark = some (Mark.ofSpan span text) := by
      rw [Fault.diagnostic, hspan]; rfl
    exact Diagnostic.isSome_render? hmark (isSlice_clamp span text)

end Toal
