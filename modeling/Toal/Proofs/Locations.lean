import Toal.Proofs.Partition

/-!
# Lines and locations

A text falls into lines at its line feeds (`lines`). Every boundary of the text lies on
one line, between two of its characters or at one of its ends (`OnLine`): the boundary
before a line feed is the end of a line, and the one after it is the beginning of the next.

* `onLine_endLocation`: the line and the column that are found by counting are those of
  the line the boundary lies on;
* `locations_identify`: locations are in the order of the boundaries, so that no two
  boundaries share one.
-/

namespace Toal.Source

variable {text line : List Char} {n number start : Nat}

/-- The offset is that of a boundary of the text. -/
def IsBoundary (text : List Char) (n : Nat) : Prop :=
  ∃ before after, before ++ after = text ∧ byteLength before = n

/-- The one location comes before the other. -/
def Location.Before (a b : Location) : Prop :=
  a.line < b.line ∨ a.line = b.line ∧ a.column < b.column

/-! ## Lines -/

/-- What stands between the line feeds of a text. -/
def lines (text : List Char) : List (List Char) := text.splitOn '\n'

/-- The lines with a line feed after each. -/
def unlines (ls : List (List Char)) : List Char := ls.flatMap (· ++ ['\n'])

/-- The offset at which a line begins, for lines counted from zero. -/
def lineStart (text : List Char) (k : Nat) : Nat := byteLength (unlines ((lines text).take k))

/-- The offset lies on the line with the given number, counted from one, which begins at
    the offset `start`. -/
structure OnLine (text : List Char) (n number start : Nat) (line : List Char) : Prop where
  pos : 0 < number
  get : (lines text)[number - 1]? = some line
  start_eq : lineStart text (number - 1) = start
  start_le : start ≤ n
  le_end : n ≤ start + byteLength line

/-- Each line feed ends a line, and what follows the last of them is a line too. -/
theorem length_lines (text : List Char) : (lines text).length = text.count '\n' + 1 := by
  induction text with
  | nil => rfl
  | cons c cs ih =>
    rw [lines, List.splitOn_cons_eq_if_modifyHead, List.count_cons]
    split
    · rw [List.length_cons]
      exact congrArg (· + 1) ih
    · rw [List.length_modifyHead]
      exact ih

/-- Lines are joined one part after the other. -/
theorem unlines_append (ls ls' : List (List Char)) :
    unlines (ls ++ ls') = unlines ls ++ unlines ls' :=
  List.flatMap_append

/-- The lines with their line feeds are the text with one line feed more. -/
theorem unlines_lines (text : List Char) : unlines (lines text) = text ++ ['\n'] := by
  induction text with
  | nil => rfl
  | cons c cs ih =>
    rw [lines, List.splitOn_cons_eq_if_modifyHead]
    split
    · next hc =>
      rw [beq_iff_eq.1 hc]
      exact congrArg ('\n' :: ·) ih
    · obtain ⟨line, rest, hlines⟩ := List.exists_cons_of_ne_nil (List.splitOn_ne_nil '\n' cs)
      rw [lines, hlines] at ih
      rw [hlines]
      exact congrArg (c :: ·) ih

/-- A line begins after the line before it and its line end. -/
theorem lineStart_succ {k : Nat} (h : (lines text)[k]? = some line) :
    lineStart text (k + 1) = lineStart text k + (byteLength line + 1) := by
  have hlast : unlines (some line).toList = line ++ ['\n'] := List.append_nil _
  rw [lineStart, lineStart, List.take_add_one, h, unlines_append, byteLength_append, hlast,
    byteLength_append]
  rfl

/-- Lines begin in order. -/
theorem lineStart_mono {k m : Nat} (h : k ≤ m) : lineStart text k ≤ lineStart text m := by
  obtain ⟨d, rfl⟩ := Nat.exists_eq_add_of_le h
  rw [lineStart, lineStart, List.take_add, unlines_append, byteLength_append]
  exact Nat.le_add_right _ _

/-- An offset lies on one line only. -/
theorem OnLine.number_le {number' start' : Nat} {line' : List Char}
    (h : OnLine text n number start line) (h' : OnLine text n number' start' line') :
    number ≤ number' := by
  refine Nat.not_lt.1 fun hlt => ?_
  have hpos := h'.pos
  have hnext := lineStart_succ h'.get
  have hmono : lineStart text (number' - 1 + 1) ≤ lineStart text (number - 1) :=
    lineStart_mono (by omega)
  rw [hnext, h'.start_eq, h.start_eq] at hmono
  have hle := h.start_le
  have hge := h'.le_end
  omega

/-! ## The line around a boundary -/

/-- No line end stands in the last line of a text. -/
theorem newline_notMem_lastLine (cs : List Char) : '\n' ∉ lastLine cs := by
  intro h
  have hplain := List.mem_takeWhile_imp (List.mem_reverse.1 h)
  simp at hplain

/-- No line end stands in the first line of a text. -/
theorem newline_notMem_firstLine (cs : List Char) : '\n' ∉ firstLine cs := by
  intro h
  have hplain := List.mem_takeWhile_imp h
  simp at hplain

/-- Before the last line stands nothing, or a line feed at the end. -/
theorem exists_append_lastLine (cs : List Char) :
    ∃ head, head ++ lastLine cs = cs ∧ (head = [] ∨ ∃ cs', head = cs' ++ ['\n']) := by
  have hcs := List.takeWhile_append_dropWhile (p := (· ≠ '\n')) (l := cs.reverse)
  refine ⟨(cs.reverse.dropWhile (· ≠ '\n')).reverse, ?_, ?_⟩
  · rw [lastLine, ← List.reverse_append, hcs, List.reverse_reverse]
  · rcases Lexeme.dropWhile_line cs.reverse with hnil | ⟨rest, hrest⟩
    · exact .inl (by rw [hnil, List.reverse_nil])
    · exact .inr ⟨rest.reverse, by rw [hrest, List.reverse_cons]⟩

theorem byteLength_lastLine_le (cs : List Char) : byteLength (lastLine cs) ≤ byteLength cs := by
  obtain ⟨head, hcs, -⟩ := exists_append_lastLine cs
  have hbytes := byteLength_append head (lastLine cs)
  rw [hcs] at hbytes
  omega

/-- A text that is empty or ends with a line feed has the lines that end in it before all
    others. -/
theorem exists_lines_append {head : List Char} (h : head = [] ∨ ∃ cs, head = cs ++ ['\n']) :
    ∃ ls, (∀ rest, lines (head ++ rest) = ls ++ lines rest) ∧ ls.length = head.count '\n' ∧
      unlines ls = head := by
  rcases h with rfl | ⟨cs, rfl⟩
  · exact ⟨[], fun _ => rfl, rfl, rfl⟩
  · refine ⟨lines cs, fun rest => ?_, ?_, unlines_lines cs⟩
    · rw [List.append_assoc]
      exact List.splitOn_append_cons_self cs rest
    · rw [length_lines, List.count_append]
      rfl

/-- The first line of a text ends with the first line feed after its beginning. -/
theorem exists_lines_cons {line : List Char} (h : '\n' ∉ line) (after : List Char) :
    ∃ ls, lines (line ++ after) = (line ++ firstLine after) :: ls := by
  have hfirst : '\n' ∉ line ++ firstLine after := fun hmem =>
    (List.mem_append.1 hmem).elim h (newline_notMem_firstLine after)
  have htext : line ++ after = line ++ firstLine after ++ after.dropWhile (· ≠ '\n') := by
    rw [List.append_assoc, firstLine, List.takeWhile_append_dropWhile]
  rw [htext]
  rcases Lexeme.dropWhile_line after with hnil | ⟨rest, hrest⟩
  · rw [hnil, List.append_nil]
    exact ⟨[], List.splitOn_eq_singleton hfirst⟩
  · rw [hrest]
    exact ⟨lines rest, List.splitOn_append_cons_self_of_not_mem hfirst rest⟩

/-- The line around a boundary is what stands before it and after it up to the next line
    feed on either side. -/
theorem onLine_endLocation (before after : List Char) :
    OnLine (before ++ after) (byteLength before) (endLocation before).line
      (byteLength before - byteLength (lastLine before)) (lastLine before ++ firstLine after) := by
  obtain ⟨head, hbefore, hhead⟩ := exists_append_lastLine before
  obtain ⟨ls, happend, hlength, hunlines⟩ := exists_lines_append hhead
  have hlast := newline_notMem_lastLine before
  obtain ⟨ls', hcons⟩ := exists_lines_cons hlast after
  -- The last line before the boundary goes on with the first one after it.
  have hlines : lines (before ++ after) = ls ++ (lastLine before ++ firstLine after) :: ls' := by
    rw [← hcons, ← happend, ← List.append_assoc, hbefore]
  have hnumber : before.count '\n' = ls.length := by
    rw [hlength]
    conv_lhs => rw [← hbefore, List.count_append, List.count_eq_zero_of_not_mem hlast]
    rfl
  have hbytes : byteLength before = byteLength head + byteLength (lastLine before) := by
    rw [← byteLength_append, hbefore]
  rw [endLocation, hnumber]
  refine ⟨Nat.succ_pos _, ?_, ?_, ?_, ?_⟩
  · rw [hlines, Nat.add_sub_cancel]
    simp
  · rw [lineStart, hlines, Nat.add_sub_cancel, List.take_left, hunlines]
    omega
  · omega
  · rw [byteLength_append]
    omega

/-! ## Characters of a line -/

/-- The number of characters that begin within the span, of characters that stand one
    after the other from the offset `start` on. -/
def charsWithin (span : Span) : Nat → List Char → Nat
  | _, [] => 0
  | start, c :: cs =>
    (if span.lo ≤ start ∧ start < span.hi then 1 else 0) +
      charsWithin span (start + c.utf8Size) cs

/-- Characters within a span are counted one part after the other. -/
theorem charsWithin_append (span : Span) (start : Nat) (a b : List Char) :
    charsWithin span start (a ++ b) =
      charsWithin span start a + charsWithin span (start + byteLength a) b := by
  induction a generalizing start with
  | nil => simp [charsWithin, byteLength]
  | cons c a ih => simp only [List.cons_append, charsWithin, byteLength, ih, Nat.add_assoc]

/-- Within a span all characters count. -/
theorem charsWithin_eq_length {span : Span} {start : Nat} {cs : List Char} (hlo : span.lo ≤ start)
    (hhi : start + byteLength cs ≤ span.hi) : charsWithin span start cs = cs.length := by
  induction cs generalizing start with
  | nil => rfl
  | cons c cs ih =>
    have hc := c.utf8Size_pos
    rw [byteLength] at hhi
    rw [charsWithin, if_pos ⟨hlo, by omega⟩, ih (by omega) (by omega), List.length_cons,
      Nat.add_comm]

/-- Outside of a span no character counts. -/
theorem charsWithin_eq_zero {span : Span} {start : Nat} {cs : List Char}
    (h : start + byteLength cs ≤ span.lo ∨ span.hi ≤ start) : charsWithin span start cs = 0 := by
  induction cs generalizing start with
  | nil => rfl
  | cons c cs ih =>
    have hc := c.utf8Size_pos
    rw [byteLength] at h
    rw [charsWithin, if_neg (by omega), ih (by omega)]

/-- The characters of a line before a boundary on it are those since the last line
    feed. -/
theorem charsWithin_lastLine (before after : List Char) :
    charsWithin ⟨0, byteLength before⟩ (byteLength before - byteLength (lastLine before))
      (lastLine before ++ firstLine after) = (lastLine before).length := by
  have hend := Nat.sub_add_cancel (byteLength_lastLine_le before)
  rw [charsWithin_append, hend, charsWithin_eq_length (Nat.zero_le _) (Nat.le_of_eq hend),
    charsWithin_eq_zero (.inr (Nat.le_refl _)), Nat.add_zero]

/-! ## Locations -/

/-- Further characters move a location on. -/
theorem before_endLocation_append (cs : List Char) {more : List Char} (h : more ≠ []) :
    (endLocation cs).Before (endLocation (cs ++ more)) := by
  by_cases hmem : '\n' ∈ more
  · have hpos := List.count_pos_iff.2 hmem
    refine .inl ?_
    simp only [endLocation, List.count_append]
    omega
  · have hplain : ∀ d ∈ more.reverse, decide (d ≠ '\n') = true := fun d hd =>
      decide_eq_true fun hline => hmem (List.mem_reverse.1 (hline ▸ hd))
    have hlast : lastLine (cs ++ more) = lastLine cs ++ more := by
      rw [lastLine, List.reverse_append, List.takeWhile_append_of_pos hplain,
        List.reverse_append, List.reverse_reverse, lastLine]
    have hlength := List.length_pos_iff.2 h
    refine .inr ⟨?_, ?_⟩
    · simp only [endLocation, List.count_append, List.count_eq_zero_of_not_mem hmem, Nat.add_zero]
    · simp only [endLocation, hlast, List.length_append]
      omega

theorem Location.Before.ne {a b : Location} (h : a.Before b) : a ≠ b := by
  rintro rfl
  rcases h with h | ⟨-, h⟩
  · exact Nat.lt_irrefl _ h
  · exact Nat.lt_irrefl _ h

/-- A place is located by the text before it. -/
theorem locate_append (before after : List Char) :
    locate (byteLength before) (before ++ after) = endLocation before := by
  rw [locate, splitBefore_append]

/-- Locations are ordered as places are. -/
theorem before_locate {i j : Nat} (hi : IsBoundary text i) (hj : IsBoundary text j) (hlt : i < j) :
    (locate i text).Before (locate j text) := by
  obtain ⟨before, after, rfl, rfl⟩ := hi
  obtain ⟨before', after', heq, rfl⟩ := hj
  have hbegins : before <+: before' := by
    rcases List.prefix_or_prefix_of_prefix (List.prefix_append before after)
      (heq ▸ List.prefix_append before' after') with hle | ⟨more, rfl⟩
    · exact hle
    · rw [byteLength_append] at hlt
      omega
  obtain ⟨more, rfl⟩ := hbegins
  rw [locate_append, ← heq, locate_append]
  refine before_endLocation_append before ?_
  rintro rfl
  rw [List.append_nil] at hlt
  exact Nat.lt_irrefl _ hlt

/-- No two boundaries have the same location. -/
theorem eq_of_locate_eq {i j : Nat} (hi : IsBoundary text i) (hj : IsBoundary text j)
    (h : locate i text = locate j text) : i = j := by
  rcases Nat.lt_trichotomy i j with hlt | heq | hlt
  · exact absurd h (before_locate hi hj hlt).ne
  · exact heq
  · exact absurd h.symm (before_locate hj hi hlt).ne

end Toal.Source

namespace Toal

open Source

/-- The location of a span is that of the last boundary at or before its beginning. -/
theorem location_ofSpan (span : Span) (text : List Char) :
    (Mark.ofSpan span text).location = locate span.lo text :=
  congrArg (fun parts : List Char × List Char => endLocation parts.1)
    (splitBefore_floor span.lo text)

/-- Locations identify boundaries. Of two spans that begin at boundaries, the one that
    begins earlier has the earlier location, so only spans that begin at the same boundary
    share one. The location of a boundary is line and column if the text has that line,
    the boundary lies on it, and there is one character less than the column before it on
    the line. -/
theorem locations_identify (text : List Char) :
    (∀ i j hi hj, IsBoundary text i → IsBoundary text j → i < j →
      (Mark.ofSpan ⟨i, hi⟩ text).location.Before (Mark.ofSpan ⟨j, hj⟩ text).location) ∧
    (∀ i j hi hj, IsBoundary text i → IsBoundary text j →
      (Mark.ofSpan ⟨i, hi⟩ text).location = (Mark.ofSpan ⟨j, hj⟩ text).location → i = j) ∧
    ∀ i hi, IsBoundary text i → ∀ line column,
      (Mark.ofSpan ⟨i, hi⟩ text).location = ⟨line, column⟩ ↔
        ∃ start chars, OnLine text i line start chars ∧
          charsWithin ⟨0, i⟩ start chars + 1 = column := by
  simp only [location_ofSpan]
  refine ⟨fun i j _ _ hi hj => before_locate hi hj, fun i j _ _ hi hj => eq_of_locate_eq hi hj,
    fun i _ hi line column => ?_⟩
  obtain ⟨before, after, rfl, rfl⟩ := hi
  have hline := onLine_endLocation before after
  have hcolumn := charsWithin_lastLine before after
  rw [locate_append]
  constructor
  · intro h
    obtain ⟨rfl, rfl⟩ := Location.mk.inj h
    exact ⟨_, _, hline, congrArg (· + 1) hcolumn⟩
  · rintro ⟨start, chars, hon, rfl⟩
    -- A boundary lies on one line only, and the line determines where it begins.
    obtain rfl := Nat.le_antisymm (hon.number_le hline) (hline.number_le hon)
    obtain rfl := hon.start_eq.symm.trans hline.start_eq
    obtain rfl := Option.some.inj (hon.get.symm.trans hline.get)
    rw [hcolumn]
    rfl

end Toal
