/-!
# Spans and positions in a text

A source text is a list of characters, and a position in it is a byte offset in
its UTF-8 form. A *span* is a stretch of a text, given by the offsets of its two
ends; tokens, expressions, statements and faults carry one.

Only some offsets lie between two characters; those are the *boundaries*.
`splitBefore` cuts a text at the last boundary up to a given offset and so makes
sense of every offset, also of one inside a character or past the end. All else
follows from it: the nearest boundary below an offset (`floor`), spans brought
onto boundaries (`Span.clamp`), the text of a span (`snippet`), and line and
column (`locate`).
-/

namespace Toal.Source

/-- The bytes from `lo` up to, and without, `hi`. -/
structure Span where
  /-- The offset of the first byte. -/
  lo : Nat
  /-- The offset after the last byte. -/
  hi : Nat
deriving DecidableEq, Repr, Inhabited

/-- The smallest span around two spans. -/
def Span.cover (a b : Span) : Span :=
  ⟨min a.lo b.lo, max a.hi b.hi⟩

/-- The length of a text in bytes. -/
def byteLength : List Char → Nat
  | [] => 0
  | c :: cs => c.utf8Size + byteLength cs

/-- The two parts of a text around its last boundary at or before the offset. -/
def splitBefore : Nat → List Char → List Char × List Char
  | _, [] => ([], [])
  | n, c :: cs =>
    if c.utf8Size ≤ n then
      let (before, after) := splitBefore (n - c.utf8Size) cs
      (c :: before, after)
    else ([], c :: cs)

/-- The two parts of a text around the offset, if that is a boundary. -/
def splitAt? (n : Nat) (cs : List Char) : Option (List Char × List Char) :=
  let (before, after) := splitBefore n cs
  if byteLength before = n then some (before, after) else none

/-- The last boundary at or before the offset. -/
def floor (n : Nat) (cs : List Char) : Nat :=
  byteLength (splitBefore n cs).1

/-- The span brought onto boundaries of the text, each end downwards. A span
    whose ends are reversed becomes empty. -/
def Span.clamp (s : Span) (cs : List Char) : Span :=
  let lo := floor s.lo cs
  ⟨lo, floor (max s.hi lo) cs⟩

/-- The text of a span. -/
def snippet (s : Span) (cs : List Char) : List Char :=
  let s := s.clamp cs
  (splitBefore (s.hi - s.lo) (splitBefore s.lo cs).2).1

/-- A place as people count it: line and column, both from one. -/
structure Location where
  /-- One more than the number of line feeds before the place. -/
  line : Nat
  /-- One more than the number of characters before the place on its line. -/
  column : Nat
deriving DecidableEq, Repr

/-- What follows the last line feed of a text. -/
def lastLine (cs : List Char) : List Char :=
  (cs.reverse.takeWhile (· ≠ '\n')).reverse

/-- The part of a text before its first line feed. -/
def firstLine (cs : List Char) : List Char :=
  cs.takeWhile (· ≠ '\n')

/-- The location at the end of a text. -/
def endLocation (cs : List Char) : Location :=
  ⟨cs.count '\n' + 1, (lastLine cs).length + 1⟩

/-- The location of the last boundary at or before the offset. -/
def locate (n : Nat) (cs : List Char) : Location :=
  endLocation (splitBefore n cs).1

end Toal.Source
