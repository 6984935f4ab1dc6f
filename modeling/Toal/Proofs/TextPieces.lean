import Toal.Proofs.Literals

/-!
# Taking texts apart

A script takes the text of an expression apart from left to right: it skips blanks and
takes the first piece of what is left, again and again (`pieces?`). What the first piece of
a text is depends on the pieces that are looked for.

Of a text it matters what it falls into when something follows it. A name goes on as long
as there are characters of names, so only certain texts may follow one; and some of the
texts that may follow can keep the whole from having pieces at all. `Falls` says this of a
text, for any text that may follow it, so that what a text falls into can be put together
from its parts.
-/

namespace Toal.Script

variable {κ : Type}

/-- The pieces of a text. For a text that begins with `c` and goes on with `cs`,
    `first c cs` is its first piece, and how many characters of `cs` belong to that. -/
def pieces? (first : Char → List Char → Option (κ × Nat)) (cs : List Char) : Option (List κ) :=
  match cs with
  | [] => some []
  | c :: cs =>
    if c = ' ' then pieces? first cs
    else
      match first c cs with
      | some (k, taken) => (pieces? first (cs.drop taken)).map (k :: ·)
      | none => none
termination_by cs.length
decreasing_by
  · exact Nat.lt_succ_self _
  · rw [List.length_drop, List.length_cons]
    omega

section Pieces

variable {first : Char → List Char → Option (κ × Nat)} {k : κ} {c : Char} {cs ds : List Char}

theorem pieces?_nil : pieces? first [] = some [] := by
  rw [pieces?]

/-- Spaces are passed over. -/
theorem pieces?_blank (cs : List Char) : pieces? first (' ' :: cs) = pieces? first cs := by
  rw [pieces?, if_pos rfl]

/-- A piece, and then the pieces of what follows it. -/
theorem pieces?_cons (hc : c ≠ ' ') (h : first c (ds ++ cs) = some (k, ds.length)) :
    pieces? first (c :: (ds ++ cs)) = (pieces? first cs).map (k :: ·) := by
  rw [pieces?, if_neg hc, h]
  simp only [List.drop_left]

/-- A piece of one character. -/
theorem pieces?_char (hc : c ≠ ' ') (h : first c cs = some (k, 0)) :
    pieces? first (c :: cs) = (pieces? first cs).map (k :: ·) := by
  rw [pieces?, if_neg hc, h]
  simp only [List.drop_zero]

/-- A text has no pieces if nothing begins like it. -/
theorem pieces?_eq_none (hc : c ≠ ' ') (h : first c cs = none) :
    pieces? first (c :: cs) = none := by
  rw [pieces?, if_neg hc, h]

end Pieces

/-- A run of characters of a kind ends where a character follows that is not of that kind. -/
theorem takeWhile_append_eq {p : Char → Bool} {cs rest : List Char} (hcs : ∀ c ∈ cs, p c = true)
    (hrest : ∀ c ∈ rest.head?, p c = false) : (cs ++ rest).takeWhile p = cs := by
  rw [List.takeWhile_append_of_pos hcs]
  cases rest with
  | nil => rw [List.takeWhile_nil, List.append_nil]
  | cons c rest => rw [List.takeWhile_cons_of_neg (by rw [hrest c rfl]; decide), List.append_nil]

/-- The text of a word begins with a quote and ends with one. -/
theorem toList_wordText (contents : String) :
    (wordText contents).toList = '"' :: (wordChars contents.toList ++ ['"']) := by
  rw [wordText, String.toList_ofList]
  rfl

/-! ## Texts with something after them -/

/-- The text falls into the pieces, whatever follows it: if that is admitted, its own pieces
    come after them, and if it is not, there are none. -/
def Falls (first : Char → List Char → Option (κ × Nat)) (follows : List Char → Prop)
    (admits : List Char → Bool) (cs : List Char) (ks : List κ) : Prop :=
  ∀ rest, follows rest → pieces? first (cs ++ rest) =
    if admits rest then (pieces? first rest).map (ks ++ ·) else none

namespace Falls

variable {first : Char → List Char → Option (κ × Nat)} {follows : List Char → Prop}
  {admits admits' : List Char → Bool} {cs ds : List Char} {k : κ} {ks ls : List κ}

theorem nil : Falls first follows (fun _ => true) [] [] := by
  intro rest _
  exact Option.map_id'.symm

/-- A piece in front of a text. -/
theorem cons (h : ∀ rest, follows rest →
    pieces? first (cs ++ rest) = (pieces? first (ds ++ rest)).map (k :: ·))
    (hds : Falls first follows admits ds ks) : Falls first follows admits cs (k :: ks) := by
  intro rest hrest
  rw [h rest hrest, hds rest hrest]
  split
  · rw [Option.map_map]
    rfl
  · rfl

/-- A text that is one piece. -/
theorem single (h : ∀ rest, follows rest →
    pieces? first (cs ++ rest) = (pieces? first rest).map (k :: ·)) :
    Falls first follows (fun _ => true) cs [k] := by
  intro rest hrest
  rw [h rest hrest, if_pos rfl]
  rfl

/-- A blank in front of a text. -/
theorem blank (h : Falls first follows admits ds ks) :
    Falls first follows admits (' ' :: ds) ks := by
  intro rest hrest
  rw [List.cons_append, pieces?_blank, h rest hrest]

/-- What may follow a text matters only where it does follow. -/
theorem congr (h : Falls first follows admits cs ks)
    (heq : ∀ rest, follows rest → admits' rest = admits rest) :
    Falls first follows admits' cs ks := by
  intro rest hrest
  rw [h rest hrest, heq rest hrest]

/-- One text after the other. Each has to admit what follows it. -/
theorem append (h : Falls first follows admits cs ks) (hds : Falls first follows admits' ds ls)
    (hfollows : ∀ rest, follows rest → follows (ds ++ rest)) :
    Falls first follows (fun rest => admits (ds ++ rest) && admits' rest) (cs ++ ds)
      (ks ++ ls) := by
  intro rest hrest
  rw [List.append_assoc, h _ (hfollows rest hrest), hds rest hrest]
  by_cases hfirst : admits (ds ++ rest) = true
  · by_cases hrest : admits' rest = true
    · rw [if_pos hfirst, if_pos hrest, if_pos (Bool.and_eq_true_iff.2 ⟨hfirst, hrest⟩),
        Option.map_map]
      congr 1
      funext us
      exact (List.append_assoc ks ls us).symm
    · rw [if_pos hfirst, if_neg hrest, if_neg fun hboth => hrest (Bool.and_eq_true_iff.1 hboth).2]
      rfl
  · rw [if_neg hfirst, if_neg fun hboth => hfirst (Bool.and_eq_true_iff.1 hboth).1]

/-- The pieces of the text by itself. -/
theorem pieces?_eq (h : Falls first follows admits cs ks) (hnil : follows []) :
    pieces? first cs = if admits [] then some ks else none := by
  have hpieces := h [] hnil
  rwa [List.append_nil, pieces?_nil, Option.map_some, List.append_nil] at hpieces

end Falls

end Toal.Script
