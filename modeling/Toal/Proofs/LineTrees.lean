import Toal.Proofs.Requests

/-!
# The tree that the lines of a script show

The lines of a script show by their braces and by their indentation which statements
stand in which blocks. A line that begins with one of four words and ends in an opening
brace is the head of a statement with a block; a line that is a closing brace ends the
block, and one that is `} else {` ends the first block of an `if` and begins the second.
Any other line ends in a semicolon and is a statement by itself. A line belongs to the
blocks that are open before it, and it must be indented by two blanks for each of them, the
lines that end a block by two blanks less.

A reader that goes through the lines and keeps a stack of the blocks that are open puts the
tree together (`LineReader.step`, `readLines`), or stops at a line that does not fit.
`LineReader.Step` says what the line of a script can do to the reader, and `ReadsAs` what the lines
of some statements do to it.

* `reads_stmts`: the lines of statements are read as the trees of the statements;
* `ReadsAs.depth_eq`: a line is as deep as there are blocks open, counted by the braces of the
  lines before it.
-/

namespace Toal

namespace Script

/-! ## Trees of statements -/

/-- The kinds of statements that have blocks. -/
inductive BlockKind
  | function
  | branch
  | loopWhile
  | loopOver
deriving DecidableEq, Repr

/-- A statement with a label: one without blocks, or one with a block, and possibly a second
    one. -/
inductive Shape (α : Type)
  | simple (label : α)
  | block (kind : BlockKind) (label : α) (body : List (Shape α))
    (alternate : Option (List (Shape α)))

namespace Shape

variable {α β γ : Type}

mutual

/-- The statement with other labels. -/
def map (f : α → β) : Shape α → Shape β
  | .simple a => .simple (f a)
  | .block k a body none => .block k (f a) (mapAll f body) none
  | .block k a body (some alternate) => .block k (f a) (mapAll f body) (some (mapAll f alternate))

/-- The statements with other labels. -/
def mapAll (f : α → β) : List (Shape α) → List (Shape β)
  | [] => []
  | t :: ts => t.map f :: mapAll f ts

end

mutual

/-- The number of second blocks in a statement. -/
def alternates : Shape α → Nat
  | .simple _ => 0
  | .block _ _ body none => alternatesAll body
  | .block _ _ body (some alternate) => alternatesAll body + alternatesAll alternate + 1

/-- The number of second blocks in statements. -/
def alternatesAll : List (Shape α) → Nat
  | [] => 0
  | t :: ts => t.alternates + alternatesAll ts

end

theorem alternatesAll_append (ts ts' : List (Shape α)) :
    alternatesAll (ts ++ ts') = alternatesAll ts + alternatesAll ts' := by
  induction ts with
  | nil => rw [List.nil_append, alternatesAll, Nat.zero_add]
  | cons t ts ih => rw [List.cons_append, alternatesAll, alternatesAll, ih, Nat.add_assoc]

theorem alternatesAll_concat (ts : List (Shape α)) (t : Shape α) :
    alternatesAll (ts ++ [t]) = alternatesAll ts + t.alternates := by
  rw [alternatesAll_append, alternatesAll, alternatesAll, Nat.add_zero]

mutual

/-- Second blocks stay where labels are changed. -/
theorem alternates_map (f : α → β) : ∀ t : Shape α, (t.map f).alternates = t.alternates
  | .simple _ => by rw [map, alternates, alternates]
  | .block _ _ body none => by rw [map, alternates, alternates, alternatesAll_mapAll f body]
  | .block _ _ body (some alternate) => by
    rw [map, alternates, alternates, alternatesAll_mapAll f body, alternatesAll_mapAll f alternate]

theorem alternatesAll_mapAll (f : α → β) : ∀ ts : List (Shape α),
    alternatesAll (mapAll f ts) = alternatesAll ts
  | [] => by rw [mapAll, alternatesAll, alternatesAll]
  | t :: ts => by
    rw [mapAll, alternatesAll, alternatesAll, alternates_map f t, alternatesAll_mapAll f ts]

end

mutual

theorem map_map (g : β → γ) (f : α → β) : ∀ t : Shape α, (t.map f).map g = t.map (g ∘ f)
  | .simple _ => by rw [map, map, map]; rfl
  | .block _ _ body none => by rw [map, map, map, mapAll_mapAll g f body]; rfl
  | .block _ _ body (some alternate) => by
    rw [map, map, map, mapAll_mapAll g f body, mapAll_mapAll g f alternate]
    rfl

theorem mapAll_mapAll (g : β → γ) (f : α → β) : ∀ ts : List (Shape α),
    mapAll g (mapAll f ts) = mapAll (g ∘ f) ts
  | [] => by rw [mapAll, mapAll, mapAll]
  | t :: ts => by rw [mapAll, mapAll, mapAll, map_map g f t, mapAll_mapAll g f ts]

end

end Shape

end Script

namespace Program

open Script (Shape)

mutual

/-- The tree of a statement, with the statements in it as labels. -/
def Stmt.shape : Stmt → Shape Stmt
  | .automate a params body => .block .function (.automate a params body) (shapes body) none
  | .ifElse test body none => .block .branch (.ifElse test body none) (shapes body) none
  | .ifElse test body (some alternate) =>
    .block .branch (.ifElse test body (some alternate)) (shapes body) (some (shapes alternate))
  | .loopWhile test body => .block .loopWhile (.loopWhile test body) (shapes body) none
  | .loopOver item list body => .block .loopOver (.loopOver item list body) (shapes body) none
  | .declare v init => .simple (.declare v init)
  | .assign target source => .simple (.assign target source)
  | .change op target term => .simple (.change op target term)
  | .print argument => .simple (.print argument)
  | .call callee args => .simple (.call callee args)
  | .output value ty => .simple (.output value ty)
  | .breakLoop => .simple .breakLoop

/-- The trees of statements. -/
def shapes : List Stmt → List (Shape Stmt)
  | [] => []
  | s :: ss => s.shape :: shapes ss

end

end Program

namespace Script

/-! ## Reading lines -/

/-- The block that a line with the given text begins, if it begins a statement with one. -/
def opening? (text : String) : Option BlockKind :=
  if text.toList.getLast? = some '{' then
    if "function ".toList <+: text.toList then some .function
    else if "if (".toList <+: text.toList then some .branch
    else if "while (".toList <+: text.toList then some .loopWhile
    else if "for (".toList <+: text.toList then some .loopOver
    else none
  else none

/-- A line without the indentation of the given depth, if it has that. -/
def dedent? (depth : Nat) (line : String) : Option String :=
  if List.replicate (2 * depth) ' ' <+: line.toList then
    some (String.ofList (line.toList.drop (2 * depth)))
  else none

/-- A block that has not been read to its end. -/
structure Open where
  /-- What the block belongs to. -/
  kind : BlockKind
  /-- The line that the statement begins with. -/
  head : String
  /-- The statements before it, in the block around. -/
  before : List (Shape String)
  /-- The first block, if this is the second one of the statement. -/
  first : Option (List (Shape String))

/-- The statement that a block belongs to, when the block is read. -/
def Open.close (o : Open) (body : List (Shape String)) : Shape String :=
  match o.first with
  | none => .block o.kind o.head body none
  | some first => .block o.kind o.head first (some body)

/-- The second block of an `if`, when the first one is read. -/
def Open.turn (o : Open) (body : List (Shape String)) : Option Open :=
  if o.kind = .branch ∧ o.first.isNone then some { o with first := some body } else none

/-- How far lines have been read. -/
structure LineReader where
  /-- The blocks that are open, the innermost first. -/
  opened : List Open
  /-- The statements that have been read of the innermost one. -/
  done : List (Shape String)

namespace LineReader

/-- Before the first line. -/
def start : LineReader := ⟨[], []⟩

/-- The number of blocks that are open. -/
def depth (r : LineReader) : Nat := r.opened.length

/-- Reads a line that ends no block, without its indentation. -/
def take (r : LineReader) (text : String) : Option LineReader :=
  match opening? text with
  | some k => some ⟨⟨k, text, r.done, none⟩ :: r.opened, []⟩
  | none =>
    if text.toList.getLast? = some ';' then some { r with done := r.done ++ [.simple text] }
    else none

/-- Reads a line. -/
def step (r : LineReader) (line : String) : Option LineReader :=
  match r.opened with
  | [] => (dedent? 0 line).bind r.take
  | o :: outer =>
    if line = (⟨outer.length, "\x7d"⟩ : Line).indented then
      some ⟨outer, o.before ++ [o.close r.done]⟩
    else if line = (⟨outer.length, "\x7d else \x7b"⟩ : Line).indented then
      (o.turn r.done).map fun o => ⟨o :: outer, []⟩
    else (dedent? (outer.length + 1) line).bind r.take

end LineReader

/-- The statements that lines show. -/
def readLines (lines : List String) : Option (List (Shape String)) := do
  let r ← lines.foldlM LineReader.step .start
  if r.opened.isEmpty then some r.done else none

/-! ## Braces -/

/-- What stands on a line after its blanks. -/
def unindented (line : String) : List Char := line.toList.dropWhile (· = ' ')

/-- The line begins a block. -/
def opensBlock (line : String) : Bool := line.toList.getLast? = some '{'

/-- The line begins the second block of a statement. -/
def turnsBlock (line : String) : Bool := unindented line = "\x7d else \x7b".toList

/-- The line ends a block. -/
def closesBlock (line : String) : Bool := unindented line = "\x7d".toList || turnsBlock line

/-- The number of blocks that are open after lines. -/
def openAfter (lines : List String) : Int :=
  (lines.countP opensBlock : Int) - lines.countP closesBlock

/-! ## Single lines -/

variable {d : Nat} {text : String} {r : LineReader}

/-- A line is written after two blanks for each level. -/
theorem toList_indented (l : Line) :
    l.indented.toList = List.replicate (2 * l.depth) ' ' ++ l.text.toList := by
  rw [Line.indented, String.toList_append, String.toList_ofList]

/-- A line at its own depth is read without its indentation. -/
theorem dedent?_indented (d : Nat) (text : String) :
    dedent? d (⟨d, text⟩ : Line).indented = some text := by
  rw [dedent?, toList_indented, if_pos (List.prefix_append _ _),
    List.drop_left' List.length_replicate, String.ofList_toList]

/-- A line at a greater depth has a blank where one at a smaller depth ends its
    indentation. -/
theorem indented_ne {d d' : Nat} {text text' : String} (hd : d' < d)
    (hhead : text'.toList.head? ≠ some ' ') :
    (⟨d, text⟩ : Line).indented ≠ (⟨d', text'⟩ : Line).indented := by
  intro heq
  have hchars := congrArg (·.toList.drop (2 * d')) heq
  simp only [toList_indented, List.drop_left' List.length_replicate] at hchars
  obtain ⟨k, rfl⟩ := Nat.exists_eq_add_of_lt hd
  rw [show 2 * (d' + k + 1) = 2 * d' + (2 * k + 1 + 1) by omega, List.replicate_add,
    List.append_assoc, List.drop_left' List.length_replicate, List.replicate_succ] at hchars
  rw [← hchars] at hhead
  exact hhead rfl

theorem unindented_indented (l : Line) :
    unindented l.indented = l.text.toList.dropWhile (· = ' ') := by
  rw [unindented, toList_indented]
  exact List.dropWhile_append_of_pos fun c hc => by simp [List.eq_of_mem_replicate hc]

/-- What stands on a line after its blanks ends as the line does. -/
theorem getLast?_of_unindented {line : String} {cs : List Char} {c : Char}
    (h : unindented line = cs) (hlast : cs.getLast? = some c) :
    line.toList.getLast? = some c := by
  have hsplit : line.toList.takeWhile (· = ' ') ++ cs = line.toList := by
    rw [← h]
    exact List.takeWhile_append_dropWhile
  rw [← hsplit, List.getLast?_append, hlast, Option.some_or]

/-- Indentation leaves the end of a line as it is. -/
theorem getLast?_indented {l : Line} {c : Char} (h : l.text.toList.getLast? = some c) :
    l.indented.toList.getLast? = some c := by
  rw [toList_indented, List.getLast?_append, h, Option.some_or]

/-- A line that opens a block ends with a brace. -/
theorem getLast?_of_opening? {k : BlockKind} (h : opening? text = some k) :
    text.toList.getLast? = some '{' := by
  by_contra hlast
  rw [opening?, if_neg hlast] at h
  cases h

/-- The line that begins a block does not begin with a blank or a brace. -/
theorem head?_of_opening? {k : BlockKind} (h : opening? text = some k) :
    ∃ c, text.toList.head? = some c ∧ c ≠ ' ' ∧ c ≠ '\x7d' := by
  have hhead {c : Char} {cs : List Char} (hstart : c :: cs <+: text.toList) :
      text.toList.head? = some c := by
    obtain ⟨rest, hrest⟩ := hstart
    rw [← hrest]
    rfl
  rw [opening?, if_pos (getLast?_of_opening? h)] at h
  split at h
  next hstart => exact ⟨'f', hhead hstart, by decide, by decide⟩
  split at h
  next hstart => exact ⟨'i', hhead hstart, by decide, by decide⟩
  split at h
  next hstart => exact ⟨'w', hhead hstart, by decide, by decide⟩
  split at h
  next hstart => exact ⟨'f', hhead hstart, by decide, by decide⟩
  cases h

/-! ## Steps of the reader -/

namespace LineReader

/-- What a line can do. -/
inductive Step : LineReader → Line → LineReader → Prop
  | simple {r : LineReader} {text : String} (hlast : text.toList.getLast? = some ';') :
    Step r ⟨r.depth, text⟩ { r with done := r.done ++ [.simple text] }
  | opening {r : LineReader} {text : String} {k : BlockKind} (hopening : opening? text = some k) :
    Step r ⟨r.depth, text⟩ ⟨⟨k, text, r.done, none⟩ :: r.opened, []⟩
  | closing (o : Open) (outer : List Open) (body : List (Shape String)) :
    Step ⟨o :: outer, body⟩ ⟨outer.length, "\x7d"⟩ ⟨outer, o.before ++ [o.close body]⟩
  | turning {o : Open} (outer : List Open) (body : List (Shape String)) (hkind : o.kind = .branch)
    (hfirst : o.first = none) :
    Step ⟨o :: outer, body⟩ ⟨outer.length, "\x7d else \x7b"⟩
      ⟨{ o with first := some body } :: outer, []⟩

/-- What lines can do. -/
inductive Steps : LineReader → List Line → LineReader → Prop
  | nil (r : LineReader) : Steps r [] r
  | cons {r r' r'' : LineReader} {l : Line} {ls : List Line} (hstep : Step r l r')
    (hsteps : Steps r' ls r'') : Steps r (l :: ls) r''

/-- A line with the indentation of all open blocks ends none of them. -/
theorem step_indented (r : LineReader) (text : String) :
    r.step (⟨r.depth, text⟩ : Line).indented = r.take text := by
  rcases r with ⟨opened, done⟩
  cases opened with
  | nil =>
    rw [step]
    change (dedent? 0 (⟨0, text⟩ : Line).indented).bind _ = _
    rw [dedent?_indented, Option.bind_some]
  | cons o outer =>
    -- The lines that end a block stand one level further out.
    have hdepth : depth ⟨o :: outer, done⟩ = outer.length + 1 := rfl
    rw [hdepth, step]
    dsimp only
    rw [if_neg (indented_ne (Nat.lt_succ_self _) (by decide)),
      if_neg (indented_ne (Nat.lt_succ_self _) (by decide)), dedent?_indented, Option.bind_some]

variable {r r' r'' : LineReader} {l : Line} {ls ls' : List Line}

/-- The reader takes the step. -/
theorem Step.step_eq (h : Step r l r') : r.step l.indented = some r' := by
  cases h with
  | @simple r text hlast =>
    have hopening : opening? text = none := by
      rw [opening?, hlast, if_neg (by decide)]
    rw [step_indented, take, hopening]
    exact if_pos hlast
  | opening hopening => rw [step_indented, take, hopening]
  | closing o outer body => exact if_pos rfl
  | @turning o outer body hkind hfirst =>
    -- The reader looks for the end of the block first.
    have hne : (⟨outer.length, "\x7d else \x7b"⟩ : Line).indented ≠
        (⟨outer.length, "\x7d"⟩ : Line).indented := by
      intro heq
      have hchars := congrArg String.toList heq
      rw [toList_indented, toList_indented] at hchars
      have htexts : "\x7d else \x7b".toList = "\x7d".toList := List.append_cancel_left hchars
      exact absurd htexts (by decide)
    have hturn : o.turn body = some { o with first := some body } :=
      if_pos ⟨hkind, by rw [hfirst]; rfl⟩
    rw [step]
    dsimp only
    rw [if_neg hne, if_pos rfl, hturn]
    rfl

/-- The reader takes the steps, one line after the other. -/
theorem Steps.foldlM_eq (h : Steps r ls r') :
    (ls.map (·.indented)).foldlM step r = some r' := by
  induction h with
  | nil r => rfl
  | cons hstep _ ih =>
    rw [List.map_cons, List.foldlM_cons, hstep.step_eq]
    exact ih

theorem Steps.append (h : Steps r ls r') (h' : Steps r' ls' r'') : Steps r (ls ++ ls') r'' := by
  induction h with
  | nil r => exact h'
  | cons hstep _ ih => exact .cons hstep (ih h')

/-- Steps over two parts are steps over the one and then over the other. -/
theorem Steps.exists_of_append : ∀ {ls : List Line} {r : LineReader}, Steps r (ls ++ ls') r'' →
    ∃ r', Steps r ls r' ∧ Steps r' ls' r'' := by
  intro ls
  induction ls with
  | nil => exact fun h => ⟨_, .nil _, h⟩
  | cons l ls ih =>
    intro r h
    cases h with
    | cons hstep hsteps =>
      obtain ⟨r', hfirst, hrest⟩ := ih hsteps
      exact ⟨r', .cons hstep hfirst, hrest⟩

/-! ## Depths -/

theorem opensBlock_indented {c : Char} (d : Nat) (h : text.toList.getLast? = some c) :
    opensBlock (⟨d, text⟩ : Line).indented = decide (c = '{') := by
  have hlast : (⟨d, text⟩ : Line).indented.toList.getLast? = some c := getLast?_indented h
  rw [opensBlock, hlast]
  simp

/-- A line that ends in a semicolon has no brace that counts. -/
theorem braces_simple (d : Nat) (h : text.toList.getLast? = some ';') :
    opensBlock (⟨d, text⟩ : Line).indented = false ∧
      closesBlock (⟨d, text⟩ : Line).indented = false ∧
      turnsBlock (⟨d, text⟩ : Line).indented = false := by
  have hlast : (⟨d, text⟩ : Line).indented.toList.getLast? = some ';' := getLast?_indented h
  have hne {cs : List Char} {c : Char} (hcs : cs.getLast? = some c) (hc : c ≠ ';') :
      unindented (⟨d, text⟩ : Line).indented ≠ cs := by
    intro hunindented
    rw [getLast?_of_unindented hunindented hcs] at hlast
    exact hc (Option.some.inj hlast)
  have hturns : turnsBlock (⟨d, text⟩ : Line).indented = false :=
    decide_eq_false (hne (c := '{') (by decide) (by decide))
  refine ⟨opensBlock_indented d h, ?_, hturns⟩
  rw [closesBlock, hturns, Bool.or_false]
  exact decide_eq_false (hne (c := '\x7d') (by decide) (by decide))

/-- A line that opens a block closes none. -/
theorem braces_opening {k : BlockKind} (d : Nat) (h : opening? text = some k) :
    opensBlock (⟨d, text⟩ : Line).indented = true ∧
      closesBlock (⟨d, text⟩ : Line).indented = false ∧
      turnsBlock (⟨d, text⟩ : Line).indented = false := by
  obtain ⟨c, hc, hblank, hbrace⟩ := head?_of_opening? h
  have hne {cs : List Char} (hcs : cs.head? = some '\x7d') :
      unindented (⟨d, text⟩ : Line).indented ≠ cs := by
    rw [unindented_indented]
    cases htext : text.toList with
    | nil => rw [htext] at hc; cases hc
    | cons c' rest =>
      rw [htext] at hc
      obtain rfl : c' = c := Option.some.inj hc
      rw [List.dropWhile_cons_of_neg (by simpa using hblank)]
      rintro rfl
      exact hbrace (Option.some.inj hcs)
  have hturns : turnsBlock (⟨d, text⟩ : Line).indented = false := decide_eq_false (hne (by decide))
  refine ⟨opensBlock_indented d (getLast?_of_opening? h), ?_, hturns⟩
  rw [closesBlock, hturns, Bool.or_false]
  exact decide_eq_false (hne (by decide))

/-- A brace alone closes a block. -/
theorem braces_closing (d : Nat) :
    opensBlock (⟨d, "\x7d"⟩ : Line).indented = false ∧
      closesBlock (⟨d, "\x7d"⟩ : Line).indented = true ∧
      turnsBlock (⟨d, "\x7d"⟩ : Line).indented = false := by
  have hunindented : unindented (⟨d, "\x7d"⟩ : Line).indented = "\x7d".toList := by
    rw [unindented_indented]
    change "\x7d".toList.dropWhile _ = _
    decide
  rw [opensBlock_indented d (c := '\x7d') rfl, closesBlock, turnsBlock, hunindented]
  decide

/-- Between two branches a block is closed and another one is opened. -/
theorem braces_turning (d : Nat) :
    opensBlock (⟨d, "\x7d else \x7b"⟩ : Line).indented = true ∧
      closesBlock (⟨d, "\x7d else \x7b"⟩ : Line).indented = true ∧
      turnsBlock (⟨d, "\x7d else \x7b"⟩ : Line).indented = true := by
  have hunindented : unindented (⟨d, "\x7d else \x7b"⟩ : Line).indented =
      "\x7d else \x7b".toList := by
    rw [unindented_indented]
    change "\x7d else \x7b".toList.dropWhile _ = _
    decide
  rw [opensBlock_indented d (c := '{') rfl, closesBlock, turnsBlock, hunindented]
  decide

/-- A line stands at the depth of the blocks that are open before it, or of one block less if
    it ends one. -/
theorem Step.depth_eq (h : Step r l r') :
    (l.depth : Int) = r.depth - (if closesBlock l.indented then 1 else 0) := by
  cases h with
  | @simple r text hlast => simp [braces_simple r.depth hlast]
  | @opening r text k hopening => simp [braces_opening r.depth hopening]
  | closing o outer body => simp [braces_closing, depth]
  | turning outer body _ _ => simp [braces_turning, depth]

/-- The depth after a line is what its braces make of the depth before. -/
theorem Step.depth_after (h : Step r l r') :
    (r'.depth : Int) = r.depth + openAfter [l.indented] := by
  rw [openAfter, List.countP_singleton, List.countP_singleton]
  cases h with
  | @simple r text hlast =>
    obtain ⟨hopens, hcloses, -⟩ := braces_simple r.depth hlast
    rw [hopens, hcloses]
    simp [depth]
  | @opening r text k hopening =>
    obtain ⟨hopens, hcloses, -⟩ := braces_opening r.depth hopening
    rw [hopens, hcloses]
    simp [depth]
  | closing o outer body =>
    obtain ⟨hopens, hcloses, -⟩ := braces_closing outer.length
    rw [hopens, hcloses]
    simp only [depth, List.length_cons, Bool.false_eq_true, if_false, if_true]
    omega
  | turning outer body _ _ =>
    obtain ⟨hopens, hcloses, -⟩ := braces_turning outer.length
    rw [hopens, hcloses]
    simp [depth]

end LineReader

/-- Braces are counted one part after the other. -/
theorem openAfter_append (lines lines' : List String) :
    openAfter (lines ++ lines') = openAfter lines + openAfter lines' := by
  simp only [openAfter, List.countP_append]
  omega

namespace LineReader

/-- The depth after lines is what their braces make of the depth before. -/
theorem Steps.depth_after (h : Steps r ls r') :
    (r'.depth : Int) = r.depth + openAfter (ls.map (·.indented)) := by
  induction h with
  | nil r => simp [openAfter]
  | @cons r r' r'' l ls hstep _ ih =>
    have hlines := openAfter_append [l.indented] (ls.map (·.indented))
    rw [List.map_cons, ih, hstep.depth_after, Int.add_assoc, ← hlines]
    rfl

/-! ## Second blocks -/

end LineReader

/-- The number of second blocks that have been begun, in a block and before it. -/
def Open.alternates (o : Open) : Nat :=
  Shape.alternatesAll o.before +
    match o.first with
    | none => 0
    | some first => Shape.alternatesAll first + 1

/-- Closing a block puts the second blocks in it with those before it. -/
theorem Open.alternates_close (o : Open) (body : List (Shape String)) :
    Shape.alternatesAll (o.before ++ [o.close body]) =
      o.alternates + Shape.alternatesAll body := by
  rw [Shape.alternatesAll_concat]
  rcases o with ⟨kind, head, before, _ | first⟩
  · rw [close, alternates, Shape.alternates]
    rfl
  · rw [close, alternates, Shape.alternates]
    dsimp only
    omega

namespace LineReader

/-- The number of second blocks that have been begun in blocks. -/
def openAlternates : List Open → Nat
  | [] => 0
  | o :: outer => o.alternates + openAlternates outer

/-- The number of second blocks that have been begun. -/
def alternates (r : LineReader) : Nat := openAlternates r.opened + Shape.alternatesAll r.done

/-- A line adds a second block exactly if it stands between two branches. -/
theorem Step.alternates_after (h : Step r l r') :
    r'.alternates = r.alternates + [l.indented].countP turnsBlock := by
  rw [List.countP_singleton]
  cases h with
  | @simple r text hlast =>
    obtain ⟨-, -, hturns⟩ := braces_simple r.depth hlast
    rw [hturns, alternates, Shape.alternatesAll_concat, Shape.alternates]
    rfl
  | @opening r text k hopening =>
    obtain ⟨-, -, hturns⟩ := braces_opening r.depth hopening
    rw [hturns, alternates, alternates, openAlternates, Open.alternates, Shape.alternatesAll]
    simp only [Bool.false_eq_true, if_false]
    omega
  | closing o outer body =>
    obtain ⟨-, -, hturns⟩ := braces_closing outer.length
    rw [hturns, alternates, alternates, Open.alternates_close, openAlternates]
    simp only [Bool.false_eq_true, if_false]
    omega
  | @turning o outer body hkind hfirst =>
    obtain ⟨-, -, hturns⟩ := braces_turning outer.length
    -- The second block counts from its beginning on, and not again when its statement is read.
    rw [hturns, alternates, alternates, openAlternates, openAlternates, Open.alternates,
      Open.alternates, hfirst, Shape.alternatesAll]
    simp only [if_true]
    omega

/-- Lines add as many second blocks as there are lines between two branches. -/
theorem Steps.alternates_after (h : Steps r ls r') :
    r'.alternates = r.alternates + (ls.map (·.indented)).countP turnsBlock := by
  induction h with
  | nil r => rfl
  | @cons r r' r'' l ls hstep _ ih =>
    have hlines : ([l.indented] ++ ls.map (·.indented)).countP turnsBlock = _ := List.countP_append
    rw [List.map_cons, ih, hstep.alternates_after, Nat.add_assoc, ← hlines]
    rfl

end LineReader

/-! ## Lines of statements -/

/-- Lines at the given depth are read as statements, wherever blocks of that depth are open. -/
def ReadsAs (d : Nat) (ls : List Line) (ts : List (Shape String)) : Prop :=
  ∀ r : LineReader, r.depth = d → r.Steps ls { r with done := r.done ++ ts }

namespace ReadsAs

variable {k : BlockKind} {ls ls' : List Line} {ts ts' : List (Shape String)}

theorem nil (d : Nat) : ReadsAs d [] [] := by
  intro r _
  rw [List.append_nil]
  exact .nil r

/-- Lines are read one part after the other. -/
theorem append (h : ReadsAs d ls ts) (h' : ReadsAs d ls' ts') :
    ReadsAs d (ls ++ ls') (ts ++ ts') := by
  intro r hr
  have hsecond := h' { r with done := r.done ++ ts } hr
  rw [List.append_assoc] at hsecond
  exact (h r hr).append hsecond

theorem simple (hlast : text.toList.getLast? = some ';') :
    ReadsAs d [⟨d, text⟩] [.simple text] := by
  rintro r rfl
  exact .cons (.simple hlast) (.nil _)

/-- A block is read from the line that opens it to the brace that closes it. -/
theorem block (hopening : opening? text = some k) (h : ReadsAs (d + 1) ls ts) :
    ReadsAs d (⟨d, text⟩ :: ls ++ [⟨d, "\x7d"⟩]) [.block k text ts none] := by
  rintro r rfl
  have hbody := h ⟨⟨k, text, r.done, none⟩ :: r.opened, []⟩ rfl
  exact .cons (.opening hopening) (hbody.append (.cons (.closing _ _ _) (.nil _)))

/-- Two branches are read with the line between them. -/
theorem ifElse (hopening : opening? text = some .branch) (h : ReadsAs (d + 1) ls ts)
    (h' : ReadsAs (d + 1) ls' ts') :
    ReadsAs d (⟨d, text⟩ :: ls ++ ⟨d, "\x7d else \x7b"⟩ :: ls' ++ [⟨d, "\x7d"⟩])
      [.block .branch text ts (some ts')] := by
  rintro r rfl
  have hbody := h ⟨⟨.branch, text, r.done, none⟩ :: r.opened, []⟩ rfl
  have halternate := h' ⟨⟨.branch, text, r.done, some ts⟩ :: r.opened, []⟩ rfl
  rw [List.append_assoc]
  refine .cons (.opening hopening) (hbody.append ?_)
  exact .cons (.turning _ _ rfl rfl) (halternate.append (.cons (.closing _ _ _) (.nil _)))

theorem steps (h : ReadsAs 0 ls ts) : LineReader.start.Steps ls ⟨[], ts⟩ := h .start rfl

/-- Lines that are read as trees at the outermost level are read as a whole. -/
theorem readLines_eq (h : ReadsAs 0 ls ts) : readLines (ls.map (·.indented)) = some ts := by
  rw [readLines, h.steps.foldlM_eq]
  rfl

/-- All blocks are closed at the end. -/
theorem openAfter_eq_zero (h : ReadsAs 0 ls ts) : openAfter (ls.map (·.indented)) = 0 := by
  have hdepth : (0 : Int) = 0 + openAfter (ls.map (·.indented)) := h.steps.depth_after
  rw [Int.zero_add] at hdepth
  exact hdepth.symm

/-- There are as many lines between branches as there are second blocks. -/
theorem countP_turnsBlock (h : ReadsAs 0 ls ts) :
    (ls.map (·.indented)).countP turnsBlock = Shape.alternatesAll ts := by
  have hcount := h.steps.alternates_after
  simp only [LineReader.alternates, LineReader.openAlternates, LineReader.start,
    Shape.alternatesAll, Nat.zero_add] at hcount
  exact hcount.symm

/-- A line is as deep as there are blocks open before it, less the one that it closes. -/
theorem depth_eq (h : ReadsAs 0 ls ts) {before after : List Line} {l : Line}
    (hls : ls = before ++ l :: after) :
    (l.depth : Int) =
      openAfter (before.map (·.indented)) - (if closesBlock l.indented then 1 else 0) := by
  -- `r` is how far the lines before this one have been read.
  obtain ⟨r, hbefore, hrest⟩ := LineReader.Steps.exists_of_append (hls ▸ h.steps)
  cases hrest with
  | cons hstep _ =>
    have hdepth : (r.depth : Int) = 0 + openAfter (before.map (·.indented)) := hbefore.depth_after
    rw [hstep.depth_eq, hdepth, Int.zero_add]

end ReadsAs

/-- The text of the first line of a statement. -/
def Stmt.headline (s : Stmt) : String := ((s.lines 0).head?.map (·.text)).getD ""

/-- A text ends as its second part does. -/
theorem getLast?_append_of_some {a b : String} {c : Char} (h : b.toList.getLast? = some c) :
    (a ++ b).toList.getLast? = some c := by
  rw [String.toList_append, List.getLast?_append, h, Option.some_or]

theorem opening?_function (a b : String) :
    opening? ("function " ++ a ++ "(" ++ b ++ ") \x7b") = some .function := by
  rw [opening?, if_pos (getLast?_append_of_some rfl)]
  simp

theorem opening?_if (a : String) : opening? ("if (" ++ a ++ ") \x7b") = some .branch := by
  rw [opening?, if_pos (getLast?_append_of_some rfl)]
  simp

theorem opening?_while (a : String) :
    opening? ("while (" ++ a ++ ") \x7b") = some .loopWhile := by
  rw [opening?, if_pos (getLast?_append_of_some rfl)]
  simp

theorem opening?_for (a b : String) :
    opening? ("for (let " ++ a ++ " of " ++ b ++ ") \x7b") = some .loopOver := by
  rw [opening?, if_pos (getLast?_append_of_some rfl)]
  simp

mutual

/-- The lines of a statement are read as the tree of the statement. -/
theorem reads_stmt (ρ : Entity → Name) (d : Nat) : ∀ s : Program.Stmt,
    ReadsAs d ((Stmt.ofProgram ρ s).lines d) [s.shape.map fun s => (Stmt.ofProgram ρ s).headline]
  | .declare _ _ => .simple (getLast?_append_of_some rfl)
  | .assign _ _ => .simple (getLast?_append_of_some rfl)
  | .change _ _ _ => .simple (getLast?_append_of_some rfl)
  | .print _ => .simple (getLast?_append_of_some rfl)
  | .automate _ _ body => .block (opening?_function _ _) (reads_stmts ρ (d + 1) body)
  | .call _ _ => .simple (getLast?_append_of_some rfl)
  | .output none _ => .simple rfl
  | .output (some _) _ => .simple (getLast?_append_of_some rfl)
  | .ifElse _ body none => .block (opening?_if _) (reads_stmts ρ (d + 1) body)
  | .ifElse _ body (some alternate) =>
    .ifElse (opening?_if _) (reads_stmts ρ (d + 1) body) (reads_stmts ρ (d + 1) alternate)
  | .loopWhile _ body => .block (opening?_while _) (reads_stmts ρ (d + 1) body)
  | .loopOver _ _ body => .block (opening?_for _ _) (reads_stmts ρ (d + 1) body)
  | .breakLoop => .simple rfl

/-- The lines of statements are read as the trees of the statements. -/
theorem reads_stmts (ρ : Entity → Name) (d : Nat) : ∀ ss : List Program.Stmt,
    ReadsAs d (linesAll d (Stmt.ofPrograms ρ ss))
      (Shape.mapAll (fun s => (Stmt.ofProgram ρ s).headline) (Program.shapes ss))
  | [] => .nil d
  | s :: ss => (reads_stmt ρ d s).append (reads_stmts ρ d ss)

end

end Script

end Toal
