import Toal.Proofs.BreakLines
import Toal.Proofs.BuiltinCalls
import Toal.Proofs.Layouts
import Toal.Proofs.LineTrees
import Toal.Proofs.References

/-!
# Kinds of statements and their lines

The first line of a statement in a script shows what kind of statement it is: most
kinds by a word that the line begins with, an assignment or a change by the operator after a
name, and a call by having none of these (`lineKind`). For this the names have to be names: one
that is spelled `let x = 1; y` would make an assignment look like a declaration. The names of
a program that has been read from a text are (`Program.spelled_of_run`).

* `lines_mirror_statements`: the lines of a script show the tree of the statements of the
  program, with braces that match and with an indentation that agrees with them.
-/

namespace Toal

/-- The kinds of statements. -/
inductive Program.StmtKind
  | declare
  | assign
  | change
  | print
  | automate
  | call
  | output
  | ifElse
  | loopWhile
  | loopOver
  | breakLoop
deriving DecidableEq, Repr

/-- The kind of a statement. -/
def Program.Stmt.kind : Program.Stmt → StmtKind
  | .declare .. => .declare
  | .assign .. => .assign
  | .change .. => .change
  | .print .. => .print
  | .automate .. => .automate
  | .call .. => .call
  | .output .. => .output
  | .ifElse .. => .ifElse
  | .loopWhile .. => .loopWhile
  | .loopOver .. => .loopOver
  | .breakLoop => .breakLoop

namespace Script

open Program (StmtKind shapes)

/-! ## Reading the kind off a line -/

/-- The kind of the statements with the given blocks. -/
def BlockKind.stmtKind : BlockKind → StmtKind
  | .function => .automate
  | .branch => .ifElse
  | .loopWhile => .loopWhile
  | .loopOver => .loopOver

/-- The kind of a statement without blocks that begins with the given path, and what follows
    it. -/
def kindAfter (word rest : List Char) : StmtKind :=
  if word = "let".toList then .declare
  else if word = "console.log".toList then .print
  else if word = "return".toList then .output
  else if word = "break".toList then .breakLoop
  else if word = "typeof".toList then .call
  else if " = ".toList <+: rest then .assign
  else if [ArithOp.add, .sub, .mul, .div, .pow, .rem].any fun op =>
      (" " ++ arithText op ++ "= ").toList <+: rest then .change
  else .call

/-- The kind of the statement that begins with a line of the given text. -/
def lineKind (text : String) : StmtKind :=
  match opening? text with
  | some k => k.stmtKind
  | none => kindAfter (text.toList.takeWhile isAtomChar) (text.toList.dropWhile isAtomChar)

/-- What the lines of some kinds of statements begin with. -/
def lineWords : List (List Char) :=
  ["let".toList, "console.log".toList, "return".toList, "break".toList, "typeof".toList]

/-! ## What lines begin with -/

/-- The text has the characters of a path and is not the beginning of a line word. -/
structure Free (word : List Char) : Prop where
  chars : ∀ c ∈ word, isAtomChar c = true
  free : ∀ k ∈ lineWords, ¬word <+: k

variable {word cs rest : List Char}

/-- More characters of a path do not make it a line word. -/
theorem Free.append (h : Free word) {more : List Char} (hmore : ∀ c ∈ more, isAtomChar c = true) :
    Free (word ++ more) where
  chars := List.forall_mem_append.2 ⟨h.chars, hmore⟩
  free k hk hword := h.free k hk (.trans (List.prefix_append _ _) hword)

theorem Free.exists_cons (h : Free word) : ∃ c cs, word = c :: cs ∧ isAtomChar c = true := by
  cases word with
  | nil => exact absurd List.nil_prefix (h.free "let".toList List.mem_cons_self)
  | cons c cs => exact ⟨c, cs, rfl, h.chars c List.mem_cons_self⟩

/-- A text with a digit in it is not the beginning of a line word. -/
theorem free_of_isDigit (hchars : ∀ c ∈ word, isAtomChar c = true) {c : Char} (hc : c ∈ word)
    (hdigit : c.isDigit = true) : Free word := by
  refine ⟨hchars, fun k hk hword => ?_⟩
  have hletters : lineWords.all (·.all (!·.isDigit)) = true := by decide
  have hletter := List.all_eq_true.1 (List.all_eq_true.1 hletters k hk) c (hword.subset hc)
  rw [hdigit] at hletter
  cases hletter

instance : DecidablePred Free := fun word =>
  decidable_of_iff (word.all isAtomChar = true ∧ lineWords.all (!word.isPrefixOf ·) = true) (by
    simp only [List.all_eq_true, Bool.not_eq_true', ← Bool.not_eq_true, List.isPrefixOf_iff_prefix]
    exact ⟨fun h => ⟨h.1, h.2⟩, fun h => ⟨h.chars, h.free⟩⟩)

/-- What follows a path, if anything: a character that neither goes on with it nor is a
    blank. -/
def EndsPath (rest : List Char) : Prop :=
  ∀ c ∈ rest.head?, isAtomChar c = false ∧ c ≠ ' '

/-- The text begins with `typeof`, with a path that is not a line word, or with a character that
    is none of a path, and no blank follows. -/
inductive Begins : List Char → Prop
  | typeOf {rest : List Char} : Begins ("typeof ".toList ++ rest)
  | path {word rest : List Char} (hword : Free word) (hrest : EndsPath rest) : Begins (word ++ rest)
  | mark {c : Char} {rest : List Char} (hc : isAtomChar c = false) (hblank : c ≠ ' ') :
      Begins (c :: rest)

/-- What a text begins with is no different if a path goes on. -/
theorem Begins.append (h : Begins cs) {more : List Char} (hmore : ∀ c ∈ more, isAtomChar c = true)
    (hrest : EndsPath rest) : Begins (cs ++ (more ++ rest)) := by
  cases h with
  | typeOf =>
    rw [List.append_assoc]
    exact .typeOf
  | mark hc hblank => exact .mark hc hblank
  | @path word cs hword hcs =>
    cases cs with
    | nil =>
      rw [List.append_nil, ← List.append_assoc]
      exact .path (hword.append hmore) hrest
    | cons c cs =>
      rw [List.append_assoc]
      exact .path hword fun d hd => hcs d hd

theorem Free.head?_ne_blank (h : Free word) (rest : List Char) :
    (word ++ rest).head? ≠ some ' ' := by
  obtain ⟨c, cs, rfl, hc⟩ := h.exists_cons
  intro hblank
  obtain rfl : c = ' ' := Option.some.inj hblank
  exact absurd hc (by decide)

/-- What begins like this does not begin with a blank. -/
theorem Begins.head?_ne_blank (h : Begins cs) : cs.head? ≠ some ' ' := by
  cases h with
  | typeOf => exact fun heq => absurd (Option.some.inj heq) (by decide)
  | @path word rest hword hrest => exact hword.head?_ne_blank rest
  | mark hc hblank => exact fun heq => hblank (Option.some.inj heq)

/-! ## The kinds of lines -/

/-- The kind of a line that ends in a semicolon, given what follows its path. -/
theorem lineKind_of_path {text : String} {c : Char} (hlast : text.toList.getLast? = some ';')
    (htext : text.toList = word ++ c :: rest) (hword : ∀ c ∈ word, isAtomChar c = true)
    (hc : isAtomChar c = false) : lineKind text = kindAfter word (c :: rest) := by
  have hopening : opening? text = none := by
    rw [opening?, hlast, if_neg (by decide)]
  rw [lineKind, hopening]
  dsimp only
  rw [htext, List.takeWhile_append_of_pos hword, List.takeWhile_cons_of_neg (by simp [hc]),
    List.append_nil, List.dropWhile_append_of_pos hword, List.dropWhile_cons_of_neg (by simp [hc])]

theorem Free.notMem (h : Free word) : word ∉ lineWords := fun hmem =>
  h.free word hmem List.prefix_rfl

/-- After what is no line word, the operator decides. -/
theorem kindAfter_of_notMem (h : word ∉ lineWords) (rest : List Char) :
    kindAfter word rest =
      if " = ".toList <+: rest then .assign
      else if [ArithOp.add, .sub, .mul, .div, .pow, .rem].any fun op =>
          (" " ++ arithText op ++ "= ").toList <+: rest then .change
      else .call := by
  have hne {k : List Char} (hk : k ∈ lineWords) : word ≠ k := by
    rintro rfl
    exact h hk
  rw [kindAfter, if_neg (hne (by decide)), if_neg (hne (by decide)), if_neg (hne (by decide)),
    if_neg (hne (by decide)), if_neg (hne (by decide))]

/-- An assignment shows by its operator. -/
theorem lineKind_assign {text : String} (h : Free text.toList) (source : String) :
    lineKind (text ++ " = " ++ source ++ ";") = .assign := by
  have htext : (text ++ " = " ++ source ++ ";").toList =
      text.toList ++ ' ' :: ('=' :: ' ' :: (source.toList ++ [';'])) := by simp
  have hequal : " = ".toList <+: ' ' :: '=' :: ' ' :: (source.toList ++ [';']) :=
    List.prefix_append " = ".toList _
  rw [lineKind_of_path (getLast?_append_of_some rfl) htext h.chars (by decide),
    kindAfter_of_notMem h.notMem, if_pos hequal]

/-- A change shows by its operator. -/
theorem lineKind_change {text : String} (h : Free text.toList) (op : ArithOp) (term : String) :
    lineKind (text ++ " " ++ arithText op ++ "= " ++ term ++ ";") = .change := by
  have htext : (text ++ " " ++ arithText op ++ "= " ++ term ++ ";").toList =
      text.toList ++ ' ' :: ((arithText op).toList ++ '=' :: ' ' :: (term.toList ++ [';'])) := by
    simp
  rw [lineKind_of_path (getLast?_append_of_some rfl) htext h.chars (by decide),
    kindAfter_of_notMem h.notMem]
  cases op <;> simp [arithText, ArithOp.symbol]

/-- A path that no operator follows begins a call. -/
theorem EndsPath.kindAfter_eq (h : EndsPath rest) (hword : word ∉ lineWords) :
    kindAfter word rest = .call := by
  have hnot (more : List Char) : ¬(' ' :: more) <+: rest := by
    rintro ⟨_, rfl⟩
    exact (h ' ' rfl).2 rfl
  have hassign : ¬" = ".toList <+: rest := hnot "= ".toList
  rw [kindAfter_of_notMem hword, if_neg hassign, if_neg]
  rw [List.any_eq_true]
  rintro ⟨op, -, hop⟩
  rw [String.toList_append, String.toList_append] at hop
  exact hnot _ (of_decide_eq_true hop)

/-- A line that begins with neither a line word nor a path and a blank is a call. -/
theorem Begins.lineKind_eq {text : String} (h : Begins text.toList)
    (hlast : text.toList.getLast? = some ';') : lineKind text = .call := by
  generalize htext : text.toList = cs at h
  cases h with
  | @typeOf rest =>
    have hword : text.toList = "typeof".toList ++ ' ' :: rest := htext
    exact lineKind_of_path hlast hword (List.all_eq_true.1 (by decide)) (by decide)
  | @path word rest hword hrest =>
    cases rest with
    | nil =>
      -- A line ends with a semicolon, and a path has none.
      rw [List.append_nil] at htext
      have hmem := List.mem_of_getLast? hlast
      rw [htext] at hmem
      exact absurd (hword.chars _ hmem) (by decide)
    | cons c rest =>
      rw [lineKind_of_path hlast htext hword.chars (hrest c rfl).1]
      exact hrest.kindAfter_eq hword.notMem
  | @mark c rest hc hblank =>
    have hrest : EndsPath (c :: rest) := by
      rintro _ ⟨⟩
      exact ⟨hc, hblank⟩
    have hword : text.toList = [] ++ c :: rest := htext
    rw [lineKind_of_path hlast hword (List.forall_mem_nil _) hc]
    exact hrest.kindAfter_eq (by decide)

/-- A declaration shows by its word. -/
theorem lineKind_declare (target init : String) :
    lineKind ("let " ++ target ++ " = " ++ init ++ ";") = .declare := by
  have htext : ("let " ++ target ++ " = " ++ init ++ ";").toList =
      "let".toList ++ ' ' :: (target.toList ++ " = ".toList ++ init.toList ++ [';']) := by simp
  rw [lineKind_of_path (getLast?_append_of_some rfl) htext (List.all_eq_true.1 (by decide))
    (by decide)]
  exact if_pos rfl

/-- A print shows by its path. -/
theorem lineKind_print (argument : String) :
    lineKind ("console.log(" ++ argument ++ ");") = .print := by
  have htext : ("console.log(" ++ argument ++ ");").toList =
      "console.log".toList ++ '(' :: (argument.toList ++ ");".toList) := by simp
  rw [lineKind_of_path (getLast?_append_of_some rfl) htext (List.all_eq_true.1 (by decide))
    (by decide)]
  rw [kindAfter, if_neg (by decide)]
  exact if_pos rfl

/-- An output shows by its word. -/
theorem lineKind_output (value : String) :
    lineKind ("return " ++ value ++ ";") = .output := by
  have htext : ("return " ++ value ++ ";").toList =
      "return".toList ++ ' ' :: (value.toList ++ [';']) := by simp
  rw [lineKind_of_path (getLast?_append_of_some rfl) htext (List.all_eq_true.1 (by decide))
    (by decide)]
  rw [kindAfter, if_neg (by decide), if_neg (by decide)]
  exact if_pos rfl

/-! ## Names and expressions -/

/-- The number after a name keeps it apart from words. -/
theorem free_name {n : Name} (h : Skeleton.IsName n.base) : Free n.text.toList := by
  obtain ⟨c, hc⟩ := List.exists_mem_of_ne_nil (Nat.toDigits 10 n.suffix) Nat.toDigits_ne_nil
  have hmem : c ∈ n.text.toList := by
    rw [n.toList_text]
    exact List.mem_append_right _ (List.mem_cons_of_mem _ hc)
  exact free_of_isDigit (isWord_name h).chars hmem
    (Nat.isDigit_of_mem_toDigits (by decide) (by decide) hc)

/-- What a variable is in a script is no line word. -/
theorem free_ofVariable {ρ : Entity → Name} {v : Variable}
    (h : Skeleton.IsName (ρ (.var v)).base) : Free (Ref.ofVariable ρ v).text.toList := by
  rw [Ref.ofVariable]
  cases hv : constant? v with
  | none => exact free_name h
  | some r =>
    rw [Option.getD_some]
    unfold constant? at hv
    split at hv
    · split at hv <;> cases hv <;> decide
    · cases hv

theorem begins_of_free {text : String} (h : Free text.toList) : Begins text.toList := by
  have hnil : EndsPath [] := fun _ hc => by cases hc
  have hbegins := Begins.path h hnil
  rwa [List.append_nil] at hbegins

/-- A numeral is no line word. -/
theorem free_of_isUnsigned {text : String} (h : IsUnsigned text.toList) : Free text.toList := by
  obtain ⟨hplaces, c, hc, hdigit⟩ := hasPlaces_of_isUnsigned h
  exact free_of_isDigit (isWord_of_hasPlaces hplaces ⟨c, hc, hdigit⟩).chars hc hdigit

/-- A number begins with a digit, a parenthesis or a name. -/
theorem begins_numText (x : Float) : Begins (numText x).toList := by
  rw [numText]
  split
  · rw [String.toList_append, String.toList_append]
    exact .mark (by decide) (by decide)
  · next hsign =>
    rw [Number.text, if_neg hsign]
    split
    · exact begins_of_free (by decide)
    split
    · exact begins_of_free (by decide)
    · rw [String.empty_append]
      exact begins_of_free (free_of_isUnsigned (isUnsigned_text _))

theorem begins_paren (e : Expr) : Begins (Expr.paren e).text.toList := by
  change Begins ("(" ++ e.text ++ ")").toList
  rw [String.toList_append, String.toList_append]
  exact .mark (c := '(') (by decide) (by decide)

section

variable {ρ : Entity → Name}

/-- A call begins with the name of what is called. -/
theorem begins_call (n : Name) (h : Skeleton.IsName n.base) (args : List Expr) :
    Begins (Expr.call n args).text.toList := by
  have htext : (Expr.call n args).text.toList =
      n.text.toList ++ '(' :: ((textAll args).toList ++ [')']) := by
    change (n.text ++ "(" ++ textAll args ++ ")").toList = _
    simp
  rw [htext]
  refine .path (free_name h) ?_
  rintro _ ⟨⟩
  decide

/-- A template begins as its first operand does, or in a way of its own. -/
theorem begins_template {name : String} {args : List Expr} {e : Expr}
    (h : template? name args = some e) (hargs : ∀ a ∈ args, Begins a.text.toList) :
    Begins e.text.toList := by
  unfold template? at h
  -- One case for each template; those of `append` and `length` begin with their argument.
  split at h
  · rename_i element list
    cases h
    have htext : (Expr.push list element).text.toList =
        list.text.toList ++ (".push".toList ++ '(' :: (element.text.toList ++ [')'])) := by
      change (list.text ++ ".push(" ++ element.text ++ ")").toList = _
      simp
    rw [htext]
    refine (hargs list (by simp)).append (List.all_eq_true.1 (by decide)) ?_
    rintro _ ⟨⟩
    decide
  · rename_i element list
    cases h
    change Begins ("((l, e) => \x7b const i = l.indexOf(e); if (i !== -1) l.splice(i, 1); \x7d)(" ++
      list.text ++ ", " ++ element.text ++ ")").toList
    simp only [String.toList_append, List.append_assoc]
    exact .mark (c := '(') (by decide) (by decide)
  · rename_i value
    cases h
    have htext : (Expr.length value).text.toList =
        value.text.toList ++ (".length".toList ++ []) := by
      change (value.text ++ ".length").toList = _
      simp
    rw [htext]
    refine (hargs value (by simp)).append (List.all_eq_true.1 (by decide)) ?_
    rintro _ ⟨⟩
  · rename_i start stop
    cases h
    have htext : (Expr.range start stop).text.toList = "Array.from".toList ++ '(' ::
        ("\x7b length: ".toList ++ stop.text.toList ++ " - ".toList ++ start.text.toList ++
          " \x7d, (_, i) => ".toList ++ start.text.toList ++ " + i)".toList) := by
      change ("Array.from(\x7b length: " ++ stop.text ++ " - " ++ start.text ++
        " \x7d, (_, i) => " ++ start.text ++ " + i)").toList = _
      simp
    rw [htext]
    refine .path (by decide) ?_
    rintro _ ⟨⟩
    decide
  · rename_i value
    cases h
    change Begins ("typeof " ++ value.text).toList
    rw [String.toList_append]
    exact .typeOf
  · cases h

theorem begins_ofCall {callee : Automation} {args : List Expr}
    (hcallee : Skeleton.IsName (ρ (.auto callee)).base)
    (hargs : ∀ a ∈ args.map operand, Begins a.text.toList) :
    Begins (Expr.ofCall ρ callee args).text.toList := by
  unfold Expr.ofCall
  split
  · cases htemplate : template? callee.name (args.map operand) with
    | some e => exact begins_template htemplate hargs
    | none => exact begins_call _ hcallee _
  · exact begins_call _ hcallee _

/-- A call is no operator. -/
theorem operand_ofCall (callee : Automation) (args : List Expr) :
    operand (Expr.ofCall ρ callee args) = Expr.ofCall ρ callee args := by
  unfold Expr.ofCall
  split
  · unfold template?
    split <;> rfl
  · rfl

mutual

/-- An expression that is an operand does not begin like a line of another kind. -/
theorem begins_operand : ∀ e : Program.Expr, (∀ x ∈ e.references, Skeleton.IsName (ρ x).base) →
    Begins (operand (Expr.ofProgram ρ e)).text.toList
  | .num value, _ => begins_numText value
  | .bool true, _ => by
    change Begins "true".toList
    exact begins_of_free (by decide)
  | .bool false, _ => by
    change Begins "false".toList
    exact begins_of_free (by decide)
  | .word contents, _ => by
    change Begins (wordText contents).toList
    rw [wordText, String.toList_ofList]
    exact .mark (by decide) (by decide)
  | .list elements, _ => by
    change Begins ("[" ++ textAll _ ++ "]").toList
    rw [String.toList_append, String.toList_append]
    exact .mark (c := '[') (by decide) (by decide)
  | .var v, h => begins_of_free (free_ofVariable (h _ List.mem_cons_self))
  | .auto a, h => begins_of_free (free_name (h _ List.mem_cons_self))
  | .arith op left right, _ => begins_paren _
  | .compare op left right, _ => begins_paren _
  | .paren inner, _ => begins_paren _
  | .call callee args, h => by
    obtain ⟨hcallee, hargs⟩ := List.forall_mem_cons.1 h
    change Begins (operand (Expr.ofCall ρ callee (Expr.ofPrograms ρ args))).text.toList
    rw [operand_ofCall]
    exact begins_ofCall hcallee (begins_operands args hargs)

theorem begins_operands : ∀ es : List Program.Expr,
    (∀ x ∈ Program.exprsReferences es, Skeleton.IsName (ρ x).base) →
      ∀ a ∈ (Expr.ofPrograms ρ es).map operand, Begins a.text.toList
  | [], _ => List.forall_mem_nil _
  | e :: es, h => by
    obtain ⟨he, hes⟩ := List.forall_mem_append.1 h
    exact List.forall_mem_cons.2 ⟨begins_operand e he, begins_operands es hes⟩

end

/-! ## The lines of statements -/

/-- No line of the list begins with a blank, apart from its indentation. -/
def Flush (ls : List Line) : Prop := ∀ l ∈ ls, l.text.toList.head? ≠ some ' '

theorem flush_singleton {d : Nat} {text : String} (h : text.toList.head? ≠ some ' ') :
    Flush [⟨d, text⟩] := List.forall_mem_singleton.2 h

/-- A block is flush if its lines are. -/
theorem flush_block {d : Nat} {text : String} {k : BlockKind} {ls : List Line}
    (hopening : opening? text = some k) (h : Flush ls) :
    Flush (⟨d, text⟩ :: ls ++ [⟨d, "\x7d"⟩]) := by
  obtain ⟨c, hc, hblank, -⟩ := head?_of_opening? hopening
  refine List.forall_mem_append.2 ⟨List.forall_mem_cons.2 ⟨?_, h⟩, flush_singleton (by decide)⟩
  rw [hc]
  exact fun heq => hblank (Option.some.inj heq)

theorem flush_else {d : Nat} {ls ls' : List Line} (h : Flush ls) (h' : Flush ls') :
    Flush (ls ++ ⟨d, "\x7d else \x7b"⟩ :: ls') := by
  have helse : "\x7d else \x7b".toList.head? ≠ some ' ' := by decide
  exact List.forall_mem_append.2 ⟨h, List.forall_mem_cons.2 ⟨helse, h'⟩⟩

/-- The line that opens a block shows the kind of the statement. -/
theorem lineKind_of_opening? {text : String} {k : BlockKind} (h : opening? text = some k) :
    lineKind text = k.stmtKind := by
  rw [lineKind, h]

theorem kinds_block {d : Nat} {text : String} {k : BlockKind} {ls : List Line}
    {ts us : List (Shape StmtKind)} (hopening : opening? text = some k) (h : ts = us ∧ Flush ls) :
    Shape.block k (lineKind text) ts none = .block k k.stmtKind us none ∧
      Flush (⟨d, text⟩ :: ls ++ [⟨d, "\x7d"⟩]) :=
  ⟨congrArg₂ (Shape.block k · · none) (lineKind_of_opening? hopening) h.1,
    flush_block hopening h.2⟩

mutual

/-- The headline of a statement shows its kind, and no line of it begins with a blank. -/
theorem kinds_stmt (d : Nat) : ∀ s : Program.Stmt,
    (∀ x ∈ s.references, Skeleton.IsName (ρ x).base) →
      (s.shape.map fun s => lineKind (Stmt.ofProgram ρ s).headline) = s.shape.map (·.kind) ∧
        Flush ((Stmt.ofProgram ρ s).lines d)
  | .declare v init, _ =>
    ⟨congrArg Shape.simple (lineKind_declare _ _), flush_singleton (by
      simp only [String.toList_append, List.append_assoc]
      exact fun heq => absurd (Option.some.inj heq) (by decide))⟩
  | .assign target source, h => by
    have hfree := free_ofVariable (h _ List.mem_cons_self)
    refine ⟨congrArg Shape.simple (lineKind_assign hfree _), flush_singleton ?_⟩
    simp only [String.toList_append, List.append_assoc]
    exact hfree.head?_ne_blank _
  | .change op target term, h => by
    have hfree := free_ofVariable (h _ List.mem_cons_self)
    refine ⟨congrArg Shape.simple (lineKind_change hfree op _), flush_singleton ?_⟩
    simp only [String.toList_append, List.append_assoc]
    exact hfree.head?_ne_blank _
  | .print argument, _ =>
    ⟨congrArg Shape.simple (lineKind_print _), flush_singleton (by
      simp only [String.toList_append, List.append_assoc]
      exact fun heq => absurd (Option.some.inj heq) (by decide))⟩
  | .automate a params body, h => kinds_block (opening?_function _ _) (kinds_stmts (d + 1) body h)
  | .call callee args, h => by
    obtain ⟨hcallee, hargs⟩ := List.forall_mem_cons.1 h
    -- The call begins as its text does, which a semicolon does not change.
    have hsemicolon : EndsPath [';'] := by
      rintro _ ⟨⟩
      decide
    have hbegins := (begins_ofCall hcallee (begins_operands args hargs)).append
      (List.forall_mem_nil _) hsemicolon
    have htext : ((Expr.ofCall ρ callee (Expr.ofPrograms ρ args)).text ++ ";").toList =
        (Expr.ofCall ρ callee (Expr.ofPrograms ρ args)).text.toList ++ ([] ++ [';']) := by simp
    rw [← htext] at hbegins
    exact ⟨congrArg Shape.simple (hbegins.lineKind_eq (getLast?_append_of_some rfl)),
      flush_singleton hbegins.head?_ne_blank⟩
  | .output none _, _ =>
    ⟨congrArg Shape.simple (by decide : lineKind "return;" = .output), flush_singleton (by decide)⟩
  | .output (some value) _, _ =>
    ⟨congrArg Shape.simple (lineKind_output _), flush_singleton (by
      simp only [String.toList_append, List.append_assoc]
      exact fun heq => absurd (Option.some.inj heq) (by decide))⟩
  | .ifElse test body none, h =>
    kinds_block (opening?_if _) (kinds_stmts (d + 1) body (List.forall_mem_append.1 h).2)
  | .ifElse test body (some alternate), h => by
    obtain ⟨-, hblocks⟩ := List.forall_mem_append.1 h
    obtain ⟨hbody, halternate⟩ := List.forall_mem_append.1 hblocks
    obtain ⟨hkinds, hflush⟩ := kinds_stmts (d + 1) body hbody
    obtain ⟨hkinds', hflush'⟩ := kinds_stmts (d + 1) alternate halternate
    have hblock := flush_block (d := d) (opening?_if (Expr.ofProgram ρ test).text)
      (flush_else (d := d) hflush hflush')
    have hlabel : lineKind (Stmt.ofProgram ρ (.ifElse test body (some alternate))).headline =
        .ifElse := lineKind_of_opening? (opening?_if _)
    refine ⟨?_, hblock⟩
    rw [Program.Stmt.shape, Shape.map, Shape.map, hlabel, hkinds, hkinds']
    rfl
  | .loopWhile test body, h =>
    kinds_block (opening?_while _) (kinds_stmts (d + 1) body (List.forall_mem_append.1 h).2)
  | .loopOver item list body, h =>
    kinds_block (opening?_for _ _) (kinds_stmts (d + 1) body (List.forall_mem_append.1 h).2)
  | .breakLoop, _ =>
    ⟨congrArg Shape.simple (by decide : lineKind "break;" = .breakLoop),
      flush_singleton (by decide)⟩

/-- The headlines of statements show their kinds, and no line of them begins with a blank. -/
theorem kinds_stmts (d : Nat) : ∀ ss : List Program.Stmt,
    (∀ x ∈ Program.stmtsReferences ss, Skeleton.IsName (ρ x).base) →
      Shape.mapAll (fun s => lineKind (Stmt.ofProgram ρ s).headline) (shapes ss) =
          Shape.mapAll (·.kind) (shapes ss) ∧
        Flush (linesAll d (Stmt.ofPrograms ρ ss))
  | [], _ => ⟨rfl, List.forall_mem_nil _⟩
  | s :: ss, h => by
    obtain ⟨hs, hss⟩ := List.forall_mem_append.1 h
    obtain ⟨hkind, hflush⟩ := kinds_stmt d s hs
    obtain ⟨hkinds, hflushes⟩ := kinds_stmts d ss hss
    exact ⟨congrArg₂ List.cons hkind hkinds, List.forall_mem_append.2 ⟨hflush, hflushes⟩⟩

end

end

end Script

/-! ## Names of a text -/

namespace Typing

open Skeleton.Stmt (declaredAll)
open Surface (Node)

variable {P : String → Prop}

/-- What holds of the names of parameters holds of the names of their variables. -/
theorem ParamForms.names {p q : Spot} {ps : List Surface.Param} {ds : List Param}
    {vs : List Variable} (h : ParamForms p ps ds vs q) (hP : ∀ x ∈ ps, P x.name.text) :
    ∀ e ∈ vs.map Entity.var, P e.name := by
  induction h with
  | nil => exact List.forall_mem_nil _
  | cons _ _ _ _ ih =>
    obtain ⟨hx, hps⟩ := List.forall_mem_cons.1 hP
    exact List.forall_mem_cons.2 ⟨hx, ih hps⟩

mutual

/-- What holds of the names in a statement holds of those that the typed statement
    declares. -/
theorem StmtForm.names : ∀ {p q : Spot} {s : Surface.Stmt} {t : Program.Stmt}, StmtForm p s t q →
    (∀ x, Node.Under [.stmt s] (.name x) → P x.text) → ∀ e ∈ t.skeleton.declared, P e.name
  | _, _, _, _, .declare .., hP =>
    List.forall_mem_singleton.2 (hP _ (.child (.top List.mem_cons_self) List.mem_cons_self))
  | _, _, _, _, .automate _ _ hparams hbody _, hP => by
    refine List.forall_mem_cons.2 ⟨?_, List.forall_mem_append.2 ⟨?_, ?_⟩⟩
    · exact hP _ (.child (.top List.mem_cons_self) List.mem_cons_self)
    · refine hparams.names fun x hx => hP x.name (.child (.top List.mem_cons_self) ?_)
      refine List.mem_cons_of_mem _ (List.mem_append_left _ (List.mem_flatMap.2 ⟨x, hx, ?_⟩))
      simp [Surface.Param.children]
    · exact hbody.names fun x hx => hP x (.block (by simp [Surface.Stmt.children]) hx)
  | _, _, _, _, .ifThen _ _ hbody, hP =>
    hbody.names fun x hx => hP x (.block (by simp [Surface.Stmt.children]) hx)
  | _, _, _, _, .ifElse _ _ hbody halternate, hP =>
    List.forall_mem_append.2
      ⟨hbody.names fun x hx => hP x (.block (by simp [Surface.Stmt.children]) hx),
        halternate.names fun x hx => hP x (.block (by simp [Surface.Stmt.children]) hx)⟩
  | _, _, _, _, .loopWhile _ _ hbody, hP =>
    hbody.names fun x hx => hP x (.block (by simp [Surface.Stmt.children]) hx)
  | _, _, _, _, .loopOver _ _ _ hbody, hP =>
    List.forall_mem_cons.2 ⟨hP _ (.child (.top List.mem_cons_self) List.mem_cons_self),
      hbody.names fun x hx => hP x (.block (by simp [Surface.Stmt.children]) hx)⟩
  | _, _, _, _, .assign .., _ => List.forall_mem_nil _
  | _, _, _, _, .change .., _ => List.forall_mem_nil _
  | _, _, _, _, .print .., _ => List.forall_mem_nil _
  | _, _, _, _, .call .., _ => List.forall_mem_nil _
  | _, _, _, _, .outputNone .., _ => List.forall_mem_nil _
  | _, _, _, _, .output .., _ => List.forall_mem_nil _
  | _, _, _, _, .breakLoop .., _ => List.forall_mem_nil _

/-- What typed statements declare has names of the text. -/
theorem StmtForms.names : ∀ {p q : Spot} {ss : List Surface.Stmt} {ts : List Program.Stmt},
    StmtForms p ss ts q → (∀ x, Node.Under (ss.map .stmt) (.name x) → P x.text) →
      ∀ e ∈ declaredAll (Program.skeletons ts), P e.name
  | _, _, _, _, .nil, _ => List.forall_mem_nil _
  | _, _, _, _, .cons h hs, hP =>
    List.forall_mem_append.2
      ⟨h.names fun x hx => hP x (hx.trans fun m hm => .top (by simp_all)),
        hs.names fun x hx => hP x (hx.trans fun m hm => .top (List.mem_cons_of_mem _ hm))⟩

end

end Typing

namespace Program

open Skeleton.Stmt (declaredAll)

/-- A simplified program refers to what comes with the language and to what the program
    declares. -/
theorem references_subset_declared {entities : List Entity} {stmts : List Surface.Stmt}
    {program : Program} (h : (Typing.run entities stmts).1 = .ok program) (p : Passes) {e : Entity}
    (he : e ∈ stmtsReferences (program.simplify p).value.stmts) :
    e ∈ entities ∨ e ∈ declaredAll (skeletons program.stmts) := by
  obtain ⟨last, hforms⟩ := Typing.stmtForms_of_run h
  have hclosed := (hforms.closed (Context.entities_ofEntities entities)).1
  have hperm := declaredAll_perm (p := p) program.stmts
  by_contra hnot
  obtain ⟨hentities, hdeclared⟩ := not_or.1 hnot
  have hkept : e ∉ declaredAll (skeletons (simplifyStmts p program.stmts).value) := fun hin =>
    hdeclared (hperm.mem_iff.2 (List.mem_append_left _ hin))
  have hdangling := stmtsDangling_simplify program.stmts (List.subset_append_left entities _)
    (List.Subset.refl (stmtsDiscarded p program.stmts)) (mem_stmtsDangling _ hentities hkept he)
  rw [hclosed] at hdangling
  exact hdeclared (hperm.mem_iff.2 (List.mem_append_right _ hdangling))

/-- The names of all entities that a program refers to are names. -/
def Spelled (program : Program) : Prop :=
  ∀ e ∈ stmtsReferences program.stmts, Skeleton.IsName e.name

/-- The names of a program that has been read from a text are names. -/
theorem spelled_of_run {text : List Char} {stmts : List Surface.Stmt} {program : Program}
    (hparse : parseText text = .ok stmts)
    (hrun : (Typing.run Prelude.standard stmts).1 = .ok program) (p : Passes) :
    (program.simplify p).value.Spelled := by
  have hstandard : ∀ e ∈ Prelude.standard, Skeleton.IsName e.name := by
    have hall : Prelude.standard.all (fun e => decide (IsNameText e.name.toList)) = true := by
      decide
    intro e he
    exact of_decide_eq_true (p := IsNameText e.name.toList) (List.all_eq_true.1 hall e he)
  have hname (x : Surface.Ident) (hx : Surface.Node.Under (stmts.map .stmt) (.name x)) :
      Skeleton.IsName x.text := by
    obtain ⟨ts, hscan, hparse⟩ := parseText_eq_ok_iff.1 hparse
    obtain ⟨d, rfl, rfl⟩ := Surface.exists_derivation hparse
    obtain ⟨part, hpart, t, hkind, rfl, rfl⟩ := hx.exists_stretch d.lies
    exact (sound_of_scan hscan t (hpart.subset List.mem_cons_self)).name hkind
  obtain ⟨last, hforms⟩ := Typing.stmtForms_of_run hrun
  intro e he
  rcases references_subset_declared hrun p he with hin | hin
  · exact hstandard e hin
  · exact hforms.names hname e hin

end Program

namespace Script

/-! ## Scripts -/

/-- The lines of a script, with their indentation, are read as the tree of the statements of
    the program: a line for each simple statement, a first line and a closing one for each
    that has a block, and `} else {` between the two blocks of an `if`. A line is indented by
    two blanks for each block that the braces before it leave open, and after the last line
    none is. If all names are names, the first lines also show of what kind the statements are,
    and no line is indented any further; the programs that come from texts are such. -/
theorem lines_mirror_statements {program : Program} {script : List Stmt}
    (h : ofProgram program = .ok script) :
    let lines := (linesAll 0 script).map (·.indented)
    text script = "\n".intercalate lines ∧
      (∃ trees, readLines lines = some trees ∧
        Shape.mapAll (fun _ => ()) trees =
          Shape.mapAll (fun _ => ()) (Program.shapes program.stmts) ∧
        (program.Spelled → Shape.mapAll lineKind trees =
          Shape.mapAll (·.kind) (Program.shapes program.stmts))) ∧
      (∀ before line after, lines = before ++ line :: after →
        ∃ (d : Nat) (rest : List Char),
          (d : Int) = openAfter before - (if closesBlock line then 1 else 0) ∧
          line.toList = List.replicate (2 * d) ' ' ++ rest ∧
          (program.Spelled → rest.head? ≠ some ' ')) ∧
      openAfter lines = 0 ∧
      lines.countP turnsBlock = Shape.alternatesAll (Program.shapes program.stmts) ∧
      ∀ source stmts typed passes, parseText source = .ok stmts →
        (Typing.run Prelude.standard stmts).1 = .ok typed →
        program = (typed.simplify passes).value → program.Spelled := by
  intro lines
  have hscript := ofProgram_of_requests program
  rw [h] at hscript
  obtain ⟨-, hnames⟩ := hscript
  let names := Names.empty.after (Requests.ofProgram program).entities
  let ρ : Entity → Name := fun e => (names.name e).1
  obtain rfl : script = Stmt.ofPrograms ρ program.stmts := hnames ρ fun _ _ => rfl
  have hreads := reads_stmts ρ 0 program.stmts
  have hkinds (hspelled : program.Spelled) := kinds_stmts (ρ := ρ) 0 program.stmts fun e he => by
    rw [show (ρ e).base = e.name from names.base_name e]
    exact hspelled e he
  refine ⟨rfl, ⟨_, hreads.readLines_eq, ?_, fun hspelled => ?_⟩, ?_, hreads.openAfter_eq_zero,
    ?_, ?_⟩
  · exact Shape.mapAll_mapAll _ _ _
  · rw [Shape.mapAll_mapAll]
    exact (hkinds hspelled).1
  · intro before line after hsplit
    obtain ⟨ls, ls', hlines, rfl, hrest⟩ := List.map_eq_append_iff.1 hsplit
    obtain ⟨l, after', rfl, rfl, rfl⟩ := List.map_eq_cons_iff.1 hrest
    refine ⟨l.depth, l.text.toList, hreads.depth_eq hlines, toList_indented l, fun hspelled => ?_⟩
    exact (hkinds hspelled).2 l (hlines ▸ List.mem_append_right _ List.mem_cons_self)
  · rw [hreads.countP_turnsBlock, Shape.alternatesAll_mapAll]
  · rintro source stmts typed passes hparse hrun rfl
    exact Program.spelled_of_run hparse hrun passes

section Braced

/-- An automation without statements, and a loop with a call of it and with both blocks of an
    `if`, of which one prints a word with braces and the other is empty. -/
def braced : Program :=
  let f : Automation := ⟨9, "f", [], .none, false⟩
  ⟨[.automate f [] [], .loopWhile (.bool true)
    [.call f [], .ifElse (.bool false) [.print (.word "\x7d else \x7b")] (some []), .breakLoop]]⟩

/-- Its script. -/
def bracedScript : List Stmt :=
  [.function ⟨"f", 1⟩ [] [], .loopWhile (.bool true)
    [.eval (.call ⟨"f", 1⟩ []),
      .ifElse (.bool false) [.print (.word "\x7d else \x7b")] (some []), .breakLoop]]

/-- The lines of the script. -/
def bracedLines : List String :=
  ["function f_1() \x7b", "\x7d", "while (true) \x7b", "  f_1();", "  if (false) \x7b",
    "    console.log(\"\x7d else \x7b\");", "  \x7d else \x7b", "  \x7d", "  break;", "\x7d"]

/-- An automation without statements, and a loop with a branch and an empty alternative. -/
theorem lines_mirror_statements_braced :
    ofProgram braced = .ok bracedScript ∧
      (linesAll 0 bracedScript).map (·.indented) = bracedLines ∧
      (∃ trees, readLines bracedLines = some trees ∧
        Shape.mapAll lineKind trees =
          [.block .function .automate [] none, .block .loopWhile .loopWhile
            [.simple .call, .block .branch .ifElse [.simple .print] (some []),
              .simple .breakLoop] none]) ∧
      openAfter bracedLines = 0 ∧ bracedLines.countP turnsBlock = 1 := by
  have hscript : ofProgram braced = .ok bracedScript := rfl
  have hlines : (linesAll 0 bracedScript).map (·.indented) = bracedLines := by decide +kernel
  have hspelled : braced.Spelled :=
    List.forall_mem_singleton.2 (by decide : IsNameText "f".toList)
  obtain ⟨-, ⟨trees, hread, -, hkinds⟩, -, hopen, hcount, -⟩ := lines_mirror_statements hscript
  rw [hlines] at hread hopen hcount
  exact ⟨hscript, hlines, ⟨trees, hread, hkinds hspelled⟩, hopen, hcount⟩

end Braced

end Script

end Toal
