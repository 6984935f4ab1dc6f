import Toal.Proofs.Requests
import Toal.Proofs.ScriptScopes
import Toal.Proofs.ScriptSymbols
import Mathlib.Data.Finset.Card
import Mathlib.Order.Interval.Finset.Nat

/-!
# Names of a script are kept apart

A generation gives a name at each of its requests (`Names.given`). As the entities that
have been asked for are listed once each, in the order of their first request, the same
name is given at two requests exactly if they are for the same entity
(`text_eq_iff_of_mem_given`), and the numbers of the names that have been given at any
point are those from one to the number of entities (`suffixes_given`).

Apart from names, numbers and quoted words, a script consists of a few texts of its own
(`ownTexts`, `parts_pieces`). Some identifiers stand in them, and functions that
a template writes bind some of these. But every name has a digit in it, and neither
those identifiers nor the reserved words have one (`Name.text_notMem`). So no name that
is written inside of such a function means its parameter (`Expr.captured_of_onlyParams`).
-/

namespace Toal.Script

/-! ## The names that are given -/

namespace Names

/-- What is given when the names of entities are asked for, one after the other. -/
def given (names : Names) : List Entity → List (Entity × Name)
  | [] => []
  | e :: es => (e, (names.name e).1) :: (names.name e).2.given es

/-- Names are given to the entities, in order. -/
theorem map_fst_given (names : Names) (es : List Entity) : (names.given es).map Prod.fst = es := by
  induction es generalizing names with
  | nil => rfl
  | cons e es ih => exact congrArg (e :: ·) (ih _)

theorem take_given (names : Names) (es : List Entity) (n : Nat) :
    (names.given es).take n = names.given (es.take n) := by
  induction es generalizing names n with
  | nil => rw [given, List.take_nil, List.take_nil, given]
  | cons e es ih =>
    cases n with
    | zero => rfl
    | succ n => exact congrArg ((e, (names.name e).1) :: ·) (ih _ n)

/-- Giving names takes no name away. -/
theorem used_prefix_after (names : Names) (es : List Entity) :
    names.used <+: (names.after es).used := by
  induction es generalizing names with
  | nil => exact List.prefix_rfl
  | cons e es ih => exact (names.used_name e).1.trans (ih _)

/-- Giving a name uses the entity. -/
theorem mem_used_name (names : Names) (e x : Entity) :
    x ∈ (names.name e).2.used ↔ x ∈ names.used ∨ x = e := by
  by_cases he : e ∈ names.used
  · obtain ⟨i, hi⟩ := Option.isSome_iff_exists.1 (List.isSome_idxOf?.2 he)
    rw [name_of_idxOf? hi]
    exact ⟨.inl, fun h => h.elim id fun hx => hx ▸ he⟩
  · rw [name_of_notMem he, List.mem_append, List.mem_singleton]

/-- After names have been given to entities, these are used. -/
theorem mem_used_after (names : Names) (es : List Entity) (x : Entity) :
    x ∈ (names.after es).used ↔ x ∈ names.used ∨ x ∈ es := by
  induction es generalizing names with
  | nil => simp [after]
  | cons e es ih => rw [after, ih, mem_used_name, List.mem_cons, or_assoc]

/-- Giving a name uses no entity twice. -/
theorem nodup_used_name {names : Names} (h : names.used.Nodup) (e : Entity) :
    (names.name e).2.used.Nodup := by
  by_cases he : e ∈ names.used
  · obtain ⟨i, hi⟩ := Option.isSome_iff_exists.1 (List.isSome_idxOf?.2 he)
    rw [name_of_idxOf? hi]
    exact h
  · rw [name_of_notMem he]
    exact List.nodup_append_comm.1 (List.nodup_cons.2 ⟨he, h⟩)

/-- Giving names uses no entity twice. -/
theorem nodup_used_after {names : Names} (h : names.used.Nodup) (es : List Entity) :
    (names.after es).used.Nodup := by
  induction es generalizing names with
  | nil => exact h
  | cons e es ih => exact ih (nodup_used_name h e)

/-- The name that is given at a request is the one that the entity has in the end. -/
theorem eq_name_of_mem_given {names : Names} {es : List Entity} {g : Entity × Name}
    (h : g ∈ names.given es) : g.2 = ((names.after es).name g.1).1 := by
  induction es generalizing names with
  | nil => cases h
  | cons e es ih =>
    rcases List.mem_cons.1 h with rfl | h
    · -- A name that has been given stays, so the one that is given now is found in the end.
      have hagrees : (names.after (e :: es)).Agrees fun x => ((names.after (e :: es)).name x).1 :=
        fun _ _ => rfl
      have hsame := hagrees.mono (used_prefix_after (names.name e).2 es) e (names.used_name e).2
      exact (hsame.trans (names.name_name e)).symm
    · exact ih h

/-- An entity with a name is used. -/
theorem mem_used_of_mem_given {names : Names} {es : List Entity} {g : Entity × Name}
    (h : g ∈ names.given es) : g.1 ∈ (names.after es).used := by
  refine (mem_used_after names es g.1).2 (.inr ?_)
  rw [← map_fst_given names es]
  exact List.mem_map_of_mem h

/-- Two requests are met with names that are written alike exactly if they are for the
    same entity. -/
theorem text_eq_iff_of_mem_given {names : Names} {es : List Entity} {g g' : Entity × Name}
    (hg : g ∈ names.given es) (hg' : g' ∈ names.given es) :
    g.2.text = g'.2.text ↔ g.1 = g'.1 := by
  rw [eq_name_of_mem_given hg, eq_name_of_mem_given hg']
  constructor
  · intro h
    exact eq_of_name_eq (mem_used_of_mem_given hg) (Name.text_injective h)
  · intro h
    rw [h]

/-- The numbers of entities that are listed once each go from one to their count. -/
theorem suffix_name_iff {names : Names} (h : names.used.Nodup) (k : Nat) :
    (∃ e ∈ names.used, (names.name e).1.suffix = k) ↔ 1 ≤ k ∧ k ≤ names.used.length := by
  constructor
  · rintro ⟨e, he, rfl⟩
    obtain ⟨i, hi⟩ := Option.isSome_iff_exists.1 (List.isSome_idxOf?.2 he)
    obtain ⟨hlt, -, -⟩ := List.idxOf?_eq_some_iff.1 hi
    rw [name_of_idxOf? hi]
    exact ⟨Nat.succ_pos i, hlt⟩
  · rintro ⟨hpos, hle⟩
    have hlt : k - 1 < names.used.length := by omega
    have hi : names.used.idxOf? names.used[k - 1] = some (k - 1) := by
      -- Nothing is listed twice, so an entity is first found where it stands.
      refine List.idxOf?_eq_some_iff.2 ⟨hlt, rfl, fun j hj hsame => ?_⟩
      have := (h.getElem_inj_iff).1 hsame
      omega
    refine ⟨names.used[k - 1], List.getElem_mem hlt, ?_⟩
    rw [name_of_idxOf? hi]
    exact Nat.sub_add_cancel hpos

/-- The numbers that have been given are those from one to the number of entities that
    a name has been asked for. -/
theorem suffixes_given (es : List Entity) :
    ((empty.given es).map (·.2.suffix)).toFinset = Finset.Icc 1 es.toFinset.card := by
  have hnodup : (empty.after es).used.Nodup := nodup_used_after List.nodup_nil es
  have hmem : ∀ e, e ∈ (empty.after es).used ↔ e ∈ es := fun e => by
    rw [mem_used_after]
    exact or_iff_right List.not_mem_nil
  have hcard : es.toFinset.card = (empty.after es).used.length := by
    rw [← List.toFinset_card_of_nodup hnodup]
    congr 1
    ext e
    rw [List.mem_toFinset, List.mem_toFinset, hmem]
  ext k
  rw [hcard, Finset.mem_Icc, ← suffix_name_iff hnodup, List.mem_toFinset, List.mem_map]
  constructor
  · rintro ⟨g, hg, rfl⟩
    exact ⟨g.1, mem_used_of_mem_given hg, by rw [eq_name_of_mem_given hg]⟩
  · rintro ⟨e, he, rfl⟩
    have hrequest : e ∈ (empty.given es).map Prod.fst := by
      rw [map_fst_given]
      exact (hmem e).1 he
    obtain ⟨g, hg, rfl⟩ := List.mem_map.1 hrequest
    exact ⟨g, hg, by rw [eq_name_of_mem_given hg]⟩

end Names

/-! ## The texts of a script's own -/

/-- The texts that stand in scripts between names, numbers and quoted words. -/
def ownTexts : List String :=
  ["true", "false", "Math.PI", "Infinity", "[", "]", "(", ")", ", ", ".push(",
    "((l, e) => \x7b const i = l.indexOf(e); if (i !== -1) l.splice(i, 1); \x7d)(", ".length",
    "Array.from(\x7b length: ", " - ", " \x7d, (_, i) => ", " + i)", "typeof ", "let ", " = ",
    "console.log(", "function ", ") ", "return", "return ", "if (", " else ", "while (",
    "for (let ", " of ", "break", "\n", " + ", " * ", " / ", " % ", " ** ", " > ", " < ", " >= ",
    " <= ", " === ", " !== ", " += ", " -= ", " *= ", " /= ", " %= ", " **= "]

/-- What a script is made of. -/
inductive IsPart : Piece → Prop
  | use (n : Name) : IsPart (.use n.text)
  | binder (n : Name) : IsPart (.binder n.text)
  /-- The name of a function, between two texts of the script's own. -/
  | header (n : Name) : IsPart (.text ("function " ++ n.text ++ "("))
  | number (x : Float) : IsPart (.text (numText x))
  | word (contents : String) : IsPart (.text (wordText contents))
  | blank (depth : Nat) : IsPart (indentation depth)
  | opening : IsPart .opening
  | closing : IsPart .closing
  | stop : IsPart .stop
  | own {s : String} : s ∈ ownTexts → IsPart (.text s)

/-- All the pieces are what scripts are made of. -/
def Parts (ps : List Piece) : Prop := ∀ p ∈ ps, IsPart p

namespace Parts

variable {ps qs : List Piece} {p : Piece}

theorem nil : Parts [] := List.forall_mem_nil _

theorem cons (hp : IsPart p) (hps : Parts ps) : Parts (p :: ps) := List.forall_mem_cons.2 ⟨hp, hps⟩

/-- Parts can be put together. -/
theorem append (hps : Parts ps) (hqs : Parts qs) : Parts (ps ++ qs) :=
  List.forall_mem_append.2 ⟨hps, hqs⟩

theorem singleton (hp : IsPart p) : Parts [p] := cons hp nil

theorem own {s : String} (hs : s ∈ ownTexts) (hps : Parts ps) : Parts (.text s :: ps) :=
  cons (.own hs) hps

/-- Parts can be put together with a text of the script's own between them. -/
theorem intercalate {s : String} (hs : s ∈ ownTexts) {ls : List (List Piece)}
    (h : ∀ l ∈ ls, Parts l) : Parts ([Piece.text s].intercalate ls) := by
  induction ls with
  | nil => exact nil
  | cons l ls ih =>
    obtain ⟨hl, hls⟩ := List.forall_mem_cons.1 h
    cases ls with
    | nil => simpa using hl
    | cons l' ls =>
      rw [List.intercalate_cons_cons]
      exact (hl.append (own hs nil)).append (ih hls)

end Parts

/-- An operator with its blanks is a text of the script's own. -/
theorem isPart_opText (op : BinOp) : IsPart (.text (" " ++ opText op ++ " ")) := by
  refine .own ?_
  cases op with
  | arith op => cases op <;> decide
  | compare op => cases op <;> decide

theorem isPart_arithText (op : ArithOp) : IsPart (.text (" " ++ arithText op ++ "= ")) := by
  refine .own ?_
  cases op <;> decide

/-- What is not a name of the program is a text of the script's own. -/
theorem isPart_text (r : Ref) (h : ∀ n, r ≠ .name n) : IsPart (.text r.text) := by
  refine .own ?_
  cases r with
  | name n => exact absurd rfl (h n)
  | pi => decide
  | infinity => decide
  | truth value => cases value <;> decide

theorem isPart_use (r : Ref) : IsPart r.use := by
  cases r with
  | name n => exact .use n
  | pi => exact isPart_text .pi nofun
  | infinity => exact isPart_text .infinity nofun
  | truth value => exact isPart_text (.truth value) nofun

theorem isPart_binder (r : Ref) : IsPart r.binder := by
  cases r with
  | name n => exact .binder n
  | pi => exact isPart_text .pi nofun
  | infinity => exact isPart_text .infinity nofun
  | truth value => exact isPart_text (.truth value) nofun

mutual

/-- The text of an expression is put together from names, words, numbers and the script's
    own texts. -/
theorem Expr.parts : ∀ e : Expr, Parts e.pieces
  | .num value => .singleton (.number value)
  | .bool value => .singleton (isPart_text (.truth value) nofun)
  | .word contents => .singleton (.word contents)
  | .list elements =>
    .own (by decide) ((parts_all elements).append (.own (by decide) .nil))
  | .ref r => .singleton (isPart_use r)
  | .binary op left right => left.parts.append (.cons (isPart_opText op) right.parts)
  | .paren inner => .own (by decide) (inner.parts.append (.own (by decide) .nil))
  | .call callee args =>
    .cons (.use callee) (.own (by decide)
      ((parts_all args).append (.own (by decide) .nil)))
  | .push list element =>
    list.parts.append (.own (by decide)
      (element.parts.append (.own (by decide) .nil)))
  | .removeFirst list element =>
    .own (by decide) (list.parts.append (.own (by decide)
      (element.parts.append (.own (by decide) .nil))))
  | .length value => value.parts.append (.own (by decide) .nil)
  | .range start stop =>
    .own (by decide) (stop.parts.append (.own (by decide) (start.parts.append
      (.own (by decide) (start.parts.append (.own (by decide) .nil))))))
  | .typeOf value => .own (by decide) value.parts

theorem parts_all : ∀ es : List Expr, Parts (piecesAll es)
  | [] => .nil
  | [e] => e.parts
  | e :: e' :: es => e.parts.append (.own (by decide) (parts_all (e' :: es)))

end

/-- The text of parameters is put together from names and commas. -/
theorem parts_params (params : List Ref) : Parts (paramPieces params) := by
  refine .intercalate (by decide) fun l hl => ?_
  obtain ⟨r, -, rfl⟩ := List.mem_map.1 hl
  exact .singleton (isPart_binder r)

/-- The lines of a block, with the line that opens it. -/
theorem parts_block {opening : List Piece} {body : List (List Piece)} (depth : Nat)
    (hopening : Parts opening) (hbody : ∀ l ∈ body, Parts l) :
    ∀ l ∈ opening :: (body ++ [[indentation depth, .closing]]), Parts l :=
  List.forall_mem_cons.2 ⟨hopening, List.forall_mem_append.2 ⟨hbody,
    List.forall_mem_singleton.2 (.cons (.blank depth) (.singleton .closing))⟩⟩

mutual

/-- Each line of a statement is put together from names, words, numbers and the script's
    own texts. -/
theorem Stmt.parts (depth : Nat) : ∀ s : Stmt, ∀ l ∈ s.pieceLines depth, Parts l
  | .declare target init => List.forall_mem_singleton.2 <|
    .cons (.blank depth) <| .own (by decide) <| .cons (isPart_binder target) <|
      .own (by decide) <| init.parts.append <| .singleton .stop
  | .assign target source => List.forall_mem_singleton.2 <|
    .cons (.blank depth) <| .cons (isPart_use target) <| .own (by decide) <|
      source.parts.append <| .singleton .stop
  | .change op target term => List.forall_mem_singleton.2 <|
    .cons (.blank depth) <| .cons (isPart_use target) <| .cons (isPart_arithText op) <|
      term.parts.append <| .singleton .stop
  | .print argument => List.forall_mem_singleton.2 <|
    .cons (.blank depth) <| .own (by decide) <| argument.parts.append <|
      .own (by decide) <| .singleton .stop
  | .function n params body => parts_block depth
    (.cons (.blank depth) <| .cons (.header n) <| (parts_params params).append <|
      .own (by decide) <| .singleton .opening)
    (parts_lines (depth + 1) body)
  | .eval e => List.forall_mem_singleton.2 <|
    .cons (.blank depth) <| e.parts.append <| .singleton .stop
  | .output none => List.forall_mem_singleton.2 <|
    .cons (.blank depth) <| .own (by decide) <| .singleton .stop
  | .output (some value) => List.forall_mem_singleton.2 <|
    .cons (.blank depth) <| .own (by decide) <| value.parts.append <| .singleton .stop
  | .ifElse test body none => parts_block depth
    (.cons (.blank depth) <| .own (by decide) <| test.parts.append <|
      .own (by decide) <| .singleton .opening)
    (parts_lines (depth + 1) body)
  | .ifElse test body (some alternate) => List.forall_mem_cons.2
    ⟨.cons (.blank depth) <| .own (by decide) <| test.parts.append <|
        .own (by decide) <| .singleton .opening,
      List.forall_mem_append.2 ⟨parts_lines (depth + 1) body, parts_block depth
        (.cons (.blank depth) <| .cons .closing <| .own (by decide) <| .singleton .opening)
        (parts_lines (depth + 1) alternate)⟩⟩
  | .loopWhile test body => parts_block depth
    (.cons (.blank depth) <| .own (by decide) <| test.parts.append <|
      .own (by decide) <| .singleton .opening)
    (parts_lines (depth + 1) body)
  | .loopOver item list body => parts_block depth
    (.cons (.blank depth) <| .own (by decide) <| .cons (isPart_binder item) <|
      .own (by decide) <| list.parts.append <| .own (by decide) <|
        .singleton .opening)
    (parts_lines (depth + 1) body)
  | .breakLoop => List.forall_mem_singleton.2 <|
    .cons (.blank depth) <| .own (by decide) <| .singleton .stop

theorem parts_lines (depth : Nat) : ∀ ss : List Stmt, ∀ l ∈ pieceLinesAll depth ss, Parts l
  | [] => List.forall_mem_nil _
  | s :: ss => List.forall_mem_append.2 ⟨s.parts depth, parts_lines depth ss⟩

end

/-- A script consists of names, numbers, quoted words and texts of its own. -/
theorem parts_pieces (script : List Stmt) : Parts (pieces script) :=
  .intercalate (by decide) (parts_lines 0 script)

/-! ## Identifiers -/

/-- Whether `c` may stand in an identifier of a text of the script's own. -/
def isIdentifierChar (c : Char) : Bool := c.isAlphanum || c = '_' || c = '$'

/-- The identifiers in a text: the longest runs of their characters that do not begin
    with a digit. -/
def identifiers (s : String) : List String :=
  ((s.toList.splitOnP (!isIdentifierChar ·)).filter (·.head?.any (!·.isDigit))).map String.ofList

/-- The identifiers in the texts of a script's own. -/
def ownIdentifiers : List String := ownTexts.flatMap identifiers

example : ["Math", "Infinity", "Array", "console", "typeof", "l", "e", "i", "_"] ⊆ ownIdentifiers :=
  by decide +kernel

/-- The words that no variable or function of a script can have as its name, in
    whatever kind of script. -/
def keywords : List String :=
  reserved ++ ["arguments", "eval", "false", "implements", "interface", "null", "package",
    "private", "protected", "public", "this", "true"]

/-- No keyword and no identifier in a text of the script's own has a digit in it. -/
theorem not_isDigit_of_mem {w : String} (hw : w ∈ keywords ++ ownIdentifiers) {c : Char}
    (hc : c ∈ w.toList) : c.isDigit = false := by
  have hall : (keywords ++ ownIdentifiers).all (·.toList.all (!·.isDigit)) = true := by
    decide +kernel
  have hletter := List.all_eq_true.1 (List.all_eq_true.1 hall w hw) c hc
  simpa using hletter

/-- A name has a digit in it. -/
theorem Name.exists_isDigit (n : Name) : ∃ c ∈ n.text.toList, c.isDigit = true := by
  obtain ⟨c, hc⟩ := List.exists_mem_of_ne_nil (Nat.toDigits 10 n.suffix) Nat.toDigits_ne_nil
  refine ⟨c, ?_, Nat.isDigit_of_mem_toDigits (by decide) (by decide) hc⟩
  simp [Name.text, hc]

/-- The number at its end sets a name apart from all other words of scripts. -/
theorem Name.text_notMem (n : Name) : n.text ∉ keywords ++ ownIdentifiers := by
  intro hmem
  obtain ⟨c, hc, hdigit⟩ := n.exists_isDigit
  rw [not_isDigit_of_mem hmem hc] at hdigit
  cases hdigit

/-! ## Functions in templates -/

/-- The parameters of the function in the template of `range`, in whose body the text
    of an argument stands. No text of an argument stands in the function of
    `removeFirst`. -/
def rangeParams : List String := ["_", "i"]

example : " \x7d, (_, i) => " = " \x7d, (" ++ ", ".intercalate rangeParams ++ ") => " := by decide

/-- The identifiers by which a reference means something outside of its expression. -/
def Ref.identifiers : Ref → List String
  | .name n => [n.text]
  | .pi => ["Math"]
  | .infinity => ["Infinity"]
  | .truth _ => []

mutual

/-- The identifiers in an expression that are meant for something outside of it, but
    mean a parameter of a function of a template around them. The given identifiers are
    the parameters of such functions around the expression. -/
def Expr.captured (bound : List String) : Expr → List String
  | .num _ | .bool _ | .word _ => []
  | .list elements => capturedAll bound elements
  | .ref r => r.identifiers.filter (· ∈ bound)
  | .binary _ left right => left.captured bound ++ right.captured bound
  | .paren inner => inner.captured bound
  | .call callee args => [callee.text].filter (· ∈ bound) ++ capturedAll bound args
  | .push list element => list.captured bound ++ element.captured bound
  | .removeFirst list element => list.captured bound ++ element.captured bound
  | .length value => value.captured bound
  | .range start stop =>
    ["Array"].filter (· ∈ bound) ++ stop.captured bound ++ start.captured bound ++
      start.captured (rangeParams ++ bound)
  | .typeOf value => value.captured bound

/-- The identifiers in expressions that mean a parameter they are not meant for. -/
def capturedAll (bound : List String) : List Expr → List String
  | [] => []
  | e :: es => e.captured bound ++ capturedAll bound es

end

/-- The only identifiers that are bound are parameters of functions in templates. -/
def OnlyParams (bound : List String) : Prop := bound ⊆ rangeParams

theorem OnlyParams.range {bound : List String} (h : OnlyParams bound) :
    OnlyParams (rangeParams ++ bound) :=
  List.append_subset.2 ⟨List.Subset.refl _, h⟩

/-- What is no parameter of the function is not bound by it. -/
theorem OnlyParams.filter_eq_nil {bound : List String} (h : OnlyParams bound) {x : String}
    (hx : x ∉ rangeParams) : [x].filter (· ∈ bound) = [] := by
  rw [List.filter_singleton, decide_eq_false fun hmem => hx (h hmem)]
  rfl

/-- No name of the program is a parameter of the function. -/
theorem Name.text_notMem_rangeParams (n : Name) : n.text ∉ rangeParams := by
  have htext : " \x7d, (_, i) => " ∈ ownTexts := by decide
  have hparams : rangeParams ⊆ identifiers " \x7d, (_, i) => " := by decide +kernel
  intro h
  exact n.text_notMem (List.mem_append_right _ (List.mem_flatMap_of_mem htext (hparams h)))

theorem OnlyParams.identifiers {bound : List String} (h : OnlyParams bound) (r : Ref) :
    r.identifiers.filter (· ∈ bound) = [] := by
  cases r with
  | name n => exact h.filter_eq_nil n.text_notMem_rangeParams
  | pi => exact h.filter_eq_nil (by decide)
  | infinity => exact h.filter_eq_nil (by decide)
  | truth value => rfl

mutual

/-- No template's function binds a name of the program that stands in it. -/
theorem Expr.captured_of_onlyParams {bound : List String} (h : OnlyParams bound) :
    ∀ e : Expr, e.captured bound = []
  | .num _ | .bool _ | .word _ => rfl
  | .list elements => capturedAll_of_onlyParams h elements
  | .ref r => h.identifiers r
  | .binary _ left right => by
    rw [Expr.captured, left.captured_of_onlyParams h, right.captured_of_onlyParams h,
      List.append_nil]
  | .paren inner => inner.captured_of_onlyParams h
  | .call callee args => by
    rw [Expr.captured, h.filter_eq_nil callee.text_notMem_rangeParams,
      capturedAll_of_onlyParams h args, List.append_nil]
  | .push list element => by
    rw [Expr.captured, list.captured_of_onlyParams h, element.captured_of_onlyParams h,
      List.append_nil]
  | .removeFirst list element => by
    rw [Expr.captured, list.captured_of_onlyParams h, element.captured_of_onlyParams h,
      List.append_nil]
  | .length value => value.captured_of_onlyParams h
  | .range start stop => by
    rw [Expr.captured, h.filter_eq_nil (by decide), stop.captured_of_onlyParams h,
      start.captured_of_onlyParams h, start.captured_of_onlyParams h.range]
    rfl
  | .typeOf value => value.captured_of_onlyParams h

theorem capturedAll_of_onlyParams {bound : List String} (h : OnlyParams bound) :
    ∀ es : List Expr, capturedAll bound es = []
  | [] => rfl
  | e :: es => by
    rw [capturedAll, e.captured_of_onlyParams h, capturedAll_of_onlyParams h es, List.append_nil]

end

/-! ## Names never collide -/

/-- Names that agree with each one as it was given agree with all of them in the end. -/
theorem Names.agrees_of_given {es : List Entity} {ρ : Entity → Name}
    (h : ∀ g ∈ Names.empty.given es, ρ g.1 = g.2) : (Names.empty.after es).Agrees ρ := by
  intro e he
  have hrequest : e ∈ (Names.empty.given es).map Prod.fst := by
    rw [Names.map_fst_given]
    exact ((Names.mem_used_after .empty es e).1 he).resolve_left List.not_mem_nil
  obtain ⟨g, hg, rfl⟩ := List.mem_map.1 hrequest
  exact (h g hg).trans (Names.eq_name_of_mem_given hg)

/-- A generation gives one name after the other, as its requests say, and its script has
    these names for the entities they are given to. Whatever the names in the program
    are, two requests get names that are written alike exactly if they are for the same
    entity, and the numbers given so far are those from one to the number of entities
    so far. No name is a keyword or one of the identifiers in the texts that a script
    consists of besides names, numbers and quoted words; and nothing in an expression
    means a parameter of a function in a template that it is not meant for. -/
theorem names_never_collide (program : Program) :
    let requests := Requests.ofProgram program
    let given := Names.empty.given requests.entities
    (match ofProgram program with
      | .ok script => requests.failure? = none ∧
          (∀ ρ : Entity → Name, (∀ g ∈ given, ρ g.1 = g.2) →
            script = Stmt.ofPrograms ρ program.stmts) ∧
          spell (pieces script) = text script ∧ Parts (pieces script)
      | .error failure => requests.failure? = some failure) ∧
    given.map Prod.fst = requests.entities ∧
    (∀ g ∈ given, g.2.base = g.1.name) ∧
    (∀ g ∈ given, ∀ g' ∈ given, g.2.text = g'.2.text ↔ g.1 = g'.1) ∧
    (∀ n, ((given.take n).map (·.2.suffix)).toFinset =
      Finset.Icc 1 ((given.take n).map Prod.fst).toFinset.card) ∧
    (∀ g ∈ given, g.2.text ∉ keywords ∧ g.2.text ∉ ownIdentifiers) ∧
    ∀ e : Expr, e.captured [] = [] := by
  intro requests given
  refine ⟨?_, Names.map_fst_given _ _, fun g hg => ?_,
    fun g hg g' hg' => Names.text_eq_iff_of_mem_given hg hg', fun n => ?_,
    fun g _ => ?_, Expr.captured_of_onlyParams (List.nil_subset _)⟩
  · have hrun := ofProgram_of_requests program
    cases hresult : ofProgram program with
    | error failure =>
      rw [hresult] at hrun
      exact hrun
    | ok script =>
      rw [hresult] at hrun
      exact ⟨hrun.1, fun ρ hρ => hrun.2 ρ (Names.agrees_of_given hρ), spell_pieces script,
        parts_pieces script⟩
  · rw [Names.eq_name_of_mem_given hg, Names.base_name]
  · rw [Names.take_given, Names.suffixes_given, Names.map_fst_given]
  · have hapart := g.2.text_notMem
    rw [List.mem_append, not_or] at hapart
    exact hapart

end Toal.Script
