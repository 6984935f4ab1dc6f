import Toal.Proofs.Elaboration
import Toal.Proofs.Extents
import Toal.Proofs.LineTrees
import Toal.Proofs.StrayBreaks

/-!
# Breaks and the functions they stand in

Around each `break` of a program there are loops and automations, and what matters is
which of them is the innermost (`stmtsBreaks`). If it is an automation, the loop that the
`break` is to end lies outside of it, and the program has no script. The first such
`break` is what is wrong with it (`Around.exists_first`). Typing sees to it that there is
a loop around each `break` at some distance (`StmtForms.breaks`), and simplifying moves
none of them (`breaks_simplifyStmts`).

A script shows by its lines which blocks are open where: the head of a statement with a
block opens one, a closing brace ends the innermost, and `} else {` does both
(`Script.openBlocks`). In the script of a program every line with a `break` stands in a
loop that lies in the same function (`encloses_stmts`).
-/

namespace Toal

open Program (Passes Proper stmtsCalls stmtsStrays)
open Prelude (Known)
open Script (Place Requests)

/-! ## What lies around breaks -/

namespace Program

/-- What a `break` may have to leave. -/
inductive Around
  | loop
  | automation (a : Automation)

/-- The place with the given loops and automations around it, the innermost first. -/
def Around.place : List Around → Place
  | [] => .outside
  | .loop :: outer => (Around.place outer).loop
  | .automation a :: _ => .body a

/-- A `break` with the given loops and automations around it would have to leave an
    automation. -/
def Around.Leaves : List Around → Prop
  | .automation _ :: _ => True
  | _ => False

instance : DecidablePred Around.Leaves
  | .automation _ :: _ => .isTrue trivial
  | .loop :: _ => .isFalse id
  | [] => .isFalse id

mutual

/-- The loops and automations around each `break` of a statement, the innermost first,
    given those around the statement. -/
def Stmt.breaks (outer : List Around) : Stmt → List (List Around)
  | .automate a _ body => stmtsBreaks (.automation a :: outer) body
  | .ifElse _ body none => stmtsBreaks outer body
  | .ifElse _ body (some alternate) => stmtsBreaks outer body ++ stmtsBreaks outer alternate
  | .loopWhile _ body => stmtsBreaks (.loop :: outer) body
  | .loopOver _ _ body => stmtsBreaks (.loop :: outer) body
  | .breakLoop => [outer]
  | .declare .. | .assign .. | .change .. | .print _ | .call .. | .output .. => []

/-- The loops and automations around each `break` of statements, in order. -/
def stmtsBreaks (outer : List Around) : List Stmt → List (List Around)
  | [] => []
  | s :: ss => s.breaks outer ++ stmtsBreaks outer ss

end

/-- The automations that a `break` would have to leave, by their names. -/
def Around.strays (outer : List Around) : List String :=
  if (Around.place outer).inLoop then [] else [(Around.place outer).automation]

mutual

/-- The breaks of a statement that leave automations are those that have one around them
    before a loop. -/
theorem straysStmt_eq (outer : List Around) : ∀ s : Stmt,
    s.strays (Around.place outer) = (s.breaks outer).flatMap Around.strays
  | .automate a _ body => strays_eq (.automation a :: outer) body
  | .ifElse _ body none => strays_eq outer body
  | .ifElse _ body (some alternate) => by
    rw [Stmt.strays, Stmt.breaks, List.flatMap_append, strays_eq outer body,
      strays_eq outer alternate]
  | .loopWhile _ body => strays_eq (.loop :: outer) body
  | .loopOver _ _ body => strays_eq (.loop :: outer) body
  | .breakLoop => (List.append_nil _).symm
  | .declare .. | .assign .. | .change .. | .print _ | .call .. | .output .. => rfl

/-- Which breaks stray can be told from what lies around them. -/
theorem strays_eq (outer : List Around) : ∀ ss : List Stmt,
    stmtsStrays (Around.place outer) ss = (stmtsBreaks outer ss).flatMap Around.strays
  | [] => rfl
  | s :: ss => by
    rw [stmtsStrays, stmtsBreaks, List.flatMap_append, straysStmt_eq outer s, strays_eq outer ss]

end

/-- The breaks of statements are those of the one part and of the other. -/
theorem stmtsBreaks_append (outer : List Around) (ss tt : List Stmt) :
    stmtsBreaks outer (ss ++ tt) = stmtsBreaks outer ss ++ stmtsBreaks outer tt := by
  induction ss with
  | nil => rfl
  | cons s ss ih => rw [List.cons_append, stmtsBreaks, stmtsBreaks, ih, List.append_assoc]

variable {passes : Passes}

theorem sublist_singleton {outer : List Around} {s : Stmt} {breaks : List (List Around)}
    (h : (s.breaks outer).Sublist breaks) : (stmtsBreaks outer [s]).Sublist breaks := by
  rwa [stmtsBreaks, stmtsBreaks, List.append_nil]

mutual

/-- Simplifying a statement takes breaks away and adds none. -/
theorem breaks_simplifyStmt (outer : List Around) :
    ∀ s : Stmt, (stmtsBreaks outer (s.simplify passes).value).Sublist (s.breaks outer)
  | .declare .. | .assign .. | .change .. | .print _ | .call .. => .refl _
  | .output none _ | .output (some _) _ => .refl _
  | .automate a _ body => sublist_singleton (breaks_simplifyStmts (.automation a :: outer) body)
  | .ifElse test body none => by
    have hbody := breaks_simplifyStmts outer body
    simp only [Stmt.simplify, Reduced.value_bind]
    cases knownTest passes (test.simplify passes).value with
    | none => exact sublist_singleton hbody
    | some b =>
      cases b with
      | true => exact hbody
      | false => exact List.nil_sublist _
  | .ifElse test body (some alternate) => by
    have hbody := breaks_simplifyStmts outer body
    have halternate := breaks_simplifyStmts outer alternate
    simp only [Stmt.simplify, Reduced.value_bind]
    cases knownTest passes (test.simplify passes).value with
    | none => exact sublist_singleton (hbody.append halternate)
    | some b =>
      cases b with
      | true => exact hbody.trans (List.sublist_append_left _ _)
      | false => exact halternate.trans (List.sublist_append_right _ _)
  | .loopWhile test body => by
    have hbody := breaks_simplifyStmts (.loop :: outer) body
    simp only [Stmt.simplify, Reduced.value_bind]
    cases knownTest passes (test.simplify passes).value with
    | none => exact sublist_singleton hbody
    | some b =>
      cases b with
      | true => exact sublist_singleton hbody
      | false => exact List.nil_sublist _
  | .loopOver _ _ body => sublist_singleton (breaks_simplifyStmts (.loop :: outer) body)
  | .breakLoop => .refl _

/-- Simplifying may remove breaks, but it does not move them. -/
theorem breaks_simplifyStmts (outer : List Around) : ∀ ss : List Stmt,
    (stmtsBreaks outer (simplifyStmts passes ss).value).Sublist (stmtsBreaks outer ss)
  | [] => .refl _
  | s :: ss => by
    have hs := breaks_simplifyStmt outer s
    simp only [simplifyStmts, Reduced.value_bind, stmtsBreaks]
    by_cases hcut : (passes.prune && s.isTerminal) = true
    · rw [if_pos hcut]
      exact hs.trans (List.sublist_append_left _ _)
    · rw [if_neg hcut]
      simp only [Reduced.value_bind, Reduced.value_pure, stmtsBreaks_append]
      exact hs.append (breaks_simplifyStmts outer ss)

end

end Program

/-! ## Typed programs -/

namespace Surface.Node.Under

variable {n : Node} {s : Stmt} {b : Block}

/-- What is under the statements of a block is under the statement that has the block. -/
theorem block (hb : .block b ∈ s.children) (h : Under (b.stmts.map .stmt) n) :
    Under [.stmt s] n :=
  h.trans fun _ hm => .child (.child (.top List.mem_cons_self) hb) hm

end Surface.Node.Under

namespace Typing

open Program (Around stmtsBreaks)
open Surface (Node)

/-- Parameters are no matter of loops. -/
theorem ParamForms.inLoop_eq {p q : Spot} {ps : List Surface.Param} {ds : List Param}
    {vs : List Variable} (h : ParamForms p ps ds vs q) :
    q.context.inLoop = p.context.inLoop := by
  induction h with
  | nil => rfl
  | cons _ _ _ _ ih => exact ih.trans Context.inLoop_insert

/-- All names of automations that lie around something have the property. -/
def Named (P : String → Prop) (outer : List Around) : Prop :=
  ∀ a, Around.automation a ∈ outer → P a.name

variable {P : String → Prop}

theorem Named.loop {outer : List Around} (h : Named P outer) : Named P (.loop :: outer) :=
  fun a ha => (List.mem_cons.1 ha).elim nofun (h a)

mutual

/-- A typed break has a loop around it, and the automations around it have names of the
    program. -/
theorem StmtForm.breaks : ∀ {p q : Spot} {s : Surface.Stmt} {t : Program.Stmt}
    {outer : List Around}, StmtForm p s t q → (p.context.inLoop = true → Around.loop ∈ outer) →
    Named P outer → (∀ x, Node.Under [.stmt s] (.name x) → P x.text) →
      (∀ around ∈ t.breaks outer, Around.loop ∈ around ∧ Named P around) ∧
        q.context.inLoop = p.context.inLoop
  | _, _, _, _, _, .declare .., _, _, _ => ⟨List.forall_mem_nil _, Context.inLoop_insert⟩
  | _, _, _, _, _, .assign .., _, _, _ => ⟨List.forall_mem_nil _, rfl⟩
  | _, _, _, _, _, .change .., _, _, _ => ⟨List.forall_mem_nil _, rfl⟩
  | _, _, _, _, _, .print .., _, _, _ => ⟨List.forall_mem_nil _, rfl⟩
  | _, _, _, _, _, .automate _ _ hparams hbody _, hloop, houter, hnames => by
    refine ⟨(hbody.breaks (fun h => .tail _ (hloop ?_)) ?_ fun x hx => hnames x ?_).1,
      Context.inLoop_insert⟩
    · rw [hparams.inLoop_eq] at h
      exact Context.inLoop_insert.symm.trans h
    · intro a ha
      rcases List.mem_cons.1 ha with heq | ha
      · cases heq
        exact hnames _ (.child (.top List.mem_cons_self) List.mem_cons_self)
      · exact houter a ha
    · exact .block (by simp [Surface.Stmt.children]) hx
  | _, _, _, _, _, .call .., _, _, _ => ⟨List.forall_mem_nil _, rfl⟩
  | _, _, _, _, _, .outputNone .., _, _, _ => ⟨List.forall_mem_nil _, rfl⟩
  | _, _, _, _, _, .output .., _, _, _ => ⟨List.forall_mem_nil _, rfl⟩
  | _, _, _, _, _, .ifThen _ _ hbody, hloop, houter, hnames =>
    hbody.breaks hloop houter fun x hx => hnames x (.block (by simp [Surface.Stmt.children]) hx)
  | _, _, _, _, _, .ifElse _ _ hbody halternate, hloop, houter, hnames => by
    obtain ⟨hbreaks, hq⟩ := hbody.breaks hloop houter fun x hx =>
      hnames x (.block (by simp [Surface.Stmt.children]) hx)
    obtain ⟨hbreaks', hr⟩ := halternate.breaks (fun h => hloop (hq.symm.trans h)) houter
      fun x hx => hnames x (.block (by simp [Surface.Stmt.children]) hx)
    exact ⟨List.forall_mem_append.2 ⟨hbreaks, hbreaks'⟩, hr.trans hq⟩
  | _, _, _, _, _, .loopWhile _ _ hbody, _, houter, hnames =>
    ⟨(hbody.breaks (fun _ => List.mem_cons_self) houter.loop fun x hx =>
      hnames x (.block (by simp [Surface.Stmt.children]) hx)).1, rfl⟩
  | _, _, _, _, _, .loopOver _ _ _ hbody, _, houter, hnames =>
    ⟨(hbody.breaks (fun _ => List.mem_cons_self) houter.loop fun x hx =>
      hnames x (.block (by simp [Surface.Stmt.children]) hx)).1, rfl⟩
  | _, _, _, _, _, .breakLoop hinLoop, hloop, houter, _ =>
    ⟨List.forall_mem_singleton.2 ⟨hloop hinLoop, houter⟩, rfl⟩

/-- In typed statements there is a loop around each `break`, at some distance. -/
theorem StmtForms.breaks : ∀ {p q : Spot} {ss : List Surface.Stmt} {ts : List Program.Stmt}
    {outer : List Around}, StmtForms p ss ts q → (p.context.inLoop = true → Around.loop ∈ outer) →
    Named P outer → (∀ x, Node.Under (ss.map .stmt) (.name x) → P x.text) →
      (∀ around ∈ stmtsBreaks outer ts, Around.loop ∈ around ∧ Named P around) ∧
        q.context.inLoop = p.context.inLoop
  | _, _, _, _, _, .nil, _, _, _ => ⟨List.forall_mem_nil _, rfl⟩
  | _, _, _, _, _, .cons h hs, hloop, houter, hnames => by
    obtain ⟨hbreaks, hq⟩ := h.breaks hloop houter fun x hx =>
      hnames x (hx.trans fun m hm => .top (by simp_all))
    obtain ⟨hbreaks', hr⟩ := hs.breaks (fun h => hloop (hq.symm.trans h)) houter fun x hx =>
      hnames x (hx.trans fun m hm => .top (List.mem_cons_of_mem _ hm))
    exact ⟨List.forall_mem_append.2 ⟨hbreaks, hbreaks'⟩, hr.trans hq⟩

end

end Typing

/-! ## Blocks of a script -/

namespace Script

/-- The block belongs to a `while` or a `for`. -/
def BlockKind.isLoop : BlockKind → Bool
  | .loopWhile | .loopOver => true
  | .function | .branch => false

namespace Line

/-- What the block belongs to that a line opens, if it opens one. The second block of an
    `if` belongs to a branch, as the first one does. -/
def opens? (l : Line) : Option BlockKind :=
  if l.text = "\x7d else \x7b" then some .branch else opening? l.text

/-- Whether the line ends a block. -/
def closes (l : Line) : Bool :=
  l.text = "\x7d" || l.text = "\x7d else \x7b"

/-- The blocks that are open after a line, the innermost first, given those before it. -/
def blocksAfter (blocks : List BlockKind) (l : Line) : List BlockKind :=
  l.opens?.toList ++ if l.closes then blocks.tail else blocks

end Line

/-- The blocks that are open after some lines, given those before them. -/
def openBlocks (blocks : List BlockKind) (ls : List Line) : List BlockKind :=
  ls.foldl Line.blocksAfter blocks

/-- Branches apart, the innermost of the blocks is a loop. -/
def Breakable (blocks : List BlockKind) : Prop :=
  (blocks.find? (· ≠ .branch)).any BlockKind.isLoop = true

/-- Each `break` among the lines stands in a loop of its own function, given the blocks
    that are open before them. -/
def Enclosed : List BlockKind → List Line → Prop
  | _, [] => True
  | blocks, l :: ls =>
    (l.text = "break;" → Breakable blocks) ∧ Enclosed (l.blocksAfter blocks) ls

variable {blocks : List BlockKind} {ls ms : List Line} {l : Line} {k : BlockKind}

/-- A loop may be left by a break. -/
theorem breakable_loop (h : k.isLoop = true) : Breakable (k :: blocks) := by
  cases k with
  | loopWhile | loopOver => rfl
  | function | branch => cases h

/-- A branch is no obstacle. -/
theorem Breakable.branch (h : Breakable blocks) : Breakable (.branch :: blocks) := h

theorem openBlocks_append : openBlocks blocks (ls ++ ms) = openBlocks (openBlocks blocks ls) ms :=
  List.foldl_append

/-- Lines are enclosed one part after the other, the second in the blocks left open by the
    first. -/
theorem enclosed_append :
    Enclosed blocks (ls ++ ms) ↔ Enclosed blocks ls ∧ Enclosed (openBlocks blocks ls) ms := by
  induction ls generalizing blocks with
  | nil => simp [Enclosed, openBlocks]
  | cons l ls ih =>
    rw [List.cons_append, Enclosed, ih, Enclosed, and_assoc]
    rfl

/-- A break in enclosed lines has a loop around it, with no function between. -/
theorem Enclosed.breakable {before after : List Line} (h : Enclosed blocks (before ++ l :: after))
    (hl : l.text = "break;") : Breakable (openBlocks blocks before) :=
  (enclosed_append.1 h).2.1 hl

namespace Line

/-- A line that ends in a semicolon opens no block and closes none. -/
theorem blocksAfter_plain (h : l.text.toList.getLast? = some ';') :
    l.blocksAfter blocks = blocks := by
  have hne {text : String} {c : Char} (hlast : text.toList.getLast? = some c) (hc : c ≠ ';') :
      l.text ≠ text := by
    intro htext
    rw [htext, hlast] at h
    exact hc (Option.some.inj h)
  have hclose : l.text ≠ "\x7d" := hne (c := '}') rfl (by decide)
  have helse : l.text ≠ "\x7d else \x7b" := hne (c := '{') rfl (by decide)
  have hopening : opening? l.text = none := by rw [opening?, h, if_neg (by decide)]
  simp [blocksAfter, opens?, closes, hclose, helse, hopening]

/-- The head of a statement opens a block and ends none. -/
theorem blocksAfter_opening (h : opening? l.text = some k) :
    l.blocksAfter blocks = k :: blocks := by
  obtain ⟨c, hc, -, hbrace⟩ := head?_of_opening? h
  have hne {text : String} (hhead : text.toList.head? = some '}') : l.text ≠ text := by
    intro htext
    rw [htext, hhead] at hc
    exact hbrace (Option.some.inj hc).symm
  have hclose : l.text ≠ "\x7d" := hne rfl
  have helse : l.text ≠ "\x7d else \x7b" := hne rfl
  simp [blocksAfter, opens?, closes, hclose, helse, h]

/-- A brace closes the innermost block. -/
theorem blocksAfter_close (depth : Nat) :
    (⟨depth, "\x7d"⟩ : Line).blocksAfter (k :: blocks) = blocks := by
  simp [blocksAfter, opens?, opening?, closes]

/-- Between two branches, one block is closed and another is opened. -/
theorem blocksAfter_else (depth : Nat) :
    (⟨depth, "\x7d else \x7b"⟩ : Line).blocksAfter (k :: blocks) = .branch :: blocks := by
  simp [blocksAfter, opens?, closes]

theorem ne_break_of_opening (h : opening? l.text = some k) : l.text ≠ "break;" := by
  intro htext
  rw [htext] at h
  cases h

end Line

/-- The lines leave the blocks as they were, and each `break` among them stands in a loop
    of its own function. -/
structure Encloses (blocks : List BlockKind) (ls : List Line) : Prop where
  restores : openBlocks blocks ls = blocks
  enclosed : Enclosed blocks ls

namespace Encloses

theorem nil : Encloses blocks [] := ⟨rfl, trivial⟩

/-- Enclosed lines can be put together. -/
theorem append (h : Encloses blocks ls) (h' : Encloses blocks ms) : Encloses blocks (ls ++ ms) := by
  refine ⟨?_, enclosed_append.2 ⟨h.enclosed, ?_⟩⟩
  · rw [openBlocks_append, h.restores, h'.restores]
  · rw [h.restores]
    exact h'.enclosed

/-- A line that ends with a semicolon. -/
theorem plain {depth : Nat} {text : String} (hlast : text.toList.getLast? = some ';')
    (hbreak : text = "break;" → Breakable blocks) : Encloses blocks [⟨depth, text⟩] :=
  ⟨Line.blocksAfter_plain hlast, hbreak, trivial⟩

/-- A block with the line that opens it and the line that ends it. -/
theorem block {depth depth' : Nat} {text : String} (hopening : opening? text = some k)
    (h : Encloses (k :: blocks) ls) :
    Encloses blocks (⟨depth, text⟩ :: ls ++ [⟨depth', "\x7d"⟩]) := by
  have hafter : (⟨depth, text⟩ : Line).blocksAfter blocks = k :: blocks :=
    Line.blocksAfter_opening hopening
  have hopen : openBlocks blocks (⟨depth, text⟩ :: ls) = k :: blocks := by
    rw [openBlocks, List.foldl_cons, hafter]
    exact h.restores
  refine ⟨?_, enclosed_append.2 ⟨⟨?_, ?_⟩, ?_, trivial⟩⟩
  · rw [openBlocks_append, hopen]
    exact Line.blocksAfter_close depth'
  · exact fun htext => absurd htext (Line.ne_break_of_opening hopening)
  · rw [hafter]
    exact h.enclosed
  · exact fun htext : "\x7d" = "break;" => absurd htext (by decide)

/-- The line between two branches. -/
theorem else_ {depth : Nat} : Encloses (.branch :: blocks) [⟨depth, "\x7d else \x7b"⟩] :=
  ⟨Line.blocksAfter_else depth,
    fun htext : "\x7d else \x7b" = "break;" => absurd htext (by decide), trivial⟩

end Encloses

/-! ## Scripts of programs -/

/-- A text with another character in it is no break. -/
theorem ne_break_of_mem {text : String} {c : Char} (hc : c ∈ text.toList)
    (hnot : c ∉ "break;".toList) : text ≠ "break;" := by
  rintro rfl
  exact hnot hc

theorem breakable_of_mem {text : String} {c : Char} (hc : c ∈ text.toList)
    (hnot : c ∉ "break;".toList) (htext : text = "break;") : Breakable blocks :=
  absurd htext (ne_break_of_mem hc hnot)

/-- The line of a call is no break. -/
theorem call_ne_break (ρ : Entity → Name) (callee : Automation) (args : List Expr) :
    (Expr.ofCall ρ callee args).text ++ ";" ≠ "break;" := by
  have hcall (n : Name) (es : List Expr) : (Expr.call n es).text ++ ";" ≠ "break;" := by
    change n.text ++ "(" ++ textAll es ++ ")" ++ ";" ≠ "break;"
    exact ne_break_of_mem (c := '(') (by simp) (by decide)
  unfold Expr.ofCall
  split
  · unfold template?
    split
    · rename_i element list _ _
      change list.text ++ ".push(" ++ element.text ++ ")" ++ ";" ≠ "break;"
      exact ne_break_of_mem (c := '(') (by simp) (by decide)
    · rename_i element list _ _
      change "((l, e) => \x7b const i = l.indexOf(e); if (i !== -1) l.splice(i, 1); \x7d)(" ++
        list.text ++ ", " ++ element.text ++ ")" ++ ";" ≠ "break;"
      exact ne_break_of_mem (c := '(') (by simp) (by decide)
    · rename_i value _ _
      change value.text ++ ".length" ++ ";" ≠ "break;"
      exact ne_break_of_mem (c := '.') (by simp) (by decide)
    · rename_i start stop _ _
      change "Array.from(\x7b length: " ++ stop.text ++ " - " ++ start.text ++
        " \x7d, (_, i) => " ++ start.text ++ " + i)" ++ ";" ≠ "break;"
      exact ne_break_of_mem (c := '(') (by simp) (by decide)
    · rename_i value _ _
      change "typeof " ++ value.text ++ ";" ≠ "break;"
      exact ne_break_of_mem (c := ' ') (by simp) (by decide)
    · exact hcall _ _
  · exact hcall _ _

mutual

/-- The lines of a statement without stray breaks are enclosed. -/
theorem encloses_stmt (ρ : Entity → Name) (p : Place) (depth : Nat) {blocks : List BlockKind}
    (hp : p.inLoop = true → Breakable blocks) :
    ∀ s : Program.Stmt, s.strays p = [] → Encloses blocks ((Stmt.ofProgram ρ s).lines depth)
  | .declare v init, _ =>
    .plain (getLast?_append_of_some rfl) (breakable_of_mem (c := ' ') (by simp) (by decide))
  | .assign target source, _ =>
    .plain (getLast?_append_of_some rfl) (breakable_of_mem (c := ' ') (by simp) (by decide))
  | .change op target term, _ =>
    .plain (getLast?_append_of_some rfl) (breakable_of_mem (c := ' ') (by simp) (by decide))
  | .print argument, _ =>
    .plain (getLast?_append_of_some rfl) (breakable_of_mem (c := '(') (by simp) (by decide))
  | .automate a params body, h =>
    .block (opening?_function _ _)
      (encloses_stmts ρ (.body a) (depth + 1) nofun body h)
  | .call callee args, _ =>
    .plain (getLast?_append_of_some rfl) fun htext => absurd htext (call_ne_break ρ callee _)
  | .output none _, _ => .plain rfl fun htext : "return;" = "break;" => absurd htext (by decide)
  | .output (some value) _, _ =>
    .plain (getLast?_append_of_some rfl) (breakable_of_mem (c := ' ') (by simp) (by decide))
  | .ifElse test body none, h =>
    .block (opening?_if _) (encloses_stmts ρ p (depth + 1) (fun h => (hp h).branch) body h)
  | .ifElse test body (some alternate), h => by
    obtain ⟨hbody, halternate⟩ := List.append_eq_nil_iff.1 h
    change Encloses blocks (_ :: linesAll (depth + 1) (Stmt.ofPrograms ρ body) ++
      (_ :: linesAll (depth + 1) (Stmt.ofPrograms ρ alternate)) ++ [_])
    exact .block (opening?_if _)
      ((encloses_stmts ρ p (depth + 1) (fun h => (hp h).branch) body hbody).append
        (.append .else_
          (encloses_stmts ρ p (depth + 1) (fun h => (hp h).branch) alternate halternate)))
  | .loopWhile test body, h =>
    .block (opening?_while _)
      (encloses_stmts ρ p.loop (depth + 1) (fun _ => breakable_loop rfl) body h)
  | .loopOver item list body, h =>
    .block (opening?_for _ _)
      (encloses_stmts ρ p.loop (depth + 1) (fun _ => breakable_loop rfl) body h)
  | .breakLoop, h => .plain rfl fun _ => hp (by
      by_contra hloop
      rw [Program.Stmt.strays, if_neg hloop] at h
      cases h)

/-- If no `break` of statements strays, each of them stands in a loop of its own function
    in the script. -/
theorem encloses_stmts (ρ : Entity → Name) (p : Place) (depth : Nat) {blocks : List BlockKind}
    (hp : p.inLoop = true → Breakable blocks) : ∀ ss : List Program.Stmt, stmtsStrays p ss = [] →
      Encloses blocks (linesAll depth (Stmt.ofPrograms ρ ss))
  | [], _ => .nil
  | s :: ss, h => by
    obtain ⟨hs, hss⟩ := List.append_eq_nil_iff.1 h
    exact (encloses_stmt ρ p depth hp s hs).append (encloses_stmts ρ p depth hp ss hss)

end

end Script

/-! ## Names -/

/-- The text of a name is not empty. -/
theorem Scanner.Scans.text_ne_empty {s t : Scanner} {ts : List Token} (h : Scans s ts t) :
    ∀ x ∈ ts, x.kind = .ident → x.text ≠ "" := by
  induction h with
  | nil => exact List.forall_mem_nil _
  | skip _ _ _ _ ih => exact ih
  | token hstands _ _ ih =>
    refine List.forall_mem_cons.2 ⟨fun hkind htext => ?_, ih⟩
    have hnil := String.ofList_eq_empty_iff.1 htext
    have hne := hstands.ne_nil
    cases hstands with
    | punctuation _ | name _ _ => exact absurd hnil hne
    | arrow | numeral _ | word _ => cases hkind

/-- No name of a program is empty. -/
theorem name_ne_empty {text : List Char} {ss : List Surface.Stmt} (h : parseText text = .ok ss)
    {x : Surface.Ident} (hx : Surface.Node.Under (ss.map .stmt) (.name x)) : x.text ≠ "" := by
  obtain ⟨ts, hscan, hparse⟩ := parseText_eq_ok_iff.1 h
  obtain ⟨d, rfl, rfl⟩ := Surface.exists_derivation hparse
  obtain ⟨part, hpart, t, hkind, rfl, rfl⟩ := hx.exists_stretch d.lies
  obtain ⟨_, hscans, -⟩ := Scanner.tokens_eq_ok_iff.1 hscan
  exact hscans.text_ne_empty t (hpart.subset List.mem_cons_self) hkind

/-! ## The first break that leaves an automation -/

namespace Program.Around

variable {around : List Around} {breaks : List (List Around)}

/-- Within a loop, a break strays exactly if an automation is between. -/
theorem strays_eq_nil_iff (h : Around.loop ∈ around) : strays around = [] ↔ ¬Leaves around := by
  cases around with
  | nil => cases h
  | cons o outer =>
    cases o with
    | loop => exact ⟨fun _ => id, fun _ => rfl⟩
    | automation a => exact ⟨nofun, fun hleaves => absurd trivial hleaves⟩

/-- Within loops, no break strays exactly if none leaves an automation. -/
theorem flatMap_strays_eq_nil_iff (h : ∀ around ∈ breaks, Around.loop ∈ around) :
    breaks.flatMap strays = [] ↔ ∀ around ∈ breaks, ¬Leaves around := by
  rw [List.flatMap_eq_nil_iff]
  exact forall₂_congr fun around ha => strays_eq_nil_iff (h around ha)

/-- The first name is that of the automation around the first `break` that would have to
    leave one. -/
theorem exists_first (h : ∀ around ∈ breaks, Around.loop ∈ around) {name : String}
    {names : List String} (hstrays : breaks.flatMap strays = name :: names) :
    ∃ (before : List (List Around)) (a : Automation) (outer : List Around)
      (after : List (List Around)), breaks = before ++ (automation a :: outer) :: after ∧
      (∀ around ∈ before, ¬Leaves around) ∧ a.name = name := by
  induction breaks with
  | nil => cases hstrays
  | cons around breaks ih =>
    obtain ⟨hloop, h⟩ := List.forall_mem_cons.1 h
    by_cases hleaves : Leaves around
    · match around, hleaves with
      | .automation a :: outer, _ =>
        exact ⟨[], a, outer, breaks, rfl, List.forall_mem_nil _, (List.cons.inj hstrays).1⟩
    · rw [List.flatMap_cons, (strays_eq_nil_iff hloop).2 hleaves] at hstrays
      obtain ⟨before, a, outer, after, rfl, hbefore, hname⟩ := ih h hstrays
      exact ⟨around :: before, a, outer, after, rfl,
        List.forall_mem_cons.2 ⟨hleaves, hbefore⟩, hname⟩

end Program.Around

open Program (Around stmtsBreaks)

/-- There is a loop around each `break` of a simplified program, at some distance, and the
    automations around it have names of the text. -/
theorem breaks_of_run {stmts : List Surface.Stmt} {program : Program}
    (hrun : (Typing.run Prelude.standard stmts).1 = .ok program) (passes : Passes)
    {P : String → Prop}
    (hP : ∀ x, Surface.Node.Under (stmts.map .stmt) (.name x) → P x.text) :
    ∀ around ∈ stmtsBreaks [] (program.simplify passes).value.stmts,
      Around.loop ∈ around ∧ Typing.Named P around := by
  obtain ⟨last, hforms⟩ := Typing.stmtForms_of_run hrun
  have hnone : Typing.Named P [] := fun _ => nofun
  have hbreaks := (hforms.breaks nofun hnone hP).1
  intro around ha
  exact hbreaks around ((Program.breaks_simplifyStmts [] program.stmts).subset ha)

/-- A simplified program has no script exactly if it has a `break` of which the innermost
    of the loops and automations around it is an automation. What is wrong is then the
    first of these breaks: the message names the automation, and the fault has no place in
    any text. In the script, where there is one, each line with a `break` stands in a loop,
    with no function between the two. -/
theorem script_unless_break_leaves {stmts : List Surface.Stmt} {program : Program}
    (hrun : (Typing.run Prelude.standard stmts).1 = .ok program) (passes : Passes) :
    ((∃ failure, (program.simplify passes).value.scriptText = .error failure) ↔
      ∃ around ∈ stmtsBreaks [] (program.simplify passes).value.stmts, Around.Leaves around) ∧
    (∀ failure, (program.simplify passes).value.scriptText = .error failure →
      ∃ before a outer after, stmtsBreaks [] (program.simplify passes).value.stmts =
          before ++ (.automation a :: outer) :: after ∧
        (∀ around ∈ before, ¬Around.Leaves around) ∧
        (∀ text, parseText text = .ok stmts → a.name ≠ "") ∧
        ∃ fault : Fault, failure = .fault fault ∧ fault.problem = .breakLeavesAutomation a.name ∧
          ∀ text, fault.diagnostic text =
            ⟨.call, s!"Break in automation '{a.name}' cannot leave a loop outside it.", none⟩) ∧
    ∀ output, (program.simplify passes).value.scriptText = .ok output →
      ∃ script, Script.ofProgram (program.simplify passes).value = .ok script ∧
        output = Script.text script ∧
        ∀ before l after, Script.linesAll 0 script = before ++ l :: after →
          l.text = "break;" → Script.Breakable (Script.openBlocks [] before) := by
  have hbreaks := breaks_of_run hrun passes (P := fun _ => True) fun _ _ => trivial
  have hloops : ∀ around ∈ stmtsBreaks [] (program.simplify passes).value.stmts,
      .loop ∈ around := fun around ha => (hbreaks around ha).1
  have hfailure : (Requests.ofProgram (program.simplify passes).value).failure? =
      Requests.firstStray ((stmtsBreaks [] (program.simplify passes).value.stmts).flatMap
        Around.strays) := by
    rw [← Program.strays_eq]
    exact Requests.failure?_ofStmts .outside _ (proper_simplify hrun passes)
  have hscript := Script.ofProgram_of_requests (program.simplify passes).value
  rw [hfailure] at hscript
  rw [Program.scriptText]
  cases hresult : Script.ofProgram (program.simplify passes).value with
  | ok script =>
    rw [hresult] at hscript
    obtain ⟨hnone, hnames⟩ := hscript
    have hstrays : (stmtsBreaks [] (program.simplify passes).value.stmts).flatMap
        Around.strays = [] := by
      rwa [Requests.firstStray, Option.map_eq_none_iff, List.head?_eq_none_iff] at hnone
    refine ⟨⟨?_, ?_⟩, ?_, ?_⟩
    · rintro ⟨failure, ⟨⟩⟩
    · rintro ⟨around, ha, hleaves⟩
      exact absurd hleaves ((Around.flatMap_strays_eq_nil_iff hloops).1 hstrays around ha)
    · rintro failure ⟨⟩
    · rintro _ ⟨⟩
      refine ⟨script, rfl, rfl, fun before l after hlines htext => ?_⟩
      have hencloses : Script.Encloses [] (Script.linesAll 0 script) := by
        rw [hnames _ fun _ _ => rfl]
        exact Script.encloses_stmts _ .outside 0 (Bool.noConfusion ·) _
          ((Program.strays_eq [] _).trans hstrays)
      rw [hlines] at hencloses
      exact hencloses.enclosed.breakable htext
  | error f =>
    rw [hresult] at hscript
    cases hstrays : (stmtsBreaks [] (program.simplify passes).value.stmts).flatMap
        Around.strays with
    | nil =>
      rw [hstrays] at hscript
      cases hscript
    | cons name names =>
      rw [hstrays] at hscript
      obtain ⟨before, a, outer, after, heq, hbefore, rfl⟩ := Around.exists_first hloops hstrays
      cases hscript
      have hmem : .automation a :: outer ∈
          stmtsBreaks [] (program.simplify passes).value.stmts := by
        rw [heq]
        exact List.mem_append_right _ List.mem_cons_self
      refine ⟨⟨fun _ => ⟨_, hmem, trivial⟩, fun _ => ⟨_, rfl⟩⟩, ?_, ?_⟩
      · rintro _ ⟨⟩
        refine ⟨before, a, outer, after, heq, hbefore, fun text hparse => ?_, _, rfl, rfl,
          fun _ => rfl⟩
        have hnamed := breaks_of_run hrun passes (P := (· ≠ "")) fun x hx =>
          name_ne_empty hparse hx
        exact (hnamed _ hmem).2 a List.mem_cons_self
      · rintro output ⟨⟩

/-- A loop with a `break` in an automation and another `break` after it. -/
def leavingText : List Char :=
  "loop while true \x7b automate f() \x7b break; \x7d break; \x7d".toList

/-- Its statements. -/
def leaving : List Surface.Stmt :=
  [.loopWhile (.name ⟨"true", ⟨11, 15⟩⟩)
    (.mk [.automate ⟨"f", ⟨27, 28⟩⟩ [] none (.mk [.breakLoop ⟨33, 39⟩] ⟨31, 41⟩) ⟨18, 41⟩,
      .breakLoop ⟨42, 48⟩] ⟨16, 50⟩) ⟨0, 50⟩]

/-- Its typed form. -/
def leavingTyped : Program :=
  ⟨[.loopWhile (.var ⟨7, "true", true, .bool, true⟩)
    [.automate ⟨9, "f", [], .none, false⟩ [] [.breakLoop], .breakLoop]]⟩

/-- The first of the two breaks leaves the automation, and the second stays in its loop. -/
theorem script_unless_break_leaves_loop :
    parseText leavingText = .ok leaving ∧
      (Typing.run Prelude.standard leaving).1 = .ok leavingTyped ∧
      ∃ fault : Fault, (leavingTyped.simplify .all).value.scriptText = .error (.fault fault) ∧
        fault.problem = .breakLeavesAutomation "f" ∧ ∀ text, fault.diagnostic text =
          ⟨.call, "Break in automation 'f' cannot leave a loop outside it.", none⟩ := by
  have hscan : Token.scan leavingText = .ok [⟨.keyword .loop, "loop", ⟨0, 4⟩⟩,
      ⟨.keyword .while_, "while", ⟨5, 10⟩⟩, ⟨.ident, "true", ⟨11, 15⟩⟩,
      ⟨.openBrace, "\x7b", ⟨16, 17⟩⟩, ⟨.keyword .automate, "automate", ⟨18, 26⟩⟩,
      ⟨.ident, "f", ⟨27, 28⟩⟩, ⟨.openParen, "(", ⟨28, 29⟩⟩, ⟨.closeParen, ")", ⟨29, 30⟩⟩,
      ⟨.openBrace, "\x7b", ⟨31, 32⟩⟩, ⟨.keyword .break_, "break", ⟨33, 38⟩⟩,
      ⟨.semicolon, ";", ⟨38, 39⟩⟩, ⟨.closeBrace, "\x7d", ⟨40, 41⟩⟩,
      ⟨.keyword .break_, "break", ⟨42, 47⟩⟩, ⟨.semicolon, ";", ⟨47, 48⟩⟩,
      ⟨.closeBrace, "\x7d", ⟨49, 50⟩⟩] := by decide +kernel
  have hparse : parseText leavingText = .ok leaving := parseText_eq_ok_iff.2 ⟨_, hscan, by cbv⟩
  have hrun : (Typing.run Prelude.standard leaving).1 = .ok leavingTyped := by cbv
  have hbreaks : stmtsBreaks [] (leavingTyped.simplify .all).value.stmts =
      [[.automation ⟨9, "f", [], .none, false⟩, .loop], [.loop]] := by cbv
  obtain ⟨hfails, hfirst, -⟩ := script_unless_break_leaves hrun .all
  rw [hbreaks] at hfails hfirst
  obtain ⟨failure, hfailure⟩ := hfails.2 ⟨_, List.mem_cons_self, trivial⟩
  obtain ⟨before, a, outer, after, heq, hbefore, -, fault, rfl, hproblem, hdiagnostic⟩ :=
    hfirst failure hfailure
  cases before with
  | nil =>
    cases heq
    exact ⟨hparse, hrun, fault, hfailure, hproblem, hdiagnostic⟩
  | cons around before =>
    have haround := (List.cons.inj heq).1
    have hnot := hbefore around List.mem_cons_self
    rw [← haround] at hnot
    exact absurd trivial hnot

end Toal
