import Toal.Operator
import Mathlib.Data.List.Basic

/-!
# How scripts read terms

Expressions of scripts with all that the operations of the language are spelled out
with: besides operators, lists and calls, these are members of objects, `typeof`,
records and functions (`Term`). They are written with marks (`Term.marks`). Operators
bind with different strength: `0` is equality, `1` order, `2` sums and `3` products, all of
which group to the left, and `4` powers, which group to the right (`BinOp.level`). The
levels of terms are these, each raised by one:

* `0`: functions, which go as far to the right as they can;
* `1` to `5`: operators;
* `6`: signs and `typeof`;
* `7`: all else, among it members and calls, whose object or callee is of level `7` too.

A term is a way to read marks if the marks are its own and its parts have the levels that
are asked for (`Term.Grouped`). There is no other way to read them
(`Term.eq_of_marks_eq`): a reader that goes over marks once, with a stack of what waits
for more, finds the term (`Term.read_marks`).
-/

namespace Toal

/-! ## Levels -/

namespace BinOp

/-- The level of the expressions that an operator makes. -/
def level : BinOp → Nat
  | .compare .eq | .compare .ne => 0
  | .compare _ => 1
  | .arith .add | .arith .sub => 2
  | .arith .pow => 4
  | .arith _ => 3

/-- The level that an operator asks for on its left. -/
def leftLevel : BinOp → Nat
  | .arith .pow => 6
  | op => op.level

/-- The level that an operator asks for on its right. -/
def rightLevel : BinOp → Nat
  | .arith .pow => 4
  | op => op.level + 1

/-- No operator binds tighter than level four. -/
theorem level_le (op : BinOp) : op.level ≤ 4 := by
  rcases op with (_ | _ | _ | _ | _ | _) | (_ | _ | _ | _ | _ | _) <;> decide

/-- The left operand of an operator binds at least as tightly as the operator. -/
theorem level_le_leftLevel (op : BinOp) : op.level ≤ op.leftLevel := by
  rcases op with (_ | _ | _ | _ | _ | _) | (_ | _ | _ | _ | _ | _) <;> decide

/-- The right operand of an operator binds at least as tightly as the operator. -/
theorem level_le_rightLevel (op : BinOp) : op.level ≤ op.rightLevel := by
  rcases op with (_ | _ | _ | _ | _ | _) | (_ | _ | _ | _ | _ | _) <;> decide

/-- An operator of which another may be the left operand binds less tightly than
    the right operand of that other. -/
theorem level_lt_rightLevel {op op' : BinOp} (h : op'.leftLevel ≤ op.level) :
    op'.level < op.rightLevel := by
  unfold rightLevel
  split
  · -- A power is not the base of a power, and all other operators are below it.
    rcases op' with (_ | _ | _ | _ | _ | _) | (_ | _ | _ | _ | _ | _) <;> revert h <;> decide
  · exact Nat.lt_succ_of_le (Nat.le_trans op'.level_le_leftLevel h)

/-- All operators bind less tightly than signs. -/
theorem level_lt_sign (op : BinOp) : op.level < 5 := Nat.lt_succ_of_le op.level_le

end BinOp

namespace Script

/-! ## Terms and marks -/

/-- What may stand in front of an operand. -/
inductive Unary
  | plus
  | minus
  | typeOf
deriving DecidableEq

mutual

/-- The expressions of scripts, as they are read. The truth values count as names. -/
inductive Term
  | name (text : String)
  | number (text : String)
  | quoted (text : String)
  | group (inner : Term)
  | array (elements : List Term)
  /-- A record with a single field. -/
  | record (field : String) (value : Term)
  | member (object : Term) (field : String)
  | call (callee : Term) (args : List Term)
  | unary (op : Unary) (operand : Term)
  | binary (op : BinOp) (left right : Term)
  /-- A function whose body is an expression. -/
  | arrow (params : List String) (body : Term)
  /-- A function whose body is a block. -/
  | function (params : List String) (body : List Command)

/-- The statements in the block of a function. -/
inductive Command
  | declare (name : String) (init : Term)
  /-- A term that is evaluated if the condition holds. -/
  | test (condition body : Term)
  | eval (e : Term)

end

/-- The marks that terms are written with. -/
inductive Mark
  | name (text : String)
  | number (text : String)
  | quoted (text : String)
  | op (op : BinOp)
  | typeOf
  | const
  | if_
  | openParen
  | closeParen
  | openSquare
  | closeSquare
  | openBrace
  | closeBrace
  | comma
  | colon
  | semicolon
  | dot
  | arrow
  | assign
deriving DecidableEq

/-- Whether a term has ended before the mark. -/
def Mark.ends : Mark → Bool
  | comma | closeParen | closeSquare | closeBrace | semicolon => true
  | _ => false

/-- The mark in front of an operand. -/
def Unary.mark : Unary → Mark
  | plus => .op (.arith .add)
  | minus => .op (.arith .sub)
  | typeOf => .typeOf

namespace Term

/-- The marks of the parameters of a function. -/
def paramMarks : List String → List Mark
  | [] => []
  | [x] => [.name x]
  | x :: xs => .name x :: .comma :: paramMarks xs

mutual

/-- The marks of a term. -/
def marks : Term → List Mark
  | .name text => [.name text]
  | .number text => [.number text]
  | .quoted text => [.quoted text]
  | .group inner => .openParen :: (inner.marks ++ [.closeParen])
  | .array elements => .openSquare :: (marksAll elements ++ [.closeSquare])
  | .record field value => .openBrace :: .name field :: .colon :: (value.marks ++ [.closeBrace])
  | .member object field => object.marks ++ [.dot, .name field]
  | .call callee args => callee.marks ++ (.openParen :: (marksAll args ++ [.closeParen]))
  | .unary op operand => op.mark :: operand.marks
  | .binary op left right => left.marks ++ .op op :: right.marks
  | .arrow params body =>
    .openParen :: (paramMarks params ++ (.closeParen :: .arrow :: body.marks))
  | .function params body =>
    .openParen :: (paramMarks params ++
      (.closeParen :: .arrow :: .openBrace :: (marksBlock body ++ [.closeBrace])))

/-- The marks of terms, separated by commas. -/
def marksAll : List Term → List Mark
  | [] => []
  | [t] => t.marks
  | t :: ts => t.marks ++ .comma :: marksAll ts

/-- The marks of a statement. -/
def commandMarks : Command → List Mark
  | .declare x init => .const :: .name x :: .assign :: (init.marks ++ [.semicolon])
  | .test condition body =>
    .if_ :: .openParen :: (condition.marks ++ (.closeParen :: (body.marks ++ [.semicolon])))
  | .eval e => e.marks ++ [.semicolon]

/-- The marks of the statements of a block. -/
def marksBlock : List Command → List Mark
  | [] => []
  | c :: cs => commandMarks c ++ marksBlock cs

end

/-! ## The grammar -/

/-- The level of a term. -/
def level : Term → Nat
  | .binary op _ _ => op.level + 1
  | .unary _ _ => 6
  | .arrow _ _ | .function _ _ => 0
  | _ => 7

/-- Whether the term begins with a brace. -/
def opensBrace : Term → Bool
  | .record _ _ => true
  | .member object _ => object.opensBrace
  | .call callee _ => callee.opensBrace
  | .binary _ left _ => left.opensBrace
  | _ => false

mutual

/-- All parts have the levels that are asked for. A function's body or a statement that
    began with a brace would be a block. -/
def Grouped : Term → Prop
  | .name _ | .number _ | .quoted _ => True
  | .group inner => inner.Grouped
  | .array elements => GroupedAll elements
  | .record _ value => value.Grouped
  | .member object _ => object.level = 7 ∧ object.Grouped
  | .call callee args => callee.level = 7 ∧ callee.Grouped ∧ GroupedAll args
  | .unary _ operand => 6 ≤ operand.level ∧ operand.Grouped
  | .binary op left right =>
    op.leftLevel < left.level ∧ op.rightLevel < right.level ∧ left.Grouped ∧ right.Grouped
  | .arrow params body => params.Nodup ∧ body.opensBrace = false ∧ body.Grouped
  | .function params body => params.Nodup ∧ GroupedBlock body

/-- All parts of the terms have the levels that are asked for. -/
def GroupedAll : List Term → Prop
  | [] => True
  | t :: ts => t.Grouped ∧ GroupedAll ts

/-- All parts of the statement have the levels that are asked for. -/
def GroupedCommand : Command → Prop
  | .declare _ init => init.Grouped
  | .test condition body => condition.Grouped ∧ body.opensBrace = false ∧ body.Grouped
  | .eval e => e.opensBrace = false ∧ e.Grouped

/-- All parts of the statements have the levels that are asked for. -/
def GroupedBlock : List Command → Prop
  | [] => True
  | c :: cs => GroupedCommand c ∧ GroupedBlock cs

end

/-! ## The reader -/

/-- What opens a list of terms. -/
inductive Opener
  | paren
  | square
  | callee (f : Term)

/-- What waits for more. -/
inductive Frame
  /-- An operator with its left operand. -/
  | left (operand : Term) (op : BinOp)
  | unary (op : Unary)
  /-- A function, for its body. -/
  | arrow (params : List String)
  /-- A bracket, and the terms that have been read since. -/
  | items (opener : Opener) (done : List Term)
  /-- A record, for the value of its field. -/
  | field (name : String)
  /-- A function with a block, and the statements that have been read. -/
  | block (params : List String) (done : List Command)
  | declare (name : String)
  /-- The parenthesis after an `if`. -/
  | condition
  /-- An `if` and its condition. -/
  | test (condition : Term)

namespace Frame

/-- Whether something has got its operand when an operator of the given level follows.
    At level `0` nothing more of the operand can follow. -/
def yields (n : Nat) : Frame → Bool
  | .left _ op => n ≤ op.rightLevel
  | .unary _ => n < 6
  | .arrow _ => n < 1
  | _ => false

/-- The term that is made with the operand. -/
def fill (t : Term) : Frame → Term
  | .left operand op => .binary op operand t
  | .unary op => .unary op t
  | .arrow params => .arrow params t
  | _ => t

/-- What becomes of a stack and an operand when an operator of the given level follows. -/
def settle (n : Nat) : List Frame → Term → List Frame × Term
  | [], t => ([], t)
  | f :: fs, t => if f.yields n then settle n fs (f.fill t) else (f :: fs, t)

end Frame

/-- What a reader has just read. -/
inductive Focus
  /-- Something that a term has to follow. -/
  | want
  | have_ (t : Term)
  /-- Terms in parentheses that can only be the parameters of a function. -/
  | params (ts : List Term)
  /-- A term and a point. -/
  | dot (t : Term)
  /-- The brace of a record. -/
  | brace
  /-- The name of a field. -/
  | field (name : String)
  /-- The arrow of a function. -/
  | body (params : List String)
  /-- Something that a statement has to follow. -/
  | command
  | const
  /-- The name in a declaration. -/
  | declared (name : String)
  | if_

/-- What a reader has in its hands. -/
structure Reader where
  /-- What waits for more, innermost first. -/
  stack : List Frame
  /-- What has just been read. -/
  focus : Focus

namespace Reader

/-- The name that a term is. -/
def param? : Term → Option String
  | .name x => some x
  | _ => none

/-- What a bracket and its terms make, once it is closed by a parenthesis. -/
def closeParen (stack : List Frame) : Opener → List Term → Option Reader
  | .paren, [t] => some ⟨stack, .have_ (.group t)⟩
  | .paren, ts => some ⟨stack, .params ts⟩
  | .callee f, ts => some ⟨stack, .have_ (.call f ts)⟩
  | .square, _ => none

/-- What becomes of the stack when a statement has been read. -/
def finish (c : Command) : List Frame → Option Reader
  | .block params done :: fs => some ⟨.block params (done ++ [c]) :: fs, .command⟩
  | _ => none

/-- The reader after a mark that follows what a term has to follow. -/
def stepWant (stack : List Frame) : Mark → Option Reader
  | .name x => some ⟨stack, .have_ (.name x)⟩
  | .number x => some ⟨stack, .have_ (.number x)⟩
  | .quoted x => some ⟨stack, .have_ (.quoted x)⟩
  | .op (.arith .add) => some ⟨.unary .plus :: stack, .want⟩
  | .op (.arith .sub) => some ⟨.unary .minus :: stack, .want⟩
  | .typeOf => some ⟨.unary .typeOf :: stack, .want⟩
  | .openParen => some ⟨.items .paren [] :: stack, .want⟩
  | .openSquare => some ⟨.items .square [] :: stack, .want⟩
  | .openBrace => some ⟨stack, .brace⟩
  | .closeParen =>
    match stack with
    | .items opener [] :: fs => closeParen fs opener []
    | _ => none
  | .closeSquare =>
    match stack with
    | .items .square [] :: fs => some ⟨fs, .have_ (.array [])⟩
    | _ => none
  | _ => none

/-- The reader after a mark that follows a term. -/
def stepHave (stack : List Frame) (t : Term) : Mark → Option Reader
  | .op op =>
    let settled := Frame.settle (op.level + 1) stack t
    some ⟨.left settled.2 op :: settled.1, .want⟩
  | .dot => some ⟨stack, .dot t⟩
  | .openParen => some ⟨.items (.callee t) [] :: stack, .want⟩
  | .arrow =>
    match t with
    | .group (.name x) => some ⟨stack, .body [x]⟩
    | _ => none
  | .comma =>
    match Frame.settle 0 stack t with
    | (.items opener done :: fs, t) => some ⟨.items opener (done ++ [t]) :: fs, .want⟩
    | _ => none
  | .closeParen =>
    match Frame.settle 0 stack t with
    | (.items opener done :: fs, t) => closeParen fs opener (done ++ [t])
    | (.condition :: fs, t) => some ⟨.test t :: fs, .want⟩
    | _ => none
  | .closeSquare =>
    match Frame.settle 0 stack t with
    | (.items .square done :: fs, t) => some ⟨fs, .have_ (.array (done ++ [t]))⟩
    | _ => none
  | .closeBrace =>
    match Frame.settle 0 stack t with
    | (.field x :: fs, t) => some ⟨fs, .have_ (.record x t)⟩
    | _ => none
  | .semicolon =>
    match Frame.settle 0 stack t with
    | (.declare x :: fs, t) => finish (.declare x t) fs
    | (.test condition :: fs, t) => finish (.test condition t) fs
    | (fs, t) => finish (.eval t) fs
  | _ => none

/-- The reader after a mark. -/
def step (r : Reader) (k : Mark) : Option Reader :=
  match r.focus, k with
  | .want, k => stepWant r.stack k
  | .have_ t, k => stepHave r.stack t k
  | .params ts, .arrow => (ts.mapM param?).map fun params => ⟨r.stack, .body params⟩
  | .dot t, .name x => some ⟨r.stack, .have_ (.member t x)⟩
  | .brace, .name x => some ⟨r.stack, .field x⟩
  | .field x, .colon => some ⟨.field x :: r.stack, .want⟩
  | .body params, .openBrace => some ⟨.block params [] :: r.stack, .command⟩
  | .body params, k => stepWant (.arrow params :: r.stack) k
  | .command, .const => some ⟨r.stack, .const⟩
  | .command, .if_ => some ⟨r.stack, .if_⟩
  | .command, .closeBrace =>
    match r.stack with
    | .block params done :: fs => some ⟨fs, .have_ (.function params done)⟩
    | _ => none
  | .command, k => stepWant r.stack k
  | .const, .name x => some ⟨r.stack, .declared x⟩
  | .declared x, .assign => some ⟨.declare x :: r.stack, .want⟩
  | .if_, .openParen => some ⟨.condition :: r.stack, .want⟩
  | _, _ => none

/-- The reader after marks. -/
def steps (r : Reader) (ks : List Mark) : Option Reader := ks.foldlM step r

end Reader

/-- The term that is found in marks. -/
def read (ks : List Mark) : Option Term :=
  ((Reader.mk [] .want).steps ks).bind fun r =>
    match r.focus with
    | .have_ t => some (Frame.settle 0 r.stack t).2
    | _ => none

/-! ## The reader finds the term -/

namespace Frame

/-- What has got its operand before a tighter operator has got it before a looser one. -/
theorem yields_mono {n n' : Nat} {f : Frame} (hle : n ≤ n') (h : f.yields n' = true) :
    f.yields n = true := by
  cases f with
  | left operand op => exact decide_eq_true (Nat.le_trans hle (of_decide_eq_true h))
  | unary op => exact decide_eq_true (Nat.lt_of_le_of_lt hle (of_decide_eq_true h))
  | arrow params => exact decide_eq_true (Nat.lt_of_le_of_lt hle (of_decide_eq_true h))
  | _ => cases h

/-- Nothing on top of the stack has got its operand when an operator of the level
    follows. -/
def Admits (n : Nat) (stack : List Frame) : Prop :=
  ∀ f ∈ stack.head?, f.yields n = false

/-- A stack that admits an operator admits tighter ones. -/
theorem Admits.mono {n n' : Nat} {stack : List Frame} (h : Admits n stack) (hle : n ≤ n') :
    Admits n' stack := by
  intro f hf
  by_contra hyields
  rw [Bool.not_eq_false] at hyields
  exact absurd (yields_mono hle hyields) (by rw [h f hf]; decide)

/-- A frame that has not got its operand keeps what is below it from getting one. -/
theorem admits_cons {n : Nat} {f : Frame} (hf : f.yields n = false) (fs : List Frame) :
    Admits n (f :: fs) := by
  intro g hg
  cases hg
  exact hf

/-- What yields is settled, down to what waits for more. -/
theorem settle_append {n : Nat} {fs stack : List Frame} (hfs : ∀ f ∈ fs, f.yields n = true)
    (hstack : Admits n stack) (u : Term) :
    settle n (fs ++ stack) u = (stack, fs.foldl fill u) := by
  induction fs generalizing u with
  | nil =>
    cases stack with
    | nil => rfl
    | cons f stack =>
      have hf : f.yields n = false := hstack f rfl
      rw [List.nil_append, settle, if_neg (Bool.not_eq_true _ ▸ hf), List.foldl_nil]
  | cons f fs ih =>
    obtain ⟨hf, hrest⟩ := List.forall_mem_cons.1 hfs
    rw [List.cons_append, settle, if_pos hf, ih hrest, List.foldl_cons]

end Frame

/-- The frames `fs` wait around `u` and make up the term `t` with it, which is of the
    given level. They yield to every operator that may follow such a term and to what ends
    it, and around a term of the tightest level there are none. -/
structure Pending (n : Nat) (fs : List Frame) (u t : Term) : Prop where
  fill : fs.foldl Frame.fill u = t
  yields : ∀ f ∈ fs, ∀ op : BinOp, op.leftLevel < n → f.yields (op.level + 1) = true
  ends : ∀ f ∈ fs, f.yields 0 = true
  tight : n = 7 → fs = []

namespace Pending

variable {n : Nat} {fs stack : List Frame} {u t : Term}

theorem self (t : Term) : Pending n [] t t :=
  ⟨rfl, List.forall_mem_nil _, List.forall_mem_nil _, fun _ => rfl⟩

/-- Before an operator, the pending frames make up the term. -/
theorem settle_op (h : Pending n fs u t) {op : BinOp} (hop : op.leftLevel < n)
    (hstack : Frame.Admits (op.level + 1) stack) :
    Frame.settle (op.level + 1) (fs ++ stack) u = (stack, t) := by
  rw [Frame.settle_append (fun f hf => h.yields f hf op hop) hstack, h.fill]

/-- Before what ends a term, the pending frames make up the term. -/
theorem settle_zero (h : Pending n fs u t) (hstack : Frame.Admits 0 stack) :
    Frame.settle 0 (fs ++ stack) u = (stack, t) := by
  rw [Frame.settle_append h.ends hstack, h.fill]

/-- One more frame around the term, which has the term for its last operand. -/
theorem concat (h : Pending n fs u t) {m : Nat} {f : Frame} (hle : m ≤ n)
    (hf : ∀ op : BinOp, op.leftLevel < m → f.yields (op.level + 1) = true)
    (hend : f.yields 0 = true) (hm : m ≠ 7) : Pending m (fs ++ [f]) u (f.fill t) := by
  refine ⟨?_, ?_, ?_, fun htight => absurd htight hm⟩
  · rw [List.foldl_append, h.fill]
    rfl
  · intro g hg op hop
    rcases List.mem_append.1 hg with hfs | hlast
    · exact h.yields g hfs op (Nat.lt_of_lt_of_le hop hle)
    · rw [List.mem_singleton.1 hlast]
      exact hf op hop
  · intro g hg
    rcases List.mem_append.1 hg with hfs | hlast
    · exact h.ends g hfs
    · rw [List.mem_singleton.1 hlast]
      exact hend

end Pending

namespace Reader

/-- Marks are read one after the other. -/
theorem steps_append (r : Reader) (ks ks' : List Mark) :
    r.steps (ks ++ ks') = (r.steps ks).bind (·.steps ks') :=
  List.foldlM_append

theorem steps_cons (r : Reader) (k : Mark) (ks : List Mark) :
    r.steps (k :: ks) = (r.step k).bind (·.steps ks) :=
  List.foldlM_cons

theorem steps_singleton (r : Reader) (k : Mark) : r.steps [k] = r.step k := by
  rw [steps_cons]
  cases r.step k <;> rfl

variable {n : Nat} {fs stack : List Frame} {u t : Term}

/-- An operator takes the term before it as its left operand. -/
theorem step_op (h : Pending n fs u t) {op : BinOp} (hop : op.leftLevel < n)
    (hstack : Frame.Admits (op.level + 1) stack) :
    (Reader.mk (fs ++ stack) (.have_ u)).step (.op op) = some ⟨.left t op :: stack, .want⟩ := by
  have hsettle := h.settle_op hop hstack
  simp only [step, stepHave, hsettle]

/-- A unary operator waits for its operand. -/
theorem step_unary (op : Unary) :
    (Reader.mk stack .want).step op.mark = some ⟨.unary op :: stack, .want⟩ := by
  cases op <;> rfl

/-- Marks that end a term settle it first, so they are read as after the whole term. -/
theorem step_of_ends (h : Pending n fs u t) (hstack : Frame.Admits 0 stack) {k : Mark}
    (hk : k.ends = true) :
    (Reader.mk (fs ++ stack) (.have_ u)).step k = (Reader.mk stack (.have_ t)).step k := by
  have hself : Pending 0 [] t t := .self t
  have hsettle : Frame.settle 0 (fs ++ stack) u = Frame.settle 0 stack t :=
    (h.settle_zero hstack).trans (hself.settle_zero hstack).symm
  cases k with
  | comma | closeParen | closeSquare | closeBrace | semicolon =>
    simp only [step, stepHave, hsettle]
  | _ => cases hk

/-- A comma ends an item. -/
theorem step_comma (h : Pending n fs u t) (opener : Opener) (done : List Term) :
    (Reader.mk (fs ++ Frame.items opener done :: stack) (.have_ u)).step .comma =
      some ⟨.items opener (done ++ [t]) :: stack, .want⟩ :=
  step_of_ends h (Frame.admits_cons (f := .items opener done) rfl stack) rfl

/-- A parenthesis ends the last item. -/
theorem step_closeParen (h : Pending n fs u t) (opener : Opener) (done : List Term) :
    (Reader.mk (fs ++ Frame.items opener done :: stack) (.have_ u)).step .closeParen =
      closeParen stack opener (done ++ [t]) :=
  step_of_ends h (Frame.admits_cons (f := .items opener done) rfl stack) rfl

/-- A square bracket ends the last element of an array. -/
theorem step_closeSquare (h : Pending n fs u t) (done : List Term) :
    (Reader.mk (fs ++ Frame.items .square done :: stack) (.have_ u)).step .closeSquare =
      some ⟨stack, .have_ (.array (done ++ [t]))⟩ :=
  step_of_ends h (Frame.admits_cons (f := .items .square done) rfl stack) rfl

/-- A brace ends the field of a record. -/
theorem step_closeBrace (h : Pending n fs u t) (x : String) :
    (Reader.mk (fs ++ Frame.field x :: stack) (.have_ u)).step .closeBrace =
      some ⟨stack, .have_ (.record x t)⟩ :=
  step_of_ends h (Frame.admits_cons (f := .field x) rfl stack) rfl

/-- A parenthesis ends a condition. -/
theorem step_closeCondition (h : Pending n fs u t) :
    (Reader.mk (fs ++ Frame.condition :: stack) (.have_ u)).step .closeParen =
      some ⟨.test t :: stack, .want⟩ :=
  step_of_ends h (Frame.admits_cons (f := .condition) rfl stack) rfl

/-- A semicolon ends a declaration. -/
theorem step_semicolon_declare (h : Pending n fs u t) (x : String) (params : List String)
    (done : List Command) :
    (Reader.mk (fs ++ Frame.declare x :: .block params done :: stack) (.have_ u)).step .semicolon =
      some ⟨.block params (done ++ [Command.declare x t]) :: stack, .command⟩ :=
  step_of_ends h (Frame.admits_cons (f := .declare x) rfl (.block params done :: stack)) rfl

/-- A semicolon ends a test. -/
theorem step_semicolon_test (h : Pending n fs u t) (condition : Term) (params : List String)
    (done : List Command) :
    (Reader.mk (fs ++ Frame.test condition :: .block params done :: stack) (.have_ u)).step
        .semicolon =
      some ⟨.block params (done ++ [Command.test condition t]) :: stack, .command⟩ :=
  step_of_ends h (Frame.admits_cons (f := .test condition) rfl (.block params done :: stack)) rfl

/-- A semicolon ends a command. -/
theorem step_semicolon_eval (h : Pending n fs u t) (params : List String) (done : List Command) :
    (Reader.mk (fs ++ Frame.block params done :: stack) (.have_ u)).step .semicolon =
      some ⟨.block params (done ++ [Command.eval t]) :: stack, .command⟩ :=
  step_of_ends h (Frame.admits_cons (f := .block params done) rfl stack) rfl

/-- A term begins with none of the marks that mean something else where a statement or
    the body of a function is to follow. -/
theorem exists_marks_eq : ∀ t : Term, ∃ k ks, t.marks = k :: ks ∧
    (k = .openBrace → t.opensBrace = true) ∧ k ≠ .const ∧ k ≠ .if_ ∧ k ≠ .closeBrace
  | .name _ | .number _ | .quoted _ | .group _ | .array _ | .arrow _ _ | .function _ _ =>
    ⟨_, _, rfl, nofun, nofun, nofun, nofun⟩
  | .record _ _ => ⟨_, _, rfl, fun _ => rfl, nofun, nofun, nofun⟩
  | .unary op operand => by
    cases op with
    | plus | minus | typeOf => exact ⟨_, _, rfl, nofun, nofun, nofun, nofun⟩
  | .member object field => by
    obtain ⟨k, ks, hmarks, hk⟩ := exists_marks_eq object
    exact ⟨k, ks ++ [Mark.dot, .name field], by rw [marks, hmarks, List.cons_append], hk⟩
  | .call callee args => by
    obtain ⟨k, ks, hmarks, hk⟩ := exists_marks_eq callee
    exact ⟨k, ks ++ (Mark.openParen :: (marksAll args ++ [Mark.closeParen])),
      by rw [marks, hmarks, List.cons_append], hk⟩
  | .binary op left right => by
    obtain ⟨k, ks, hmarks, hk⟩ := exists_marks_eq left
    exact ⟨k, ks ++ Mark.op op :: right.marks, by rw [marks, hmarks, List.cons_append], hk⟩

/-- A body that does not open a brace is read as a term. -/
theorem steps_body (params : List String) (ht : t.opensBrace = false) :
    (Reader.mk stack (.body params)).steps t.marks =
      (Reader.mk (.arrow params :: stack) .want).steps t.marks := by
  obtain ⟨k, ks, hmarks, hbrace, -, -, -⟩ := exists_marks_eq t
  have hstep : (Reader.mk stack (.body params)).step k =
      (Reader.mk (.arrow params :: stack) .want).step k := by
    cases k with
    | openBrace => exact absurd (hbrace rfl) (by rw [ht]; decide)
    | _ => rfl
  rw [hmarks, steps_cons, steps_cons, hstep]

/-- A term that is a command is read as a term. -/
theorem steps_eval : (Reader.mk stack .command).steps t.marks =
    (Reader.mk stack .want).steps t.marks := by
  obtain ⟨k, ks, hmarks, -, hconst, hif, hbrace⟩ := exists_marks_eq t
  have hstep : (Reader.mk stack .command).step k = (Reader.mk stack .want).step k := by
    cases k with
    | const => exact absurd rfl hconst
    | if_ => exact absurd rfl hif
    | closeBrace => exact absurd rfl hbrace
    | _ => rfl
  rw [hmarks, steps_cons, steps_cons, hstep]

/-- The parameters of a function are read as terms in parentheses. -/
theorem steps_paramMarks : ∀ (x : String) (xs : List String) (done : List Term),
    ∃ (before : List String) (last : String), x :: xs = before ++ [last] ∧
      (Reader.mk (.items .paren done :: stack) .want).steps (paramMarks (x :: xs)) =
        some ⟨.items .paren (done ++ before.map Term.name) :: stack, .have_ (.name last)⟩
  | x, [], done => ⟨[], x, rfl, by simp [paramMarks, steps_singleton, step, stepWant]⟩
  | x, y :: ys, done => by
    obtain ⟨before, last, heq, hsteps⟩ := steps_paramMarks y ys (done ++ [Term.name x])
    refine ⟨x :: before, last, by rw [heq, List.cons_append], ?_⟩
    have hname : (Reader.mk (.items .paren done :: stack) .want).step (.name x) =
        some ⟨[] ++ Frame.items .paren done :: stack, .have_ (.name x)⟩ := rfl
    have hself : Pending 7 [] (.name x) (.name x) := .self _
    rw [paramMarks, steps_cons, hname, Option.bind_some, steps_cons, step_comma hself,
      Option.bind_some, hsteps, List.map_cons, List.append_assoc]
    · rfl
    · exact nofun

/-- Names that are parameters are taken for parameters. -/
theorem mapM_param?_map_name (params : List String) :
    (params.map Term.name).mapM param? = some params := by
  induction params with
  | nil => rfl
  | cons x xs ih =>
    rw [List.map_cons, List.mapM_cons, ih]
    rfl

/-- What stands before the body of a function is read as its parameters. -/
theorem steps_params (params : List String) (ks : List Mark) :
    (Reader.mk stack .want).steps
        (.openParen :: (paramMarks params ++ (Mark.closeParen :: .arrow :: ks))) =
      (Reader.mk stack (.body params)).steps ks := by
  have hopen : (Reader.mk stack .want).step .openParen =
      some ⟨.items .paren [] :: stack, .want⟩ := rfl
  rw [steps_cons, hopen, Option.bind_some, steps_append]
  cases params with
  | nil => rfl
  | cons x xs =>
    obtain ⟨before, last, heq, hsteps⟩ := steps_paramMarks x xs []
    have hself : Pending 7 [] (.name last) (.name last) := .self _
    have hclose : (Reader.mk (.items .paren ([] ++ before.map Term.name) :: stack)
        (.have_ (.name last))).step .closeParen =
          closeParen stack .paren (before.map Term.name ++ [Term.name last]) :=
      step_closeParen hself .paren (before.map Term.name)
    rw [hsteps, Option.bind_some, steps_cons, hclose, heq]
    cases before with
    | nil => rfl
    | cons y ys =>
      have hparams := mapM_param?_map_name (y :: ys ++ [last])
      rw [List.map_append, List.map_singleton] at hparams
      have hlist : closeParen stack .paren ((y :: ys).map Term.name ++ [Term.name last]) =
          some ⟨stack, .params ((y :: ys).map Term.name ++ [Term.name last])⟩ := by
        cases ys <;> rfl
      have harrow : (Reader.mk stack
          (.params ((y :: ys).map Term.name ++ [Term.name last]))).step .arrow =
          some ⟨stack, .body (y :: ys ++ [last])⟩ := by
        simp only [step, hparams, Option.map_some]
      rw [hlist, Option.bind_some, steps_cons, harrow, Option.bind_some]

mutual

/-- Reading a term leaves what waits along its right edge on the stack. -/
theorem steps_marks : ∀ (t : Term) {stack : List Frame}, t.Grouped →
    Frame.Admits (max 1 t.level) stack → ∃ fs u, Pending t.level fs u t ∧
      (Reader.mk stack .want).steps t.marks = some ⟨fs ++ stack, .have_ u⟩
  | .name _, _, _, _ => ⟨[], _, .self _, rfl⟩
  | .number _, _, _, _ => ⟨[], _, .self _, rfl⟩
  | .quoted _, _, _, _ => ⟨[], _, .self _, rfl⟩
  | .group inner, stack, h, _ => by
    obtain ⟨fs, u, hpending, hsteps⟩ :=
      steps_marks inner h (Frame.admits_cons (f := .items .paren []) rfl stack)
    refine ⟨[], _, .self _, ?_⟩
    rw [marks, steps_cons]
    change (Reader.mk (.items .paren [] :: stack) .want).steps _ = _
    rw [steps_append, hsteps, Option.bind_some, steps_singleton, step_closeParen hpending]
    rfl
  | .array [], _, _, _ => ⟨[], _, .self _, rfl⟩
  | .array (t :: ts), stack, h, _ => by
    obtain ⟨fs, u, before, last, heq, hpending, hsteps⟩ :=
      steps_marksAll (t :: ts) .square [] nofun h
    refine ⟨[], _, .self _, ?_⟩
    rw [marks, steps_cons]
    change (Reader.mk (.items .square [] :: stack) .want).steps _ = _
    rw [steps_append, hsteps, Option.bind_some, steps_singleton, step_closeSquare hpending, heq]
    rfl
  | .record field value, stack, h, _ => by
    obtain ⟨fs, u, hpending, hsteps⟩ :=
      steps_marks value h (Frame.admits_cons (f := .field field) rfl stack)
    refine ⟨[], _, .self _, ?_⟩
    change (Reader.mk (.field field :: stack) .want).steps (value.marks ++ [Mark.closeBrace]) = _
    rw [steps_append, hsteps, Option.bind_some, steps_singleton, step_closeBrace hpending]
    rfl
  | .member object field, stack, ⟨hlevel, h⟩, hstack => by
    obtain ⟨fs, u, hpending, hsteps⟩ := steps_marks object h (by rw [hlevel]; exact hstack)
    -- Nothing waits in what has a member, since it is of the tightest level.
    obtain rfl := hpending.tight hlevel
    obtain rfl := hpending.fill
    refine ⟨[], _, .self _, ?_⟩
    rw [marks, steps_append, hsteps]
    rfl
  | .call callee [], stack, ⟨hlevel, h, _⟩, hstack => by
    obtain ⟨fs, u, hpending, hsteps⟩ := steps_marks callee h (by rw [hlevel]; exact hstack)
    obtain rfl := hpending.tight hlevel
    obtain rfl := hpending.fill
    refine ⟨[], _, .self _, ?_⟩
    rw [marks, steps_append, hsteps]
    rfl
  | .call callee (t :: ts), stack, ⟨hlevel, h, hargs⟩, hstack => by
    obtain ⟨fs, u, hpending, hsteps⟩ := steps_marks callee h (by rw [hlevel]; exact hstack)
    obtain rfl := hpending.tight hlevel
    obtain rfl := hpending.fill
    obtain ⟨gs, v, before, last, heq, hpending', hsteps'⟩ :=
      steps_marksAll (t :: ts) (.callee u) [] nofun hargs
    refine ⟨[], _, .self _, ?_⟩
    rw [marks, steps_append, hsteps, Option.bind_some, steps_cons]
    change (Reader.mk (.items (.callee u) [] :: stack) .want).steps _ = _
    rw [steps_append, hsteps', Option.bind_some, steps_singleton, step_closeParen hpending', heq]
    rfl
  | .unary op operand, stack, ⟨hlevel, h⟩, _ => by
    have hwaits : (Frame.unary op).yields (max 1 operand.level) = false :=
      decide_eq_false (by omega)
    obtain ⟨fs, u, hpending, hsteps⟩ := steps_marks operand h (Frame.admits_cons hwaits stack)
    refine ⟨fs ++ [Frame.unary op], u, hpending.concat hlevel (fun op' _ => ?_) rfl nofun, ?_⟩
    · exact decide_eq_true (Nat.succ_lt_succ op'.level_lt_sign)
    · rw [marks, steps_cons, step_unary, Option.bind_some, hsteps, List.append_assoc]
      rfl
  | .binary op left right, stack, ⟨hl, hr, hleft, hright⟩, hstack => by
    have hlevels := op.level_le_leftLevel
    have hlevels' := op.level_le_rightLevel
    have hlevel : op.level ≤ 4 := op.level_le
    have hstack : Frame.Admits (op.level + 1) stack :=
      hstack.mono (Nat.max_le.2 ⟨by omega, Nat.le_refl _⟩)
    obtain ⟨fs, u, hpending, hsteps⟩ := steps_marks left hleft (hstack.mono (by omega))
    have hwaits : (Frame.left left op).yields (max 1 right.level) = false :=
      decide_eq_false (by omega)
    obtain ⟨gs, v, hpending', hsteps'⟩ := steps_marks right hright (Frame.admits_cons hwaits stack)
    -- An operator that takes this one as its left operand settles it.
    have hyields (op' : BinOp) (hop : op'.leftLevel < op.level + 1) :
        (Frame.left left op).yields (op'.level + 1) = true :=
      decide_eq_true (BinOp.level_lt_rightLevel (Nat.le_of_lt_succ hop))
    have hwhole : Pending (op.level + 1) (gs ++ [Frame.left left op]) v (.binary op left right) :=
      hpending'.concat (by omega) hyields (decide_eq_true (Nat.zero_le op.rightLevel)) (by omega)
    refine ⟨_, _, hwhole, ?_⟩
    rw [marks, steps_append, hsteps, Option.bind_some, steps_cons, step_op hpending hl hstack,
      Option.bind_some, hsteps', List.append_assoc]
    rfl
  | .arrow params body, stack, ⟨_, hbrace, h⟩, hstack => by
    have hwaits : (Frame.arrow params).yields (max 1 body.level) = false :=
      decide_eq_false (by omega)
    obtain ⟨fs, u, hpending, hsteps⟩ := steps_marks body h (Frame.admits_cons hwaits stack)
    refine ⟨fs ++ [Frame.arrow params], u,
      hpending.concat (Nat.zero_le _) (fun op hop => absurd hop (Nat.not_lt_zero _)) rfl nofun, ?_⟩
    rw [marks, steps_params, steps_body params hbrace, hsteps, List.append_assoc]
    rfl
  | .function params body, stack, ⟨_, h⟩, _ => by
    refine ⟨[], _, .self _, ?_⟩
    rw [marks, steps_params, steps_cons]
    change (Reader.mk (.block params [] :: stack) .command).steps _ = _
    rw [steps_append, steps_marksBlock body params [] h, Option.bind_some]
    rfl

/-- Reading terms leaves them with the bracket that opens them, up to the last one. -/
theorem steps_marksAll : ∀ (ts : List Term) {stack : List Frame} (opener : Opener)
    (done : List Term), ts ≠ [] → GroupedAll ts →
      ∃ (fs : List Frame) (u : Term) (before : List Term) (last : Term),
        ts = before ++ [last] ∧ Pending last.level fs u last ∧
        (Reader.mk (.items opener done :: stack) .want).steps (marksAll ts) =
          some ⟨fs ++ Frame.items opener (done ++ before) :: stack, .have_ u⟩
  | [], _, _, _, hne, _ => absurd rfl hne
  | [t], stack, opener, done, _, h => by
    obtain ⟨fs, u, hpending, hsteps⟩ :=
      steps_marks t h.1 (Frame.admits_cons (f := .items opener done) rfl stack)
    exact ⟨fs, u, [], t, rfl, hpending, by rw [List.append_nil]; exact hsteps⟩
  | t :: t' :: ts, stack, opener, done, _, h => by
    obtain ⟨fs, u, hpending, hsteps⟩ :=
      steps_marks t h.1 (Frame.admits_cons (f := .items opener done) rfl stack)
    -- The comma settles the first term, so that only the last one is left waiting.
    obtain ⟨gs, v, before, last, heq, hpending', hsteps'⟩ :=
      steps_marksAll (t' :: ts) opener (done ++ [t]) nofun h.2
    refine ⟨gs, v, t :: before, last, by rw [heq, List.cons_append], hpending', ?_⟩
    change (Reader.mk (.items opener done :: stack) .want).steps
      (t.marks ++ Mark.comma :: marksAll (t' :: ts)) = _
    rw [steps_append, hsteps, Option.bind_some, steps_cons, step_comma hpending, Option.bind_some,
      hsteps', List.append_assoc]
    rfl

/-- Reading a statement leaves it with the block. -/
theorem steps_commandMarks : ∀ (c : Command) {stack : List Frame} (params : List String)
    (done : List Command), GroupedCommand c →
      (Reader.mk (.block params done :: stack) .command).steps (commandMarks c) =
        some ⟨.block params (done ++ [c]) :: stack, .command⟩
  | .declare x init, stack, params, done, h => by
    obtain ⟨fs, u, hpending, hsteps⟩ := steps_marks init h
      (Frame.admits_cons (f := .declare x) rfl (.block params done :: stack))
    change (Reader.mk (.declare x :: .block params done :: stack) .want).steps
      (init.marks ++ [Mark.semicolon]) = _
    rw [steps_append, hsteps, Option.bind_some, steps_singleton, step_semicolon_declare hpending]
  | .test condition body, stack, params, done, ⟨hcondition, _, h⟩ => by
    obtain ⟨fs, u, hpending, hsteps⟩ := steps_marks condition hcondition
      (Frame.admits_cons (f := .condition) rfl (.block params done :: stack))
    obtain ⟨gs, v, hpending', hsteps'⟩ := steps_marks body h
      (Frame.admits_cons (f := .test condition) rfl (.block params done :: stack))
    change (Reader.mk (.condition :: .block params done :: stack) .want).steps
      (condition.marks ++ (Mark.closeParen :: (body.marks ++ [Mark.semicolon]))) = _
    rw [steps_append, hsteps, Option.bind_some, steps_cons, step_closeCondition hpending,
      Option.bind_some, steps_append, hsteps', Option.bind_some, steps_singleton,
      step_semicolon_test hpending']
  | .eval e, stack, params, done, ⟨_, h⟩ => by
    obtain ⟨fs, u, hpending, hsteps⟩ := steps_marks e h
      (Frame.admits_cons (f := .block params done) rfl stack)
    rw [commandMarks, steps_append, steps_eval, hsteps, Option.bind_some, steps_singleton,
      step_semicolon_eval hpending]

/-- Reading the statements of a block leaves them with the block. -/
theorem steps_marksBlock : ∀ (cs : List Command) {stack : List Frame} (params : List String)
    (done : List Command), GroupedBlock cs →
      (Reader.mk (.block params done :: stack) .command).steps (marksBlock cs) =
        some ⟨.block params (done ++ cs) :: stack, .command⟩
  | [], _, _, done, _ => by
    rw [List.append_nil]
    rfl
  | c :: cs, stack, params, done, h => by
    rw [marksBlock, steps_append, steps_commandMarks c params done h.1, Option.bind_some,
      steps_marksBlock cs params (done ++ [c]) h.2, List.append_assoc]
    rfl

end

end Reader

/-- The reader finds a term in its marks. -/
theorem read_marks {t : Term} (h : t.Grouped) : read t.marks = some t := by
  have hadmits : Frame.Admits (max 1 t.level) [] := nofun
  obtain ⟨fs, u, hpending, hsteps⟩ := Reader.steps_marks t h hadmits
  rw [read, hsteps, Option.bind_some]
  have hnil : Frame.Admits 0 [] := nofun
  have hsettle := hpending.settle_zero hnil
  simp only [hsettle]

/-- There is only one way to read marks. -/
theorem eq_of_marks_eq {t t' : Term} (h : t.Grouped) (h' : t'.Grouped)
    (heq : t.marks = t'.marks) : t = t' := by
  have hread := read_marks h
  rw [heq, read_marks h'] at hread
  exact (Option.some.inj hread).symm

end Term

end Script

end Toal
