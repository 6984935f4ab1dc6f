import Toal.Proofs.Grouping
import Toal.Proofs.TermEval
import Toal.Proofs.TermText

/-!
# Templates

The operations of the language are spelled out in scripts by templates. Read as a script
reads it, an expression is a term in which the templates are members, calls and functions
(`Expr.term`), and the text of the expression is the text of this term (`Expr.text_eq`).

What a template does with its arguments is then a matter of evaluating this term
(`Term.Template.value_eq`). The names that a template binds are not among those of its
arguments, which are all longer (`Expr.two_le_length_of_mem_free`). All templates evaluate
each of their arguments once (`Term.Template.evaluates`), but that of a range: it evaluates
the start once more whenever an element is asked for.

Whether the text of a template is read as the template depends on the arguments too. They
have to be read as they should, and members may be taken only of what they can be taken of
(`Term.Template.legible_iff`).
-/

namespace Toal.Script

open Number (isDigits)

/-! ## The terms of expressions -/

namespace Term

/-- How a number without its sign is read. -/
def ofMagnitude (x : Float) : Term :=
  if x.isNaN then .name "NaN" else if x.isInf then .name "inf"
  else .number ((Number.magnitude x).text .plain)

/-- How a number is read. What is no number at all has no sign. -/
def ofNumber (x : Float) : Term :=
  if Number.isNegative x then
    .group (if x.isNaN then ofMagnitude x else .unary .minus (ofMagnitude x))
  else ofMagnitude x

/-- How a reference is read. -/
def ofRef : Ref → Term
  | .name n => .name n.text
  | .pi => .member (.name "Math") "PI"
  | .infinity => .name "Infinity"
  | .truth value => .name (toString value)

/-- The function that removes the first occurrence of an element from a list. -/
def remover : Term :=
  .function ["l", "e"]
    [.declare "i" (.call (.member (.name "l") "indexOf") [.name "e"]),
      .test (.binary (.compare .ne) (.name "i") (.unary .minus (.number "1")))
        (.call (.member (.name "l") "splice") [.name "i", .number "1"])]

/-- The numbers from `start` up to `stop`. -/
def range (start stop : Term) : Term :=
  .call (.member (.name "Array") "from")
    [.record "length" (.binary (.arith .sub) stop start),
      .arrow ["_", "i"] (.binary (.arith .add) start (.name "i"))]

/-- How the call of an automation of the language is read, given its arguments. -/
def template? (name : String) (args : List Term) : Option Term :=
  match name, args with
  | "append", [element, list] => some (.call (.member list "push") [element])
  | "remove", [element, list] => some (.call (.group remover) [list, element])
  | "length", [value] => some (.member value "length")
  | "range", [start, stop] => some (range start stop)
  | "type", [value] => some (.unary .typeOf value)
  | _, _ => none

/-- The templates, each with its name and its arguments. -/
inductive Template : String → List Term → Term → Prop
  | append (element list) :
      Template "append" [element, list] (.call (.member list "push") [element])
  | remove (element list) :
      Template "remove" [element, list] (.call (.group remover) [list, element])
  | length (value) : Template "length" [value] (.member value "length")
  | range (start stop) : Template "range" [start, stop] (range start stop)
  | type (value) : Template "type" [value] (.unary .typeOf value)

/-- What is filled in is a template. -/
theorem Template.of_eq_some {name : String} {args : List Term} {t : Term}
    (h : template? name args = some t) : Template name args t := by
  unfold template? at h
  split at h <;> cases h
  · exact .append _ _
  · exact .remove _ _
  · exact .length _
  · exact .range _ _
  · exact .type _

/-- An operator in the place of an operand is put in parentheses. -/
def operand : Term → Term
  | .binary op left right => .group (.binary op left right)
  | t => t

end Term

mutual

/-- How an expression is read. -/
def Expr.term : Expr → Term
  | .num value => .ofNumber value
  | .bool value => .name (toString value)
  | .word contents => .quoted (wordText contents)
  | .list elements => .array (terms elements)
  | .ref r => .ofRef r
  | .binary op left right => .binary op left.term right.term
  | .paren inner => .group inner.term
  | .call callee args => .call (.name callee.text) (terms args)
  | .push list element => .call (.member list.term "push") [element.term]
  | .removeFirst list element => .call (.group Term.remover) [list.term, element.term]
  | .length value => .member value.term "length"
  | .range start stop => .range start.term stop.term
  | .typeOf value => .unary .typeOf value.term

/-- How expressions are read. -/
def terms : List Expr → List Term
  | [] => []
  | e :: es => e.term :: terms es

end

theorem terms_eq_map (es : List Expr) : terms es = es.map Expr.term := by
  induction es with
  | nil => rfl
  | cons e es ih => rw [terms, ih, List.map_cons]

/-- What numbers are read as. -/
theorem Term.ofNumber_cases {P : Term → Prop} (x : Float) (hnan : P (.name "NaN"))
    (hinf : P (.name "inf")) (hfinite : P (.number ((Number.magnitude x).text .plain)))
    (hgroup : P (.group (.name "NaN"))) (hminus : P (.group (.unary .minus (.name "inf"))))
    (hnegative : P (.group (.unary .minus (.number ((Number.magnitude x).text .plain))))) :
    P (.ofNumber x) := by
  unfold ofNumber ofMagnitude
  cases Number.isNegative x with
  | true =>
    cases x.isNaN with
    | true => exact hgroup
    | false =>
      cases x.isInf with
      | true => exact hminus
      | false => exact hnegative
  | false =>
    cases x.isNaN with
    | true => exact hnan
    | false =>
      cases x.isInf with
      | true => exact hinf
      | false => exact hfinite

/-- Operands are told apart in the same way before and after reading. -/
theorem term_operand (e : Expr) : (operand e).term = e.term.operand := by
  cases e with
  | num value =>
    exact Term.ofNumber_cases (P := fun t => t = t.operand) value rfl rfl rfl rfl rfl rfl
  | ref r => cases r <;> rfl
  | _ => rfl

/-- The templates are read as templates. -/
theorem term_template? {name : String} {args : List Expr} {e : Expr}
    (h : template? name args = some e) :
    Term.template? name (args.map Expr.term) = some e.term := by
  unfold template? at h
  split at h <;> cases h <;> rfl

/-! ## The text of expressions -/

/-- The text of the term of a magnitude is that of the number. -/
theorem text_ofMagnitude (x : Float) : (Term.ofMagnitude x).text = Number.unsignedText x := by
  unfold Term.ofMagnitude Number.unsignedText
  cases x.isNaN with
  | true => rfl
  | false =>
    cases x.isInf with
    | true => rfl
    | false => rfl

/-- The text of the term of a number is that of the number. -/
theorem numText_eq_text (x : Float) : numText x = (Term.ofNumber x).text := by
  have hmagnitude := text_ofMagnitude x
  rw [numText_eq]
  unfold Tree.ofNumber Term.ofNumber
  cases Number.isNegative x with
  | false => exact hmagnitude.symm
  | true =>
    cases x.isNaN with
    | true => exact congrArg (fun s => "(" ++ s ++ ")") hmagnitude.symm
    | false => exact congrArg (fun s => "(" ++ ("-" ++ s) ++ ")") hmagnitude.symm

/-- The text of the function that removes an element. -/
theorem text_remover : Term.remover.text =
    "(l, e) => \x7b const i = l.indexOf(e); if (i !== -1) l.splice(i, 1); \x7d" := by
  decide +kernel

/-- The text of a range. -/
theorem text_range (start stop : Term) : (Term.range start stop).text =
    "Array.from(\x7b length: " ++ stop.text ++ " - " ++ start.text ++ " \x7d, (_, i) => " ++
      start.text ++ " + i)" := by
  rw [← String.toList_inj]
  simp [Term.range, Term.text, Term.textAll, Term.paramText, opText, arithText, ArithOp.symbol]

mutual

/-- The text of an expression is the text of the term it is read as. -/
theorem Expr.text_eq : ∀ e : Expr, e.text = e.term.text
  | .num value => numText_eq_text value
  | .bool _ => rfl
  | .word _ => rfl
  | .list elements => congrArg (fun s => "[" ++ s ++ "]") (textAll_eq elements)
  | .ref r => by cases r <;> rfl
  | .binary op left right =>
    congrArg₂ (fun l r => l ++ " " ++ opText op ++ " " ++ r) left.text_eq right.text_eq
  | .paren inner => congrArg (fun s => "(" ++ s ++ ")") inner.text_eq
  | .call callee args => congrArg (fun s => callee.text ++ "(" ++ s ++ ")") (textAll_eq args)
  -- In the templates, the two sides differ in how the same text is put together.
  | .push list element => by
    change list.text ++ ".push(" ++ element.text ++ ")" =
      list.term.text ++ "." ++ "push" ++ "(" ++ element.term.text ++ ")"
    rw [list.text_eq, element.text_eq]
    simp only [String.append_assoc]
    rfl
  | .removeFirst list element => by
    change "((l, e) => \x7b const i = l.indexOf(e); if (i !== -1) l.splice(i, 1); \x7d)(" ++
        list.text ++ ", " ++ element.text ++ ")" =
      "(" ++ Term.remover.text ++ ")" ++ "(" ++ (list.term.text ++ ", " ++ element.term.text) ++ ")"
    rw [list.text_eq, element.text_eq, text_remover, ← String.toList_inj]
    simp
  | .length value => by
    change value.text ++ ".length" = value.term.text ++ "." ++ "length"
    rw [value.text_eq, String.append_assoc]
    rfl
  | .range start stop => by
    rw [Expr.term, text_range, ← start.text_eq, ← stop.text_eq]
    rfl
  | .typeOf value => congrArg ("typeof " ++ ·) value.text_eq

/-- The texts of expressions are those of their terms. -/
theorem textAll_eq : ∀ es : List Expr, textAll es = Term.textAll (terms es)
  | [] => rfl
  | [e] => e.text_eq
  | e :: e' :: es => congrArg₂ (fun s t => s ++ ", " ++ t) e.text_eq (textAll_eq (e' :: es))

end

/-! ## Names in templates -/

/-- A generated name has at least two characters. -/
theorem Name.two_le_length_text (n : Name) : 2 ≤ n.text.length := by
  have hdigits := List.length_pos_iff.2 (Nat.toDigits_ne_nil (b := 10) (n := n.suffix))
  rw [← String.length_toList, n.toList_text, List.length_append, List.length_cons]
  omega

mutual

/-- The free names of expressions are longer than those that templates bind. -/
theorem Expr.two_le_length_of_mem_free : ∀ e : Expr, ∀ x ∈ e.term.free, 2 ≤ x.length
  | .num value => Term.ofNumber_cases (P := fun t => ∀ x ∈ t.free, 2 ≤ x.length) value
    (by decide) (by decide) (List.forall_mem_nil _) (by decide) (by decide) (List.forall_mem_nil _)
  | .bool value => by cases value <;> decide
  | .word _ => List.forall_mem_nil _
  | .list elements => two_le_length_of_mem_freeAll elements
  | .ref (.name n) => List.forall_mem_singleton.2 n.two_le_length_text
  | .ref .pi => by decide
  | .ref .infinity => by decide
  | .ref (.truth value) => by cases value <;> decide
  | .binary _ left right => List.forall_mem_append.2
    ⟨left.two_le_length_of_mem_free, right.two_le_length_of_mem_free⟩
  | .paren inner => inner.two_le_length_of_mem_free
  | .call callee args => List.forall_mem_cons.2
    ⟨callee.two_le_length_text, two_le_length_of_mem_freeAll args⟩
  | .push list element => List.forall_mem_append.2 ⟨list.two_le_length_of_mem_free,
    List.forall_mem_append.2 ⟨element.two_le_length_of_mem_free, List.forall_mem_nil _⟩⟩
  | .removeFirst list element => List.forall_mem_append.2 ⟨by decide,
    List.forall_mem_append.2 ⟨list.two_le_length_of_mem_free,
      List.forall_mem_append.2 ⟨element.two_le_length_of_mem_free, List.forall_mem_nil _⟩⟩⟩
  | .length value => value.two_le_length_of_mem_free
  | .range start stop => by
    have hstart := start.two_le_length_of_mem_free
    have hbody : ∀ x ∈ (start.term.free ++ ["i"]).filter (· ∉ ["_", "i"]), 2 ≤ x.length := by
      intro x hx
      obtain ⟨hmem, hbound⟩ := List.mem_filter.1 hx
      rcases List.mem_append.1 hmem with hmem | hmem
      · exact hstart x hmem
      · -- The index is bound by the template itself.
        rw [List.mem_singleton.1 hmem] at hbound
        exact absurd hbound (by decide)
    have hrecord := List.forall_mem_append.2 ⟨stop.two_le_length_of_mem_free, hstart⟩
    exact List.forall_mem_append.2 ⟨by decide, List.forall_mem_append.2
      ⟨hrecord, List.forall_mem_append.2 ⟨hbody, List.forall_mem_nil _⟩⟩⟩
  | .typeOf value => value.two_le_length_of_mem_free

/-- The free names of expressions have at least two characters. -/
theorem two_le_length_of_mem_freeAll : ∀ es : List Expr, ∀ x ∈ Term.freeAll (terms es), 2 ≤ x.length
  | [] => List.forall_mem_nil _
  | e :: es => List.forall_mem_append.2
    ⟨e.two_le_length_of_mem_free, two_le_length_of_mem_freeAll es⟩

end

/-! ## What templates do -/

namespace Engine

variable {m : Type → Type} [Monad m] {V : Type} (E : Engine m V)

/-- What is done to remove the first occurrence of an element from a list. -/
def removeFirst (list element : V) : m V := do
  let indexOf ← E.member list "indexOf"
  let i ← E.call indexOf (some list) [.value element]
  let one ← E.number "1"
  let missing ← E.unary .minus one
  let found ← E.binary (.compare .ne) i missing
  if E.truth found then
    let splice ← E.member list "splice"
    let one ← E.number "1"
    let _ ← E.call splice (some list) [.value i, .value one]
  return E.undefined

/-- What is done to get the numbers from a start up to a stop. -/
def range (start stop : m V) : m V := do
  let array ← E.name "Array"
  let from_ ← E.member array "from"
  let last ← stop
  let first ← start
  let size ← E.binary (.arith .sub) last first
  let record ← E.record "length" size
  let element (vs : List V) : m V := do
    let first ← start
    E.binary (.arith .add) first (vs.getD 1 E.undefined)
  E.call from_ (some array) [.value record, .function element]

/-- What is done in a call of an automation of the language, given what is done to evaluate
    its arguments. -/
def perform (name : String) (args : List (m V)) : m V :=
  match name, args with
  | "append", [element, list] => do
    let l ← list
    let push ← E.member l "push"
    let e ← element
    E.call push (some l) [.value e]
  | "remove", [element, list] => do
    let l ← list
    let e ← element
    E.removeFirst l e
  | "length", [value] => do
    let v ← value
    E.member v "length"
  | "range", [start, stop] => E.range start stop
  | "type", [value] => do
    let v ← value
    E.unary .typeOf v
  | _, _ => return E.undefined

/-- The arguments are evaluated in the given order, and what is done besides depends on their
    values only. -/
inductive Evaluates {n : Nat} : List (Fin n) → ((Fin n → m V) → m V) → Prop
  | done (x : m V) : Evaluates [] fun _ => x
  | step {α : Type} (x : m α) {order} {k : α → (Fin n → m V) → m V} :
      (∀ a, Evaluates order (k a)) → Evaluates order fun args => x >>= fun a => k a args
  | arg (i : Fin n) {order} {k : V → (Fin n → m V) → m V} :
      (∀ v, Evaluates order (k v)) → Evaluates (i :: order) fun args => args i >>= fun v => k v args

end Engine

namespace Term

variable {m : Type → Type} [Monad m] {V : Type} (E : Engine m V)

theorem isFunction_operand (t : Term) : t.operand.isFunction = t.isFunction := by
  cases t <;> rfl

/-- Putting an operand in parentheses does not change its value. -/
theorem value_operand (env : List (String × V)) (t : Term) :
    t.operand.value E env = t.value E env := by
  cases t <;> rfl

variable [LawfulMonad m] {element list start : Term}

/-- The template for `remove` removes the first element that is the same. -/
theorem value_remove (hlist : list.isFunction = false) (helement : element.isFunction = false) :
    (call (group remover) [list, element]).value E [] = (do
      let l ← list.value E []
      let e ← element.value E []
      E.removeFirst l e) := by
  simp [remover, hlist, helement, Engine.get, Engine.bind, Engine.removeFirst, List.lookup_cons]

/-- The names that are free in the start of a range are not those that the template binds. -/
theorem value_range (hfree : ∀ x ∈ start.free, 2 ≤ x.length) (stop : Term) :
    (range start stop).value E [] = E.range (start.value E []) (stop.value E []) := by
  have hstart (vs : List V) : start.value E (E.bind ["_", "i"] vs) = start.value E [] := by
    refine congrArg (· >>= E.get) (eval_congr E start fun x hx => ?_)
    rw [List.lookup_nil, lookup_bind_eq_none_iff]
    intro hbound
    have hle := hfree x hx
    rcases List.mem_pair.1 hbound with rfl | rfl
    · exact absurd hle (by decide)
    · exact absurd hle (by decide)
  have hindex (vs : List V) :
      ((E.bind ["_", "i"] vs).lookup "i").elim (E.name "i") pure =
        (pure (vs[1]?.getD E.undefined) : m V) := by
    match vs with
    | [] | [_] | _ :: _ :: _ => rfl
  simp [range, Engine.range, hstart, hindex]

variable {name : String} {args : List Term} {t : Term}

/-- What is done in a call of an automation of the language. No argument is a function, and
    the names that are free in them are not those that templates bind. -/
theorem Template.value_eq (h : Template name args t)
    (hargs : ∀ a ∈ args, a.isFunction = false ∧ ∀ x ∈ a.free, 2 ≤ x.length) :
    t.value E [] = E.perform name (args.map (·.value E [])) := by
  cases h with
  | append element list =>
    have helement := (hargs element List.mem_cons_self).1
    simp [Engine.perform, helement]
  | remove element list =>
    have helement := (hargs element List.mem_cons_self).1
    have hlist := (hargs list (List.mem_cons_of_mem _ List.mem_cons_self)).1
    exact value_remove E hlist helement
  | length value => exact value_member E [] value "length"
  | range start stop => exact value_range E (hargs start List.mem_cons_self).2 stop
  | type value => exact value_unary E [] .typeOf value

omit [LawfulMonad m] in
/-- But for ranges, each argument is evaluated once, the last one first. -/
theorem Template.evaluates {n : Nat} (h : Template name args t) (hn : args.length = n)
    (hname : name ≠ "range") : Engine.Evaluates (List.finRange n).reverse
      fun xs => E.perform name (List.ofFn xs) := by
  subst hn
  cases h with
  | append => exact .arg 1 fun l => .step (E.member l "push") fun push => .arg 0 fun e => .done _
  | remove => exact .arg 1 fun l => .arg 0 fun e => .done (E.removeFirst l e)
  | length => exact .arg 0 fun v => .done (E.member v "length")
  | range => exact absurd rfl hname
  | type => exact .arg 0 fun v => .done (E.unary .typeOf v)

end Term

/-- No expression is a function. -/
theorem Expr.isFunction_term : ∀ e : Expr, e.term.isFunction = false
  | .num value => Term.ofNumber_cases (P := fun t => t.isFunction = false) value
    rfl rfl rfl rfl rfl rfl
  | .ref r => by cases r <;> rfl
  | .paren inner => inner.isFunction_term
  | .bool _ | .word _ | .list _ | .binary _ _ _ | .call _ _ | .push _ _ | .removeFirst _ _
  | .length _ | .range _ _ | .typeOf _ => rfl

/-! ## How templates are read -/

namespace Term

/-- The text of the term has marks, and its parts have the levels that are asked for. -/
def Legible (t : Term) : Prop := t.clear = true ∧ t.Grouped

/-- A member may be taken of the term. -/
def TakesPoint (t : Term) : Prop := t.level = 7 ∧ t.endsWhole = false

/-- The arguments that a template takes members of. -/
def objects (name : String) (args : List Term) : List Term :=
  match name, args with
  | "append", [_, list] => [list]
  | "length", [value] => [value]
  | _, _ => []

/-- An operation is legible if its operands are, where they bind tightly enough. -/
theorem legible_binary {op : BinOp} {left right : Term} (hleft : op.leftLevel < left.level)
    (hright : op.rightLevel < right.level) :
    (binary op left right).Legible ↔ left.Legible ∧ right.Legible := by
  simp only [Legible, clear, Grouped, Bool.and_eq_true]
  tauto

theorem legibleAll_iff {ts : List Term} :
    clearAll ts = true ∧ GroupedAll ts ↔ ∀ t ∈ ts, t.Legible := by
  induction ts with
  | nil => simp [clearAll, GroupedAll]
  | cons t ts ih =>
    rw [List.forall_mem_cons, ← ih, clearAll, GroupedAll, Bool.and_eq_true, Legible]
    tauto

theorem legible_array (elements : List Term) :
    (array elements).Legible ↔ ∀ e ∈ elements, e.Legible :=
  legibleAll_iff

/-- A call is legible if the callee and the arguments are. -/
theorem legible_call {callee : Term} (hcallee : callee.level = 7) (args : List Term) :
    (call callee args).Legible ↔ callee.Legible ∧ ∀ a ∈ args, a.Legible := by
  rw [← legibleAll_iff]
  simp only [Legible, clear, Grouped, Bool.and_eq_true]
  tauto

/-- A member is legible if it may be taken of its object. -/
theorem legible_member (object : Term) (field : String) :
    (member object field).Legible ↔ object.Legible ∧ object.TakesPoint := by
  simp only [Legible, TakesPoint, clear, Grouped, Bool.and_eq_true, Bool.not_eq_true']
  tauto

theorem legible_unary {op : Unary} {operand : Term} (h : 6 ≤ operand.level) :
    (unary op operand).Legible ↔ operand.Legible := by
  simp only [Legible, clear, Grouped]
  tauto

/-- A function is legible if its body is, where the parameters are different. -/
theorem legible_arrow {params : List String} {body : Term} (hparams : params.Nodup)
    (hbody : body.opensBrace = false) : (arrow params body).Legible ↔ body.Legible := by
  simp only [Legible, clear, Grouped]
  tauto

/-- A name is read as it should be just if it is a name of scripts. -/
theorem legible_name {x : String} : (name x).Legible ↔ IsIdentifier x := by
  rw [Legible, clear, decide_eq_true_iff]
  exact and_iff_left trivial

/-- A quoted word is legible if it can be read back. -/
theorem legible_quoted {x : String} :
    (quoted x).Legible ↔ (Literal.units? x.toList).isSome = true :=
  and_iff_left trivial

/-- What a constant is read as. -/
theorem legible_of_constant? {v : Variable} {r : Ref} (h : constant? v = some r) :
    (ofRef r).Legible := by
  have hmath : (name "Math").Legible := legible_name.2 (by decide)
  unfold constant? at h
  split at h
  · split at h <;> cases h
    · exact (legible_member _ _).2 ⟨hmath, rfl, rfl⟩
    all_goals exact legible_name.2 (by decide)
  · cases h

/-- The term of a number is legible. -/
theorem legible_ofNumber (x : Float) : (ofNumber x).Legible := by
  have hnan : (name "NaN").Legible := legible_name.2 (by decide)
  have hinf : (name "inf").Legible := legible_name.2 (by decide)
  have hfinite : (number ((Number.magnitude x).text .plain)).Legible := ⟨rfl, trivial⟩
  have hminus : (unary .minus (name "inf")).Legible := ⟨hinf.1, Nat.le_succ 6, hinf.2⟩
  have hnegative : (unary .minus (number ((Number.magnitude x).text .plain))).Legible :=
    ⟨hfinite.1, Nat.le_succ 6, hfinite.2⟩
  exact ofNumber_cases x hnan hinf hfinite hnan hminus hnegative

/-- The function that removes an element is legible. -/
theorem legible_remover : remover.Legible := by
  refine ⟨by decide, ?_⟩
  simp only [remover, Grouped, GroupedBlock, GroupedCommand, GroupedAll]
  decide

/-- A range is legible if its ends are, where they bind tightly enough. -/
theorem legible_range {start stop : Term} (hstart : 6 ≤ start.level) (hstop : 6 ≤ stop.level)
    (hbrace : start.opensBrace = false) :
    (range start stop).Legible ↔ start.Legible ∧ stop.Legible := by
  have hsize : (record "length" (binary (.arith .sub) stop start)).Legible ↔
      stop.Legible ∧ start.Legible :=
    legible_binary (Nat.lt_of_lt_of_le (by decide) hstop) (Nat.lt_of_lt_of_le (by decide) hstart)
  have helement : (arrow ["_", "i"] (binary (.arith .add) start (name "i"))).Legible ↔
      start.Legible := by
    have hbody : (binary (.arith .add) start (name "i")).opensBrace = false := hbrace
    rw [legible_arrow (by decide) hbody,
      legible_binary (Nat.lt_of_lt_of_le (by decide) hstart) (by decide)]
    exact and_iff_left (legible_name.2 (by decide))
  have hfrom : (member (name "Array") "from").Legible :=
    (legible_member _ _).2 ⟨legible_name.2 (by decide), rfl, rfl⟩
  rw [range, legible_call rfl, List.forall_mem_cons, List.forall_mem_singleton, hsize, helement]
  tauto

variable {name : String} {args : List Term} {t : Term}

/-- A template is read as it should be if its arguments are and if members are taken only of
    what they may be taken of. -/
theorem Template.legible_iff (h : Template name args t)
    (hargs : ∀ a ∈ args, 6 ≤ a.level ∧ a.opensBrace = false) :
    t.Legible ↔ (∀ a ∈ args, a.Legible) ∧ ∀ a ∈ objects name args, a.TakesPoint := by
  cases h with
  | append element list =>
    rw [legible_call rfl, legible_member]
    simp only [objects, List.forall_mem_cons]
    tauto
  | remove element list =>
    -- No member is taken of the list itself: it is an argument of the function.
    have hremover : (group remover).Legible := legible_remover
    rw [legible_call rfl]
    simp only [objects, List.forall_mem_cons]
    tauto
  | length value =>
    rw [legible_member]
    simp only [objects, List.forall_mem_singleton]
  | range start stop =>
    obtain ⟨hstart, hstop⟩ := List.forall_mem_cons.1 hargs
    rw [legible_range hstart.1 (hstop stop List.mem_cons_self).1 hstart.2]
    simp [objects]
  | type value =>
    rw [legible_unary (hargs value List.mem_cons_self).1]
    simp [objects]

/-- Of all templates, only `typeof` does not take a point. -/
theorem Template.takesPoint (h : Template name args t) :
    name = "type" ∧ t.level = 6 ∨ name ≠ "type" ∧ t.TakesPoint := by
  cases h with
  | append | remove | length | range => exact .inr ⟨by decide, rfl, rfl⟩
  | type => exact .inl ⟨rfl, rfl⟩

theorem writtenAll_iff {ts : List Term} : WrittenAll ts ↔ ∀ t ∈ ts, t.Written := by
  induction ts with
  | nil => simp [WrittenAll]
  | cons t ts ih => rw [List.forall_mem_cons, ← ih, WrittenAll]

theorem written_name {x : String} (h : IsIdentifier x) : (Term.name x).Written := h.nameLike

theorem written_remover : remover.Written := by
  have hone : IsUnsigned "1".toList := .inl rfl
  have hl : (Term.name "l").Written := written_name (by decide)
  have he : (Term.name "e").Written := written_name (by decide)
  have hi : (Term.name "i").Written := written_name (by decide)
  exact ⟨by decide, ⟨by decide, ⟨hl, by decide⟩, he, trivial⟩,
    ⟨⟨hi, hone⟩, ⟨hl, by decide⟩, hi, hone, trivial⟩, trivial⟩

/-- A template is written as it has to be if its arguments are. -/
theorem Template.written (h : Template name args t) (hargs : ∀ a ∈ args, a.Written) :
    t.Written := by
  cases h with
  | append element list =>
    obtain ⟨helement, hlist⟩ := List.forall_mem_cons.1 hargs
    exact ⟨⟨hlist list List.mem_cons_self, by decide⟩, helement, trivial⟩
  | remove element list =>
    obtain ⟨helement, hlist⟩ := List.forall_mem_cons.1 hargs
    exact ⟨written_remover, hlist list List.mem_cons_self, helement, trivial⟩
  | length value => exact ⟨hargs value List.mem_cons_self, by decide⟩
  | range start stop =>
    obtain ⟨hstart, hstop⟩ := List.forall_mem_cons.1 hargs
    have harray : (Term.name "Array").Written := written_name (by decide)
    have hindex : (Term.name "i").Written := written_name (by decide)
    exact ⟨⟨harray, by decide⟩, ⟨by decide, hstop stop List.mem_cons_self, hstart⟩,
      ⟨by decide, hstart, hindex⟩, trivial⟩
  | type value => exact hargs value List.mem_cons_self

/-! ### Operands -/

/-- Putting an operand in parentheses does not change whether it is legible. -/
theorem legible_operand (t : Term) : t.operand.Legible ↔ t.Legible := by
  cases t <;> exact Iff.rfl

/-- Putting a written operand in parentheses leaves it written. -/
theorem written_operand {t : Term} (h : t.Written) : t.operand.Written := by
  cases t <;> exact h

theorem free_operand (t : Term) : t.operand.free = t.free := by
  cases t <;> rfl

theorem opensBrace_operand {t : Term} (h : t.opensBrace = false) :
    t.operand.opensBrace = false := by
  cases t with
  | binary => rfl
  | _ => exact h

/-- An operand that binds tightly enough is not put in parentheses. -/
theorem operand_of_le_level {t : Term} (h : 6 ≤ t.level) : t.operand = t := by
  cases t with
  | binary op left right =>
    have hle := op.level_le
    rw [level] at h
    omega
  | _ => rfl

theorem takesPoint_ofRef (r : Ref) : (ofRef r).TakesPoint := by
  cases r <;> exact ⟨rfl, rfl⟩

/-- A member may be taken of a number that is not made up of digits only. -/
theorem takesPoint_ofNumber (x : Float) :
    (ofNumber x).TakesPoint ↔ isDigits (numText x).toList = false := by
  have hgroup (s : String) : isDigits ("(" ++ s ++ ")").toList = false := by
    simp [isDigits]
  rw [numText_eq_text]
  refine ofNumber_cases (P := fun t => t.TakesPoint ↔ isDigits t.text.toList = false) x
    (iff_of_true ⟨rfl, rfl⟩ rfl) (iff_of_true ⟨rfl, rfl⟩ rfl) ?_ (iff_of_true ⟨rfl, rfl⟩ (hgroup _))
    (iff_of_true ⟨rfl, rfl⟩ (hgroup _)) (iff_of_true ⟨rfl, rfl⟩ (hgroup _))
  exact and_iff_right rfl

/-- What is not a function binds tightly enough once it is an operand. -/
theorem le_level_operand {t : Term} (h : t.isFunction = false) : 6 ≤ t.operand.level := by
  cases t with
  | arrow | function => cases h
  | unary => exact Nat.le_refl 6
  | _ => exact Nat.le_succ 6

end Term

/-- No expression begins with a brace. -/
theorem Expr.opensBrace_term : ∀ e : Expr, e.term.opensBrace = false
  | .num value => Term.ofNumber_cases (P := fun t => t.opensBrace = false) value
    rfl rfl rfl rfl rfl rfl
  | .ref r => by cases r <;> rfl
  | .binary _ left _ => left.opensBrace_term
  | .push l _ => l.opensBrace_term
  | .length value => value.opensBrace_term
  | .bool _ | .word _ | .list _ | .paren _ | .call _ _ | .removeFirst _ _ | .range _ _
  | .typeOf _ => rfl

end Toal.Script
