import Toal.Prelude
import Toal.Proofs.Rules
import Toal.Proofs.TypingSteps
import Toal.Proofs.Visibility

/-!
# Typing follows the static rules

Typing accepts exactly the programs that are well formed by the static rules
(`run_ok_iff_wellFormed`). What connects the two is that a context makes the same
names visible as a place of the rules (`Agrees`). Typing an expression then
succeeds if and only if the expression has a type (`typeExpr_sound`,
`typeExpr_complete`), and typing a statement if and only if it is legal, and the
context after it agrees with the names that are visible after it
(`typeStmt_sound`, `typeStmt_complete`).
-/

namespace Toal

open Rules

/-- What the rules know about an entity. -/
def Entity.binding : Entity → Binding
  | .var v => .var v.readOnly v.ty
  | .auto a => .auto (a.params.map (·.ty)) a.ty

/-- The context makes visible what is visible at the place. -/
structure Agrees (cx : Context) (π : Place) : Prop where
  find : ∀ x b, (x, b) ∈ π.names ↔ ∃ e, cx.find? x = some e ∧ e.binding = b
  inLoop : cx.inLoop = π.inLoop
  output : cx.automation.map (·.ty) = π.output

namespace Agrees

variable {cx : Context} {π : Place}

theorem mem_of_find? (h : Agrees cx π) {x : String} {e : Entity} (hx : cx.find? x = some e) :
    (x, e.binding) ∈ π.names :=
  (h.find x _).2 ⟨e, hx, rfl⟩

/-- A name for a variable is found, with what is known about the variable. -/
theorem find?_of_var (h : Agrees cx π) {x : String} {readOnly : Bool} {τ : Ty}
    (hx : (x, .var readOnly τ) ∈ π.names) :
    ∃ v : Variable, cx.find? x = some (.var v) ∧ v.readOnly = readOnly ∧ v.ty = τ := by
  obtain ⟨e, he, hb⟩ := (h.find x _).1 hx
  cases e with
  | var v =>
    cases hb
    exact ⟨v, he, rfl, rfl⟩
  | auto a => cases hb

/-- A name for an automation is found, with what is known about the automation. -/
theorem find?_of_auto (h : Agrees cx π) {x : String} {params : List Ty} {output : Ty}
    (hx : (x, .auto params output) ∈ π.names) :
    ∃ a : Automation, cx.find? x = some (.auto a) ∧ a.params.map (·.ty) = params ∧
      a.ty = output := by
  obtain ⟨e, he, hb⟩ := (h.find x _).1 hx
  cases e with
  | var v => cases hb
  | auto a =>
    cases hb
    exact ⟨a, he, rfl, rfl⟩

/-- The context sees the names that are visible. -/
theorem sees_eq_false_iff (h : Agrees cx π) {x : String} :
    cx.sees x = false ↔ ¬Visible π.names x := by
  rw [Context.sees_eq_false_iff]
  constructor
  · rintro hnone ⟨b, hb⟩
    obtain ⟨e, he, -⟩ := (h.find x b).1 hb
    rw [hnone] at he
    cases he
  · intro hvisible
    cases hx : cx.find? x with
    | none => rfl
    | some e => exact absurd ⟨_, h.mem_of_find? hx⟩ hvisible

/-- Where an output is allowed, there is an automation for it. -/
theorem automation_of_output (h : Agrees cx π) {τ : Ty} (hτ : π.output = some τ) :
    ∃ a, cx.automation = some a ∧ a.ty = τ := by
  rw [← h.output] at hτ
  exact Option.map_eq_some_iff.1 hτ

/-- After a declaration the context agrees with one more name. -/
theorem declare (h : Agrees cx π) {e : Entity} (he : cx.sees e.name = false) :
    Agrees (cx.insert e) (π.with ((e.name, e.binding) :: π.names)) where
  find x b := by
    change (x, b) ∈ (e.name, e.binding) :: π.names ↔ _
    rw [Context.find?_insert he, List.mem_cons]
    by_cases hx : e.name = x
    · -- The name was not visible, so nothing else is known about it.
      have hnew : (x, b) ∉ π.names := fun hb => (h.sees_eq_false_iff.1 he) ⟨b, hx ▸ hb⟩
      simp only [hnew, hx, or_false, if_true, Option.some.injEq, Prod.mk.injEq, true_and,
        exists_eq_left', eq_comm]
    · have hne : (x, b) ≠ (e.name, e.binding) := fun hp => hx (Prod.mk.inj hp).1.symm
      simp only [hne, if_neg hx, false_or, h.find]
  inLoop := Context.inLoop_insert.trans h.inLoop
  output := (congrArg _ Context.automation_insert).trans h.output

/-- A new variable is visible after its declaration. -/
theorem declareVariable (h : Agrees cx π) (v : Variable) (hv : cx.sees v.name = false) :
    Agrees (cx.insert (.var v)) (π.with ((v.name, .var v.readOnly v.ty) :: π.names)) :=
  h.declare (e := .var v) hv

/-- Only what is in the list of names matters, not the order. -/
theorem of_mem_iff (h : Agrees cx π) {names : Names} (hnames : ∀ p, p ∈ names ↔ p ∈ π.names) :
    Agrees cx (π.with names) where
  find x b := (hnames (x, b)).trans (h.find x b)
  inLoop := h.inLoop
  output := h.output

/-- After declarations of different names the context agrees with all of them. -/
theorem declareAll (h : Agrees cx π) (es : List Entity) (hes : ∀ e ∈ es, cx.sees e.name = false)
    (hdistinct : (es.map (·.name)).Nodup) :
    Agrees (es.foldl Context.insert cx)
      (π.with (es.map (fun e => (e.name, e.binding)) ++ π.names)) := by
  induction es generalizing cx π with
  | nil => exact h
  | cons e es ih =>
    -- The names come out in reverse order, which `of_mem_iff` puts right.
    rw [List.map_cons, List.nodup_cons] at hdistinct
    have hcx := h.declare (hes e List.mem_cons_self)
    have hes' : ∀ e' ∈ es, (cx.insert e).sees e'.name = false := by
      intro e' he'
      rw [hcx.sees_eq_false_iff]
      rintro ⟨b, hb⟩
      rcases List.mem_cons.1 hb with heq | hb
      · exact hdistinct.1 ((Prod.mk.inj heq).1 ▸ List.mem_map_of_mem he')
      · exact h.sees_eq_false_iff.1 (hes e' (List.mem_cons_of_mem e he')) ⟨b, hb⟩
    refine (ih hcx hes' hdistinct.2).of_mem_iff fun p => ?_
    simp only [Place.with, List.map_cons, List.cons_append, List.mem_cons, List.mem_append]
    exact or_left_comm

/-- In the body of a loop the same names are visible. -/
theorem enter_loop (h : Agrees cx π) : Agrees (cx.enter .loop) ⟨π.names, true, π.output⟩ :=
  ⟨h.find, rfl, h.output⟩

/-- In the body of an automation the same names are visible, and its outputs are allowed. -/
theorem enter_body (h : Agrees cx π) (a : Automation) :
    Agrees (cx.enter (.body a)) ⟨π.names, π.inLoop, some a.ty⟩ :=
  ⟨h.find, h.inLoop, rfl⟩

end Agrees

/-! ## Types -/

/-- The demand for numbers allows the numeric types. -/
theorem allows_numeric_iff {τ : Ty} : Demand.numeric.allows τ = true ↔ Numeric τ := by
  cases τ <;> simp [Demand.allows, Demand.types, Ty.isCompatible, Numeric]

theorem allows_numericOrWord_iff {τ : Ty} :
    Demand.numericOrWord.allows τ = true ↔ Rules.Comparable τ := by
  cases τ <;> simp [Demand.allows, Demand.types, Ty.isCompatible, Rules.Comparable]

theorem allows_truth_iff {τ : Ty} : Demand.truth.allows τ = true ↔ Truth τ := by
  cases τ <;> simp [Demand.allows, Demand.types, Ty.isCompatible, Truth]

theorem allows_list_iff {τ : Ty} : Demand.list.allows τ = true ↔ Listed τ := by
  cases τ <;> simp [Demand.allows, Demand.types, Ty.isCompatible, Listed]

/-- A slot accepts what it takes. -/
theorem accepts_iff_takes {slot τ : Ty} : slot.accepts τ = true ↔ Takes slot τ := by
  simp [Ty.accepts, Takes]

/-- A type has one name. -/
theorem ofName?_eq_some_iff {x : String} {τ : Ty} : Ty.ofName? x = some τ ↔ x = τ.name := by
  constructor
  · intro h
    have hname := List.find?_some h
    exact (beq_iff_eq.1 hname).symm
  · rintro rfl
    cases τ <;> rfl

/-- The arguments are accepted by the parameters if their types are. -/
theorem forall₂_takes_iff {params : List Param} {args : List Program.Expr} :
    List.Forall₂ Takes (params.map (·.ty)) (args.map (·.ty)) ↔
      List.Forall₂ Typing.Accepts params args := by
  rw [List.forall₂_map_left_iff, List.forall₂_map_right_iff]
  constructor
  · exact List.Forall₂.imp fun _ _ h => accepts_iff_takes.2 h
  · exact List.Forall₂.imp fun _ _ h => accepts_iff_takes.1 h

/-! ## Expressions -/

namespace Typing

theorem hasTypes_length {names : Names} {es : List Surface.Expr} {τs : List Ty}
    (h : HasTypes names es τs) : es.length = τs.length := by
  induction es generalizing τs with
  | nil =>
    cases h
    rfl
  | cons e es ih =>
    cases h with
    | cons _ hs => rw [List.length_cons, List.length_cons, ih hs]

mutual

/-- An expression that is typed has the type of its typed form. -/
theorem typeExpr_sound :
    ∀ (e : Surface.Expr) {s r : State} {π : Place} {t : Program.Expr}, Agrees s.context π →
      typeExpr e s = .ok t r → s = r ∧ HasType π.names e t.ty
  | .number value span, s, r, π, t, h, ht => by
    simp only [typeExpr, pure_eq_ok] at ht
    obtain ⟨rfl, rfl⟩ := ht
    exact ⟨rfl, .number⟩
  | .word contents span, s, r, π, t, h, ht => by
    simp only [typeExpr, pure_eq_ok] at ht
    obtain ⟨rfl, rfl⟩ := ht
    exact ⟨rfl, .word⟩
  | .list elements span, s, r, π, t, h, ht => by
    simp only [typeExpr, bind_eq_ok, pure_eq_ok] at ht
    obtain ⟨ts, r', hts, rfl, rfl⟩ := ht
    obtain ⟨rfl, hs⟩ := typeExprs_sound elements h hts
    exact ⟨rfl, .list hs⟩
  | .name i, s, r, π, t, h, ht => by
    simp only [typeExpr, bind_eq_ok, lookup_eq_ok] at ht
    obtain ⟨e, _, ⟨he, rfl⟩, ht⟩ := ht
    have hmem := h.mem_of_find? he
    cases e with
    | var v =>
      obtain ⟨rfl, rfl⟩ := pure_eq_ok.1 ht
      exact ⟨rfl, .var hmem⟩
    | auto a =>
      obtain ⟨rfl, rfl⟩ := pure_eq_ok.1 ht
      exact ⟨rfl, .auto hmem⟩
  | .group inner span, s, r, π, t, h, ht => by
    simp only [typeExpr, bind_eq_ok, pure_eq_ok] at ht
    obtain ⟨t', r', ht', rfl, rfl⟩ := ht
    obtain ⟨rfl, hi⟩ := typeExpr_sound inner h ht'
    exact ⟨rfl, .group hi⟩
  | .binary (.arith op) left right span, s, r, π, t, h, ht => by
    simp only [typeExpr, bind_eq_ok, demand_eq_ok, pure_eq_ok, allows_numeric_iff] at ht
    obtain ⟨l, _, hl, x, _, hx, _, _, ⟨hnl, rfl⟩, _, _, ⟨hnr, rfl⟩, rfl, rfl⟩ := ht
    obtain ⟨rfl, hleft⟩ := typeExpr_sound left h hl
    obtain ⟨rfl, hright⟩ := typeExpr_sound right h hx
    exact ⟨rfl, .binary hleft hright hnl hnr⟩
  | .binary (.compare op) left right span, s, r, π, t, h, ht => by
    simp only [typeExpr, bind_eq_ok, demand_eq_ok, pure_eq_ok, allows_numericOrWord_iff] at ht
    obtain ⟨l, _, hl, x, _, hx, _, _, ⟨hnl, rfl⟩, _, _, ⟨hnr, rfl⟩, rfl, rfl⟩ := ht
    obtain ⟨rfl, hleft⟩ := typeExpr_sound left h hl
    obtain ⟨rfl, hright⟩ := typeExpr_sound right h hx
    exact ⟨rfl, .binary hleft hright hnl hnr⟩
  | .call i args span, s, r, π, t, h, ht => by
    simp only [typeExpr, bind_eq_ok, callee_eq_ok, pure_eq_ok] at ht
    obtain ⟨a, _, ⟨ha, rfl⟩, ts, _, hts, _, _, hcheck, rfl, rfl⟩ := ht
    obtain ⟨rfl, hs⟩ := typeExprs_sound args h hts
    have hlength := hasTypes_length hs
    rw [List.length_map] at hlength
    obtain ⟨hall, rfl⟩ := (checkCall_eq_ok ((List.length_map _).trans hlength)).1 hcheck
    exact ⟨rfl, .call (h.mem_of_find? ha) hs (forall₂_takes_iff.2 hall)⟩

/-- Expressions that are typed have the types of their typed forms. -/
theorem typeExprs_sound :
    ∀ (es : List Surface.Expr) {s r : State} {π : Place} {ts : List Program.Expr},
      Agrees s.context π → typeExprs es s = .ok ts r →
        s = r ∧ HasTypes π.names es (ts.map (·.ty))
  | [], s, r, π, ts, h, hts => by
    simp only [typeExprs, pure_eq_ok] at hts
    obtain ⟨rfl, rfl⟩ := hts
    exact ⟨rfl, .nil⟩
  | e :: es, s, r, π, ts, h, hts => by
    simp only [typeExprs, bind_eq_ok, pure_eq_ok] at hts
    obtain ⟨t, _, ht, ts', _, hts', rfl, rfl⟩ := hts
    obtain ⟨rfl, he⟩ := typeExpr_sound e h ht
    obtain ⟨rfl, hes⟩ := typeExprs_sound es h hts'
    exact ⟨rfl, .cons he hes⟩

end

mutual

/-- An expression that has a type is typed, and its typed form has that type. -/
theorem typeExpr_complete {s : State} {π : Place} (h : Agrees s.context π) :
    ∀ (e : Surface.Expr) {τ : Ty}, HasType π.names e τ → ∃ t, typeExpr e s = .ok t s ∧ t.ty = τ
  | .number value span, _, .number => ⟨.num value, by rw [typeExpr]; rfl, rfl⟩
  | .word contents span, _, .word => ⟨.word contents, by rw [typeExpr]; rfl, rfl⟩
  | .list elements span, _, .list hs => by
    obtain ⟨ts, hts, -⟩ := typeExprs_complete h elements hs
    refine ⟨.list ts, ?_, rfl⟩
    simp only [typeExpr, bind_eq_ok, pure_eq_ok]
    exact ⟨ts, s, hts, rfl, rfl⟩
  | .name i, _, .var hmem => by
    obtain ⟨v, hv, -, hτ⟩ := h.find?_of_var hmem
    refine ⟨.var v, ?_, hτ⟩
    simp only [typeExpr, bind_eq_ok, lookup_eq_ok]
    exact ⟨_, s, ⟨hv, rfl⟩, rfl⟩
  | .name i, _, .auto hmem => by
    obtain ⟨a, ha, -, -⟩ := h.find?_of_auto hmem
    refine ⟨.auto a, ?_, rfl⟩
    simp only [typeExpr, bind_eq_ok, lookup_eq_ok]
    exact ⟨_, s, ⟨ha, rfl⟩, rfl⟩
  | .group inner span, _, .group hi => by
    obtain ⟨t, ht, hτ⟩ := typeExpr_complete h inner hi
    refine ⟨.paren t, ?_, hτ⟩
    simp only [typeExpr, bind_eq_ok, pure_eq_ok]
    exact ⟨t, s, ht, rfl, rfl⟩
  | .binary (.arith op) left right span, _, .binary hleft hright hnl hnr => by
    obtain ⟨l, hl, rfl⟩ := typeExpr_complete h left hleft
    obtain ⟨x, hx, rfl⟩ := typeExpr_complete h right hright
    refine ⟨.arith op l x, ?_, rfl⟩
    simp only [typeExpr, bind_eq_ok, demand_eq_ok, pure_eq_ok, allows_numeric_iff]
    exact ⟨l, s, hl, x, s, hx, (), s, ⟨hnl, rfl⟩, (), s, ⟨hnr, rfl⟩, rfl, rfl⟩
  | .binary (.compare op) left right span, _, .binary hleft hright hnl hnr => by
    obtain ⟨l, hl, rfl⟩ := typeExpr_complete h left hleft
    obtain ⟨x, hx, rfl⟩ := typeExpr_complete h right hright
    refine ⟨.compare op l x, ?_, rfl⟩
    simp only [typeExpr, bind_eq_ok, demand_eq_ok, pure_eq_ok, allows_numericOrWord_iff]
    exact ⟨l, s, hl, x, s, hx, (), s, ⟨hnl, rfl⟩, (), s, ⟨hnr, rfl⟩, rfl, rfl⟩
  | .call i args span, _, .call hmem hs htakes => by
    obtain ⟨a, ha, rfl, rfl⟩ := h.find?_of_auto hmem
    obtain ⟨ts, hts, rfl⟩ := typeExprs_complete h args hs
    have hlength := hasTypes_length hs
    rw [List.length_map] at hlength
    refine ⟨.call a ts, ?_, rfl⟩
    simp only [typeExpr, bind_eq_ok, callee_eq_ok, pure_eq_ok]
    exact ⟨a, s, ⟨ha, rfl⟩, ts, s, hts, (), s,
      (checkCall_eq_ok ((List.length_map _).trans hlength)).2 ⟨forall₂_takes_iff.1 htakes, rfl⟩,
      rfl, rfl⟩

/-- Expressions that have types are typed, and their typed forms have those types. -/
theorem typeExprs_complete {s : State} {π : Place} (h : Agrees s.context π) :
    ∀ (es : List Surface.Expr) {τs : List Ty}, HasTypes π.names es τs →
      ∃ ts, typeExprs es s = .ok ts s ∧ ts.map (·.ty) = τs
  | [], _, .nil => ⟨[], by rw [typeExprs]; rfl, rfl⟩
  | e :: es, _, .cons he hes => by
    obtain ⟨t, ht, rfl⟩ := typeExpr_complete h e he
    obtain ⟨ts, hts, rfl⟩ := typeExprs_complete h es hes
    refine ⟨t :: ts, ?_, rfl⟩
    simp only [typeExprs, bind_eq_ok, pure_eq_ok]
    exact ⟨t, s, ht, ts, s, hts, rfl, rfl⟩

end

/-- What is typed as a test has a type that may be true. -/
theorem typeTest_sound {e : Surface.Expr} {s r : State} {π : Place} {t : Program.Expr}
    (h : Agrees s.context π) (ht : typeTest e s = .ok t r) :
    s = r ∧ HasType π.names e t.ty ∧ Truth t.ty := by
  simp only [typeTest, bind_eq_ok, demand_eq_ok, pure_eq_ok, allows_truth_iff] at ht
  obtain ⟨t', _, ht, _, _, ⟨htruth, rfl⟩, rfl, rfl⟩ := ht
  obtain ⟨rfl, he⟩ := typeExpr_sound e h ht
  exact ⟨rfl, he, htruth⟩

/-- What has a type that may be true is typed as a test. -/
theorem typeTest_complete {e : Surface.Expr} {s : State} {π : Place} {τ : Ty}
    (h : Agrees s.context π) (he : HasType π.names e τ) (hτ : Truth τ) :
    ∃ t, typeTest e s = .ok t s := by
  obtain ⟨t, ht, rfl⟩ := typeExpr_complete h e he
  refine ⟨t, ?_⟩
  simp only [typeTest, bind_eq_ok, demand_eq_ok, pure_eq_ok, allows_truth_iff]
  exact ⟨t, s, ht, (), s, ⟨hτ, rfl⟩, rfl, rfl⟩

/-! ## Automations -/

/-- The type of an output is the one that is named, or none. -/
theorem outputType_eq_ok {output : Option Surface.Ident} {s r : State} {τ : Ty} :
    outputType output s = .ok τ r ↔ OutputType output τ ∧ s = r := by
  cases output with
  | none =>
    rw [outputType, pure_eq_ok]
    constructor
    · rintro ⟨rfl, rfl⟩
      exact ⟨.none, rfl⟩
    · rintro ⟨h, rfl⟩
      cases h
      exact ⟨rfl, rfl⟩
  | some i =>
    simp only [outputType, bind_eq_ok, typeNamed_eq_ok, require_eq_ok, pure_eq_ok,
      ofName?_eq_some_iff, bne_iff_ne]
    constructor
    · rintro ⟨_, _, ⟨hname, rfl⟩, _, _, ⟨hany, rfl⟩, rfl, rfl⟩
      exact ⟨.some hname hany, rfl⟩
    · rintro ⟨h, rfl⟩
      cases h with
      | some hname hany => exact ⟨τ, s, ⟨hname, rfl⟩, (), s, ⟨hany, rfl⟩, rfl, rfl⟩

/-- What a parameter is to the callers of its automation, by the rules. -/
def Describes (p : Surface.Param) (q : Param) : Prop :=
  q.name = p.name.text ∧ ParamType p q.ty

/-- A parameter is described by its name and its type. -/
theorem paramType_eq_ok {p : Surface.Param} {q : Param} {s r : State} :
    paramType p s = .ok q r ↔ Describes p q ∧ s = r := by
  rw [Describes, and_assoc]
  obtain ⟨name, ty⟩ := p
  obtain ⟨name', τ⟩ := q
  cases ty with
  | none =>
    simp only [paramType, pure_eq_ok, Param.mk.injEq]
    constructor
    · rintro ⟨⟨rfl, rfl⟩, rfl⟩
      exact ⟨rfl, .none, rfl⟩
    · rintro ⟨rfl, h, rfl⟩
      cases h
      exact ⟨⟨rfl, rfl⟩, rfl⟩
  | some i =>
    simp only [paramType, bind_eq_ok, typeNamed_eq_ok, pure_eq_ok, ofName?_eq_some_iff,
      Param.mk.injEq]
    constructor
    · rintro ⟨_, _, ⟨hname, rfl⟩, ⟨rfl, rfl⟩, rfl⟩
      exact ⟨rfl, .some hname, rfl⟩
    · rintro ⟨rfl, h, rfl⟩
      cases h with
      | some hname => exact ⟨τ, s, ⟨hname, rfl⟩, ⟨rfl, rfl⟩, rfl⟩

theorem paramTypes_eq_ok {ps : List Surface.Param} {qs : List Param} {s r : State} :
    paramTypes ps s = .ok qs r ↔
      List.Forall₂ Describes ps qs ∧ s = r := by
  induction ps generalizing qs s r with
  | nil =>
    rw [paramTypes, pure_eq_ok, List.forall₂_nil_left_iff, eq_comm (a := [])]
  | cons p ps ih =>
    simp only [paramTypes, bind_eq_ok, paramType_eq_ok, pure_eq_ok, ih]
    constructor
    · rintro ⟨q, _, ⟨hhead, rfl⟩, qs', _, ⟨hall, rfl⟩, rfl, rfl⟩
      exact ⟨.cons hhead hall, rfl⟩
    · rintro ⟨hall, rfl⟩
      cases hall with
      | cons hhead hall =>
        exact ⟨_, s, ⟨hhead, rfl⟩, _, s, ⟨hall, rfl⟩, rfl, rfl⟩

/-- Parameters that are declared make visible what the rules say. -/
theorem declareParams_sound {ps : List Surface.Param} {qs : List Param} {vs : List Variable}
    {s r : State} {π : Place} (h : Agrees s.context π)
    (hty : List.Forall₂ Describes ps qs)
    (hvs : declareParams (ps.zip qs) s = .ok vs r) :
    ∃ inner, Params π.names ps (qs.map (·.ty)) inner ∧ Agrees r.context (π.with inner) := by
  induction hty generalizing s π vs with
  | nil =>
    simp only [List.zip_nil_left, declareParams, pure_eq_ok] at hvs
    obtain ⟨-, rfl⟩ := hvs
    exact ⟨π.names, .nil, h⟩
  | @cons p q ps qs hhead hall ih =>
    simp only [List.zip_cons_cons, declareParams, bind_eq_ok, require_eq_ok, pure_eq_ok,
      declareVariable_eq_ok, bne_iff_ne] at hvs
    obtain ⟨_, _, ⟨hnone, rfl⟩, v, _, ⟨hsees, rfl, rfl⟩, vs', _, hvs', -, rfl⟩ := hvs
    obtain ⟨inner, hparams, hagrees⟩ :=
      ih (h.declareVariable ⟨s.next, p.name.text, false, q.ty, false⟩ hsees) hvs'
    exact ⟨inner, .cons hhead.2 hnone (h.sees_eq_false_iff.1 hsees) hparams, hagrees⟩

/-- Parameters that may be declared by the rules have a signature. -/
theorem exists_signature {ps : List Surface.Param} {τs : List Ty} {names inner : Names}
    (hps : Params names ps τs inner) :
    ∃ qs, List.Forall₂ Describes ps qs ∧
      qs.map (·.ty) = τs := by
  induction hps with
  | nil => exact ⟨[], .nil, rfl⟩
  | @cons _ p _ τ _ _ hty _ _ _ ih =>
    obtain ⟨qs, hall, rfl⟩ := ih
    exact ⟨⟨p.name.text, τ⟩ :: qs, .cons ⟨rfl, hty⟩ hall, rfl⟩

/-- Parameters that may be declared by the rules are declared. -/
theorem declareParams_complete {ps : List Surface.Param} {qs : List Param} {inner : Names}
    {s : State} {π : Place} (h : Agrees s.context π)
    (hty : List.Forall₂ Describes ps qs)
    (hps : Params π.names ps (qs.map (·.ty)) inner) :
    ∃ vs r, declareParams (ps.zip qs) s = .ok vs r ∧ Agrees r.context (π.with inner) := by
  induction hty generalizing s π with
  | nil =>
    cases hps
    exact ⟨[], s, rfl, h⟩
  | @cons p q ps qs hhead hall ih =>
    cases hps with
    | cons _ hnone hvisible hps =>
      have hsees := h.sees_eq_false_iff.2 hvisible
      let v : Variable := ⟨s.next, p.name.text, false, q.ty, false⟩
      obtain ⟨vs, r, hvs, hr⟩ :=
        ih (s := s.numbered.declared p.name.text (.var v)) (h.declareVariable v hsees) hps
      refine ⟨v :: vs, r, ?_, hr⟩
      simp only [List.zip_cons_cons, declareParams, bind_eq_ok, require_eq_ok, pure_eq_ok,
        declareVariable_eq_ok, bne_iff_ne]
      exact ⟨(), s, ⟨hnone, rfl⟩, v, _, ⟨hsees, rfl, rfl⟩, vs, r, hvs, rfl, rfl⟩

/-! ## Statements -/

/-- What typing a statement that is no output and holds none says about outputs. -/
theorem hasOutput_iff_of_not {st : Surface.Stmt} {t : Program.Stmt} (ht : t.hasOutput = false)
    (hst : ¬HasOutput st) : t.hasOutput = true ↔ HasOutput st := by
  simp only [ht, hst, Bool.false_eq_true]

mutual

/-- A statement that is typed is legal, and the context after it agrees with the
    names visible after it. Its typed form has an output if it has one. -/
theorem typeStmt_sound :
    ∀ (st : Surface.Stmt) {s r : State} {π : Place} {t : Program.Stmt}, Agrees s.context π →
      typeStmt st s = .ok t r →
      ∃ after, Legal π st after ∧ Agrees r.context (π.with after) ∧
        (t.hasOutput = true ↔ HasOutput st)
  | .declare readOnly x init span, s, r, π, t, h, ht => by
    simp only [typeStmt, bind_eq_ok, require_eq_ok, declareVariable_eq_ok, log_eq_ok, pure_eq_ok,
      bne_iff_ne] at ht
    obtain ⟨e, _, he, _, _, ⟨hnone, rfl⟩, v, _, ⟨hsees, rfl, rfl⟩, _, _, rfl, rfl, rfl⟩ := ht
    obtain ⟨rfl, hinit⟩ := typeExpr_sound init h he
    exact ⟨_, .declare hinit hnone (h.sees_eq_false_iff.1 hsees), h.declareVariable _ hsees,
      hasOutput_iff_of_not rfl (by rintro ⟨⟩)⟩
  | .assign x value span, s, r, π, t, h, ht => by
    simp only [typeStmt, bind_eq_ok, assignable_eq_ok, require_eq_ok, pure_eq_ok, beq_iff_eq] at ht
    obtain ⟨v, _, ⟨hfind, hv, rfl⟩, e, _, he, _, _, ⟨hty, rfl⟩, rfl, rfl⟩ := ht
    obtain ⟨rfl, hvalue⟩ := typeExpr_sound value h he
    have hmem := h.mem_of_find? hfind
    rw [Entity.binding, hv] at hmem
    exact ⟨_, .assign hmem (hty ▸ hvalue), h, hasOutput_iff_of_not rfl (by rintro ⟨⟩)⟩
  | .change op x term span, s, r, π, t, h, ht => by
    simp only [typeStmt, bind_eq_ok, assignable_eq_ok, demand_eq_ok, pure_eq_ok,
      allows_numeric_iff] at ht
    obtain ⟨v, _, ⟨hfind, hv, rfl⟩, _, _, ⟨hnum, rfl⟩, e, _, he, _, _, ⟨hterm, rfl⟩, rfl, rfl⟩ := ht
    obtain ⟨rfl, hvalue⟩ := typeExpr_sound term h he
    have hmem := h.mem_of_find? hfind
    rw [Entity.binding, hv] at hmem
    exact ⟨_, .change hmem hnum hvalue hterm, h, hasOutput_iff_of_not rfl (by rintro ⟨⟩)⟩
  | .print value span, s, r, π, t, h, ht => by
    simp only [typeStmt, bind_eq_ok, require_eq_ok, pure_eq_ok, bne_iff_ne] at ht
    obtain ⟨e, _, he, _, _, ⟨hnone, rfl⟩, rfl, rfl⟩ := ht
    obtain ⟨rfl, hvalue⟩ := typeExpr_sound value h he
    exact ⟨_, .print hvalue hnone, h, hasOutput_iff_of_not rfl (by rintro ⟨⟩)⟩
  | .automate f params output body span, s, r, π, t, h, ht => by
    simp only [typeStmt, bind_eq_ok, outputType_eq_ok, paramTypes_eq_ok, fresh_eq_ok,
      declare_eq_ok, log_eq_ok, inScope_eq_ok, require_eq_ok, pure_eq_ok] at ht
    obtain ⟨τ, _, ⟨houtput, rfl⟩, qs, _, ⟨hqs, rfl⟩, _, _, ⟨rfl, rfl⟩, _, _, ⟨hsees, rfl⟩, _, _,
      rfl, ⟨vs, ts⟩, _, ⟨_, ⟨vs', _, hvs, ts', _, hts, heq, rfl⟩, rfl⟩, _, _, ⟨hout, rfl⟩, rfl,
      rfl⟩ := ht
    obtain ⟨rfl, rfl⟩ := Prod.mk.inj heq
    -- The automation is visible in its own body, so it is declared before its
    -- parameters; the names that are declared inside are lost with the scope.
    have hcx := h.declare (e := .auto ⟨s.next, f.text, qs, τ, false⟩) hsees
    obtain ⟨inner, hparams, hinner⟩ := declareParams_sound (hcx.enter_body _) hqs hvs
    obtain ⟨after, hbody, -, hany⟩ := typeBlock_sound body hinner hts
    refine ⟨_, .automate houtput (h.sees_eq_false_iff.1 hsees) hparams hbody fun hτ => ?_, hcx,
      hasOutput_iff_of_not rfl (by rintro ⟨⟩)⟩
    rw [Bool.or_eq_true, beq_iff_eq] at hout
    exact hany.1 (hout.resolve_left hτ)
  | .call f args callSpan span, s, r, π, t, h, ht => by
    simp only [typeStmt, bind_eq_ok, callee_eq_ok, pure_eq_ok] at ht
    obtain ⟨a, _, ⟨ha, rfl⟩, ts, _, hts, _, _, hcheck, rfl, rfl⟩ := ht
    obtain ⟨rfl, hs⟩ := typeExprs_sound args h hts
    have hlength := hasTypes_length hs
    rw [List.length_map] at hlength
    obtain ⟨hall, rfl⟩ := (checkCall_eq_ok ((List.length_map _).trans hlength)).1 hcheck
    exact ⟨_, .call (h.mem_of_find? ha) hs (forall₂_takes_iff.2 hall), h,
      hasOutput_iff_of_not rfl (by rintro ⟨⟩)⟩
  | .output none span, s, r, π, t, h, ht => by
    simp only [typeStmt, bind_eq_ok, enclosing_eq_ok, require_eq_ok, pure_eq_ok, beq_iff_eq] at ht
    obtain ⟨a, _, ⟨ha, rfl⟩, _, _, ⟨hty, rfl⟩, rfl, rfl⟩ := ht
    have houtput := h.output
    rw [ha, Option.map_some, hty] at houtput
    exact ⟨_, .outputNone houtput.symm, h, fun _ => .output, fun _ => rfl⟩
  | .output (some value) span, s, r, π, t, h, ht => by
    simp only [typeStmt, bind_eq_ok, enclosing_eq_ok, require_eq_ok, pure_eq_ok,
      Bool.and_eq_true, beq_iff_eq, bne_iff_ne] at ht
    obtain ⟨a, _, ⟨ha, rfl⟩, e, _, he, _, _, ⟨⟨hnone, hty⟩, rfl⟩, rfl, rfl⟩ := ht
    obtain ⟨rfl, hvalue⟩ := typeExpr_sound value h he
    have houtput := h.output
    rw [ha, Option.map_some] at houtput
    exact ⟨_, .output houtput.symm hnone (hty ▸ hvalue), h, fun _ => .output, fun _ => rfl⟩
  | .ifElse test body none span, s, r, π, t, h, ht => by
    simp only [typeStmt, bind_eq_ok, pure_eq_ok] at ht
    obtain ⟨e, _, he, ts, _, hts, rfl, rfl⟩ := ht
    obtain ⟨rfl, htest, htruth⟩ := typeTest_sound h he
    obtain ⟨after, hbody, hafter, hany⟩ := typeBlock_sound body h hts
    refine ⟨after, .ifThen htest htruth hbody, hafter, ?_⟩
    rw [Program.Stmt.hasOutput, hany]
    constructor
    · rintro ⟨st, hmem, hst⟩
      exact .body hmem hst
    · intro hst
      cases hst with
      | body hmem hst => exact ⟨_, hmem, hst⟩
  | .ifElse test body (some alternate) span, s, r, π, t, h, ht => by
    simp only [typeStmt, bind_eq_ok, pure_eq_ok] at ht
    obtain ⟨e, _, he, ts, _, hts, ts', _, hts', rfl, rfl⟩ := ht
    obtain ⟨rfl, htest, htruth⟩ := typeTest_sound h he
    -- A branch opens no scope: what the first one declares is visible in the second.
    obtain ⟨between, hbody, hbetween, hany⟩ := typeBlock_sound body h hts
    obtain ⟨after, halternate, hafter, hany'⟩ := typeBlock_sound alternate hbetween hts'
    refine ⟨after, .ifElse htest htruth hbody halternate, hafter, ?_⟩
    rw [Program.Stmt.hasOutput, Bool.or_eq_true, hany, hany']
    constructor
    · rintro (⟨st, hmem, hst⟩ | ⟨st, hmem, hst⟩)
      · exact .body hmem hst
      · exact .alternate hmem hst
    · intro hst
      cases hst with
      | body hmem hst => exact .inl ⟨_, hmem, hst⟩
      | alternate hmem hst => exact .inr ⟨_, hmem, hst⟩
  | .loopWhile test body span, s, r, π, t, h, ht => by
    simp only [typeStmt, bind_eq_ok, inScope_eq_ok, pure_eq_ok] at ht
    obtain ⟨e, _, he, ts, _, ⟨_, hts, rfl⟩, rfl, rfl⟩ := ht
    obtain ⟨rfl, htest, htruth⟩ := typeTest_sound h he
    obtain ⟨after, hbody, -, hany⟩ := typeBlock_sound body (s := s.entered .loop) h.enter_loop hts
    refine ⟨_, .loopWhile htest htruth hbody, h, ?_⟩
    rw [Program.Stmt.hasOutput, hany]
    constructor
    · rintro ⟨st, hmem, hst⟩
      exact .whileLoop hmem hst
    · intro hst
      cases hst with
      | whileLoop hmem hst => exact ⟨_, hmem, hst⟩
  | .loopOver x list body span, s, r, π, t, h, ht => by
    simp only [typeStmt, bind_eq_ok, demand_eq_ok, inScope_eq_ok, declareVariable_eq_ok,
      pure_eq_ok, allows_list_iff] at ht
    obtain ⟨e, _, he, _, _, ⟨hlist, rfl⟩, ⟨v, ts⟩, _,
      ⟨_, ⟨_, _, ⟨hsees, rfl, rfl⟩, ts', _, hts, heq, rfl⟩, rfl⟩, rfl, rfl⟩ := ht
    obtain ⟨rfl, hexpr⟩ := typeExpr_sound list h he
    obtain ⟨rfl, rfl⟩ := Prod.mk.inj heq
    obtain ⟨after, hbody, -, hany⟩ := typeBlock_sound body
      (h.enter_loop.declareVariable ⟨s.next, x.text, false, .any, false⟩ hsees) hts
    refine ⟨_, .loopOver hexpr hlist (h.sees_eq_false_iff.1 hsees) hbody, h, ?_⟩
    rw [Program.Stmt.hasOutput, hany]
    constructor
    · rintro ⟨st, hmem, hst⟩
      exact .overLoop hmem hst
    · intro hst
      cases hst with
      | overLoop hmem hst => exact ⟨_, hmem, hst⟩
  | .breakLoop span, s, r, π, t, h, ht => by
    simp only [typeStmt, bind_eq_ok, context_eq_ok, require_eq_ok, pure_eq_ok] at ht
    obtain ⟨_, _, ⟨rfl, rfl⟩, _, _, ⟨hloop, rfl⟩, rfl, rfl⟩ := ht
    exact ⟨_, .breakLoop (h.inLoop ▸ hloop), h, hasOutput_iff_of_not rfl (by rintro ⟨⟩)⟩

/-- A block that is typed is legal. -/
theorem typeBlock_sound :
    ∀ (b : Surface.Block) {s r : State} {π : Place} {ts : List Program.Stmt}, Agrees s.context π →
      typeBlock b s = .ok ts r →
      ∃ after, LegalAll π b.stmts after ∧ Agrees r.context (π.with after) ∧
        (Program.anyOutput ts = true ↔ ∃ st ∈ b.stmts, HasOutput st)
  | .mk stmts _, s, r, π, ts, h, hts => by
    rw [typeBlock] at hts
    exact typeStmts_sound stmts h hts

/-- Statements that are typed are legal. -/
theorem typeStmts_sound :
    ∀ (ss : List Surface.Stmt) {s r : State} {π : Place} {ts : List Program.Stmt},
      Agrees s.context π → typeStmts ss s = .ok ts r →
      ∃ after, LegalAll π ss after ∧ Agrees r.context (π.with after) ∧
        (Program.anyOutput ts = true ↔ ∃ st ∈ ss, HasOutput st)
  | [], s, r, π, ts, h, hts => by
    simp only [typeStmts, pure_eq_ok] at hts
    obtain ⟨rfl, rfl⟩ := hts
    refine ⟨_, .nil, h, ?_⟩
    simp [Program.anyOutput]
  | st :: ss, s, r, π, ts, h, hts => by
    simp only [typeStmts, bind_eq_ok, pure_eq_ok] at hts
    obtain ⟨t, _, ht, ts', _, hts', rfl, rfl⟩ := hts
    obtain ⟨between, hst, hbetween, hout⟩ := typeStmt_sound st h ht
    obtain ⟨after, hss, hafter, hany⟩ := typeStmts_sound ss hbetween hts'
    refine ⟨after, .cons hst hss, hafter, ?_⟩
    rw [Program.anyOutput, Bool.or_eq_true, hout, hany, List.exists_mem_cons_iff]

end

mutual

/-- A legal statement is typed, and the context after it agrees with the names
    visible after it. -/
theorem typeStmt_complete :
    ∀ (st : Surface.Stmt) {s : State} {π : Place} {after : Names}, Agrees s.context π →
      Legal π st after → ∃ t r, typeStmt st s = .ok t r ∧ Agrees r.context (π.with after)
  | .declare readOnly x init span, s, π, _, h, .declare hinit hnone hvisible => by
    obtain ⟨e, he, rfl⟩ := typeExpr_complete h init hinit
    have hsees := h.sees_eq_false_iff.2 hvisible
    let v : Variable := ⟨s.next, x.text, readOnly, e.ty, false⟩
    refine ⟨.declare v e, (s.numbered.declared x.text (.var v)).logged (.declared x.text e.ty), ?_,
      h.declareVariable v hsees⟩
    simp only [typeStmt, bind_eq_ok, require_eq_ok, declareVariable_eq_ok, log_eq_ok, pure_eq_ok,
      bne_iff_ne]
    exact ⟨e, s, he, (), s, ⟨hnone, rfl⟩, v, _, ⟨hsees, rfl, rfl⟩, (), _, rfl, rfl, rfl⟩
  | .assign x value span, s, π, _, h, .assign hmem hvalue => by
    obtain ⟨v, hfind, hv, rfl⟩ := h.find?_of_var hmem
    obtain ⟨e, he, hty⟩ := typeExpr_complete h value hvalue
    refine ⟨.assign v e, s, ?_, h⟩
    simp only [typeStmt, bind_eq_ok, assignable_eq_ok, require_eq_ok, pure_eq_ok, beq_iff_eq]
    exact ⟨v, s, ⟨hfind, hv, rfl⟩, e, s, he, (), s, ⟨hty, rfl⟩, rfl, rfl⟩
  | .change op x term span, s, π, _, h, .change hmem hnum hvalue hterm => by
    obtain ⟨v, hfind, hv, rfl⟩ := h.find?_of_var hmem
    obtain ⟨e, he, rfl⟩ := typeExpr_complete h term hvalue
    refine ⟨.change op v e, s, ?_, h⟩
    simp only [typeStmt, bind_eq_ok, assignable_eq_ok, demand_eq_ok, pure_eq_ok,
      allows_numeric_iff]
    exact ⟨v, s, ⟨hfind, hv, rfl⟩, (), s, ⟨hnum, rfl⟩, e, s, he, (), s, ⟨hterm, rfl⟩, rfl, rfl⟩
  | .print value span, s, π, _, h, .print hvalue hnone => by
    obtain ⟨e, he, rfl⟩ := typeExpr_complete h value hvalue
    refine ⟨.print e, s, ?_, h⟩
    simp only [typeStmt, bind_eq_ok, require_eq_ok, pure_eq_ok, bne_iff_ne]
    exact ⟨e, s, he, (), s, ⟨hnone, rfl⟩, rfl, rfl⟩
  | .automate f params output body span, s, π, _, h,
      .automate (τ := τ) houtput hvisible hparams hbody hout => by
    have hsees := h.sees_eq_false_iff.2 hvisible
    obtain ⟨qs, hqs, rfl⟩ := exists_signature hparams
    let a : Automation := ⟨s.next, f.text, qs, τ, false⟩
    let r : State := (s.numbered.declared f.text (.auto a)).logged (.automated f.text τ)
    have hcx : Agrees r.context (π.with ((f.text, .auto (qs.map (·.ty)) τ) :: π.names)) :=
      h.declare (e := .auto a) hsees
    obtain ⟨vs, r₁, hvs, hinner⟩ :=
      declareParams_complete (s := r.entered (.body a)) (hcx.enter_body a) hqs hparams
    obtain ⟨ts, r₂, hts, -⟩ := typeBlock_complete body hinner hbody
    -- Whether an output is missing is asked of the typed statements, and the rules ask
    -- it of the original ones; that the two agree is part of soundness.
    obtain ⟨_, -, -, hany⟩ := typeBlock_sound body hinner hts
    have hrequired : (τ == .none || Program.anyOutput ts) = true := by
      by_cases hτ : τ = .none
      · rw [hτ]
        rfl
      · rw [hany.2 (hout hτ), Bool.or_true]
    refine ⟨.automate a vs ts, r₂.leftTo r (.body a), ?_, hcx⟩
    simp only [typeStmt, bind_eq_ok, outputType_eq_ok, paramTypes_eq_ok, fresh_eq_ok,
      declare_eq_ok, log_eq_ok, inScope_eq_ok, require_eq_ok, pure_eq_ok]
    exact ⟨τ, s, ⟨houtput, rfl⟩, qs, s, ⟨hqs, rfl⟩, s.next, _, ⟨rfl, rfl⟩, (), _, ⟨hsees, rfl⟩,
      (), r, rfl, (vs, ts), _, ⟨r₂, ⟨vs, r₁, hvs, ts, r₂, hts, rfl, rfl⟩, rfl⟩, (), _,
      ⟨hrequired, rfl⟩, rfl, rfl⟩
  | .call f args callSpan span, s, π, _, h, .call hmem hs hall => by
    obtain ⟨a, ha, rfl, rfl⟩ := h.find?_of_auto hmem
    obtain ⟨ts, hts, rfl⟩ := typeExprs_complete h args hs
    have hlength := hasTypes_length hs
    rw [List.length_map] at hlength
    refine ⟨.call a ts, s, ?_, h⟩
    simp only [typeStmt, bind_eq_ok, callee_eq_ok, pure_eq_ok]
    exact ⟨a, s, ⟨ha, rfl⟩, ts, s, hts, (), s,
      (checkCall_eq_ok ((List.length_map _).trans hlength)).2 ⟨forall₂_takes_iff.1 hall, rfl⟩,
      rfl, rfl⟩
  | .output none span, s, π, _, h, .outputNone hτ => by
    obtain ⟨a, ha, hty⟩ := h.automation_of_output hτ
    refine ⟨.output none .none, s, ?_, h⟩
    simp only [typeStmt, bind_eq_ok, enclosing_eq_ok, require_eq_ok, pure_eq_ok, beq_iff_eq]
    exact ⟨a, s, ⟨ha, rfl⟩, (), s, ⟨hty, rfl⟩, trivial, rfl⟩
  | .output (some value) span, s, π, _, h, .output hτ hnone hvalue => by
    obtain ⟨a, ha, rfl⟩ := h.automation_of_output hτ
    obtain ⟨e, he, hty⟩ := typeExpr_complete h value hvalue
    refine ⟨.output (some e) e.ty, s, ?_, h⟩
    simp only [typeStmt, bind_eq_ok, enclosing_eq_ok, require_eq_ok, pure_eq_ok,
      Bool.and_eq_true, beq_iff_eq, bne_iff_ne]
    exact ⟨a, s, ⟨ha, rfl⟩, e, s, he, (), s, ⟨⟨hnone, hty⟩, rfl⟩, rfl, rfl⟩
  | .ifElse test body none span, s, π, _, h, .ifThen htest htruth hbody => by
    obtain ⟨e, he⟩ := typeTest_complete h htest htruth
    obtain ⟨ts, r, hts, hr⟩ := typeBlock_complete body h hbody
    refine ⟨.ifElse e ts none, r, ?_, hr⟩
    simp only [typeStmt, bind_eq_ok, pure_eq_ok]
    exact ⟨e, s, he, ts, r, hts, rfl, rfl⟩
  | .ifElse test body (some alternate) span, s, π, _, h, .ifElse htest htruth hbody halternate => by
    obtain ⟨e, he⟩ := typeTest_complete h htest htruth
    obtain ⟨ts, r, hts, hr⟩ := typeBlock_complete body h hbody
    obtain ⟨ts', r', hts', hr'⟩ := typeBlock_complete alternate hr halternate
    refine ⟨.ifElse e ts (some ts'), r', ?_, hr'⟩
    simp only [typeStmt, bind_eq_ok, pure_eq_ok]
    exact ⟨e, s, he, ts, r, hts, ts', r', hts', rfl, rfl⟩
  | .loopWhile test body span, s, π, _, h, .loopWhile htest htruth hbody => by
    obtain ⟨e, he⟩ := typeTest_complete h htest htruth
    obtain ⟨ts, r, hts, -⟩ := typeBlock_complete body (s := s.entered .loop) h.enter_loop hbody
    refine ⟨.loopWhile e ts, r.leftTo s .loop, ?_, h⟩
    simp only [typeStmt, bind_eq_ok, inScope_eq_ok, pure_eq_ok]
    exact ⟨e, s, he, ts, _, ⟨r, hts, rfl⟩, rfl, rfl⟩
  | .loopOver x list body span, s, π, _, h, .loopOver hexpr hlist hvisible hbody => by
    obtain ⟨e, he, rfl⟩ := typeExpr_complete h list hexpr
    have hsees := h.sees_eq_false_iff.2 hvisible
    let v : Variable := ⟨s.next, x.text, false, .any, false⟩
    obtain ⟨ts, r, hts, -⟩ := typeBlock_complete body
      (s := (s.entered .loop).numbered.declared x.text (.var v))
      (h.enter_loop.declareVariable v hsees) hbody
    refine ⟨.loopOver v e ts, r.leftTo s .loop, ?_, h⟩
    simp only [typeStmt, bind_eq_ok, demand_eq_ok, inScope_eq_ok, declareVariable_eq_ok,
      pure_eq_ok, allows_list_iff]
    exact ⟨e, s, he, (), s, ⟨hlist, rfl⟩, (v, ts), _,
      ⟨r, ⟨v, _, ⟨hsees, rfl, rfl⟩, ts, r, hts, rfl, rfl⟩, rfl⟩, rfl, rfl⟩
  | .breakLoop span, s, π, _, h, .breakLoop hloop => by
    refine ⟨.breakLoop, s, ?_, h⟩
    simp only [typeStmt, bind_eq_ok, context_eq_ok, require_eq_ok, pure_eq_ok]
    exact ⟨_, s, ⟨rfl, rfl⟩, (), s, ⟨h.inLoop.trans hloop, rfl⟩, trivial, rfl⟩

/-- A block that is legal is typed. -/
theorem typeBlock_complete :
    ∀ (b : Surface.Block) {s : State} {π : Place} {after : Names}, Agrees s.context π →
      LegalAll π b.stmts after →
      ∃ ts r, typeBlock b s = .ok ts r ∧ Agrees r.context (π.with after)
  | .mk stmts _, s, π, _, h, hstmts => by
    obtain ⟨ts, r, hts, hr⟩ := typeStmts_complete stmts h hstmts
    exact ⟨ts, r, by rw [typeBlock, hts], hr⟩

/-- Statements that are legal are typed. -/
theorem typeStmts_complete :
    ∀ (ss : List Surface.Stmt) {s : State} {π : Place} {after : Names}, Agrees s.context π →
      LegalAll π ss after → ∃ ts r, typeStmts ss s = .ok ts r ∧ Agrees r.context (π.with after)
  | [], s, π, _, h, .nil => ⟨[], s, by rw [typeStmts]; rfl, h⟩
  | st :: ss, s, π, _, h, .cons hst hss => by
    obtain ⟨t, r, ht, hr⟩ := typeStmt_complete st h hst
    obtain ⟨ts, r', hts, hr'⟩ := typeStmts_complete ss hr hss
    refine ⟨t :: ts, r', ?_, hr'⟩
    simp only [typeStmts, bind_eq_ok, pure_eq_ok]
    exact ⟨t, r, ht, ts, r', hts, rfl, rfl⟩

end

/-! ## Programs -/

theorem agrees_empty : Agrees Context.empty ⟨[], false, none⟩ where
  find x b := by
    constructor
    · intro h
      cases h
    · rintro ⟨e, he, -⟩
      cases he
  inLoop := rfl
  output := rfl

/-- At the start of a program exactly the names of the language are visible. -/
theorem agrees_start : Agrees (State.start Prelude.standard).context ⟨standard, false, none⟩ :=
  agrees_empty.declareAll Prelude.standard (fun _ _ => rfl) (by decide)

/-- A program is typed if its statements are. -/
theorem run_ok_iff {entities : List Entity} {stmts : List Surface.Stmt} :
    (∃ program, (run entities stmts).1 = .ok program) ↔
      ∃ ts r, typeStmts stmts (.start entities) = .ok ts r := by
  rw [run]
  constructor
  · rintro ⟨program, h⟩
    cases hp : typeProgram stmts (.start entities) with
    | ok p r =>
      obtain ⟨ts, r', hts, -⟩ := bind_eq_ok.1 hp
      exact ⟨ts, r', hts⟩
    | error fault r =>
      rw [hp] at h
      cases h
  · rintro ⟨ts, r, hts⟩
    have hp : typeProgram stmts (.start entities) = .ok ⟨ts⟩ r := bind_eq_ok.2 ⟨ts, r, hts, rfl⟩
    rw [hp]
    exact ⟨⟨ts⟩, rfl⟩

/-- Typing accepts exactly the programs that are well formed by the static rules. -/
theorem run_ok_iff_wellFormed (stmts : List Surface.Stmt) :
    (∃ program, (run Prelude.standard stmts).1 = .ok program) ↔ WellFormed stmts := by
  rw [run_ok_iff]
  constructor
  · rintro ⟨ts, r, hts⟩
    obtain ⟨after, hlegal, -⟩ := typeStmts_sound stmts agrees_start hts
    exact ⟨after, hlegal⟩
  · rintro ⟨after, hlegal⟩
    obtain ⟨ts, r, hts, -⟩ := typeStmts_complete stmts agrees_start hlegal
    exact ⟨ts, r, hts⟩

end Typing

end Toal
