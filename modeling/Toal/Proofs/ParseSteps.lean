import Toal.Proofs.Grammar
import Toal.Surface.Parse.Stmt

/-!
# When a step of parsing succeeds

A parser *reads* something if it succeeds with it and leaves the tokens that
follow (`Reads`). For each way of putting parsers together this is what reading
means in terms of the parts, and for each parser that looks at tokens directly it
is what the tokens are. Proofs about the parsers of the grammar take them apart
with these equivalences.
-/

namespace Toal.Surface

open Grammar

variable {α β : Type} {n : Nat} {ts rest : List Token}

/-- The parser succeeds with `a` and leaves the tokens `rest`. -/
def Reads (p : Except Stuck (Parsed α n)) (a : α) (rest : List Token) : Prop :=
  ∃ h, p = .ok ⟨a, rest, h⟩

/-- The parser finds `a` there and leaves the tokens `rest`. -/
def Finds (p : Attempt α ts) (a : α) (rest : List Token) : Prop :=
  ∃ h, p = .ok (some ⟨a, rest, h⟩)

/-! ## Combinations -/

@[simp]
theorem not_reads_error {stuck : Stuck} {a : α} :
    ¬Reads (.error stuck : Except Stuck (Parsed α n)) a rest := by
  rintro ⟨_, h⟩
  cases h

/-- Where nothing is read, all tokens are left. -/
@[simp]
theorem reads_done {a b : α} : Reads (Outcome?.done a ts) b rest ↔ a = b ∧ ts = rest := by
  constructor
  · rintro ⟨_, h⟩
    cases h
    exact ⟨rfl, rfl⟩
  · rintro ⟨rfl, rfl⟩
    exact ⟨_, rfl⟩

/-- The parsed with `f` applied to what was read and another bound. -/
def Parsed.change {m : Nat} (f : α → β) (hle : n ≤ m) (parsed : Parsed α n) : Parsed β m :=
  ⟨f parsed.value, parsed.rest, Nat.lt_of_lt_of_le parsed.lt hle⟩

/-- What a changed parser reads is the change of what the parser reads. -/
theorem reads_change {m : Nat} {f : α → β} {hle : n ≤ m} {p : Except Stuck (Parsed α n)} {b : β} :
    Reads (p.map (Parsed.change f hle)) b rest ↔ ∃ a, Reads p a rest ∧ f a = b := by
  cases p with
  | error stuck =>
    constructor
    · rintro ⟨_, h⟩
      cases h
    · rintro ⟨_, ⟨_, h⟩, _⟩
      cases h
  | ok parsed =>
    constructor
    · rintro ⟨_, h⟩
      cases h
      exact ⟨parsed.value, ⟨parsed.lt, rfl⟩, rfl⟩
    · rintro ⟨a, ⟨_, h⟩, rfl⟩
      cases h
      exact ⟨_, rfl⟩

/-! The ways of reading on that have no second parser change the parsed. -/

theorem Outcome.map_eq_change {f : α → β} {p : Outcome α ts} :
    p.map f = Except.map (Parsed.change f (Nat.le_refl _)) p := by
  cases p <;> rfl

theorem Outcome?.map_eq_change {f : α → β} {p : Outcome? α ts} :
    p.map f = Except.map (Parsed.change f (Nat.le_refl _)) p := by
  cases p <;> rfl

theorem Outcome.after_eq_change {p : Outcome α ts} {t : Token} :
    p.after (t := t) = Except.map (Parsed.change id (Nat.le_succ _)) p := by
  cases p <;> rfl

theorem Outcome?.after_eq_change {p : Outcome? α ts} {t : Token} :
    p.after (t := t) = Except.map (Parsed.change id (Nat.le_refl _)) p := by
  cases p <;> rfl

theorem Outcome.weak_eq_change {p : Outcome α ts} :
    p.weak = Except.map (Parsed.change id (Nat.le_succ _)) p := by
  cases p <;> rfl

@[simp]
theorem reads_map {f : α → β} {p : Outcome α ts} {b : β} :
    Reads (p.map f) b rest ↔ ∃ a, Reads p a rest ∧ f a = b := by
  rw [Outcome.map_eq_change, reads_change]

@[simp]
theorem reads_map? {f : α → β} {p : Outcome? α ts} {b : β} :
    Reads (p.map f) b rest ↔ ∃ a, Reads p a rest ∧ f a = b := by
  rw [Outcome?.map_eq_change, reads_change]

/-- Reading after a token that has been taken. -/
@[simp]
theorem reads_after {p : Outcome α ts} {t : Token} {a : α} :
    Reads (p.after (t := t)) a rest ↔ Reads p a rest := by
  rw [Outcome.after_eq_change, reads_change]
  simp only [id, exists_eq_right]

/-- Weakening the bound changes nothing that is read. -/
@[simp]
theorem reads_weak {p : Outcome α ts} {a : α} : Reads p.weak a rest ↔ Reads p a rest := by
  rw [Outcome.weak_eq_change, reads_change]
  simp only [id, exists_eq_right]

@[simp]
theorem reads_after? {p : Outcome? α ts} {t : Token} {a : α} :
    Reads (p.after (t := t)) a rest ↔ Reads p a rest :=
  Iff.rfl

/-- Reading on with `next` after `p`, whatever the bounds are. -/
def chain {k : Nat} {m : List Token → Nat} (p : Except Stuck (Parsed α n))
    (next : α → (rest : List Token) → rest.length < n → Except Stuck (Parsed β (m rest)))
    (hle : ∀ rest : List Token, rest.length < n → m rest ≤ k) : Except Stuck (Parsed β k) :=
  p.bind fun parsed =>
    (next parsed.value parsed.rest parsed.lt).map (Parsed.change id (hle _ parsed.lt))

/-- A chain reads what its second parser reads from where the first stops. -/
theorem reads_chain {k : Nat} {m : List Token → Nat} {p : Except Stuck (Parsed α n)}
    {next : α → (rest : List Token) → rest.length < n → Except Stuck (Parsed β (m rest))}
    {hle : ∀ rest : List Token, rest.length < n → m rest ≤ k} {b : β} :
    Reads (chain p next hle) b rest ↔
      ∃ a mid, ∃ h : mid.length < n, Reads p a mid ∧ Reads (next a mid h) b rest := by
  cases p with
  | error stuck =>
    constructor
    · rintro ⟨_, h⟩
      cases h
    · rintro ⟨_, _, _, ⟨_, h⟩, _⟩
      cases h
  | ok parsed =>
    obtain ⟨a, mid, hmid⟩ := parsed
    change Reads ((next a mid hmid).map _) b rest ↔ _
    rw [reads_change]
    constructor
    · rintro ⟨_, hnext, rfl⟩
      exact ⟨a, mid, hmid, ⟨hmid, rfl⟩, hnext⟩
    · rintro ⟨_, _, _, ⟨_, h⟩, hnext⟩
      cases h
      exact ⟨b, hnext, rfl⟩

/-! Reading on with a second parser is a chain. -/

theorem Outcome.andThen_eq_chain {p : Outcome α ts}
    {next : α → (rest : List Token) → rest.length < ts.length → Outcome β rest} :
    p.andThen next = chain p next fun _ hlt => Nat.le_of_lt hlt := by
  cases p with
  | error stuck => rfl
  | ok parsed =>
    rw [Outcome.andThen, chain, Except.bind]
    cases next parsed.value parsed.rest parsed.lt <;> rfl

theorem Outcome.andMaybe_eq_chain {p : Outcome α ts}
    {next : α → (rest : List Token) → rest.length < ts.length → Outcome? β rest} :
    p.andMaybe next = chain p next fun _ hlt => hlt := by
  cases p with
  | error stuck => rfl
  | ok parsed =>
    rw [Outcome.andMaybe, chain, Except.bind]
    cases next parsed.value parsed.rest parsed.lt <;> rfl

theorem Outcome?.andThen_eq_chain {p : Outcome? α ts}
    {next : α → (rest : List Token) → rest.length < ts.length + 1 → Outcome β rest} :
    p.andThen next = chain p next fun _ hlt => Nat.le_of_lt_succ hlt := by
  cases p with
  | error stuck => rfl
  | ok parsed =>
    rw [Outcome?.andThen, chain, Except.bind]
    cases next parsed.value parsed.rest parsed.lt <;> rfl

/-- Something is read by two parsers in sequence if the second reads it from where the
    first stops. -/
@[simp]
theorem reads_andThen {p : Outcome α ts}
    {next : α → (rest : List Token) → rest.length < ts.length → Outcome β rest} {b : β} :
    Reads (p.andThen next) b rest ↔
      ∃ a mid, ∃ h : mid.length < ts.length, Reads p a mid ∧ Reads (next a mid h) b rest := by
  rw [Outcome.andThen_eq_chain, reads_chain]

@[simp]
theorem reads_andMaybe {p : Outcome α ts}
    {next : α → (rest : List Token) → rest.length < ts.length → Outcome? β rest} {b : β} :
    Reads (p.andMaybe next) b rest ↔
      ∃ a mid, ∃ h : mid.length < ts.length, Reads p a mid ∧ Reads (next a mid h) b rest := by
  rw [Outcome.andMaybe_eq_chain, reads_chain]

@[simp]
theorem reads_andThen? {p : Outcome? α ts}
    {next : α → (rest : List Token) → rest.length < ts.length + 1 → Outcome β rest} {b : β} :
    Reads (p.andThen next) b rest ↔
      ∃ a mid, ∃ h : mid.length < ts.length + 1, Reads p a mid ∧ Reads (next a mid h) b rest := by
  rw [Outcome?.andThen_eq_chain, reads_chain]

/-! ## What may be there -/

@[simp]
theorem finds_none {a : α} : ¬Finds (.ok none : Attempt α ts) a rest := by
  rintro ⟨_, h⟩
  cases h

/-- What is found is what is read. -/
@[simp]
theorem finds_found {p : Outcome α ts} {a : α} : Finds (.found p) a rest ↔ Reads p a rest := by
  cases p with
  | error stuck =>
    constructor
    · rintro ⟨_, h⟩
      cases h
    · rintro ⟨_, h⟩
      cases h
  | ok parsed =>
    constructor
    · rintro ⟨h, heq⟩
      cases heq
      exact ⟨h, rfl⟩
    · rintro ⟨h, heq⟩
      cases heq
      exact ⟨h, rfl⟩

/-- An attempt is followed by what is to follow it if something is found, and otherwise
    nothing is read. -/
@[simp]
theorem reads_andThen_attempt {p : Attempt α ts} {otherwise b : β}
    {next : α → (rest : List Token) → rest.length < ts.length → Outcome β rest} :
    Reads (p.andThen otherwise next) b rest ↔
      (p = .ok none ∧ otherwise = b ∧ ts = rest) ∨
        ∃ a mid, ∃ h : mid.length < ts.length, Finds p a mid ∧ Reads (next a mid h) b rest := by
  match p with
  | .error stuck =>
    constructor
    · rintro ⟨_, h⟩
      cases h
    · rintro (⟨h, _⟩ | ⟨_, _, _, ⟨_, h⟩, _⟩)
      · cases h
      · cases h
  | .ok none =>
    change Reads (Outcome?.done otherwise ts) b rest ↔ _
    simp
  | .ok (some parsed) =>
    change Reads (Outcome.andThen (.ok parsed) next).weak b rest ↔ _
    rw [reads_weak, reads_andThen]
    constructor
    · rintro ⟨a, mid, h, ⟨hmid, heq⟩, hnext⟩
      cases heq
      exact .inr ⟨a, mid, h, ⟨hmid, rfl⟩, hnext⟩
    · rintro (⟨h, _⟩ | ⟨a, mid, h, ⟨hmid, heq⟩, hnext⟩)
      · cases h
      · cases heq
        exact ⟨a, mid, h, ⟨hmid, rfl⟩, hnext⟩

/-! ## Tokens -/

/-- A token is read exactly if it is there. -/
@[simp]
theorem reads_token {kind : Token.Kind} {what : Expectation} {t : Token} :
    Reads (token kind what ts) t rest ↔ ts = t :: rest ∧ t.kind = kind := by
  cases ts with
  | nil => simp [token]
  | cons u us =>
    rw [token]
    split
    · simp only [reads_after?, reads_done, List.cons.injEq]
      constructor
      · rintro ⟨rfl, rfl⟩
        exact ⟨⟨rfl, rfl⟩, ‹_›⟩
      · rintro ⟨⟨rfl, rfl⟩, -⟩
        exact ⟨rfl, rfl⟩
    · simp only [not_reads_error, false_iff]
      rintro ⟨h, hkind⟩
      cases h
      exact absurd hkind ‹_›

/-- A token is found exactly if it is there. -/
theorem finds_token? {kind : Token.Kind} {t : Token} :
    Finds (token? kind ts) t rest ↔ ts = t :: rest ∧ t.kind = kind := by
  cases ts with
  | nil =>
    refine iff_of_false finds_none ?_
    rintro ⟨h, -⟩
    cases h
  | cons u us =>
    rw [token?]
    split
    · simp only [finds_found, reads_after?, reads_done, List.cons.injEq]
      constructor
      · rintro ⟨rfl, rfl⟩
        exact ⟨⟨rfl, rfl⟩, ‹_›⟩
      · rintro ⟨⟨rfl, rfl⟩, -⟩
        exact ⟨rfl, rfl⟩
    · simp only [finds_none, false_iff]
      rintro ⟨h, hkind⟩
      cases h
      exact absurd hkind ‹_›

/-- A token of another kind is not found. -/
theorem token?_eq_none {kind : Token.Kind} (h : kind? ts ≠ some kind) :
    token? kind ts = .ok none := by
  cases ts with
  | nil => rfl
  | cons t ts => exact if_neg fun hkind => h (congrArg some hkind)

@[simp]
theorem reads_keyword {k : Keyword} {t : Token} :
    Reads (keyword k ts) t rest ↔ ts = t :: rest ∧ t.kind = .keyword k :=
  reads_token

@[simp]
theorem reads_semicolon {t : Token} :
    Reads (semicolon ts) t rest ↔ ts = t :: rest ∧ t.kind = .semicolon :=
  reads_token

/-- A name is read exactly if it is there. -/
@[simp]
theorem reads_ident {what : Expectation} {i : Ident} :
    Reads (ident what ts) i rest ↔ ∃ t, (ts = t :: rest ∧ t.kind = .ident) ∧ identOf t = i := by
  rw [ident, reads_map]
  simp only [reads_token, identOf]

/-! ## What is not there

The parsers that look at tokens directly look at no more than the next two. -/

/-- A token of the kind is there if the next one is of that kind. -/
theorem exists_of_kind? {k : Token.Kind} (h : kind? ts = some k) :
    ∃ text span rest, ts = ⟨k, text, span⟩ :: rest := by
  cases ts with
  | nil => cases h
  | cons t ts =>
    cases h
    exact ⟨t.text, t.span, ts, rfl⟩

/-- Where a token of another kind is next, the parser is stuck. -/
theorem token_eq_error {kind : Token.Kind} {what : Expectation} (h : kind? ts ≠ some kind) :
    token kind what ts = .error (.expected what ts) := by
  cases ts with
  | nil => rfl
  | cons t ts => exact if_neg fun hkind => h (congrArg some hkind)

/-- A relation that is none of the longer ones is equality. -/
theorem relation_eq_done (hgreater : kind? ts ≠ some (.keyword .greater))
    (hless : kind? ts ≠ some (.keyword .less)) (hnot : kind? ts ≠ some (.keyword .not)) :
    relation ts = .done .eq ts := by
  unfold relation
  split
  · exact absurd rfl hgreater
  · exact absurd rfl hless
  · exact absurd rfl hnot
  · rfl

/-- There is no comparison where its first word is not. -/
theorem comparison?_eq_none (h : kind? ts ≠ some (.keyword .is)) : comparison? ts = .ok none := by
  unfold comparison?
  split
  · exact absurd rfl h
  · rfl

theorem sumOp?_eq_none (hplus : kind? ts ≠ some (.keyword .plus))
    (hminus : kind? ts ≠ some (.keyword .minus)) : sumOp? ts = .ok none := by
  unfold sumOp?
  split
  · exact absurd rfl hplus
  · exact absurd rfl hminus
  · rfl

theorem productOp?_eq_none (htimes : kind? ts ≠ some (.keyword .times))
    (hdivided : kind? ts ≠ some (.keyword .divided)) (hmod : kind? ts ≠ some (.keyword .mod)) :
    productOp? ts = .ok none := by
  unfold productOp?
  split
  · exact absurd rfl htimes
  · exact absurd rfl hdivided
  · exact absurd rfl hmod
  · rfl

/-- There is no exponent without both words before it. -/
theorem powerOp?_eq_none
    (h : kind? ts = some (.keyword .to_) → kind? ts.tail ≠ some (.keyword .the)) :
    powerOp? ts = .ok none := by
  unfold powerOp?
  split
  · exact absurd rfl (h rfl)
  · rfl

/-- A name without a parenthesis is not a call. -/
theorem primary_eq_done {text : String} {span : Source.Span} (h : kind? ts ≠ some .openParen) :
    primary (⟨.ident, text, span⟩ :: ts) = (Outcome?.done (.name ⟨text, span⟩) ts).after := by
  rw [primary.eq_def]
  cases ts with
  | nil => rfl
  | cons t ts =>
    obtain ⟨k, _, _⟩ := t
    cases k with
    | openParen => exact absurd rfl h
    | _ => rfl

/-- A name without a parenthesis does not begin a statement. -/
theorem stmt_eq_error {text : String} {span : Source.Span} (h : kind? ts ≠ some .openParen) :
    stmt (⟨.ident, text, span⟩ :: ts) =
      .error (.expected .statement (⟨.ident, text, span⟩ :: ts)) := by
  rw [stmt.eq_def]
  cases ts with
  | nil => rfl
  | cons t ts =>
    obtain ⟨k, _, _⟩ := t
    cases k with
    | openParen => exact absurd rfl h
    | _ => rfl

/-- There are two kinds of loops. -/
theorem stmt_eq_loopKind {text : String} {span : Source.Span}
    (hwhile : kind? ts ≠ some (.keyword .while_)) (hover : kind? ts ≠ some (.keyword .over_)) :
    stmt (⟨.keyword .loop, text, span⟩ :: ts) = .error (.expected .loopKind ts) := by
  rw [stmt.eq_def]
  cases ts with
  | nil => rfl
  | cons t ts =>
    obtain ⟨k, _, _⟩ := t
    cases k with
    | keyword k =>
      cases k with
      | while_ => exact absurd rfl hwhile
      | over_ => exact absurd rfl hover
      | _ => rfl
    | _ => rfl

/-- The words that begin longer statements are dealt with before the simple ones. -/
theorem stmt_eq_simple {k : Keyword} {text : String} {start : Source.Span}
    (hautomate : k ≠ .automate) (hif : k ≠ .if_) (hloop : k ≠ .loop) :
    stmt (⟨.keyword k, text, start⟩ :: ts) =
      match simple? start k ts with
      | none => .error (.expected .statement (⟨.keyword k, text, start⟩ :: ts))
      | some outcome => outcome.after := by
  rw [stmt.eq_def]
  cases k with
  | automate => exact absurd rfl hautomate
  | if_ => exact absurd rfl hif
  | loop => exact absurd rfl hloop
  | _ => rfl

/-- A parameter without a colon has no type. -/
theorem param_eq_ident (h : kind? ts = some .ident → kind? ts.tail ≠ some .colon) :
    param ts = (ident .identifier ts).map fun name => ⟨name, none⟩ := by
  unfold param
  split
  · exact absurd rfl (h rfl)
  · rfl

end Toal.Surface
