import Toal.Proofs.Numerals
import Toal.Proofs.ParseSteps

/-!
# Where the parser stands

What a parser leaves, and where it gets stuck, is the end of the tokens it was
given: it never looks past them and never goes back. If the numerals among them
have values it does not get stuck on a numeral either. A parser with both
properties *stays* within its tokens (`Stays`). Parsers that stay can be put
together in all ways there are, and so the parsers of all phrases stay
(`expr_stays`, `stmt_stays`) and the parser of programs does (`parse_error`).
-/

namespace Toal.Surface

variable {α β : Type} {n : Nat} {ts us : List Token}

/-- The numerals among the tokens have values. -/
def Valued (ts : List Token) : Prop :=
  ∀ t ∈ ts, t.HasValue

theorem Valued.of_suffix (h : Valued ts) (hs : us <:+ ts) : Valued us :=
  fun t ht => h t (hs.subset ht)

/-- The parser got stuck at an end of the tokens, and not on a numeral. -/
def Stuck.Within (ts : List Token) : Stuck → Prop
  | .expected _ rest => rest <:+ ts
  | .invalidNumeral .. => False

/-- If the numerals among the tokens have values, then what is read ends at an
    end of the tokens, or the parser gets stuck there. -/
def Stays (ts : List Token) (p : Except Stuck (Parsed α n)) : Prop :=
  Valued ts → match p with
    | .ok parsed => parsed.rest <:+ ts
    | .error stuck => stuck.Within ts

/-- The same about something that may be there or not. -/
def StaysIf (p : Attempt α ts) : Prop :=
  Valued ts → match p with
    | .ok none => True
    | .ok (some parsed) => parsed.rest <:+ ts
    | .error stuck => stuck.Within ts

/-- A parser that is stuck within some tokens is stuck within all that end with these. -/
theorem Stuck.Within.mono {stuck : Stuck} (h : stuck.Within us) (hs : us <:+ ts) :
    stuck.Within ts := by
  cases stuck with
  | expected what rest => exact List.IsSuffix.trans h hs
  | invalidNumeral t rest => exact h.elim

/-! ## Combinations -/

/-- A parser that stays within some tokens stays within all that end with these. -/
theorem Stays.mono {p : Except Stuck (Parsed α n)} (h : Stays us p) (hs : us <:+ ts) :
    Stays ts p := by
  intro hv
  have hp := h (hv.of_suffix hs)
  cases p with
  | error stuck => exact Stuck.Within.mono hp hs
  | ok parsed => exact List.IsSuffix.trans hp hs

/-- A parser that expects something else stays where it is. -/
theorem stays_expected (what : Expectation) (hs : us <:+ ts) :
    Stays ts (.error (.expected what us) : Except Stuck (Parsed α n)) :=
  fun _ => hs

theorem stays_done (a : α) (ts : List Token) : Stays ts (Outcome?.done a ts) :=
  fun _ => List.suffix_rfl

/-- A parser stays whatever becomes of what it reads. -/
theorem Stays.change {m : Nat} {f : α → β} {hle : n ≤ m} {p : Except Stuck (Parsed α n)}
    (h : Stays ts p) : Stays ts (p.map (Parsed.change f hle)) := by
  cases p with
  | error stuck => exact h
  | ok parsed => exact h

/-- If a parser stays, and so does what goes on from where it ends, then the two stay in
    sequence. -/
theorem Stays.chain {k : Nat} {m : List Token → Nat} {p : Except Stuck (Parsed α n)}
    {next : α → (rest : List Token) → rest.length < n → Except Stuck (Parsed β (m rest))}
    {hle : ∀ rest : List Token, rest.length < n → m rest ≤ k} (hp : Stays ts p)
    (hnext : ∀ a rest h, Stays rest (next a rest h)) : Stays ts (chain p next hle) := by
  cases p with
  | error stuck => exact hp
  | ok parsed =>
    intro hv
    exact ((hnext parsed.value parsed.rest parsed.lt).mono (hp hv)).change hv

theorem Stays.map {f : α → β} {p : Outcome α ts} (h : Stays ts p) : Stays ts (p.map f) := by
  rw [Outcome.map_eq_change]
  exact h.change

theorem Stays.map? {f : α → β} {p : Outcome? α ts} (h : Stays ts p) : Stays ts (p.map f) := by
  rw [Outcome?.map_eq_change]
  exact h.change

theorem Stays.after {t : Token} {p : Outcome α ts} (h : Stays ts p) :
    Stays (t :: ts) (p.after (t := t)) := by
  rw [Outcome.after_eq_change]
  exact h.change.mono (List.suffix_cons t ts)

theorem Stays.after? {t : Token} {p : Outcome? α ts} (h : Stays ts p) :
    Stays (t :: ts) (p.after (t := t)) :=
  h.mono (List.suffix_cons t ts)

theorem Stays.weak {p : Outcome α ts} (h : Stays ts p) : Stays ts p.weak := by
  rw [Outcome.weak_eq_change]
  exact h.change

/-- Parsers that stay do so in sequence. -/
theorem Stays.andThen {p : Outcome α ts}
    {next : α → (rest : List Token) → rest.length < ts.length → Outcome β rest}
    (hp : Stays ts p) (hnext : ∀ a rest h, Stays rest (next a rest h)) :
    Stays ts (p.andThen next) := by
  rw [Outcome.andThen_eq_chain]
  exact hp.chain hnext

/-- Parsers that stay do so in sequence, if the second may read nothing. -/
theorem Stays.andMaybe {p : Outcome α ts}
    {next : α → (rest : List Token) → rest.length < ts.length → Outcome? β rest}
    (hp : Stays ts p) (hnext : ∀ a rest h, Stays rest (next a rest h)) :
    Stays ts (p.andMaybe next) := by
  rw [Outcome.andMaybe_eq_chain]
  exact hp.chain hnext

/-- Parsers that stay do so in sequence, if the first may read nothing. -/
theorem Stays.andThen? {p : Outcome? α ts}
    {next : α → (rest : List Token) → rest.length < ts.length + 1 → Outcome β rest}
    (hp : Stays ts p) (hnext : ∀ a rest h, Stays rest (next a rest h)) :
    Stays ts (p.andThen next) := by
  rw [Outcome?.andThen_eq_chain]
  exact hp.chain hnext

theorem staysIf_none : StaysIf (.ok none : Attempt α ts) :=
  fun _ => trivial

theorem Stays.found {p : Outcome α ts} (h : Stays ts p) : StaysIf (.found p) := by
  cases p with
  | error stuck => exact h
  | ok parsed => exact h

/-- An attempt that stays and what follows it stay. -/
theorem StaysIf.andThen {p : Attempt α ts} {otherwise : β}
    {next : α → (rest : List Token) → rest.length < ts.length → Outcome β rest}
    (hp : StaysIf p) (hnext : ∀ a rest h, Stays rest (next a rest h)) :
    Stays ts (p.andThen otherwise next) := by
  match p with
  | .error stuck => exact hp
  | .ok none => exact stays_done otherwise ts
  | .ok (some parsed) =>
    have hparsed : Stays ts (.ok parsed : Outcome α ts) := hp
    exact (hparsed.andThen hnext).weak

/-! ## Tokens -/

/-- A token is read, or the parser is stuck before it. -/
theorem token_stays (kind : Token.Kind) (what : Expectation) (ts : List Token) :
    Stays ts (token kind what ts) := by
  cases ts with
  | nil => exact stays_expected what List.suffix_rfl
  | cons t ts =>
    rw [token]
    split
    · exact (stays_done t ts).after?
    · exact stays_expected what List.suffix_rfl

/-- A token that may be there is read, or nothing is. -/
theorem token?_stays (kind : Token.Kind) (ts : List Token) : StaysIf (token? kind ts) := by
  cases ts with
  | nil => exact staysIf_none
  | cons t ts =>
    rw [token?]
    split
    · exact (stays_done t ts).after?.found
    · exact staysIf_none

theorem keyword_stays (k : Keyword) (ts : List Token) : Stays ts (keyword k ts) :=
  token_stays _ _ ts

theorem semicolon_stays (ts : List Token) : Stays ts (semicolon ts) :=
  token_stays _ _ ts

theorem ident_stays (what : Expectation) (ts : List Token) : Stays ts (ident what ts) :=
  (token_stays _ _ ts).map

/-! ## Expressions -/

theorem orEqualTo_stays (ts : List Token) : Stays ts (orEqualTo ts) :=
  (token?_stays _ ts).andThen fun _ rest _ =>
    (keyword_stays .equal rest).andThen fun _ rest _ => (keyword_stays .to_ rest).map

theorem relation_stays (ts : List Token) : Stays ts (relation ts) := by
  unfold relation
  split
  · exact ((keyword_stays .than _).andMaybe fun _ rest _ => (orEqualTo_stays rest).map?).after.weak
  · exact ((keyword_stays .than _).andMaybe fun _ rest _ => (orEqualTo_stays rest).map?).after.weak
  · exact (stays_done _ _).after?.weak
  · exact stays_done _ _

theorem comparison?_stays (ts : List Token) : StaysIf (comparison? ts) := by
  unfold comparison?
  split
  · exact (relation_stays _).after?.found
  · exact staysIf_none

theorem sumOp?_stays (ts : List Token) : StaysIf (sumOp? ts) := by
  unfold sumOp?
  split
  · exact (stays_done _ _).after?.found
  · exact (stays_done _ _).after?.found
  · exact staysIf_none

theorem productOp?_stays (ts : List Token) : StaysIf (productOp? ts) := by
  unfold productOp?
  split
  · exact (stays_done _ _).after?.found
  · exact (keyword_stays .by_ _).map.after.found
  · exact (stays_done _ _).after?.found
  · exact staysIf_none

theorem powerOp?_stays (ts : List Token) : StaysIf (powerOp? ts) := by
  unfold powerOp?
  split
  · exact (stays_done _ _).after?.after.found
  · exact staysIf_none

mutual

theorem expr_stays (ts : List Token) : Stays ts (expr ts) := by
  rw [expr]
  exact (sum_stays ts).andMaybe fun _ rest _ => (comparison?_stays rest).andThen
    fun _ rest _ => (sum_stays rest).map
termination_by 10 * ts.length + 6
decreasing_by all_goals omega

theorem sum_stays (ts : List Token) : Stays ts (sum ts) := by
  rw [sum]
  exact (product_stays ts).andMaybe fun left rest _ => sumRest_stays left rest
termination_by 10 * ts.length + 5
decreasing_by all_goals omega

theorem sumRest_stays (left : Expr) (ts : List Token) : Stays ts (sumRest left ts) := by
  rw [sumRest]
  exact (sumOp?_stays ts).andThen fun _ rest _ => (product_stays rest).andMaybe
    fun _ rest _ => sumRest_stays _ rest
termination_by 10 * ts.length
decreasing_by all_goals omega

theorem product_stays (ts : List Token) : Stays ts (product ts) := by
  rw [product]
  exact (power_stays ts).andMaybe fun left rest _ => productRest_stays left rest
termination_by 10 * ts.length + 4
decreasing_by all_goals omega

theorem productRest_stays (left : Expr) (ts : List Token) : Stays ts (productRest left ts) := by
  rw [productRest]
  exact (productOp?_stays ts).andThen fun _ rest _ => (power_stays rest).andMaybe
    fun _ rest _ => productRest_stays _ rest
termination_by 10 * ts.length
decreasing_by all_goals omega

theorem power_stays (ts : List Token) : Stays ts (power ts) := by
  rw [power]
  exact (primary_stays ts).andMaybe fun _ rest _ => (powerOp?_stays rest).andThen
    fun _ rest _ => (power_stays rest).map
termination_by 10 * ts.length + 3
decreasing_by all_goals omega

/-- Reading a primary expression stays, as long as numerals have values. -/
theorem primary_stays (ts : List Token) : Stays ts (primary ts) := by
  rw [primary.eq_def]
  split
  · split
    · exact (stays_done _ _).after?
    · next hvalue =>
      -- The numeral is among the tokens, so it has a value after all.
      intro hv
      have hsome := hv _ List.mem_cons_self rfl
      rw [hvalue] at hsome
      cases hsome
  · exact (stays_done _ _).after?
  · exact ((args_stays .closeSquare _).andThen? fun _ rest _ =>
      (token_stays .closeSquare _ rest).map).after
  · exact (callRest_stays _ _).map.after.after
  · exact (stays_done _ _).after?
  · exact ((expr_stays _).andThen fun _ rest _ => (token_stays .closeParen _ rest).map).after
  · exact stays_expected _ List.suffix_rfl
termination_by 10 * ts.length + 2
decreasing_by
  all_goals
    subst_vars
    simp only [List.length_cons]
    omega

theorem callRest_stays (start : Source.Span) (ts : List Token) : Stays ts (callRest start ts) := by
  rw [callRest]
  exact (args_stays .closeParen ts).andThen? fun _ rest _ => (token_stays .closeParen _ rest).map
termination_by 10 * ts.length + 9
decreasing_by all_goals omega

theorem args_stays (close : Token.Kind) (ts : List Token) : Stays ts (args close ts) := by
  rw [args]
  split
  · exact stays_done _ _
  · exact (argList_stays ts).weak
termination_by 10 * ts.length + 8
decreasing_by all_goals omega

theorem argList_stays (ts : List Token) : Stays ts (argList ts) := by
  rw [argList]
  exact (expr_stays ts).andMaybe fun _ rest _ => (token?_stays .comma rest).andThen
    fun _ rest _ => (argList_stays rest).map
termination_by 10 * ts.length + 7
decreasing_by all_goals omega

end

/-! ## Statements -/

theorem param_stays (ts : List Token) : Stays ts (param ts) := by
  unfold param
  split
  · exact (ident_stays _ _).map.after.after
  · exact (ident_stays _ _).map

theorem paramList_stays (ts : List Token) : Stays ts (paramList ts) := by
  rw [paramList]
  exact (param_stays ts).andMaybe fun _ rest _ => (token?_stays .comma rest).andThen
    fun _ rest _ => (paramList_stays rest).map
termination_by ts.length

theorem params_stays (ts : List Token) : Stays ts (params ts) := by
  rw [params]
  split
  · exact stays_done _ _
  · exact (paramList_stays ts).weak

theorem outputType?_stays (ts : List Token) : Stays ts (outputType? ts) :=
  (token?_stays .arrow ts).andThen fun _ rest _ => (ident_stays _ rest).map

theorem outputValue?_stays (ts : List Token) : Stays ts (outputValue? ts) := by
  rw [outputValue?]
  split
  · exact stays_done _ _
  · exact (expr_stays ts).map.weak

theorem declaration_stays (start : Source.Span) (readOnly : Bool) (ts : List Token) :
    Stays ts (declaration start readOnly ts) :=
  (ident_stays _ ts).andThen fun _ rest _ => (keyword_stays .with_ rest).andThen
    fun _ rest _ => (expr_stays rest).andThen fun _ rest _ => (semicolon_stays rest).map

theorem changeTermFirst_stays (start : Source.Span) (op : ArithOp) (joint : Keyword)
    (ts : List Token) : Stays ts (changeTermFirst start op joint ts) :=
  (expr_stays ts).andThen fun _ rest _ => (keyword_stays joint rest).andThen
    fun _ rest _ => (ident_stays _ rest).andThen fun _ rest _ => (semicolon_stays rest).map

theorem changeTargetFirst_stays (start : Source.Span) (op : ArithOp) (ts : List Token) :
    Stays ts (changeTargetFirst start op ts) :=
  (ident_stays _ ts).andThen fun _ rest _ => (keyword_stays .by_ rest).andThen
    fun _ rest _ => (expr_stays rest).andThen fun _ rest _ => (semicolon_stays rest).map

theorem assignment_stays (start : Source.Span) (ts : List Token) :
    Stays ts (assignment start ts) :=
  (ident_stays _ ts).andThen fun _ rest _ => (keyword_stays .to_ rest).andThen
    fun _ rest _ => (expr_stays rest).andThen fun _ rest _ => (semicolon_stays rest).map

theorem raising_stays (start : Source.Span) (ts : List Token) : Stays ts (raising start ts) :=
  (ident_stays _ ts).andThen fun _ rest _ => (keyword_stays .to_ rest).andThen
    fun _ rest _ => (keyword_stays .the rest).andThen fun _ rest _ => (expr_stays rest).andThen
      fun _ rest _ => (semicolon_stays rest).map

theorem simple?_stays {start : Source.Span} {k : Keyword} {outcome : Outcome Stmt ts}
    (h : simple? start k ts = some outcome) : Stays ts outcome := by
  unfold simple? at h
  split at h <;> cases h
  · exact (keyword_stays .make ts).andThen fun _ rest _ => declaration_stays start true rest
  · exact declaration_stays start false ts
  · exact assignment_stays start ts
  · exact changeTermFirst_stays start _ _ ts
  · exact changeTermFirst_stays start _ _ ts
  · exact changeTargetFirst_stays start _ ts
  · exact changeTargetFirst_stays start _ ts
  · exact changeTargetFirst_stays start _ ts
  · exact raising_stays start ts
  · exact (expr_stays ts).andThen fun _ rest _ => (semicolon_stays rest).map
  · exact (outputValue?_stays ts).andThen? fun _ rest _ => (semicolon_stays rest).map
  · exact (semicolon_stays ts).map

mutual

theorem stmt_stays (ts : List Token) : Stays ts (stmt ts) := by
  rw [stmt.eq_def]
  split
  · exact ((ident_stays _ _).andThen fun _ rest _ => (token_stays _ _ rest).andThen
      fun _ rest _ => (params_stays rest).andThen? fun _ rest _ => (token_stays _ _ rest).andThen
        fun _ rest _ => (outputType?_stays rest).andThen? fun _ rest _ =>
          (block_stays rest).map).after
  · exact ((expr_stays _).andThen fun _ rest _ => (block_stays rest).andMaybe
      fun _ rest _ => (token?_stays _ rest).andThen fun _ rest _ => (block_stays rest).map).after
  · exact ((expr_stays _).andThen fun _ rest _ => (block_stays rest).map).after.after
  · exact ((ident_stays _ _).andThen fun _ rest _ => (keyword_stays .in_ rest).andThen
      fun _ rest _ => (expr_stays rest).andThen fun _ rest _ =>
        (block_stays rest).map).after.after
  · exact stays_expected _ (List.suffix_cons _ _)
  · exact ((callRest_stays _ _).andThen fun _ rest _ => (semicolon_stays rest).map).after.after
  · split
    · exact stays_expected _ List.suffix_rfl
    · next outcome hsimple => exact (simple?_stays hsimple).after
  · exact stays_expected _ List.suffix_rfl
termination_by 2 * ts.length
decreasing_by
  all_goals
    subst_vars
    simp only [List.length_cons]
    omega

theorem block_stays (ts : List Token) : Stays ts (block ts) := by
  rw [block]
  exact (token_stays _ _ ts).andThen fun _ rest _ => (blockStmts_stays rest).andThen?
    fun _ rest _ => (token_stays _ _ rest).map
termination_by 2 * ts.length

theorem blockStmts_stays (ts : List Token) : Stays ts (blockStmts ts) := by
  rw [blockStmts]
  split
  · exact stays_done _ _
  · exact ((stmt_stays ts).andMaybe fun _ rest _ => (blockStmts_stays rest).map?).weak
termination_by 2 * ts.length + 1

end

/-! ## Programs -/

/-- Where the parser of programs gets stuck, something was expected at an end of
    the tokens. -/
theorem parse_error {stuck : Stuck} (hv : Valued ts) (h : parse ts = .error stuck) :
    stuck.Within ts := by
  fun_induction parse ts with
  | case1 => cases h
  | case2 t ts stuck' hstmt =>
    cases h
    have hstays := stmt_stays (t :: ts) hv
    rwa [hstmt] at hstays
  | case3 t ts head rest hlt hstmt ih =>
    have hstays := stmt_stays (t :: ts) hv
    rw [hstmt] at hstays
    have hsuffix : rest <:+ t :: ts := hstays
    cases htail : parse rest with
    | ok ss =>
      rw [htail] at h
      cases h
    | error stuck' =>
      rw [htail] at h
      cases h
      exact (ih (hv.of_suffix hsuffix) htail).mono hsuffix

/-- Every statement takes at least one token. -/
theorem length_parse_le {ss : List Stmt} (h : parse ts = .ok ss) : ss.length ≤ ts.length := by
  fun_induction parse ts generalizing ss with
  | case1 =>
    cases h
    exact Nat.le_refl _
  | case2 t ts stuck hstmt => cases h
  | case3 t ts head rest hlt hstmt ih =>
    cases htail : parse rest with
    | error stuck =>
      rw [htail] at h
      cases h
    | ok tail =>
      rw [htail] at h
      cases h
      have hle := ih htail
      rw [List.length_cons]
      omega

end Toal.Surface
