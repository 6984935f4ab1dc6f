import Toal.Proofs.ParseSteps

/-!
# How far the parser looks

A parser decides by the next two tokens, and so what it does depends only on the
tokens it passes and the two after them. A parser is *steady* if this is so
(`Steady`): wherever it stops, the rest can be exchanged for any other that begins
with the same two tokens, and the parser still stops there, with the same result.
Parsers that are steady can be put together in all ways there are, and so the
parsers of all phrases are steady (`expr_tracks`, `stmt_tracks`) and the parser of
programs is (`parse_steady`): where it gets stuck, it does so whatever comes after the
next two tokens (`parse_of_alike`).
-/

namespace Toal.Surface

variable {α β : Type} {n : Nat} {ts us rest : List Token} {t u : Token}

/-! ## Tokens that begin alike -/

/-- The tokens are the same as far as a parser looks ahead. -/
def Alike (ts us : List Token) : Prop :=
  ts.take 2 = us.take 2

theorem Alike.refl (ts : List Token) : Alike ts ts :=
  rfl

/-- Tokens stay alike if the same tokens are put before both. -/
theorem Alike.append {rest' : List Token} (h : Alike rest rest') (used : List Token) :
    Alike (used ++ rest) (used ++ rest') := by
  have htake : rest.take (2 - used.length) = rest'.take (2 - used.length) := by
    have hmin : min (2 - used.length) 2 = 2 - used.length := Nat.min_eq_left (Nat.sub_le _ _)
    rw [← hmin, ← List.take_take, ← List.take_take, h]
  rw [Alike, List.take_append, List.take_append, htake]

/-- Tokens that begin alike have a first token of the same kind. -/
theorem Alike.kind?_eq (h : Alike ts us) : kind? ts = kind? us := by
  have hhead : (ts.take 2).head? = (us.take 2).head? := congrArg List.head? h
  rw [List.head?_take, List.head?_take] at hhead
  exact congrArg (Option.map (·.kind)) hhead

/-- Tokens that begin alike have a second token of the same kind. -/
theorem Alike.kind?_tail_eq (h : Alike ts us) : kind? ts.tail = kind? us.tail := by
  have htail : (ts.take 2)[1]? = (us.take 2)[1]? := congrArg (·[1]?) h
  rw [List.getElem?_take_of_lt Nat.one_lt_two, List.getElem?_take_of_lt Nat.one_lt_two,
    ← List.head?_tail, ← List.head?_tail] at htail
  exact congrArg (Option.map (·.kind)) htail

/-- Only no tokens begin like no tokens. -/
theorem Alike.eq_nil (h : Alike [] us) : us = [] := by
  cases us with
  | nil => rfl
  | cons u us => cases h

theorem Alike.exists_cons (h : Alike (t :: ts) us) : ∃ us', us = t :: us' := by
  cases us with
  | nil => cases h
  | cons u us =>
    cases (List.cons.inj h).1
    exact ⟨us, rfl⟩

/-! ## Steady parsers -/

/-- What was read and the tokens left, without the bound. -/
def plain (p : Except Stuck (Parsed α n)) : Except Stuck (α × List Token) :=
  p.map fun parsed => (parsed.value, parsed.rest)

/-- The same about something that may be there or not. -/
def plainIf (p : Attempt α ts) : Except Stuck (Option α × List Token) :=
  match p with
  | .ok none => .ok (none, ts)
  | .ok (some parsed) => .ok (some parsed.value, parsed.rest)
  | .error stuck => .error stuck

/-- Stuck in the same way before other tokens. -/
def Stuck.before (rest : List Token) : Stuck → Stuck
  | .expected what _ => .expected what rest
  | .invalidNumeral t _ => .invalidNumeral t rest

/-- The tokens left where the parser stops. -/
def left : Except Stuck (α × List Token) → List Token
  | .ok (_, rest) => rest
  | .error stuck => stuck.rest

/-- The same result before other tokens. -/
def before (rest : List Token) : Except Stuck (α × List Token) → Except Stuck (α × List Token)
  | .ok (a, _) => .ok (a, rest)
  | .error stuck => .error (stuck.before rest)

/-- Where the parser stops, other tokens may follow that begin alike. -/
def Steady (f : List Token → Except Stuck (α × List Token)) (ts : List Token) : Prop :=
  ∃ used, used ++ left (f ts) = ts ∧
    ∀ rest, Alike (left (f ts)) rest → f (used ++ rest) = before rest (f ts)

/-- The parser is steady at the tokens. -/
@[reducible]
def Tracks {n : List Token → Nat} (f : (us : List Token) → Except Stuck (Parsed α (n us)))
    (ts : List Token) : Prop :=
  Steady (fun us => plain (f us)) ts

/-- The same about something that may be there or not. -/
@[reducible]
def TracksIf (f : (us : List Token) → Attempt α us) (ts : List Token) : Prop :=
  Steady (fun us => plainIf (f us)) ts

/-- A parser that reads nothing is steady. -/
theorem steady_done (a : α) (ts : List Token) : Steady (fun us => .ok (a, us)) ts :=
  ⟨[], rfl, fun _ _ => rfl⟩

/-- A parser that expects something else is steady. -/
theorem steady_expected (what : Expectation) (ts : List Token) :
    Steady (fun us => (.error (.expected what us) : Except Stuck (α × List Token))) ts :=
  ⟨[], rfl, fun _ _ => rfl⟩

theorem steady_invalidNumeral (t : Token) (ts : List Token) :
    Steady (fun us => (.error (.invalidNumeral t us) : Except Stuck (α × List Token))) ts :=
  ⟨[], rfl, fun _ _ => rfl⟩

theorem steady_iff {f : List Token → Except Stuck (α × List Token)}
    {r : Except Stuck (α × List Token)} (hts : f ts = r) :
    Steady f ts ↔ ∃ used, used ++ left r = ts ∧
      ∀ rest, Alike (left r) rest → f (used ++ rest) = before rest r := by
  subst hts
  rfl

/-- If a parser is steady, and so is what goes on where it stops, then the two in sequence
    are steady. -/
theorem Steady.bind {f : List Token → Except Stuck (α × List Token)}
    {g : α → List Token → Except Stuck (β × List Token)} (hf : Steady f ts)
    (hg : ∀ a rest, f ts = .ok (a, rest) → Steady (g a) rest) :
    Steady (fun us => (f us).bind fun r => g r.1 r.2) ts := by
  cases hts : f ts with
  | error stuck =>
    -- The second parser never runs, here or with another rest.
    obtain ⟨used, hused, hf⟩ := (steady_iff hts).1 hf
    exact (steady_iff (congrArg (Except.bind · _) hts)).2
      ⟨used, hused, fun rest halike => congrArg (Except.bind · _) (hf rest halike)⟩
  | ok parsed =>
    obtain ⟨a, mid⟩ := parsed
    obtain ⟨used, hused, hf⟩ := (steady_iff hts).1 hf
    obtain ⟨used', hused', hg⟩ := hg a mid hts
    have hnext : (f ts).bind (fun r => g r.1 r.2) = g a mid := by
      rw [hts]
      rfl
    refine (steady_iff hnext).2 ⟨used ++ used', ?_, fun rest halike => ?_⟩
    · rw [List.append_assoc, hused']
      exact hused
    · -- The tokens between the two places stay, so the first parser sees no change.
      have hmid : Alike mid (used' ++ rest) := by
        have happend := halike.append used'
        rwa [hused'] at happend
      rw [List.append_assoc, hf _ hmid]
      exact hg rest halike

/-- Steady after tokens that decide what comes next. -/
theorem Steady.skip {f g : List Token → Except Stuck (α × List Token)} (pre : List Token)
    (hg : Steady g ts) (hfg : ∀ us, Alike (pre ++ ts) (pre ++ us) → f (pre ++ us) = g us) :
    Steady f (pre ++ ts) := by
  obtain ⟨used, hused, hg⟩ := hg
  refine (steady_iff (hfg ts (.refl _))).2 ⟨pre ++ used, ?_, fun rest halike => ?_⟩
  · rw [List.append_assoc, hused]
  · have happend := (halike.append used).append pre
    rw [hused] at happend
    rw [List.append_assoc, hfg _ happend, hg rest halike]

/-- Steady parsers stay so if what they read is there for certain. -/
theorem Steady.some {f : List Token → Except Stuck (α × List Token)} (hf : Steady f ts) :
    Steady (fun us => (f us).bind fun r => .ok (Option.some r.1, r.2)) ts :=
  hf.bind fun a rest _ => steady_done (Option.some a) rest

/-- Steady where the next two tokens make the parser another one. -/
theorem Steady.like {f g : List Token → Except Stuck (α × List Token)} (hg : Steady g ts)
    (hfg : ∀ us, Alike ts us → f us = g us) : Steady f ts :=
  .skip [] hg hfg

/-- Steady where nothing is read. -/
theorem Steady.stop {f : List Token → Except Stuck (α × List Token)} (a : α)
    (h : ∀ us, Alike ts us → f us = .ok (a, us)) : Steady f ts :=
  .like (steady_done a ts) h

/-- Steady where something was expected. -/
theorem Steady.stuck {f : List Token → Except Stuck (α × List Token)} (what : Expectation)
    (h : ∀ us, Alike ts us → f us = .error (.expected what us)) : Steady f ts :=
  .like (steady_expected what ts) h

/-! ## Combinations -/

/-- Changing what was read leaves the tokens that are left. -/
theorem plain_change {m : Nat} {f : α → β} {hle : n ≤ m} {p : Except Stuck (Parsed α n)} :
    plain (p.map (Parsed.change f hle)) = (plain p).bind fun r => .ok (f r.1, r.2) := by
  cases p <;> rfl

theorem plain_change_id {m : Nat} {hle : n ≤ m} {p : Except Stuck (Parsed α n)} :
    plain (p.map (Parsed.change id hle)) = plain p := by
  cases p <;> rfl

theorem plain_after {p : Outcome α ts} : plain (p.after (t := t)) = plain p := by
  rw [Outcome.after_eq_change, plain_change_id]

/-- Weakening the bound leaves what was read. -/
theorem plain_weak {p : Outcome α ts} : plain p.weak = plain p := by
  rw [Outcome.weak_eq_change, plain_change_id]

/-- One parser after another, without their bounds. -/
theorem plain_chain {k : Nat} {m : List Token → Nat} {p : Except Stuck (Parsed α n)}
    {g : α → (rest : List Token) → Except Stuck (Parsed β (m rest))}
    {hle : ∀ rest : List Token, rest.length < n → m rest ≤ k} :
    plain (chain p (fun a rest _ => g a rest) hle) =
      (plain p).bind fun r => plain (g r.1 r.2) := by
  cases p with
  | error stuck => rfl
  | ok parsed => exact plain_change_id

theorem plainIf_found {p : Outcome α ts} :
    plainIf (.found p) = (plain p).bind fun r => .ok (some r.1, r.2) := by
  cases p <;> rfl

/-- An attempt and what follows it, without their bounds. -/
theorem plain_andThen_attempt {p : Attempt α ts} {otherwise : β}
    {g : α → (rest : List Token) → Outcome β rest} :
    plain (p.andThen otherwise fun a rest _ => g a rest) = (plainIf p).bind fun r =>
      r.1.elim (.ok (otherwise, r.2)) fun a => plain (g a r.2) := by
  match p with
  | .error stuck => rfl
  | .ok none => rfl
  | .ok (some parsed) =>
    change plain (Outcome.andThen (.ok parsed) _).weak = _
    rw [plain_weak, Outcome.andThen_eq_chain, plain_chain]
    rfl

/-- A parser leaves fewer tokens than there were. -/
theorem length_lt_of_plain {p : Except Stuck (Parsed α n)} {a : α} (h : plain p = .ok (a, rest)) :
    rest.length < n := by
  cases p with
  | error stuck => cases h
  | ok parsed =>
    cases h
    exact parsed.lt

theorem length_lt_of_plainIf {p : Attempt α ts} {a : α} (h : plainIf p = .ok (some a, rest)) :
    rest.length < ts.length := by
  match p with
  | .error stuck => cases h
  | .ok none => cases h
  | .ok (some parsed) =>
    cases h
    exact parsed.lt

theorem Tracks.congr {n : List Token → Nat}
    {f g : (us : List Token) → Except Stuck (Parsed α (n us))} (h : ∀ us, f us = g us)
    (hg : Tracks g ts) : Tracks f ts := by
  rwa [funext h]

/-- What a steady parser reads may be changed. -/
theorem Tracks.map {f : (us : List Token) → Outcome α us} {h : α → β} (hf : Tracks f ts) :
    Tracks (fun us => (f us).map h) ts := by
  simp only [Tracks, Outcome.map_eq_change, plain_change]
  exact hf.bind fun a rest _ => steady_done (h a) rest

theorem Tracks.map? {f : (us : List Token) → Outcome? α us} {h : α → β} (hf : Tracks f ts) :
    Tracks (fun us => (f us).map h) ts := by
  simp only [Tracks, Outcome?.map_eq_change, plain_change]
  exact hf.bind fun a rest _ => steady_done (h a) rest

/-- Steady parsers in sequence are steady. -/
theorem Tracks.andThen {f : (us : List Token) → Outcome α us}
    {g : α → (us : List Token) → Outcome β us} (hf : Tracks f ts)
    (hg : ∀ a rest, rest.length < ts.length → Tracks (g a) rest) :
    Tracks (fun us => (f us).andThen fun a rest _ => g a rest) ts := by
  simp only [Tracks, Outcome.andThen_eq_chain, plain_chain]
  exact hf.bind fun a rest h => hg a rest (length_lt_of_plain h)

/-- Steady parsers in sequence are steady, if the second may read nothing. -/
theorem Tracks.andMaybe {f : (us : List Token) → Outcome α us}
    {g : α → (us : List Token) → Outcome? β us} (hf : Tracks f ts)
    (hg : ∀ a rest, rest.length < ts.length → Tracks (g a) rest) :
    Tracks (fun us => (f us).andMaybe fun a rest _ => g a rest) ts := by
  simp only [Tracks, Outcome.andMaybe_eq_chain, plain_chain]
  exact hf.bind fun a rest h => hg a rest (length_lt_of_plain h)

/-- Steady parsers in sequence are steady, if the first may read nothing. -/
theorem Tracks.andThen? {f : (us : List Token) → Outcome? α us}
    {g : α → (us : List Token) → Outcome β us} (hf : Tracks f ts)
    (hg : ∀ a rest, rest.length < ts.length + 1 → Tracks (g a) rest) :
    Tracks (fun us => (f us).andThen fun a rest _ => g a rest) ts := by
  simp only [Tracks, Outcome?.andThen_eq_chain, plain_chain]
  exact hf.bind fun a rest h => hg a rest (length_lt_of_plain h)

/-- A steady attempt and what follows it are steady. -/
theorem TracksIf.andThen {f : (us : List Token) → Attempt α us} {otherwise : β}
    {g : α → (us : List Token) → Outcome β us} (hf : TracksIf f ts)
    (hg : ∀ a rest, rest.length < ts.length → Tracks (g a) rest) :
    Tracks (fun us => (f us).andThen otherwise fun a rest _ => g a rest) ts := by
  simp only [Tracks, plain_andThen_attempt]
  refine hf.bind (g := fun a? us => a?.elim (.ok (otherwise, us)) fun a => plain (g a us)) ?_
  intro a? rest h
  cases a? with
  | none => exact steady_done otherwise rest
  | some a => exact hg a rest (length_lt_of_plainIf h)

/-- Something that is left out where a token of the kind comes at once. -/
theorem tracks_unless (k : Token.Kind) (a : α) {f : (us : List Token) → Outcome α us}
    (hf : Tracks f ts) :
    Tracks (fun us => if kind? us = some k then Outcome?.done a us else (f us).weak) ts := by
  by_cases h : kind? ts = some k
  · refine .stop a fun us hus => congrArg plain (if_pos ?_)
    rwa [← hus.kind?_eq]
  · refine .like hf fun us hus => (congrArg plain (if_neg ?_)).trans plain_weak
    rwa [← hus.kind?_eq]

/-! ## Tokens -/

/-- Reading a token is steady, whether or not it is there. -/
theorem token_tracks (kind : Token.Kind) (what : Expectation) (ts : List Token) :
    Tracks (token kind what) ts := by
  by_cases h : kind? ts = some kind
  · obtain ⟨text, span, rest, rfl⟩ := exists_of_kind? h
    exact .skip [_] (steady_done _ rest) fun _ _ => congrArg plain (if_pos rfl)
  · refine .stuck what fun us hus => congrArg plain (token_eq_error ?_)
    rwa [← hus.kind?_eq]

/-- Reading a token that may be there is steady. -/
theorem token?_tracks (kind : Token.Kind) (ts : List Token) : TracksIf (token? kind) ts := by
  by_cases h : kind? ts = some kind
  · obtain ⟨text, span, rest, rfl⟩ := exists_of_kind? h
    refine .skip [_] (steady_done (some ⟨kind, text, span⟩) rest) fun us _ => ?_
    rw [List.singleton_append, token?, if_pos rfl]
    rfl
  · refine .stop none fun us hus => congrArg plainIf (token?_eq_none ?_)
    rwa [← hus.kind?_eq]

theorem keyword_tracks (k : Keyword) (ts : List Token) : Tracks (keyword k) ts :=
  token_tracks _ _ ts

theorem semicolon_tracks (ts : List Token) : Tracks semicolon ts :=
  token_tracks _ _ ts

theorem ident_tracks (what : Expectation) (ts : List Token) : Tracks (ident what) ts :=
  (token_tracks _ _ ts).map

/-! ## Expressions -/

theorem orEqualTo_tracks (ts : List Token) : Tracks orEqualTo ts :=
  (token?_tracks _ ts).andThen fun _ rest _ =>
    (keyword_tracks .equal rest).andThen fun _ rest _ => (keyword_tracks .to_ rest).map

/-- Reading a relation is steady. -/
theorem relation_tracks (ts : List Token) : Tracks relation ts := by
  by_cases hgreater : kind? ts = some (.keyword .greater)
  · obtain ⟨text, span, rest, rfl⟩ := exists_of_kind? hgreater
    exact .skip [_] ((keyword_tracks .than rest).andMaybe fun _ rest _ =>
      (orEqualTo_tracks rest).map?) fun _ _ => plain_weak.trans plain_after
  by_cases hless : kind? ts = some (.keyword .less)
  · obtain ⟨text, span, rest, rfl⟩ := exists_of_kind? hless
    exact .skip [_] ((keyword_tracks .than rest).andMaybe fun _ rest _ =>
      (orEqualTo_tracks rest).map?) fun _ _ => plain_weak.trans plain_after
  by_cases hnot : kind? ts = some (.keyword .not)
  · obtain ⟨text, span, rest, rfl⟩ := exists_of_kind? hnot
    exact .skip [_] (steady_done _ rest) fun _ _ => rfl
  · refine .stop .eq fun us hus => ?_
    rw [hus.kind?_eq] at hgreater hless hnot
    rw [relation_eq_done hgreater hless hnot]
    rfl

/-- Reading a comparison that may be there is steady. -/
theorem comparison?_tracks (ts : List Token) : TracksIf comparison? ts := by
  by_cases h : kind? ts = some (.keyword .is)
  · obtain ⟨text, span, rest, rfl⟩ := exists_of_kind? h
    exact .skip [_] (relation_tracks rest).some fun _ _ => plainIf_found
  · refine .stop none fun us hus => congrArg plainIf (comparison?_eq_none ?_)
    rwa [← hus.kind?_eq]

theorem sumOp?_tracks (ts : List Token) : TracksIf sumOp? ts := by
  by_cases hplus : kind? ts = some (.keyword .plus)
  · obtain ⟨text, span, rest, rfl⟩ := exists_of_kind? hplus
    exact .skip [_] (steady_done (some .add) rest) fun _ _ => rfl
  by_cases hminus : kind? ts = some (.keyword .minus)
  · obtain ⟨text, span, rest, rfl⟩ := exists_of_kind? hminus
    exact .skip [_] (steady_done (some .sub) rest) fun _ _ => rfl
  · refine .stop none fun us hus => ?_
    rw [hus.kind?_eq] at hplus hminus
    rw [sumOp?_eq_none hplus hminus]
    rfl

theorem productOp?_tracks (ts : List Token) : TracksIf productOp? ts := by
  by_cases htimes : kind? ts = some (.keyword .times)
  · obtain ⟨text, span, rest, rfl⟩ := exists_of_kind? htimes
    exact .skip [_] (steady_done (some .mul) rest) fun _ _ => rfl
  by_cases hdivided : kind? ts = some (.keyword .divided)
  · obtain ⟨text, span, rest, rfl⟩ := exists_of_kind? hdivided
    exact .skip [_] (keyword_tracks .by_ rest).map.some fun _ _ =>
      plainIf_found.trans (congrArg (Except.bind · _) plain_after)
  by_cases hmod : kind? ts = some (.keyword .mod)
  · obtain ⟨text, span, rest, rfl⟩ := exists_of_kind? hmod
    exact .skip [_] (steady_done (some .rem) rest) fun _ _ => rfl
  · refine .stop none fun us hus => ?_
    rw [hus.kind?_eq] at htimes hdivided hmod
    rw [productOp?_eq_none htimes hdivided hmod]
    rfl

/-- Reading the words before an exponent is steady: the second decides whether the first
    is one of them. -/
theorem powerOp?_tracks (ts : List Token) : TracksIf powerOp? ts := by
  by_cases h : kind? ts = some (.keyword .to_) ∧ kind? ts.tail = some (.keyword .the)
  · obtain ⟨hto, hthe⟩ := h
    obtain ⟨_, _, rest, rfl⟩ := exists_of_kind? hto
    obtain ⟨_, _, rest, rfl⟩ := exists_of_kind? hthe
    exact .skip [_, _] (steady_done (some ()) rest) fun _ _ => rfl
  · -- The word `to` alone is left where it is, for what may follow an expression.
    refine .stop none fun us hus => congrArg plainIf (powerOp?_eq_none ?_)
    rwa [hus.kind?_eq, hus.kind?_tail_eq, not_and] at h

mutual

/-- Reading an expression is steady. -/
theorem expr_tracks (ts : List Token) : Tracks expr ts :=
  .congr expr.eq_def ((sum_tracks ts).andMaybe fun _ rest _ =>
    (comparison?_tracks rest).andThen fun _ rest _ => (sum_tracks rest).map)
termination_by 10 * ts.length + 6
decreasing_by all_goals omega

theorem sum_tracks (ts : List Token) : Tracks sum ts :=
  .congr sum.eq_def ((product_tracks ts).andMaybe fun left rest _ => sumRest_tracks left rest)
termination_by 10 * ts.length + 5
decreasing_by all_goals omega

/-- Reading the rest of a sum is steady, as it stops before a token that is no operator. -/
theorem sumRest_tracks (left : Expr) (ts : List Token) : Tracks (sumRest left) ts :=
  .congr (sumRest.eq_def left) ((sumOp?_tracks ts).andThen fun _ rest _ =>
    (product_tracks rest).andMaybe fun _ rest _ => sumRest_tracks _ rest)
termination_by 10 * ts.length
decreasing_by all_goals omega

theorem product_tracks (ts : List Token) : Tracks product ts :=
  .congr product.eq_def ((power_tracks ts).andMaybe fun left rest _ => productRest_tracks left rest)
termination_by 10 * ts.length + 4
decreasing_by all_goals omega

theorem productRest_tracks (left : Expr) (ts : List Token) : Tracks (productRest left) ts :=
  .congr (productRest.eq_def left) ((productOp?_tracks ts).andThen fun _ rest _ =>
    (power_tracks rest).andMaybe fun _ rest _ => productRest_tracks _ rest)
termination_by 10 * ts.length
decreasing_by all_goals omega

theorem power_tracks (ts : List Token) : Tracks power ts :=
  .congr power.eq_def ((primary_tracks ts).andMaybe fun _ rest _ =>
    (powerOp?_tracks rest).andThen fun _ rest _ => (power_tracks rest).map)
termination_by 10 * ts.length + 3
decreasing_by all_goals omega

/-- Reading a primary expression is steady. A name needs the next token to tell whether it
    is a call. -/
theorem primary_tracks (ts : List Token) : Tracks primary ts := by
  cases ts with
  | nil =>
    refine .stuck .expression fun us hus => ?_
    cases hus.eq_nil
    exact congrArg plain (primary.eq_def _)
  | cons t rest =>
    obtain ⟨k, text, span⟩ := t
    cases k with
    | numeral =>
      cases hvalue : Number.numeralValue? text.toList with
      | some value =>
        refine .skip [_] (steady_done (.number value span) rest) fun us _ => ?_
        rw [List.singleton_append, primary.eq_def]
        dsimp only
        rw [hvalue]
        rfl
      | none =>
        refine .skip [_] (steady_invalidNumeral ⟨.numeral, text, span⟩ rest) fun us _ => ?_
        rw [List.singleton_append, primary.eq_def]
        dsimp only
        rw [hvalue]
        rfl
    | word =>
      exact .skip [_] (steady_done (.word text span) rest) fun us _ =>
        congrArg plain (primary.eq_def _)
    | openSquare =>
      exact .skip [_] ((args_tracks .closeSquare rest).andThen? fun _ rest _ =>
        (token_tracks .closeSquare _ rest).map) fun us _ =>
          (congrArg plain (primary.eq_def _)).trans plain_after
    | ident =>
      -- The token after a name decides whether it is called, and it is one of the two.
      by_cases hopen : kind? rest = some .openParen
      · obtain ⟨_, _, rest, rfl⟩ := exists_of_kind? hopen
        exact .skip [_, _] (callRest_tracks span rest).map fun us _ =>
          (congrArg plain (primary.eq_def _)).trans (plain_after.trans plain_after)
      · refine .skip [_] (steady_done (.name ⟨text, span⟩) rest) fun us hus => ?_
        have htail : kind? rest = kind? us := hus.kind?_tail_eq
        rw [List.singleton_append, primary_eq_done (htail ▸ hopen)]
        rfl
    | openParen =>
      exact .skip [_] ((expr_tracks rest).andThen fun _ rest _ =>
        (token_tracks .closeParen _ rest).map) fun us _ =>
          (congrArg plain (primary.eq_def _)).trans plain_after
    | _ =>
      refine .stuck .expression fun us hus => ?_
      obtain ⟨us, rfl⟩ := hus.exists_cons
      exact congrArg plain (primary.eq_def _)
termination_by 10 * ts.length + 2
decreasing_by
  all_goals
    subst_vars
    simp only [List.length_cons]
    omega

theorem callRest_tracks (start : Source.Span) (ts : List Token) : Tracks (callRest start) ts :=
  .congr (callRest.eq_def start) ((args_tracks .closeParen ts).andThen? fun _ rest _ =>
    (token_tracks .closeParen _ rest).map)
termination_by 10 * ts.length + 9
decreasing_by all_goals omega

/-- Reading arguments is steady. -/
theorem args_tracks (close : Token.Kind) (ts : List Token) : Tracks (args close) ts :=
  .congr (args.eq_def close) (tracks_unless close [] (argList_tracks ts))
termination_by 10 * ts.length + 8
decreasing_by all_goals omega

theorem argList_tracks (ts : List Token) : Tracks argList ts :=
  .congr argList.eq_def ((expr_tracks ts).andMaybe fun _ rest _ =>
    (token?_tracks .comma rest).andThen fun _ rest _ => (argList_tracks rest).map)
termination_by 10 * ts.length + 7
decreasing_by all_goals omega

end

/-! ## Statements -/

/-- Reading a parameter is steady. A name needs the next token to tell whether it is a
    type. -/
theorem param_tracks (ts : List Token) : Tracks param ts := by
  by_cases h : kind? ts = some .ident ∧ kind? ts.tail = some .colon
  · obtain ⟨hident, hcolon⟩ := h
    obtain ⟨_, _, rest, rfl⟩ := exists_of_kind? hident
    obtain ⟨_, _, rest, rfl⟩ := exists_of_kind? hcolon
    exact .skip [_, _] (ident_tracks _ rest).map fun _ _ => plain_after.trans plain_after
  · refine .like (ident_tracks .identifier ts).map fun us hus =>
      congrArg plain (param_eq_ident ?_)
    rwa [hus.kind?_eq, hus.kind?_tail_eq, not_and] at h

/-- Reading parameters is steady. -/
theorem paramList_tracks (ts : List Token) : Tracks paramList ts :=
  .congr paramList.eq_def ((param_tracks ts).andMaybe fun _ rest _ =>
    (token?_tracks .comma rest).andThen fun _ rest _ => (paramList_tracks rest).map)
termination_by ts.length

theorem params_tracks (ts : List Token) : Tracks params ts :=
  tracks_unless .closeParen [] (paramList_tracks ts)

theorem outputType?_tracks (ts : List Token) : Tracks outputType? ts :=
  (token?_tracks .arrow ts).andThen fun _ rest _ => (ident_tracks _ rest).map

theorem outputValue?_tracks (ts : List Token) : Tracks outputValue? ts :=
  tracks_unless .semicolon none (expr_tracks ts).map

theorem declaration_tracks (start : Source.Span) (readOnly : Bool) (ts : List Token) :
    Tracks (declaration start readOnly) ts :=
  (ident_tracks _ ts).andThen fun _ rest _ => (keyword_tracks .with_ rest).andThen
    fun _ rest _ => (expr_tracks rest).andThen fun _ rest _ => (semicolon_tracks rest).map

/-- Reading a change is steady, if the term comes first. -/
theorem changeTermFirst_tracks (start : Source.Span) (op : ArithOp) (joint : Keyword)
    (ts : List Token) : Tracks (changeTermFirst start op joint) ts :=
  (expr_tracks ts).andThen fun _ rest _ => (keyword_tracks joint rest).andThen
    fun _ rest _ => (ident_tracks _ rest).andThen fun _ rest _ => (semicolon_tracks rest).map

theorem changeTargetFirst_tracks (start : Source.Span) (op : ArithOp) (ts : List Token) :
    Tracks (changeTargetFirst start op) ts :=
  (ident_tracks _ ts).andThen fun _ rest _ => (keyword_tracks .by_ rest).andThen
    fun _ rest _ => (expr_tracks rest).andThen fun _ rest _ => (semicolon_tracks rest).map

theorem assignment_tracks (start : Source.Span) (ts : List Token) :
    Tracks (assignment start) ts :=
  (ident_tracks _ ts).andThen fun _ rest _ => (keyword_tracks .to_ rest).andThen
    fun _ rest _ => (expr_tracks rest).andThen fun _ rest _ => (semicolon_tracks rest).map

theorem raising_tracks (start : Source.Span) (ts : List Token) : Tracks (raising start) ts :=
  (ident_tracks _ ts).andThen fun _ rest _ => (keyword_tracks .to_ rest).andThen
    fun _ rest _ => (keyword_tracks .the rest).andThen fun _ rest _ => (expr_tracks rest).andThen
      fun _ rest _ => (semicolon_tracks rest).map

/-- The keyword alone decides whether the statement is a simple one. -/
theorem simple?_tracks (start : Source.Span) (k : Keyword) (ts : List Token) :
    (∀ us, simple? start k us = none) ∨
      ∃ f : (us : List Token) → Outcome Stmt us, (∀ us, simple? start k us = some (f us)) ∧
        Tracks f ts := by
  cases k with
  | constantly =>
    exact .inr ⟨_, fun _ => rfl, (keyword_tracks .make ts).andThen fun _ rest _ =>
      declaration_tracks start true rest⟩
  | make => exact .inr ⟨_, fun _ => rfl, declaration_tracks start false ts⟩
  | change => exact .inr ⟨_, fun _ => rfl, assignment_tracks start ts⟩
  | add => exact .inr ⟨_, fun _ => rfl, changeTermFirst_tracks start .add .to_ ts⟩
  | subtract => exact .inr ⟨_, fun _ => rfl, changeTermFirst_tracks start .sub .from_ ts⟩
  | multiply => exact .inr ⟨_, fun _ => rfl, changeTargetFirst_tracks start .mul ts⟩
  | divide => exact .inr ⟨_, fun _ => rfl, changeTargetFirst_tracks start .div ts⟩
  | mod => exact .inr ⟨_, fun _ => rfl, changeTargetFirst_tracks start .rem ts⟩
  | raise => exact .inr ⟨_, fun _ => rfl, raising_tracks start ts⟩
  | print =>
    exact .inr ⟨_, fun _ => rfl, (expr_tracks ts).andThen fun _ rest _ =>
      (semicolon_tracks rest).map⟩
  | output =>
    exact .inr ⟨_, fun _ => rfl, (outputValue?_tracks ts).andThen? fun _ rest _ =>
      (semicolon_tracks rest).map⟩
  | break_ => exact .inr ⟨_, fun _ => rfl, (semicolon_tracks ts).map⟩
  | _ => exact .inl fun _ => rfl

mutual

/-- Reading a statement is steady. -/
theorem stmt_tracks (ts : List Token) : Tracks stmt ts := by
  cases ts with
  | nil =>
    refine .stuck .statement fun us hus => ?_
    cases hus.eq_nil
    exact congrArg plain (stmt.eq_def _)
  | cons t rest =>
    obtain ⟨k, text, start⟩ := t
    cases k with
    | keyword k =>
      by_cases hautomate : k = .automate
      · cases hautomate
        exact .skip [_] ((ident_tracks _ rest).andThen fun _ rest _ =>
          (token_tracks _ _ rest).andThen fun _ rest _ => (params_tracks rest).andThen?
            fun _ rest _ => (token_tracks _ _ rest).andThen fun _ rest _ =>
              (outputType?_tracks rest).andThen? fun _ rest _ => (block_tracks rest).map)
          fun us _ => (congrArg plain (stmt.eq_def _)).trans plain_after
      by_cases hif : k = .if_
      · cases hif
        exact .skip [_] ((expr_tracks rest).andThen fun _ rest _ => (block_tracks rest).andMaybe
          fun _ rest _ => (token?_tracks _ rest).andThen fun _ rest _ => (block_tracks rest).map)
          fun us _ => (congrArg plain (stmt.eq_def _)).trans plain_after
      by_cases hloop : k = .loop
      · cases hloop
        by_cases hwhile : kind? rest = some (.keyword .while_)
        · obtain ⟨_, _, rest, rfl⟩ := exists_of_kind? hwhile
          exact .skip [_, _] ((expr_tracks rest).andThen fun _ rest _ => (block_tracks rest).map)
            fun us _ => (congrArg plain (stmt.eq_def _)).trans (plain_after.trans plain_after)
        by_cases hover : kind? rest = some (.keyword .over_)
        · obtain ⟨_, _, rest, rfl⟩ := exists_of_kind? hover
          exact .skip [_, _] ((ident_tracks _ rest).andThen fun _ rest _ =>
            (keyword_tracks .in_ rest).andThen fun _ rest _ => (expr_tracks rest).andThen
              fun _ rest _ => (block_tracks rest).map)
            fun us _ => (congrArg plain (stmt.eq_def _)).trans (plain_after.trans plain_after)
        · -- The word `loop` itself is passed, so only one token after the place is looked at.
          refine .skip [_] (steady_expected .loopKind rest) fun us hus => ?_
          have htail : kind? rest = kind? us := hus.kind?_tail_eq
          exact congrArg plain (stmt_eq_loopKind (htail ▸ hwhile) (htail ▸ hover))
      · obtain hnone | ⟨f, hf, htracks⟩ := simple?_tracks start k rest
        · refine .stuck .statement fun us hus => ?_
          obtain ⟨us, rfl⟩ := hus.exists_cons
          rw [stmt_eq_simple hautomate hif hloop, hnone]
          rfl
        · refine .skip [_] htracks fun us _ => ?_
          rw [List.singleton_append, stmt_eq_simple hautomate hif hloop, hf]
          exact plain_after
    | ident =>
      by_cases hopen : kind? rest = some .openParen
      · obtain ⟨_, _, rest, rfl⟩ := exists_of_kind? hopen
        exact .skip [_, _] ((callRest_tracks start rest).andThen fun _ rest _ =>
          (semicolon_tracks rest).map)
          fun us _ => (congrArg plain (stmt.eq_def _)).trans (plain_after.trans plain_after)
      · refine .stuck .statement fun us hus => ?_
        have htail : kind? rest = kind? us.tail := hus.kind?_tail_eq
        obtain ⟨us, rfl⟩ := hus.exists_cons
        exact congrArg plain (stmt_eq_error (htail ▸ hopen))
    | _ =>
      refine .stuck .statement fun us hus => ?_
      obtain ⟨us, rfl⟩ := hus.exists_cons
      exact congrArg plain (stmt.eq_def _)
termination_by 2 * ts.length
decreasing_by
  all_goals
    subst_vars
    simp only [List.length_cons]
    omega

theorem block_tracks (ts : List Token) : Tracks block ts :=
  .congr block.eq_def ((token_tracks _ _ ts).andThen fun _ rest _ =>
    (blockStmts_tracks rest).andThen? fun _ rest _ => (token_tracks _ _ rest).map)
termination_by 2 * ts.length

/-- Reading the statements of a block is steady. -/
theorem blockStmts_tracks (ts : List Token) : Tracks blockStmts ts := by
  by_cases h : kind? ts = some .closeBrace ∨ kind? ts = none
  · refine .stop [] fun us hus => ?_
    rw [hus.kind?_eq] at h
    rw [blockStmts, if_pos h]
    rfl
  · refine .like ((stmt_tracks ts).andMaybe fun _ rest _ => (blockStmts_tracks rest).map?)
      fun us hus => (congrArg plain ((blockStmts.eq_def us).trans (if_neg ?_))).trans plain_weak
    rwa [hus.kind?_eq] at h
termination_by 2 * ts.length + 1

end

/-! ## Programs -/

/-- A program is a statement and the program after it. -/
theorem parse_cons (t : Token) (ts : List Token) :
    (parse (t :: ts)).map (·, ([] : List Token)) = (plain (stmt (t :: ts))).bind fun r =>
      ((parse r.2).map (·, [])).bind fun q => .ok (r.1 :: q.1, q.2) := by
  rw [parse]
  cases stmt (t :: ts) with
  | error stuck => rfl
  | ok parsed =>
    change ((parse parsed.rest).map _).map _ = ((parse parsed.rest).map _).bind _
    cases parse parsed.rest <;> rfl

/-- Parsing a program is steady: it stops at the end, or where it is stuck. -/
theorem parse_steady (ts : List Token) : Steady (fun us => (parse us).map (·, [])) ts := by
  cases ts with
  | nil =>
    -- Nothing but the end begins like the end.
    refine .stop [] fun us hus => ?_
    cases hus.eq_nil
    exact congrArg (Except.map (·, [])) (parse.eq_def [])
  | cons t ts =>
    refine .like ((stmt_tracks (t :: ts)).bind fun head rest h =>
      (parse_steady rest).bind fun tail rest _ => steady_done (head :: tail) rest) fun us hus => ?_
    obtain ⟨us, rfl⟩ := hus.exists_cons
    exact parse_cons t us
termination_by ts.length
decreasing_by
  exact length_lt_of_plain h

/-- The tokens before the place where the parser of programs gets stuck and the two
    after it are all that makes it stuck there. -/
theorem parse_of_alike {stuck : Stuck} (h : parse ts = .error stuck) :
    ∃ used, used ++ stuck.rest = ts ∧
      ∀ rest, Alike stuck.rest rest → parse (used ++ rest) = .error (stuck.before rest) := by
  have hmap := congrArg (Except.map (·, ([] : List Token))) h
  obtain ⟨used, hused, hsteady⟩ := (steady_iff hmap).1 (parse_steady ts)
  refine ⟨used, hused, fun rest halike => ?_⟩
  have hstuck := hsteady rest halike
  cases hparse : parse (used ++ rest) with
  | error stuck' =>
    rw [hparse] at hstuck
    cases hstuck
    rfl
  | ok ss =>
    rw [hparse] at hstuck
    cases hstuck

end Toal.Surface
