import Toal.Proofs.Lookahead
import Toal.Proofs.Rendering
import Toal.Proofs.Viable

/-!
# Where syntax errors point

A text that is scanned and not parsed has a syntax error at the start of one of its
tokens, or at its end. The tokens before this one are the beginning of a program
(`Surface.viable_of_parse`), and no program begins with them, this token and the next:
the parser gets stuck at the place whatever follows these (`Surface.parse_of_alike`),
and programs are parsed. Tokens that agree with the text so far only in their kinds can
be exchanged for those of the text (`Grammar.Derivation.exists_tokens_eq`), so it is
enough to look at kinds.
-/

namespace Toal

open Source Surface Grammar

variable {text : List Char} {tokens : List Token}

/-! ## Where tokens start -/

/-- The offset at which the token with the given number starts. After the last token
    comes the end of the text. -/
def tokenStart (text : List Char) (tokens : List Token) (p : Nat) : Nat :=
  match tokens[p]? with
  | some t => t.span.lo
  | none => byteLength text

/-- The end of the text is a boundary. -/
theorem isBoundary_byteLength (text : List Char) : IsBoundary text (byteLength text) :=
  ⟨text, [], List.append_nil text, rfl⟩

/-- Tokens start on boundaries. -/
theorem isBoundary_tokenStart (hscan : Token.scan text = .ok tokens) (p : Nat) :
    IsBoundary text (tokenStart text tokens p) := by
  unfold tokenStart
  split
  · next t ht =>
    obtain ⟨part, hpart⟩ := isSlice_of_mem_scan hscan (List.mem_of_getElem? ht)
    exact hpart.isBoundary.1
  · exact isBoundary_byteLength text

/-- Tokens start one after the other. -/
theorem tokenStart_lt (hscan : Token.scan text = .ok tokens) {p q : Nat} (hlt : p < q)
    (hq : q ≤ tokens.length) : tokenStart text tokens p < tokenStart text tokens q := by
  have hordered := ordered_of_scan hscan
  have hp : p < tokens.length := Nat.lt_of_lt_of_le hlt hq
  have hstart : tokenStart text tokens p = (tokens[p]).span.lo := by
    rw [tokenStart, List.getElem?_eq_getElem hp]
  have hstep := hordered.lo_lt_hi _ (List.getElem_mem hp)
  rw [hstart]
  refine Nat.lt_of_lt_of_le hstep ?_
  rcases Nat.lt_or_eq_of_le hq with hq | rfl
  · rw [tokenStart, List.getElem?_eq_getElem hq]
    exact List.pairwise_iff_getElem.1 hordered.pairwise p q hp hq hlt
  · rw [tokenStart, List.getElem?_eq_none (Nat.le_refl _)]
    obtain ⟨part, hpart⟩ := isSlice_of_mem_scan hscan (List.getElem_mem hp)
    exact hpart.isBoundary.2.1.le_byteLength

/-- Every token has a location of its own. -/
theorem locate_tokenStart_eq_iff (hscan : Token.scan text = .ok tokens) {p q : Nat}
    (hp : p ≤ tokens.length) (hq : q ≤ tokens.length) :
    locate (tokenStart text tokens q) text = locate (tokenStart text tokens p) text ↔ q = p := by
  constructor
  · intro h
    have hstart := eq_of_locate_eq (isBoundary_tokenStart hscan q) (isBoundary_tokenStart hscan p) h
    rcases Nat.lt_trichotomy q p with hlt | heq | hlt
    · exact absurd hstart (Nat.ne_of_lt (tokenStart_lt hscan hlt hp))
    · exact heq
    · exact absurd hstart.symm (Nat.ne_of_lt (tokenStart_lt hscan hlt hq))
  · rintro rfl
    rfl

/-- The fault for something expected is a syntax error at the start of the next token. -/
theorem fault_of_expected (text : List Char) (used rest : List Token) (what : Expectation) :
    ∃ problem span, (Stuck.expected what rest).fault (byteLength text) = ⟨problem, some span⟩ ∧
      problem.kind = .syntaxError ∧ span.lo = tokenStart text (used ++ rest) used.length := by
  rw [tokenStart, List.getElem?_append_right (Nat.le_refl _), Nat.sub_self]
  cases rest with
  | nil => exact ⟨_, ⟨byteLength text, byteLength text⟩, rfl, rfl, rfl⟩
  | cons t rest => exact ⟨_, t.span, rfl, rfl, rfl⟩

/-! ## Programs that begin alike -/

/-- Numerals that are put in have values. -/
theorem hasValue_tokenOf (k : Token.Kind) : (tokenOf k).HasValue := by
  intro _
  change (Number.numeralValue? "0".toList).isSome = true
  decide

/-- Lists that agree up to the given place, or up to the end of one of them, begin
    alike. -/
theorem take_eq_of_getElem? {α : Type} {xs ys : List α} {n : Nat}
    (h : ∀ q ≤ min n ys.length, xs[q]? = ys[q]?) : xs.take (n + 1) = ys.take (n + 1) := by
  refine List.ext_getElem? fun i => ?_
  rw [List.getElem?_take, List.getElem?_take]
  split
  · next hi =>
    by_cases hys : i ≤ ys.length
    · exact h i (Nat.le_min.2 ⟨Nat.le_of_lt_succ hi, hys⟩)
    · -- Both have ended by then.
      have hend := h ys.length (Nat.le_min.2 ⟨by omega, Nat.le_refl _⟩)
      rw [List.getElem?_eq_none (Nat.le_refl _), List.getElem?_eq_none_iff] at hend
      rw [List.getElem?_eq_none (by omega), List.getElem?_eq_none (by omega)]
  · rfl

/-- A program whose kinds begin with those of `used` and of the next two tokens can be
    derived from tokens that begin with these. -/
theorem exists_derivation_alike {used rest : List Token} (hv : Valued (used ++ rest))
    (d : Derivation (.phrase .stmts))
    (h : d.kinds.take (used.length + 2) = ((used ++ rest).map (·.kind)).take (used.length + 2)) :
    ∃ (d' : Derivation (.phrase .stmts)) (rest' : List Token), d'.tokens = used ++ rest' ∧
      Alike rest rest' ∧ Valued d'.tokens := by
  let more := (d.kinds.drop (used.length + 2)).map tokenOf
  have hkinds : d.kinds = (used ++ (rest.take 2 ++ more)).map (·.kind) := by
    have hmore : more.map (·.kind) = d.kinds.drop (used.length + 2) := by
      rw [List.map_map]
      exact List.map_id _
    rw [← List.append_assoc, List.map_append, hmore, ← List.take_length_add_append, List.map_take,
      ← h, List.take_append_drop]
  have halike : Alike rest (rest.take 2 ++ more) := by
    by_cases hlen : 2 ≤ rest.length
    · have htwo : 2 ≤ (rest.take 2).length := by
        rw [List.length_take]
        exact Nat.le_min.2 ⟨Nat.le_refl _, hlen⟩
      rw [Alike, List.take_append_of_le_length htwo, List.take_take, Nat.min_self]
    · -- The tokens end here, and so does the program.
      have hlength := congrArg List.length h
      rw [List.length_take, List.length_take, List.length_map, List.length_append] at hlength
      have hnil : more = [] := by
        rw [List.map_eq_nil_iff, List.drop_eq_nil_iff]
        omega
      rw [Alike, hnil, List.append_nil, List.take_take, Nat.min_self]
  obtain ⟨d', hd'⟩ := d.exists_tokens_eq hkinds
  refine ⟨d', _, hd', halike, ?_⟩
  rw [hd']
  intro t ht
  rcases List.mem_append.1 ht with ht | ht
  · exact hv t (List.mem_append_left _ ht)
  rcases List.mem_append.1 ht with ht | ht
  · exact hv t (List.mem_append_right _ (List.mem_of_mem_take ht))
  · obtain ⟨k, -, rfl⟩ := List.mem_map.1 ht
    exact hasValue_tokenOf k

/-- No program begins like tokens that the parser gets stuck on. -/
theorem exists_kind_ne {used rest : List Token} {what : Expectation} (hv : Valued (used ++ rest))
    (hparse : parse (used ++ rest) = .error (.expected what rest))
    (d : Derivation (.phrase .stmts)) :
    ∃ q ≤ min (used.length + 1) (used ++ rest).length,
      d.kinds[q]? ≠ ((used ++ rest).map (·.kind))[q]? := by
  refine Classical.byContradiction fun hnone => ?_
  have hagree : ∀ q ≤ min (used.length + 1) ((used ++ rest).map (·.kind)).length,
      d.kinds[q]? = ((used ++ rest).map (·.kind))[q]? := by
    intro q hq
    rw [List.length_map] at hq
    exact Classical.byContradiction fun hne => hnone ⟨q, hq, hne⟩
  -- A program that agrees so far would be parsed from tokens on which the parser gets stuck.
  obtain ⟨d', rest', htokens, halike, hv'⟩ :=
    exists_derivation_alike hv d (take_eq_of_getElem? hagree)
  obtain ⟨used', hused', hstuck⟩ := parse_of_alike hparse
  obtain rfl := List.append_cancel_right hused'
  have hcomplete := parse_complete d' hv'
  rw [htokens, hstuck rest' halike] at hcomplete
  cases hcomplete

/-- Syntax errors point at the right token. A text that is scanned and not parsed has a
    syntax error at the location of exactly one of its tokens or of its end, and this is
    where the parser stays. The tokens before it are the beginning of a program. No program
    has tokens of the same kinds up to and including the one after it; where there is no
    kind the tokens have ended. -/
theorem syntaxError_at_token (hscan : Token.scan text = .ok tokens)
    (hfail : ∀ stmts, parseText text ≠ .ok stmts) :
    ∃ fault stuck p, parseText text = .error fault ∧ fault.problem.kind = .syntaxError ∧
      parse tokens = .error stuck ∧ p ≤ tokens.length ∧ stuck.rest = tokens.drop p ∧
      (∀ q ≤ tokens.length, (fault.diagnostic text).mark.map (·.location) =
        some (locate (tokenStart text tokens q) text) ↔ q = p) ∧
      (∃ d : Derivation (.phrase .stmts), tokens.take p <+: d.tokens) ∧
      ∀ d : Derivation (.phrase .stmts), ∃ q ≤ min (p + 1) tokens.length,
        d.kinds[q]? ≠ (tokens.map (·.kind))[q]? := by
  rcases parse_of_scan hscan with ⟨stmts, hparse, -⟩ | ⟨what, rest, hparse, -⟩
  · exact absurd (parseText_eq_ok_iff.2 ⟨tokens, hscan, hparse⟩) (hfail stmts)
  obtain ⟨used, hused, ds, hbegin⟩ := viable_of_parse hparse
  obtain rfl : used ++ rest = tokens := hused
  have hle : used.length ≤ (used ++ rest).length := by
    rw [List.length_append]
    exact Nat.le_add_right _ _
  obtain ⟨problem, span, hfault, hkind, hlo⟩ := fault_of_expected text used rest what
  have herror := parseText_eq_error hscan hparse
  rw [hfault] at herror
  refine ⟨_, _, used.length, herror, hkind, hparse, hle, List.drop_left.symm, ?_, ?_,
    exists_kind_ne (valued_of_scan hscan) hparse⟩
  · intro q hq
    change some (Mark.ofSpan span text).location = _ ↔ _
    rw [location_ofSpan, hlo, Option.some.injEq, eq_comm, locate_tokenStart_eq_iff hscan hle hq]
  · match ds with
    | .cons d .nil =>
      rw [Derivations.tokens, Derivations.tokens, List.append_nil] at hbegin
      exact ⟨d, by rwa [List.take_left]⟩

/-- A text in which something else than a power follows `to`. -/
def toText : List Char := "print π to y;".toList

/-- Its tokens. -/
def toTokens : List Token :=
  [⟨.keyword .print, "print", ⟨0, 5⟩⟩, ⟨.ident, "π", ⟨6, 8⟩⟩, ⟨.keyword .to_, "to", ⟨9, 11⟩⟩,
    ⟨.ident, "y", ⟨12, 13⟩⟩, ⟨.semicolon, ";", ⟨13, 14⟩⟩]

/-- The syntax error is at `to`, though a program may go on with `to the`. -/
theorem syntaxError_at_token_to :
    Token.scan toText = .ok toTokens ∧ (∀ stmts, parseText toText ≠ .ok stmts) ∧
      (∃ d : Derivation (.phrase .stmts), toTokens.take 2 <+: d.tokens) ∧
      ∀ d : Derivation (.phrase .stmts), ∃ q ≤ 3,
        d.kinds[q]? ≠ (toTokens.map (·.kind))[q]? := by
  have hscan : Token.scan toText = .ok toTokens := by decide +kernel
  have hparse : parse toTokens = .error (.expected (.text ";") (toTokens.drop 2)) := by cbv
  have hfail : ∀ stmts, parseText toText ≠ .ok stmts := by
    intro stmts hok
    rw [parseText_eq_error hscan hparse] at hok
    cases hok
  obtain ⟨-, stuck, p, -, -, hstuck, hle, hrest, -, hbegin, hnone⟩ :=
    syntaxError_at_token hscan hfail
  obtain rfl : p = 2 := by
    cases hparse.symm.trans hstuck
    have hlength := congrArg List.length hrest
    rw [List.length_drop] at hlength
    have hfive : toTokens.length = 5 := rfl
    have hthree : (Stuck.expected (.text ";") (toTokens.drop 2)).rest.length = 3 := rfl
    omega
  exact ⟨hscan, hfail, hbegin, hnone⟩

end Toal
