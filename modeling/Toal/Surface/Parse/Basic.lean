import Toal.Problem
import Toal.Surface
import Toal.Token

/-!
# Parsing: results and tokens

A parser is a function on the tokens that lie ahead. It gives what it has read
and the tokens after that, which are fewer (`Parsed`); this is what makes the
recursion of the grammar end. When it cannot go on it says what should have
stood there, and keeps the tokens from there on (`Stuck`), so that reading can be
taken up again at that point.

There are three ways to read: what must be there (`Outcome`), what may be empty
(`Outcome?`), and what may be there or not (`Attempt`). Their `andThen`s hand the
tokens that are left to the next parser, along with the fact that they are fewer,
and add up the tokens used.
-/

namespace Toal.Surface

open Source

/-- Something that was read, and the fewer than `bound` tokens after it. -/
structure Parsed (α : Type) (bound : Nat) where
  /-- What was read. -/
  value : α
  /-- The tokens that follow. -/
  rest : List Token
  /-- Tokens were used up. -/
  lt : rest.length < bound

/-- Why a parser cannot go on. -/
inductive Stuck
  /-- The tokens ahead do not begin with what may stand here. -/
  | expected (what : Expectation) (rest : List Token)
  /-- The numeral just passed has no value. -/
  | invalidNumeral (numeral : Token) (rest : List Token)
deriving DecidableEq, Repr

namespace Stuck

/-- The tokens that are left. -/
def rest : Stuck → List Token
  | expected _ rest => rest
  | invalidNumeral _ rest => rest

/-- The fault to report, for a text that ends at the offset `stop`. -/
def fault (stop : Nat) : Stuck → Fault
  | expected what [] => ⟨.expected what none, some ⟨stop, stop⟩⟩
  | expected what (t :: _) => ⟨.expected what (some t.written), some t.span⟩
  | invalidNumeral t _ => ⟨.invalidNumeral, some t.span⟩

end Stuck

/-- The outcome of reading an `α` off the tokens `ts`. -/
abbrev Outcome (α : Type) (ts : List Token) := Except Stuck (Parsed α ts.length)

/-- The outcome of reading an `α` that may be empty off the tokens `ts`. -/
abbrev Outcome? (α : Type) (ts : List Token) := Except Stuck (Parsed α (ts.length + 1))

/-- The outcome of reading an `α` off the tokens `ts` if it is there at all. -/
abbrev Attempt (α : Type) (ts : List Token) := Except Stuck (Option (Parsed α ts.length))

namespace Outcome

variable {α β : Type} {ts : List Token}

/-- Reading with `f` applied to what was read. -/
def map (f : α → β) (p : Outcome α ts) : Outcome β ts :=
  match p with
  | .error stuck => .error stuck
  | .ok ⟨value, rest, lt⟩ => .ok ⟨f value, rest, lt⟩

/-- Reading on with `next` after `p`. -/
def andThen (p : Outcome α ts)
    (next : α → (rest : List Token) → rest.length < ts.length → Outcome β rest) :
    Outcome β ts :=
  match p with
  | .error stuck => .error stuck
  | .ok ⟨value, rest, lt⟩ =>
    match next value rest lt with
    | .error stuck => .error stuck
    | .ok ⟨value, rest, lt'⟩ => .ok ⟨value, rest, Nat.lt_trans lt' lt⟩

/-- Reading on with `next`, which may be empty, after `p`. -/
def andMaybe (p : Outcome α ts)
    (next : α → (rest : List Token) → rest.length < ts.length → Outcome? β rest) :
    Outcome β ts :=
  match p with
  | .error stuck => .error stuck
  | .ok ⟨value, rest, lt⟩ =>
    match next value rest lt with
    | .error stuck => .error stuck
    | .ok ⟨value, rest, le⟩ => .ok ⟨value, rest, Nat.lt_of_lt_of_le le lt⟩

/-- Reading after a first token that is already known. -/
def after {t : Token} (p : Outcome α ts) : Outcome α (t :: ts) :=
  match p with
  | .error stuck => .error stuck
  | .ok ⟨value, rest, lt⟩ => .ok ⟨value, rest, Nat.lt_succ_of_lt lt⟩

/-- Reading that could have been empty, though this one is not. -/
def weak (p : Outcome α ts) : Outcome? α ts :=
  match p with
  | .error stuck => .error stuck
  | .ok ⟨value, rest, lt⟩ => .ok ⟨value, rest, Nat.lt_succ_of_lt lt⟩

end Outcome

namespace Outcome?

variable {α β : Type} {ts : List Token}

/-- The given value, for which nothing is read. -/
def done (value : α) (ts : List Token) : Outcome? α ts :=
  .ok ⟨value, ts, Nat.lt_succ_self _⟩

/-- Reading with `f` applied to what was read. -/
def map (f : α → β) (p : Outcome? α ts) : Outcome? β ts :=
  match p with
  | .error stuck => .error stuck
  | .ok ⟨value, rest, le⟩ => .ok ⟨f value, rest, le⟩

/-- Reading on with `next` after `p`. -/
def andThen (p : Outcome? α ts)
    (next : α → (rest : List Token) → rest.length < ts.length + 1 → Outcome β rest) :
    Outcome β ts :=
  match p with
  | .error stuck => .error stuck
  | .ok ⟨value, rest, le⟩ =>
    match next value rest le with
    | .error stuck => .error stuck
    | .ok ⟨value, rest, lt⟩ => .ok ⟨value, rest, Nat.lt_of_lt_of_le lt (Nat.le_of_lt_succ le)⟩

/-- Reading after a first token that is already known. -/
def after {t : Token} (p : Outcome? α ts) : Outcome α (t :: ts) :=
  p

end Outcome?

namespace Attempt

variable {α β : Type} {ts : List Token}

/-- Reading what is there. -/
def found (p : Outcome α ts) : Attempt α ts :=
  match p with
  | .error stuck => .error stuck
  | .ok parsed => .ok (some parsed)

/-- Reading on with `next` after `p` if it is there, and otherwise the given
    value, for which nothing is read. -/
def andThen (p : Attempt α ts) (otherwise : β)
    (next : α → (rest : List Token) → rest.length < ts.length → Outcome β rest) :
    Outcome? β ts :=
  match p with
  | .error stuck => .error stuck
  | .ok none => .done otherwise ts
  | .ok (some parsed) => (Outcome.andThen (.ok parsed) next).weak

end Attempt

/-- Reads one token of the given kind, where a message would call for `what`. -/
def token (kind : Token.Kind) (what : Expectation) : (ts : List Token) → Outcome Token ts
  | [] => .error (.expected what [])
  | t :: rest =>
    if t.kind = kind then Outcome?.after (.done t rest) else .error (.expected what (t :: rest))

/-- Reads one token of the given kind, if it is there. -/
def token? (kind : Token.Kind) : (ts : List Token) → Attempt Token ts
  | [] => .ok none
  | t :: rest =>
    if t.kind = kind then .found (Outcome?.after (.done t rest)) else .ok none

/-- Reads a keyword. -/
def keyword (k : Keyword) (ts : List Token) : Outcome Token ts :=
  token (.keyword k) (.text k.text) ts

/-- Reads a semicolon. -/
def semicolon (ts : List Token) : Outcome Token ts :=
  token .semicolon (.text ";") ts

/-- Reads a name, where a message would call for `what`. -/
def ident (what : Expectation) (ts : List Token) : Outcome Ident ts :=
  (token .ident what ts).map fun t => ⟨t.text, t.span⟩

/-- The kind of the next token. -/
def kind? (ts : List Token) : Option Token.Kind :=
  ts.head?.map (·.kind)

end Toal.Surface
