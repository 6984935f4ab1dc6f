import Toal.Compiler
import Toal.Proofs.ParsePlaces
import Toal.Proofs.Scopes

/-!
# Every text can be compiled or has a fault

Compiling does not break down, whatever the text is: it succeeds or it finds a
fault, and the fault can be shown (`compile_ok_or_fault`). That rests on what
each stage finds when it begins. The scanner stands at a boundary of the text at
every call, so the parser gets numerals that have values; typing leaves scopes
in the order it entered them; and the calls of a typed program are proper, also
after it has been simplified, so that each call of a standard automation has a
template.
-/

namespace Toal

open Source
open Program (Passes Proper stmtsCalls)
open Prelude (Known)

/-! ## Tokens of a text -/

/-- The numerals among the tokens of a text have values. -/
theorem valued_of_scan {text : List Char} {tokens : List Token}
    (h : Token.scan text = .ok tokens) : Surface.Valued tokens := by
  intro t ht
  obtain ⟨n, hn⟩ := Scanner.exists_place_of_mem_tokens (n := 0) h ht
  exact Scanner.hasValue_of_next (Prod.ext hn rfl)

/-- The tokens of a text are parsed, or something else is expected at an end of
    them. -/
theorem parse_of_scan {text : List Char} {tokens : List Token}
    (h : Token.scan text = .ok tokens) :
    (∃ stmts, Surface.parse tokens = .ok stmts ∧ stmts.length ≤ tokens.length) ∨
      ∃ what rest, Surface.parse tokens = .error (.expected what rest) ∧ rest <:+ tokens := by
  cases hparse : Surface.parse tokens with
  | ok stmts => exact .inl ⟨stmts, rfl, Surface.length_parse_le hparse⟩
  | error stuck =>
    have hwithin := Surface.parse_error (valued_of_scan h) hparse
    cases stuck with
    | expected what rest => exact .inr ⟨what, rest, rfl, hwithin⟩
    | invalidNumeral t rest => exact hwithin.elim

/-! ## Calls of a program -/

/-- The calls of a program that is typed with the standard entities are proper,
    also after it has been simplified. -/
theorem proper_simplify {stmts : List Surface.Stmt} {program : Program}
    (h : (Typing.run Prelude.standard stmts).1 = .ok program) (passes : Passes) :
    Proper Known (stmtsCalls (program.simplify passes).value.stmts) := by
  -- Nothing that a program declares comes with the language, so nothing is asked of it.
  have hadmits : Typing.Admits Known := by
    intro e he hbuiltin
    rw [he] at hbuiltin
    cases hbuiltin
  have hproper := Typing.proper_of_run hadmits (fun e he _ => he) h
  exact hproper.mono (Program.calls_simplify passes program)

/-- If its calls are proper, the script of a program exists or the program has a
    fault. -/
theorem scriptText_error {program : Program} {failure : Failure}
    (hcalls : Proper Known (stmtsCalls program.stmts)) (h : program.scriptText = .error failure) :
    ∃ fault, failure = .fault fault := by
  unfold Program.scriptText at h
  split at h
  · cases h
  · next f hf =>
    cases h
    obtain ⟨automation, rfl⟩ := Script.ofProgram_error hcalls hf
    exact ⟨_, rfl⟩

/-! ## Journals -/

/-- The scopes of a journal are entered and left in order, and in the end the
    outermost one is the current one. -/
def LeadsBack (journal : Journal) : Prop :=
  Context.empty.replay journal.toList = some .empty

/-- Journals that lead back can be put together. -/
theorem LeadsBack.append {j k : Journal} (hj : LeadsBack j) (hk : LeadsBack k) :
    LeadsBack (j ++ k) := by
  unfold LeadsBack at *
  rw [Array.toList_append, Context.replay_append, hj]
  exact hk

/-- Events that are no traces do not concern scopes. -/
theorem leadsBack_of_level (events : List Event) (h : ∀ e ∈ events, e.level = .debug) :
    LeadsBack events.toArray := by
  change Context.empty.replay events = some .empty
  induction events with
  | nil => rfl
  | cons e es ih =>
    obtain ⟨he, hes⟩ := List.forall_mem_cons.1 h
    rw [← List.singleton_append, Context.replay_append, Context.replay_singleton,
      Typing.replay?_of_level he]
    exact ih hes

theorem LeadsBack.push {j : Journal} (hj : LeadsBack j) (event : Event)
    (h : event.level = .debug) : LeadsBack (j.push event) := by
  rw [Array.push_eq_append]
  exact hj.append (leadsBack_of_level [event] (List.forall_mem_singleton.2 h))

/-- The stages after typing enter no scope. -/
theorem leadsBack_finish (passes : Passes) (stage : Stage) (program : Program) {journal : Journal}
    (h : LeadsBack journal) : LeadsBack (finish passes stage program journal).2 := by
  have hreduced := h.append (leadsBack_of_level
    ((program.simplify passes).reductions.map Event.reduced) (by simp [Event.level]))
  have hsimplified :=
    hreduced.push (.simplified (program.simplify passes).reductions.length) rfl
  unfold finish
  dsimp only
  split
  · exact hsimplified
  · split
    · exact hsimplified
    · exact hsimplified.push _ rfl

/-- Whatever comes of a compilation, its journal leads back to where it began. -/
theorem leadsBack_compile (passes : Passes) (stage : Stage) (text : List Char) :
    LeadsBack (compile passes stage text).2 := by
  have htyped : ∀ stmts, LeadsBack
      (#[Event.parsed stmts.length] ++ (Typing.run Prelude.standard stmts).2) := fun stmts =>
    (leadsBack_of_level [.parsed stmts.length] (by simp [Event.level])).append
      (Typing.replay_run Prelude.standard stmts rfl)
  unfold compile
  split
  · next fault _ => exact leadsBack_of_level [.raised fault] (by simp [Event.level])
  · next stmts _ =>
    dsimp only
    split
    · exact leadsBack_of_level [.parsed stmts.length] (by simp [Event.level])
    · split
      · next fault typing hrun =>
        have h := htyped stmts
        rw [hrun] at h
        exact h
      · next program typing hrun =>
        have h := (htyped stmts).push .analyzed rfl
        rw [hrun] at h
        split
        · exact h
        · exact leadsBack_finish passes stage program h

/-! ## Outcomes -/

/-- Only a fault keeps a text from being compiled. -/
theorem compile_error {passes : Passes} {stage : Stage} {text : List Char} {failure : Failure}
    (h : (compile passes stage text).1 = .error failure) : ∃ fault, failure = .fault fault := by
  -- Parsing and typing can only raise faults; what else could fail is the script.
  unfold compile at h
  split at h
  · cases h
    exact ⟨_, rfl⟩
  · dsimp only at h
    split at h
    · cases h
    · split at h
      · cases h
        exact ⟨_, rfl⟩
      · next program typing hrun =>
        split at h
        · cases h
        · have hproper := proper_simplify (congrArg Prod.fst hrun) passes
          unfold finish at h
          dsimp only at h
          split at h
          · cases h
          · split at h
            · next hscript =>
              cases h
              exact scriptText_error hproper hscript
            · cases h

/-- Compiling a text succeeds or finds a fault, whatever the passes and the stage
    are. The scanner stands at boundaries, gives slices and comes to the end of
    the text. The span of a fault is brought onto a slice, and the fault can be
    shown. The parser stays within the tokens and never finds a numeral without a
    value. Every scope that is left is the current one, and the scopes of the
    journal are in order. Every call has as many arguments as its automation
    takes, and the automations of the language that are called are standard
    ones, for which there are templates. -/
theorem compile_ok_or_fault (passes : Passes) (stage : Stage) (text : List Char) :
    ((∃ output, (compile passes stage text).1 = .ok output) ∨
      ∃ fault, (compile passes stage text).1 = .error (.fault fault)) ∧
    (∀ n, (Scanner.place text n).IsAt text ∧ Scanner.Inside text (Scanner.place text n).next.1) ∧
    (Scanner.place text text.length).rest = [] ∧
    (∀ span : Span, IsSlice text (span.clamp text) (snippet span text)) ∧
    (∀ fault : Fault, ((fault.diagnostic text).render? text).isSome = true) ∧
    (∀ tokens, Token.scan text = .ok tokens → tokens.length ≤ text.length ∧
      ((∃ stmts, Surface.parse tokens = .ok stmts ∧ stmts.length ≤ tokens.length) ∨
        ∃ what rest, Surface.parse tokens = .error (.expected what rest) ∧ rest <:+ tokens)) ∧
    (∀ {α : Type} {body : Typing α}, Typing.ScopeBody body → ∀ (s : Typing.State) (o : Overrides),
      (Typing.stateAfter body (s.entered o)).context.exit? (s.context.enter o).id =
        some (some s.context)) ∧
    LeadsBack (compile passes stage text).2 ∧
    ∀ stmts program, (Typing.run Prelude.standard stmts).1 = .ok program →
      Proper Known (stmtsCalls (program.simplify passes).value.stmts) := by
  refine ⟨?_, fun n => ?_, Scanner.rest_place_length text, fun span => isSlice_clamp span text,
    fun fault => isSome_render?_diagnostic fault text, fun tokens h => ?_,
    fun h s o => h.exit?_eq s o, leadsBack_compile passes stage text,
    fun _ _ h => proper_simplify h passes⟩
  · cases hresult : (compile passes stage text).1 with
    | ok output => exact .inl ⟨output, rfl⟩
    | error failure =>
      obtain ⟨fault, rfl⟩ := compile_error hresult
      exact .inr ⟨fault, rfl⟩
  · have hplace := Scanner.isAt_place text n
    exact ⟨hplace, Scanner.inside_next hplace⟩
  · exact ⟨Scanner.length_tokens_le h, parse_of_scan h⟩

end Toal
