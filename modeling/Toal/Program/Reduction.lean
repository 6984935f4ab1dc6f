import Toal.Number.Text
import Toal.Operator

/-!
# Reductions, on record

Simplifying a program applies reductions to it, and each is put on record. A
computation that reduces has a value and the reductions that led to it, in order
(`Reduced`). What such a computation gives never depends on what is on record.
-/

namespace Toal.Program

/-- The reductions. -/
inductive Reduction
  /-- An operator between two numbers is replaced by its value. -/
  | arithmetic (op : ArithOp) (x y value : Float)
  /-- A comparison is replaced by its value. -/
  | comparison (op : CompareOp) (value : Bool)
  /-- An `if` is replaced by the branch that its test selects. -/
  | branch (test : Bool)
  /-- A loop that is never entered is removed. -/
  | loop
  /-- Statements that are never reached are removed. -/
  | unreachable (count : Nat)
deriving DecidableEq, Repr

/-- What the record says about a reduction. -/
def Reduction.text : Reduction → String
  | arithmetic op x y value =>
    Number.text .plain x ++ " " ++ op.symbol ++ " " ++ Number.text .plain y ++ " => " ++
      Number.text .plain value
  | comparison op value => "comparison " ++ op.symbol ++ " => " ++ toString value
  | branch test => "if " ++ toString test ++ " replaced by its taken branch"
  | loop => "removed loop while false"
  | unreachable count => "dropped " ++ toString count ++ " unreachable statement(s)"

/-- A value and the reductions that led to it. -/
structure Reduced (α : Type) where
  /-- What reducing gave. -/
  value : α
  /-- The reductions, in order. -/
  reductions : List Reduction

namespace Reduced

instance : Monad Reduced where
  pure a := ⟨a, []⟩
  bind x f :=
    let y := f x.value
    ⟨y.value, x.reductions ++ y.reductions⟩

/-- Puts a reduction on record. -/
def record (r : Reduction) : Reduced Unit := ⟨(), [r]⟩

variable {α β : Type}

@[simp]
theorem value_pure (a : α) : (pure a : Reduced α).value = a := rfl

@[simp]
theorem reductions_pure (a : α) : (pure a : Reduced α).reductions = [] := rfl

@[simp]
theorem value_bind (x : Reduced α) (f : α → Reduced β) :
    (x >>= f).value = (f x.value).value := rfl

@[simp]
theorem reductions_bind (x : Reduced α) (f : α → Reduced β) :
    (x >>= f).reductions = x.reductions ++ (f x.value).reductions := rfl

end Reduced

end Toal.Program
