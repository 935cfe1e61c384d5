import Worksheet.Formula

/-!
# Evaluating a formula

Evaluation goes through the tokens once with two stacks, one of values and one of
what is still pending.  A product is computed as soon as its right operand is
known.  A sum waits until the next sum, the closing parenthesis or the end, so
that the products on its right come first.  Hence operands are computed from left
to right, and each operator as early as its operands allow.

Names are looked up on the way.  A run ends at the first failure: a name without
a number, or a quotient with zero below the line.  Besides the outcome, a run
keeps the names it has asked for, the failing one included.
-/

namespace Worksheet

/-- The reasons for which a formula has no number. -/
inductive EvalError where
  | undefined (name : String)
  | divisionByZero
  /-- An operand or a parenthesis is missing.  No formula gives rise to it. -/
  | malformed
  deriving Repr, DecidableEq, Inhabited

/-- An evaluation error in words. -/
def EvalError.reason : EvalError → String
  | undefined name => s!"variable '{name}' is undefined"
  | divisionByZero => "division by zero"
  | malformed => "malformed expression"

/-- The number that an operator makes of two.  Zero of either sign divides
nothing. -/
def Operator.apply : Operator → Float → Float → Except EvalError Float
  | plus, left, right => .ok (left + right)
  | minus, left, right => .ok (left - right)
  | times, left, right => .ok (left * right)
  | divide, left, right => if right == 0.0 then .error .divisionByZero else .ok (left / right)

namespace Evaluation

/-! ## Looking up names -/

/-- A computation that may fail and that keeps the names it has asked for, the
latest first. -/
abbrev Run := ExceptT EvalError (StateM (List String))

/-- Of two runs one after the other, the second goes on with the names of the first, unless
that has failed. -/
theorem run_bind {α β : Type} (first : Run α) (next : α → Run β) (before : List String) :
    (first >>= next).run.run before =
      match first.run.run before with
      | (.ok a, later) => (next a).run.run later
      | (.error cause, later) => (.error cause, later) := by
  change ExceptT.bindCont next (first.run.run before).1 (first.run.run before).2 = _
  cases first.run.run before with
  | mk outcome later => cases outcome <;> rfl

/-- Asks for the number of a name. -/
def ask (lookup : String → Option Float) (name : String) : Run Float := do
  modify (name :: ·)
  match lookup name with
  | some value => pure value
  | none => throw (.undefined name)

/-! ## The two stacks -/

/-- What waits for its right operand or its end. -/
inductive Pending where
  | operator (op : Operator)
  | opening
  deriving Repr, DecidableEq, Inhabited

/-- The state between two tokens: the values and what is pending, the latest of
each first. -/
structure Stacks where
  values : List Float := []
  pending : List Pending := []
  deriving Inhabited

/-- Applies an operator to the two latest values. -/
def applyTop (op : Operator) : List Float → Run (List Float)
  | right :: left :: values => do pure ((← liftExcept (op.apply left right)) :: values)
  | _ => throw .malformed
where
  /-- An outcome as a run that asks for nothing. -/
  liftExcept (outcome : Except EvalError Float) : Run Float := ExceptT.mk (pure outcome)

/-- Takes out what is pending last, and applies it if it is an operator. -/
def pop (state : Stacks) : Run Stacks :=
  match state.pending with
  | .operator op :: pending => do pure ⟨← applyTop op state.values, pending⟩
  | _ => pure { state with pending := state.pending.tail }

/-- Applies the latest pending operator if it is wanted now. -/
def reduce (isWanted : Operator → Bool) (state : Stacks) : Run Stacks :=
  match state.pending with
  | .operator op :: _ => if isWanted op then pop state else pure state
  | _ => pure state

/-- Takes in an operand, and completes the product that waits for it. -/
def operand (state : Stacks) (value : Float) : Run Stacks :=
  reduce Operator.isMultiplicative { state with values := value :: state.values }

/-- Whether an operator waits for the products on its right. -/
def isAdditive (op : Operator) : Bool := !op.isMultiplicative

/-- Takes in one token. -/
def step (lookup : String → Option Float) (state : Stacks) : Token → Run Stacks
  | .number value => operand state value
  | .name stored => do operand state (← ask lookup stored)
  | .operator op =>
      if op.isMultiplicative then
        pure { state with pending := .operator op :: state.pending }
      else do
        let state ← reduce isAdditive state
        pure { state with pending := .operator op :: state.pending }
  | .opening => pure { state with pending := .opening :: state.pending }
  | .closing => do
      let state ← reduce isAdditive state
      match state.pending with
      | .opening :: pending => reduce Operator.isMultiplicative { state with pending := pending }
      | _ => throw .malformed

/-- Takes out what is pending last, which has to leave one value and nothing else. -/
def finish (state : Stacks) : Run Float := do
  let state ← pop state
  match state.values, state.pending with
  | [result], [] => pure result
  | _, _ => throw .malformed

/-- Evaluates a list of tokens. -/
def ofTokens (lookup : String → Option Float) (tokens : List Token) : Run Float := do
  finish (← tokens.foldlM (step lookup) {})

end Evaluation

namespace Formula

/-- The run that evaluates a formula, with the names it asks for. -/
def evaluation (f : Formula) (lookup : String → Option Float) : Evaluation.Run Float :=
  Evaluation.ofTokens lookup f.tokens

/-- The number of a formula, where `lookup` gives the numbers of names. -/
def evaluate (f : Formula) (lookup : String → Option Float) : Except EvalError Float :=
  ((f.evaluation lookup).run.run []).1

/-- The names that evaluating a formula asks for, in order and with repetitions, up
to the one that has no number. -/
def asked (f : Formula) (lookup : String → Option Float) : List String :=
  ((f.evaluation lookup).run.run []).2.reverse

end Formula

end Worksheet
