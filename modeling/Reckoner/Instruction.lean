/-
  Instructions.  A program assigns expressions to names and evaluates expressions.  The third form is an
  empty place in a list of instructions: no line of source produces it, a program that meets it ends with
  a fault, and pruning leaves it alone.
-/
import Reckoner.Evaluation

namespace Reckoner

/-- An instruction over expressions of type `α`. -/
inductive Instruction (α : Type)
  | assign (name : String) (body : α)
  | evaluate (body : α)
  | missing
  deriving DecidableEq, Repr

/-- Replace the expression of an instruction by its image. -/
def Instruction.map {α β : Type} (f : α → β) : Instruction α → Instruction β
  | assign x a => assign x (f a)
  | evaluate a => evaluate (f a)
  | missing => missing

/-- The source form of an instruction. -/
def Instruction.text : Instruction Expr → String
  | assign x e => x ++ " := " ++ e.text
  | evaluate e => ">>> " ++ e.text
  | missing => "<<nil>>"

/-- The result of an evaluation: a number, or the failure that took its place. -/
inductive Result
  | value (x : Number)
  | diagnostic (cause : Failure)
  deriving DecidableEq, Repr

/-- A result as it is printed. -/
def Result.text : Result → String
  | value x => x.text
  | diagnostic f => f.message

/-- A failed evaluation is a result if the failure is recoverable. -/
def Result.ofOutcome : Except Failure Number → Except Failure Result
  | .ok x => .ok (.value x)
  | .error f => if f.recoverable then .ok (.diagnostic f) else .error f

end Reckoner
