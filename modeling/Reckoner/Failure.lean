/-
  How an evaluation can fail.  A missing name, a name that needs itself and a division by zero are part
  of the calculator's life: the evaluation reports them as its result and the program goes on.  A `Fault`
  is a breach of the calculator's own rules; it ends the program.  Every failure is kept as its cause, and
  the wording of all of them is in `Failure.message`.
-/
import Reckoner.Text.Decimal
import Reckoner.Text.Quoted

namespace Reckoner

/-- A breach of the calculator's own rules. -/
inductive Fault
  /-- An operator that has no arithmetic. -/
  | operatorRule (symbol : String)
  /-- A literal built through a constant that is not at hand. -/
  | constantRule (constant : String)
  /-- A constant that literals are built through is bound as a name. -/
  | collision (constant : String)
  /-- A constructor got the wrong number of integers. -/
  | arity (constructor : String) (wanted got : Nat)
  /-- An operator does not apply to values of these types. -/
  | operands (left symbol right : String)
  /-- A text repeated more often than the counter can hold. -/
  | repeatCount (count : Int)
  /-- A text repeated beyond the largest size. -/
  | repeatSize (bytes count : Nat)
  /-- A value that no literal stands for. -/
  | noLiteral (type text : String)
  /-- An empty place where an instruction was wanted. -/
  | noInstruction
  deriving DecidableEq, Repr

/-- A failed evaluation. -/
inductive Failure
  /-- A name without a binding. -/
  | unbound (name : String)
  /-- A name met again while its own binding is being evaluated. -/
  | recursive (name : String)
  | divisionByZero
  | fault (cause : Fault)
  deriving DecidableEq, Repr

/-- The wording of a fault. -/
def Fault.message : Fault → String
  | operatorRule s => "no code generation rule for operator " ++ s
  | constantRule c => "no code generation rule for constant " ++ c
  | collision c => "bound constant " ++ Text.quoted c ++ " collides with a namespace binding"
  | arity c wanted got =>
    c ++ " constructor takes " ++ Text.ofNat wanted ++
      (if wanted = 1 then " argument" else " arguments") ++
      ", got " ++ Text.ofNat got
  | operands l s r => "unknown binary op: " ++ l ++ " " ++ s ++ " " ++ r
  | repeatCount n => "repeat count " ++ Text.ofInt n ++ " too large"
  | repeatSize b n => "excessive repeat (" ++ Text.ofNat b ++ " * " ++ Text.ofNat n ++ " elements)"
  | noLiteral t s => "no expression conversion for " ++ t ++ " value " ++ s
  | noInstruction => "unknown instruction <nil>"

/-- The wording of a failure. -/
def Failure.message : Failure → String
  | unbound x => "NameError: name '" ++ x ++ "' is not defined"
  | recursive x => "RecursionError: name '" ++ x ++ "' is defined in terms of itself"
  | divisionByZero => "ZeroDivisionError: division by zero"
  | fault f => "internal error: " ++ f.message

/-- A recoverable failure is the result of the evaluation it stops, and nothing more. -/
def Failure.recoverable : Failure → Bool
  | fault _ => false
  | _ => true

end Reckoner
