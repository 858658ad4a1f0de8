/-
  Code: the executable form of a node.  A literal calls its constructor, which is found among the
  constants at hand; a reference looks its name up when it runs; an operation runs both operands and
  applies its operator.
-/
import Reckoner.Engine.Node

namespace Reckoner

/-- Executable code. -/
inductive Code
  | literal (constant : String) (args : List Int)
  | lookup (name : String)
  | operation (op : Operator) (left right : Code)
  deriving DecidableEq, Repr

namespace Code

/-- Code as it is shown. -/
def text : Code → String
  | literal c args => c ++ "(" ++ String.intercalate ", " (args.map Text.ofInt) ++ ")"
  | lookup x => "namespace[" ++ Text.quoted x ++ "].evaluate(namespace)"
  | operation op l r => "(" ++ l.text ++ " " ++ op.symbol ++ " " ++ r.text ++ ")"

/-- Build a literal through a constant, which must be at hand. -/
def build (atHand : List String) (constant : String) (args : List Int) : Except Failure Number :=
  if constant ∈ atHand then
    match Constructor.ofKey? constant with
    | some c => c.apply args
    | none => .error (.fault (.constantRule constant))
  else .error (.fault (.constantRule constant))

end Code

/-- The code of a node. -/
def Node.code : Node → Code
  | integer _ n => .literal Constructor.int.key [n]
  | rational _ n d => .literal Constructor.fraction.key [n, d]
  | reference _ x => .lookup x
  | binary _ op l r => .operation op l.code r.code

/-- The constants that the code of a node is built through. -/
def Node.constants (n : Node) : List String := n.expr.constants.map Constructor.key

end Reckoner
