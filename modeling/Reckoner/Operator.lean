/-
  The four operators.  An operation may be built with any symbol, but only four symbols have arithmetic;
  the others are kept by their spelling so that they can be shown and refused.
-/
namespace Reckoner

/-- The operator of a two-sided operation. -/
inductive Operator
  | add
  | sub
  | mul
  | div
  /-- A symbol without arithmetic. -/
  | other (symbol : String)
  deriving DecidableEq, Repr

namespace Operator

/-- The operator that a symbol spells. -/
def ofSymbol : String → Operator
  | "+" => add
  | "-" => sub
  | "*" => mul
  | "/" => div
  | s => other s

/-- The spelling of an operator. -/
def symbol : Operator → String
  | add => "+"
  | sub => "-"
  | mul => "*"
  | div => "/"
  | other s => s

/-- The operators that have arithmetic. -/
def isArithmetic : Operator → Bool
  | other _ => false
  | _ => true

theorem ofSymbol_symbol {op : Operator} (h : op.isArithmetic) : ofSymbol op.symbol = op := by
  cases op <;> first | rfl | simp [isArithmetic] at h

end Operator

end Reckoner
