/-
  The constructors of literals.  Generated code builds a literal by calling a named constant on the
  integers written in it: one integer for a whole number, two for a fraction.  The names of the constants
  begin with an underscore, which no name in source does, so a program can never bind them.
-/
import Reckoner.Number

namespace Reckoner

/-- A constant that literals are built through. -/
inductive Constructor
  | fraction
  | int
  deriving DecidableEq, Repr

namespace Constructor

/-- The name of the constant in generated code. -/
def key : Constructor → String
  | int => "__int__"
  | fraction => "__fraction__"

/-- The constructor of a constant's name. -/
def ofKey? : String → Option Constructor
  | "__int__" => some int
  | "__fraction__" => some fraction
  | _ => none

/-- A constructor applied to the integers of a literal. -/
def apply : Constructor → List Int → Except Failure Number
  | int, [n] => .ok (.int n)
  | int, args => .error (.fault (.arity "int" 1 args.length))
  | fraction, [n, d] => if h : d = 0 then .error .divisionByZero else .ok (.ofQuotient n d h)
  | fraction, args => .error (.fault (.arity "fraction" 2 args.length))

end Constructor

end Reckoner
