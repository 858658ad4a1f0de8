/-
  Exact numbers.  A number is a whole number, or a fraction in lowest terms whose denominator is greater
  than one; the type admits nothing else, so each rational has exactly one form.  `ofQuotient` brings
  any quotient into that form, and the arithmetic of rationals is cross-multiplication followed by
  `ofQuotient`.

  An operation goes one of several ways.  Two whole numbers are put together on their own, and only their
  quotient may be a fraction.  Where a fraction takes part, it does the operation as rationals do: the one
  on the left if there is one, else the one on the right.
-/
import Reckoner.Failure
import Reckoner.Operator

namespace Reckoner

/-- A fraction in lowest terms that is not whole. -/
structure Fraction where
  num : Int
  den : Nat
  one_lt_den : 1 < den
  reduced : Nat.Coprime num.natAbs den
  deriving DecidableEq, Repr

/-- An exact number. -/
inductive Number
  | int (n : Int)
  | fraction (f : Fraction)
  deriving DecidableEq, Repr

namespace Number

/-- The numerator; of a whole number the number itself. -/
def num : Number → Int
  | int n => n
  | fraction f => f.num

/-- The denominator; of a whole number one. -/
def den : Number → Nat
  | int _ => 1
  | fraction f => f.den

theorem den_pos : ∀ x : Number, 0 < x.den
  | int _ => Nat.one_pos
  | fraction f => Nat.lt_trans Nat.one_pos f.one_lt_den

theorem den_ne_zero (x : Number) : (x.den : Int) ≠ 0 := by
  have := x.den_pos
  omega

/-- The number `n / d`, for `d ≠ 0`: divide both by their greatest common divisor and put the sign on the
    numerator.  What remains of the denominator is one exactly when the quotient is whole. -/
def ofQuotient (n d : Int) (hd : d ≠ 0) : Number :=
  let g := Nat.gcd n.natAbs d.natAbs
  let num : Int := if n < 0 ↔ d < 0 then (n.natAbs / g : Nat) else -(n.natAbs / g : Nat)
  if h : d.natAbs / g = 1 then int num
  else fraction
    { num := num
      den := d.natAbs / g
      one_lt_den := by
        have hg : g ≤ d.natAbs := Nat.gcd_le_right _ (Int.natAbs_pos.2 hd)
        have hpos : 0 < g := Nat.gcd_pos_of_pos_right _ (Int.natAbs_pos.2 hd)
        have : 0 < d.natAbs / g := Nat.div_pos hg hpos
        omega
      reduced := by
        have hpos : 0 < g := Nat.gcd_pos_of_pos_right _ (Int.natAbs_pos.2 hd)
        have habs : num.natAbs = n.natAbs / g := by
          simp only [num]
          split
          · exact Int.natAbs_natCast _
          · rw [Int.natAbs_neg]; exact Int.natAbs_natCast _
        rw [habs]
        exact Nat.coprime_div_gcd_div_gcd hpos }

theorem mul_den_ne_zero (x y : Number) : ((x.den * y.den : Nat) : Int) ≠ 0 := by
  have := Nat.mul_pos x.den_pos y.den_pos
  omega

/-- The exact sum. -/
def add (x y : Number) : Number :=
  ofQuotient (x.num * y.den + y.num * x.den) (x.den * y.den : Nat) (mul_den_ne_zero x y)

/-- The exact difference. -/
def sub (x y : Number) : Number :=
  ofQuotient (x.num * y.den - y.num * x.den) (x.den * y.den : Nat) (mul_den_ne_zero x y)

/-- The exact product. -/
def mul (x y : Number) : Number :=
  ofQuotient (x.num * y.num) (x.den * y.den : Nat) (mul_den_ne_zero x y)

/-- The exact quotient; dividing by zero is the only failure. -/
def div (x y : Number) : Except Failure Number :=
  if h : y.num = 0 then .error .divisionByZero
  else .ok (ofQuotient (x.num * y.den) (x.den * y.num)
    (Int.mul_ne_zero x.den_ne_zero h))

/-- An operator applied to two numbers as to rationals. -/
def arithmetic (op : Operator) (x y : Number) : Except Failure Number :=
  match op with
  | .add => .ok (x.add y)
  | .sub => .ok (x.sub y)
  | .mul => .ok (x.mul y)
  | .div => x.div y
  | .other s => .error (.fault (.operatorRule s))

end Number

/-- An operator applied to two whole numbers.  Only a division can leave them. -/
def Operator.onInt (op : Operator) (m n : Int) : Except Failure Number :=
  match op with
  | .add => .ok (.int (m + n))
  | .sub => .ok (.int (m - n))
  | .mul => .ok (.int (m * n))
  | .div => if h : n = 0 then .error .divisionByZero else .ok (.ofQuotient m n h)
  | .other s => .error (.fault (.operatorRule s))

/-- A fraction does an operation with a number: on the left of the number if `onLeft`, else on its
    right. -/
def Fraction.operate (op : Operator) (f : Fraction) (y : Number) (onLeft : Bool) :
    Except Failure Number :=
  if onLeft then Number.arithmetic op (.fraction f) y else Number.arithmetic op y (.fraction f)

namespace Number

/-- An operator applied to two numbers, in the way that their kinds ask for. -/
def apply (op : Operator) : Number → Number → Except Failure Number
  | int m, int n => op.onInt m n
  | int m, fraction f => f.operate op (int m) false
  | fraction f, y => f.operate op y true

/-- `n`, or `n/d` in lowest terms. -/
def text : Number → String
  | int n => Text.ofInt n
  | fraction f => Text.ofInt f.num ++ "/" ++ Text.ofNat f.den

end Number

end Reckoner
