/-
  Literals of numbers.  A number is in lowest terms already, so making the quotient of its own numerator
  and denominator changes nothing: the literal that stands for a number evaluates to that number.
-/
import Reckoner.Expr

namespace Reckoner.Number

/-- The quotient of the two parts of a fraction is the fraction. -/
theorem ofQuotient_fraction (f : Fraction) (h : (f.den : Int) ≠ 0) :
    ofQuotient f.num f.den h = fraction f := by
  obtain ⟨num, den, hden, hred⟩ := f
  have hgcd : num.natAbs.gcd den = 1 := hred
  have hne : ¬den = 1 := by omega
  have hnum : (if num < 0 ↔ (den : Int) < 0 then (num.natAbs : Int) else -(num.natAbs : Int)) = num := by
    split <;> omega
  simp only [ofQuotient, Int.natAbs_natCast, hgcd, Nat.div_one, dif_neg hne, hnum]

/-- Building a number from the parts of its literal gives the number back. -/
theorem apply_fraction_parts (f : Fraction) :
    Constructor.fraction.apply [f.num, (f.den : Int)] = .ok (fraction f) := by
  have hden : (f.den : Int) ≠ 0 := by
    have := f.one_lt_den
    omega
  simp only [Constructor.apply, dif_neg hden, ofQuotient_fraction f hden]

/-- Rationals under an operator that has arithmetic fail only by a division by zero. -/
theorem eq_divisionByZero_of_arithmetic {op : Operator} (hop : op.isArithmetic = true) {x y : Number}
    {f : Failure} (h : arithmetic op x y = .error f) : f = .divisionByZero := by
  cases op with
  | div =>
    simp only [arithmetic, div] at h
    split at h
    · cases h
      rfl
    · cases h
  | other s => cases hop
  | _ => cases h

/-- So do whole numbers on their own. -/
theorem eq_divisionByZero_of_onInt {op : Operator} (hop : op.isArithmetic = true) {m n : Int}
    {f : Failure} (h : op.onInt m n = .error f) : f = .divisionByZero := by
  cases op with
  | div =>
    simp only [Operator.onInt] at h
    split at h
    · cases h
      rfl
    · cases h
  | other s => cases hop
  | _ => cases h

/-- An operator that has arithmetic fails only by dividing by zero, whichever way it goes. -/
theorem eq_divisionByZero_of_apply {op : Operator} (hop : op.isArithmetic = true) {x y : Number}
    {f : Failure} (h : apply op x y = .error f) : f = .divisionByZero := by
  cases x with
  | int m =>
    cases y with
    | int n => exact eq_divisionByZero_of_onInt hop h
    | fraction g => exact eq_divisionByZero_of_arithmetic hop h
  | fraction g => exact eq_divisionByZero_of_arithmetic hop h

/-- A symbol without arithmetic is refused, whichever way it goes. -/
theorem apply_other (s : String) (x y : Number) :
    apply (.other s) x y = .error (.fault (.operatorRule s)) := by
  cases x <;> cases y <;> rfl

/-- Such a failure is a result. -/
theorem recoverable_of_apply {op : Operator} (hop : op.isArithmetic) {x y : Number} {f : Failure}
    (h : apply op x y = .error f) : f.recoverable := by
  rw [eq_divisionByZero_of_apply hop h]
  rfl

/-- Any operator fails by dividing by zero or with a fault. -/
theorem failure_of_apply {op : Operator} {x y : Number} {f : Failure} (h : apply op x y = .error f) :
    f = .divisionByZero ∨ ∃ c, f = .fault c := by
  cases hop : op.isArithmetic with
  | true => exact Or.inl (eq_divisionByZero_of_apply hop h)
  | false =>
    cases op with
    | other s =>
      rw [apply_other] at h
      cases h
      exact Or.inr ⟨_, rfl⟩
    | _ => cases hop

end Reckoner.Number
