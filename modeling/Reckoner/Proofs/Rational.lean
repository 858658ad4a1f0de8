/-
  Numbers are the rationals.  A number denotes a rational (`toRat`), every rational is denoted by one
  number (`ofRat`), and the two ways are inverse to each other, because a number is in lowest terms and
  a whole one is no fraction.

  So the arithmetic is exact as soon as `ofQuotient` is: it only has to be followed through the sign and
  the common divisor once (`num_ofQuotient_mul`), and each operation is a quotient of cross products.
  An operation may go several ways, by the kinds of its operands, and each of them ends at the number of
  the exact result (`apply_eq`).
-/
import Mathlib.Data.Rat.Lemmas
import Mathlib.Tactic.Ring
import Reckoner.Proofs.Evaluation

namespace Reckoner

namespace Number

/-! ## Numbers and rationals -/

/-- The rational that a number denotes. -/
def toRat (x : Number) : ℚ := x.num / x.den

/-- The number that denotes a rational. -/
def ofRat (q : ℚ) : Number :=
  if h : q.den = 1 then int q.num
  else fraction
    { num := q.num
      den := q.den
      one_lt_den := by
        have := q.den_pos
        omega
      reduced := q.reduced }

/-- A denominator is not zero, also as a rational. -/
theorem cast_den_ne_zero (x : Number) : (x.den : ℚ) ≠ 0 := Nat.cast_ne_zero.2 x.den_pos.ne'

/-- A whole number denotes itself. -/
theorem toRat_int (n : Int) : (int n).toRat = n := by
  show (n : ℚ) / (1 : ℕ) = n
  rw [Nat.cast_one, div_one]

/-- Numerator and denominator have no common divisor, also those of a whole number. -/
theorem coprime_parts (x : Number) : x.num.natAbs.Coprime x.den := by
  cases x with
  | int n => exact Nat.coprime_one_right _
  | fraction f => exact f.reduced

/-- The numerator of a number is that of its rational, since both are in lowest terms. -/
theorem num_toRat (x : Number) : x.toRat.num = x.num := by
  have hpos : (0 : Int) < (x.den : Int) := Int.natCast_pos.2 x.den_pos
  have h := Rat.num_div_eq_of_coprime hpos x.coprime_parts
  rwa [Int.cast_natCast] at h

/-- And so is the denominator. -/
theorem den_toRat (x : Number) : x.toRat.den = x.den := by
  have hpos : (0 : Int) < (x.den : Int) := Int.natCast_pos.2 x.den_pos
  have h := Rat.den_div_eq_of_coprime hpos x.coprime_parts
  rw [Int.cast_natCast] at h
  exact Int.ofNat.inj h

/-- Every rational is denoted by the number that is made for it. -/
theorem toRat_ofRat (q : ℚ) : (ofRat q).toRat = q := by
  unfold ofRat
  split
  · rename_i h
    rw [toRat_int]
    exact Rat.coe_int_num_of_den_eq_one h
  · exact q.num_div_den

/-- A number is determined by the rational that it denotes. -/
theorem ofRat_toRat (x : Number) : ofRat x.toRat = x := by
  unfold ofRat
  split
  · -- a whole rational comes from a whole number, for fractions have a denominator above one
    rename_i h
    rw [den_toRat] at h
    cases x with
    | int n => exact congrArg int (num_toRat _)
    | fraction f => exact absurd h f.one_lt_den.ne'
  · rename_i h
    rw [den_toRat] at h
    cases x with
    | int n => exact absurd rfl h
    | fraction f =>
      obtain ⟨num, den, hden, hred⟩ := f
      simp only [num_toRat, den_toRat]
      rfl

/-- Different numbers denote different rationals. -/
theorem toRat_injective : Function.Injective toRat := Function.LeftInverse.injective ofRat_toRat

/-- A number is the one of the rational that it denotes. -/
theorem eq_ofRat {x : Number} {q : ℚ} (h : x.toRat = q) : x = ofRat q := by
  rw [← h, ofRat_toRat]

/-- Only the whole number `0` denotes zero. -/
theorem toRat_eq_zero_iff (x : Number) : x.toRat = 0 ↔ x = int 0 := by
  rw [← toRat_injective.eq_iff, toRat_int, Int.cast_zero]

/-- A number denotes zero exactly if its numerator is zero. -/
theorem num_eq_zero_iff (x : Number) : x.num = 0 ↔ x.toRat = 0 := by
  rw [← num_toRat, Rat.num_eq_zero]

/-! ## Quotients -/

/-- Two integers with a common divisor `g`, cross-multiplied with what is left of them: the sign of the
    quotient is on the numerator. -/
theorem signed_cross {n d : Int} {g a b : ℕ} (hn : n.natAbs = g * a) (hd : d.natAbs = g * b) :
    (if n < 0 ↔ d < 0 then (a : Int) else -(a : Int)) * d = n * b := by
  have neg : ∀ {k : Int} {c : ℕ}, k.natAbs = c → k < 0 → k = -(c : Int) := by omega
  have nonneg : ∀ {k : Int} {c : ℕ}, k.natAbs = c → ¬k < 0 → k = c := by omega
  by_cases hsn : n < 0
  · by_cases hsd : d < 0
    · rw [if_pos (iff_of_true hsn hsd), neg hn hsn, neg hd hsd, Nat.cast_mul, Nat.cast_mul]
      ring
    · rw [if_neg fun h => hsd (h.1 hsn), neg hn hsn, nonneg hd hsd, Nat.cast_mul, Nat.cast_mul]
      ring
  · by_cases hsd : d < 0
    · rw [if_neg fun h => hsn (h.2 hsd), nonneg hn hsn, neg hd hsd, Nat.cast_mul, Nat.cast_mul]
      ring
    · rw [if_pos (iff_of_false hsn hsd), nonneg hn hsn, nonneg hd hsd, Nat.cast_mul, Nat.cast_mul]
      ring

/-- A quotient in lowest terms is in proportion to what it was made of. -/
theorem num_ofQuotient_mul (n d : Int) (hd : d ≠ 0) :
    (ofQuotient n d hd).num * d = n * (ofQuotient n d hd).den := by
  -- `a` and `b` are what is left of the two by their common divisor
  obtain ⟨a, ha⟩ := Nat.gcd_dvd_left n.natAbs d.natAbs
  obtain ⟨b, hb⟩ := Nat.gcd_dvd_right n.natAbs d.natAbs
  have hpos : 0 < n.natAbs.gcd d.natAbs := Nat.gcd_pos_of_pos_right _ (Int.natAbs_pos.2 hd)
  have hleft : n.natAbs / n.natAbs.gcd d.natAbs = a := Nat.div_eq_of_eq_mul_right hpos ha
  have hright : d.natAbs / n.natAbs.gcd d.natAbs = b := Nat.div_eq_of_eq_mul_right hpos hb
  have hden : (ofQuotient n d hd).den = b := by
    unfold ofQuotient
    simp only
    split
    · rename_i h
      rw [← hright, h]
      rfl
    · exact hright
  have hnum : (ofQuotient n d hd).num = if n < 0 ↔ d < 0 then (a : Int) else -(a : Int) := by
    unfold ofQuotient
    simp only [hleft]
    split <;> rfl
  rw [hnum, hden]
  exact signed_cross ha hb

/-- **A quotient denotes the quotient**, whatever the signs. -/
theorem toRat_ofQuotient (n d : Int) (hd : d ≠ 0) : (ofQuotient n d hd).toRat = n / d := by
  rw [toRat, div_eq_div_iff (cast_den_ne_zero _) (Int.cast_ne_zero.2 hd)]
  exact_mod_cast num_ofQuotient_mul n d hd

/-! ## Arithmetic

  Sums, differences and products are quotients of cross products, of which it is known by now what they
  denote. -/

/-- The sum of two numbers denotes the sum. -/
theorem toRat_add (x y : Number) : (x.add y).toRat = x.toRat + y.toRat := by
  rw [add, toRat_ofQuotient, toRat, toRat, div_add_div _ _ x.cast_den_ne_zero y.cast_den_ne_zero]
  push_cast
  ring

/-- The difference of two numbers denotes the difference. -/
theorem toRat_sub (x y : Number) : (x.sub y).toRat = x.toRat - y.toRat := by
  rw [sub, toRat_ofQuotient, toRat, toRat, div_sub_div _ _ x.cast_den_ne_zero y.cast_den_ne_zero]
  push_cast
  ring

/-- The product of two numbers denotes the product. -/
theorem toRat_mul (x y : Number) : (x.mul y).toRat = x.toRat * y.toRat := by
  rw [mul, toRat_ofQuotient, toRat, toRat, div_mul_div_comm]
  push_cast
  rfl

end Number

/-- The exact result of an operator on two rationals.  Nothing is divided by zero. -/
def Operator.onRat (op : Operator) (p q : ℚ) : Except Failure ℚ :=
  match op with
  | .add => .ok (p + q)
  | .sub => .ok (p - q)
  | .mul => .ok (p * q)
  | .div => if q = 0 then .error .divisionByZero else .ok (p / q)
  | .other s => .error (.fault (.operatorRule s))

namespace Number

/-- Division by a number fails exactly at zero, and is exact elsewhere. -/
theorem div_eq (x y : Number) : x.div y = (Operator.div.onRat x.toRat y.toRat).map ofRat := by
  unfold div Operator.onRat
  by_cases h : y.num = 0
  · rw [dif_pos h, if_pos (y.num_eq_zero_iff.1 h)]
    rfl
  · rw [dif_neg h, if_neg (mt y.num_eq_zero_iff.2 h)]
    refine congrArg Except.ok (eq_ofRat ?_)
    rw [toRat_ofQuotient, toRat, toRat, div_div_div_eq]
    push_cast
    rfl

/-- The arithmetic is that of the rationals. -/
theorem arithmetic_eq (op : Operator) (x y : Number) :
    arithmetic op x y = (op.onRat x.toRat y.toRat).map ofRat := by
  cases op with
  | add => exact congrArg Except.ok (eq_ofRat (toRat_add x y))
  | sub => exact congrArg Except.ok (eq_ofRat (toRat_sub x y))
  | mul => exact congrArg Except.ok (eq_ofRat (toRat_mul x y))
  | div => exact div_eq x y
  | other s => rfl

end Number

/-! ## The ways to an operation -/

/-- A fraction of two integers is the number of their quotient, and there is none over zero. -/
theorem Constructor.apply_fraction (n d : Int) :
    Constructor.fraction.apply [n, d] = (Operator.div.onRat n d).map Number.ofRat := by
  simp only [Constructor.apply, Operator.onRat]
  by_cases hd : d = 0
  · rw [dif_pos hd, if_pos (Int.cast_eq_zero.2 hd)]
    rfl
  · rw [dif_neg hd, if_neg (Int.cast_ne_zero.2 hd)]
    exact congrArg Except.ok (Number.eq_ofRat (Number.toRat_ofQuotient n d hd))

/-- Whole numbers on their own do an operation as the rationals do it: sums, differences and products
    stay whole, and a quotient is built like a fraction of the two. -/
theorem Operator.onInt_eq (op : Operator) (m n : Int) :
    op.onInt m n = (op.onRat m n).map Number.ofRat := by
  cases op with
  | add => exact congrArg Except.ok (Number.eq_ofRat (by rw [Number.toRat_int, Int.cast_add]))
  | sub => exact congrArg Except.ok (Number.eq_ofRat (by rw [Number.toRat_int, Int.cast_sub]))
  | mul => exact congrArg Except.ok (Number.eq_ofRat (by rw [Number.toRat_int, Int.cast_mul]))
  | div => exact Constructor.apply_fraction m n
  | other s => rfl

/-- A fraction does an operation as the rationals do it, on the left as well as on the right. -/
theorem Fraction.operate_eq (op : Operator) (f : Fraction) (y : Number) (onLeft : Bool) :
    f.operate op y onLeft =
      (if onLeft then op.onRat (Number.fraction f).toRat y.toRat
        else op.onRat y.toRat (Number.fraction f).toRat).map Number.ofRat := by
  cases onLeft with
  | true => exact Number.arithmetic_eq op (.fraction f) y
  | false => exact Number.arithmetic_eq op y (.fraction f)

/-- The same where the number is met as a value. -/
theorem Fraction.binary_number (op : Operator) (f : Fraction) (y : Number) (onLeft : Bool) :
    Fraction.binary op f (.number y) onLeft =
      (if onLeft then op.onRat (Number.fraction f).toRat y.toRat
        else op.onRat y.toRat (Number.fraction f).toRat).map (fun q => some (Number.ofRat q)) := by
  rw [Fraction.binary, Fraction.operate_eq]
  generalize (if onLeft = true then _ else _) = outcome
  cases outcome <;> rfl

namespace Number

/-- **All ways lead to the same number**, that of the exact result. -/
theorem apply_eq (op : Operator) (x y : Number) :
    apply op x y = (op.onRat x.toRat y.toRat).map ofRat := by
  cases x with
  | int m =>
    cases y with
    | int n => rw [apply, Operator.onInt_eq, toRat_int, toRat_int]
    | fraction f => exact f.operate_eq op (int m) false
  | fraction f => exact f.operate_eq op y true

/-- The four operators fail only at the division by the number zero. -/
theorem apply_eq_divisionByZero_iff (op : Operator) (x y : Number) :
    apply op x y = .error .divisionByZero ↔ op = .div ∧ y = int 0 := by
  rw [apply_eq, map_eq_error_iff, ← toRat_eq_zero_iff]
  cases op with
  | div =>
    unfold Operator.onRat
    simp
  | _ => simp [Operator.onRat]

end Number

/-- Two numbers, met as values, are put together as numbers. -/
theorem Value.binary_number (op : Operator) (x y : Number) :
    Value.binary op (.number x) (.number y) = (Number.apply op x y).map .number := by
  cases op with
  | other s =>
    rw [Number.apply_other]
    rfl
  | _ => rfl

/-- **Exact arithmetic.**  Numbers and rationals denote each other one to one.  Two numbers under an
    operator make the number of the exact result, whichever way the operation goes: where a fraction is
    asked to do it, from the left or from the right, and where whole numbers do it on their own.  The
    only failure of the four operators is a division by the number zero.  A fraction is built as the
    number of the quotient of its parts, whatever their signs.  And the literal of a number evaluates to
    that number. -/
theorem binary_exact :
    (∀ (op : Operator) (x y : Number),
      Value.binary op (.number x) (.number y) =
          (op.onRat x.toRat y.toRat).map (fun q => .number (Number.ofRat q)) ∧
        (Value.binary op (.number x) (.number y) = .error .divisionByZero ↔ op = .div ∧ y = .int 0)) ∧
    (∀ (op : Operator) (f : Fraction) (y : Number),
      Fraction.binary op f (.number y) true =
          (op.onRat (Number.fraction f).toRat y.toRat).map (fun q => some (Number.ofRat q)) ∧
        Fraction.binary op f (.number y) false =
          (op.onRat y.toRat (Number.fraction f).toRat).map (fun q => some (Number.ofRat q))) ∧
    (∀ (op : Operator) (m n : Int), op.onInt m n = (op.onRat m n).map Number.ofRat) ∧
    (∀ (op : Operator) (x y : Number),
      Number.apply op x y = (op.onRat x.toRat y.toRat).map Number.ofRat) ∧
    (∀ n d : Int, Constructor.fraction.apply [n, d] = (Operator.div.onRat n d).map Number.ofRat) ∧
    Function.Injective Number.toRat ∧ (∀ q : ℚ, (Number.ofRat q).toRat = q) ∧
    ∀ x : Number, ∃ e, Expr.ofValue (.number x) = .ok e ∧
      ∀ ns : Namespace Expr, ns.Unreserved → evaluate ns e = .ok x := by
  refine ⟨fun op x y => ⟨?_, ?_⟩,
    fun op f y => ⟨Fraction.binary_number op f y true, Fraction.binary_number op f y false⟩,
    Operator.onInt_eq, Number.apply_eq, Constructor.apply_fraction, Number.toRat_injective,
    Number.toRat_ofRat, fun x => ⟨.ofNumber x, rfl, fun ns h => ?_⟩⟩
  · rw [Value.binary_number, Number.apply_eq]
    cases op.onRat x.toRat y.toRat <;> rfl
  · rw [Value.binary_number, map_eq_error_iff, Number.apply_eq_divisionByZero_iff]
  · rw [evaluate_eq h, evaluateIn_ofNumber]

/-- The fraction `-3/4`. -/
def debt : Fraction := ⟨-3, 4, by decide, by decide⟩

/-- A negative fraction on the right of a division, on the left of a division by zero, built of parts
    with a common divisor and a negative denominator, and evaluated beside a binding. -/
theorem binary_exact_debt :
    Value.binary .div (.number (.int 6)) (.number (.fraction debt)) = .ok (.number (.int (-8))) ∧
      Fraction.binary .div debt (.number (.int 0)) true = .error .divisionByZero ∧
      Constructor.fraction.apply [9, -12] = .ok (.fraction debt) ∧
      ((∅ : Namespace Expr).bind "x" (.integer 1)).Unreserved ∧
      evaluate ((∅ : Namespace Expr).bind "x" (.integer 1)) (.rational (-3) 4) =
        .ok (.fraction debt) := by
  obtain ⟨hbinary, hside, _, _, hbuilt, _, _, hlift⟩ := binary_exact
  have hunreserved : ((∅ : Namespace Expr).bind "x" (.integer 1)).Unreserved :=
    unreserved_empty.bind (fun c => by cases c <;> decide) _
  refine ⟨?_, ?_, ?_, hunreserved, ?_⟩
  · rw [(hbinary _ _ _).1]
    decide +kernel
  · rw [(hside _ _ _).1]
    decide +kernel
  · rw [hbuilt]
    decide +kernel
  · obtain ⟨e, he, heval⟩ := hlift (.fraction debt)
    cases he
    exact heval _ hunreserved

end Reckoner
