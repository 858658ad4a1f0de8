/-
  Decimal numerals: the text of an integer, and the number that a run of digits stands for.
-/
namespace Reckoner.Text

/-- The decimal digits of a natural number, without leading zeros. -/
def natDigits (n : Nat) : List Char := Nat.toDigits 10 n

/-- The decimal numeral of an integer: its digits, after a minus sign if it is negative. -/
def intDigits (n : Int) : List Char :=
  if n < 0 then '-' :: natDigits n.natAbs else natDigits n.natAbs

/-- The decimal numeral of an integer, as a string. -/
def ofInt (n : Int) : String := String.ofList (intDigits n)

/-- The decimal numeral of a natural number, as a string. -/
def ofNat (n : Nat) : String := String.ofList (natDigits n)

/-- The number that a run of decimal digits stands for. -/
def natOfDigits (ds : List Char) : Nat := Nat.ofDigitChars 10 ds 0

theorem natOfDigits_natDigits (n : Nat) : natOfDigits (natDigits n) = n :=
  Nat.ofDigitChars_ten_toDigits

end Reckoner.Text
