/-
  Numerals.  Digits with an optional fraction and exponent, or digits of base 16, 8 or 2 after `0x`,
  `0o` or `0b`.  The scanner accepts more than the calculator: it only makes sure that a numeral with a
  point or an exponent stands for a double, that is, lies below `2 ^ 1024 - 2 ^ 970`, where rounding to
  53 bits would leave the range.
-/
import Reckoner.Source.Escape
import Reckoner.Source.Preparation
import Reckoner.Source.Token
import Reckoner.Text.Decimal

namespace Reckoner.Source

/-- Why a text cannot be cut into tokens. -/
inductive LexicalFault
  /-- A backslash that does not end its line. -/
  | strayBackslash
  /-- A closing bracket that nothing opened. -/
  | unopened (c : Char)
  /-- A character that begins no token. -/
  | character (c : Char)
  | hexLiteral
  | octalLiteral
  | binaryLiteral
  | floatLiteral
  | intLiteral
  /-- An octal numeral without its `o`. -/
  | obsoleteOctal (digits : String)
  /-- The end of everything inside a text. -/
  | textEnd
  /-- The end of a line inside a text. -/
  | textLineEnd
  | escape (fault : EscapeFault)
  deriving DecidableEq, Repr

/-- The wording of a lexical fault. -/
def LexicalFault.message : LexicalFault → String
  | strayBackslash => "stray backslash in program"
  | unopened c => "unexpected '" ++ String.singleton c ++ "'"
  | character c => "unexpected input character " ++ Text.quotedChar c
  | hexLiteral => "invalid hex literal"
  | octalLiteral => "invalid octal literal"
  | binaryLiteral => "invalid binary literal"
  | floatLiteral => "invalid float literal"
  | intLiteral => "invalid int literal"
  | obsoleteOctal ds => "obsolete form of octal literal; use 0o" ++ ds
  | textEnd => "unexpected EOF in string"
  | textLineEnd => "unexpected newline in string"
  | escape f => f.message

/-- The least number that no double stands for. -/
def doubleLimit : Nat := Nat.pow 2 1024 - Nat.pow 2 970

/-- Whether `m * 10 ^ e` is too large for a double.  Only near the limit are the powers worked out. -/
def exceedsDouble (m : Nat) (e : Int) : Bool :=
  let magnitude := ((Text.natDigits m).length : Int) + e
  if m = 0 then false
  else if 310 < magnitude then true
  else if magnitude < 308 then false
  else match e with
    | .ofNat k => doubleLimit ≤ m * Nat.pow 10 k
    | .negSucc k => doubleLimit * Nat.pow 10 (k + 1) ≤ m

/-- The size of an exponent.  Digits count only until it has reached 10000: what is larger has the size
    of its first digits, so an exponent never outweighs a very long numeral. -/
def exponentSize (ds : List Char) : Nat :=
  ds.foldl (fun e d => if e < 10000 then 10 * e + (d.toNat - '0'.toNat) else e) 0

/-- The token of a numeral with a point or an exponent, if a double can hold it: `raw` as written, its
    value `digits * 10 ^ exponent`. -/
def closeFloat (raw digits : List Char) (exponent : Int) (rest : List Char) :
    Except LexicalFault (Token × List Char) :=
  if exceedsDouble (Text.natOfDigits digits) exponent then .error .floatLiteral
  else .ok (.float (String.ofList raw), rest)

/-- Finish a numeral that has had its point, if any: `raw` as written, `digits` its digits, `places` of
    them behind the point.  An exponent may follow. -/
def finishFloat (raw digits : List Char) (places : Nat) (cs : List Char) :
    Except LexicalFault (Token × List Char) :=
  match cs with
  | [] => closeFloat raw digits (-places) []
  | c :: r =>
    if c = 'e' || c = 'E' then
      let signed := splitSign r
      let ds := signed.2.takeWhile Char.isDigit
      let size : Int := exponentSize ds
      let exponent := if signed.1 = ['-'] then -size else size
      if ds.isEmpty then .error .floatLiteral
      else closeFloat (raw ++ c :: (signed.1 ++ ds)) digits (exponent - places)
        (signed.2.dropWhile Char.isDigit)
    else closeFloat raw digits (-places) (c :: r)

/-- A numeral in another base: the letter after the zero, then digits of that base. -/
def radixNumeral (base : Nat) (fault : LexicalFault) (limit : Option Nat) (letter : Char)
    (cs : List Char) :
    Except LexicalFault (Token × List Char) :=
  let isBaseDigit (c : Char) : Bool := (hexDigit? c).any (· < base)
  let ds := cs.takeWhile isBaseDigit
  let value := ds.foldl (fun acc d => base * acc + (hexDigit? d).getD 0) 0
  if ds.isEmpty then .error fault
  else if limit.any (· ≤ value) then .error .intLiteral
  else .ok (.int (String.ofList ('0' :: letter :: ds)) value, cs.dropWhile isBaseDigit)

/-- A decimal numeral that begins with the digit `c`. -/
def decimalNumeral (c : Char) (cs : List Char) : Except LexicalFault (Token × List Char) :=
  let ds := cs.takeWhile Char.isDigit
  let plain (rest : List Char) : Except LexicalFault (Token × List Char) :=
    if c = '0' && !ds.all isOctal then .error .intLiteral
    else if c = '0' && ds.any (· ≠ '0') then .error (.obsoleteOctal (String.ofList ds))
    else .ok (.int (String.ofList (c :: ds)) (Text.natOfDigits (c :: ds)), rest)
  match cs.dropWhile Char.isDigit with
  | [] => plain []
  | p :: r =>
    if p = '.' then
      let frac := r.takeWhile Char.isDigit
      finishFloat (c :: (ds ++ '.' :: frac)) (c :: (ds ++ frac)) frac.length (r.dropWhile Char.isDigit)
    else if p = 'e' || p = 'E' then finishFloat (c :: ds) (c :: ds) 0 (p :: r)
    else plain (p :: r)

/-- The numeral that begins with the digit `c` and goes on in `cs`, and the rest. -/
def numeral (c : Char) (cs : List Char) : Except LexicalFault (Token × List Char) :=
  match cs with
  | [] => decimalNumeral c []
  | d :: r =>
    if c = '0' && (d = 'x' || d = 'X') then radixNumeral 16 .hexLiteral none d r
    else if c = '0' && (d = 'o' || d = 'O') then
      radixNumeral 8 .octalLiteral (some 9223372036854775808) d r
    else if c = '0' && (d = 'b' || d = 'B') then
      radixNumeral 2 .binaryLiteral (some 9223372036854775808) d r
    else decimalNumeral c (d :: r)

/-- A numeral that begins with a point; `cs` begins with a digit. -/
def pointNumeral (cs : List Char) : Except LexicalFault (Token × List Char) :=
  let frac := cs.takeWhile Char.isDigit
  finishFloat ('.' :: frac) frac frac.length (cs.dropWhile Char.isDigit)

/-! ## The rest of a text behind a numeral is no longer than what was there -/

theorem eq_of_closeFloat {raw digits cs rest : List Char} {exponent : Int} {t : Token}
    (h : closeFloat raw digits exponent cs = .ok (t, rest)) : rest = cs := by
  unfold closeFloat at h
  split at h
  · simp at h
  · simp only [Except.ok.injEq, Prod.mk.injEq] at h
    exact h.2.symm

theorem length_finishFloat_le {raw digits cs rest : List Char} {places : Nat} {t : Token}
    (h : finishFloat raw digits places cs = .ok (t, rest)) : rest.length ≤ cs.length := by
  unfold finishFloat at h
  split at h
  · exact Nat.le_of_eq (congrArg _ (eq_of_closeFloat h))
  · rename_i c r
    split at h
    · simp only at h
      split at h
      · simp at h
      · rw [eq_of_closeFloat h, List.length_cons]
        have h1 := length_dropWhile_le Char.isDigit (splitSign r).2
        have h2 := length_splitSign_le r
        omega
    · exact Nat.le_of_eq (congrArg _ (eq_of_closeFloat h))

theorem length_radixNumeral_le {base : Nat} {fault : LexicalFault} {limit : Option Nat} {letter : Char}
    {cs rest : List Char} {t : Token} (h : radixNumeral base fault limit letter cs = .ok (t, rest)) :
    rest.length ≤ cs.length := by
  unfold radixNumeral at h
  simp only at h
  split at h
  · simp at h
  · split at h
    · simp at h
    · simp only [Except.ok.injEq, Prod.mk.injEq] at h
      rw [← h.2]; exact length_dropWhile_le _ _

theorem length_decimalNumeral_le {c : Char} {cs rest : List Char} {t : Token}
    (h : decimalNumeral c cs = .ok (t, rest)) : rest.length ≤ cs.length := by
  have hdrop := length_dropWhile_le Char.isDigit cs
  unfold decimalNumeral at h
  simp only at h
  split at h
  · split at h
    · simp at h
    · split at h
      · simp at h
      · simp only [Except.ok.injEq, Prod.mk.injEq] at h
        rw [← h.2]; simp
  · rename_i p r hp
    rw [hp, List.length_cons] at hdrop
    split at h
    · have h1 := length_finishFloat_le h
      have h2 := length_dropWhile_le Char.isDigit r
      omega
    · split at h
      · have h1 := length_finishFloat_le h
        rw [List.length_cons] at h1
        omega
      · split at h
        · simp at h
        · split at h
          · simp at h
          · simp only [Except.ok.injEq, Prod.mk.injEq] at h
            rw [← h.2, List.length_cons]; omega

theorem length_numeral_le {c : Char} {cs rest : List Char} {t : Token}
    (h : numeral c cs = .ok (t, rest)) : rest.length ≤ cs.length := by
  unfold numeral at h
  split at h
  · exact length_decimalNumeral_le h
  · split at h
    · exact Nat.le_succ_of_le (length_radixNumeral_le h)
    · split at h
      · exact Nat.le_succ_of_le (length_radixNumeral_le h)
      · split at h
        · exact Nat.le_succ_of_le (length_radixNumeral_le h)
        · exact length_decimalNumeral_le h

theorem length_pointNumeral_le {cs rest : List Char} {t : Token}
    (h : pointNumeral cs = .ok (t, rest)) : rest.length ≤ cs.length :=
  Nat.le_trans (length_finishFloat_le h) (length_dropWhile_le _ _)

end Reckoner.Source
