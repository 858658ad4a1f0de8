/-
  Quoted text.  A text between quotes shows its printable characters; the quote and the backslash get a
  backslash, the usual controls their letter, and every other character its code point in hexadecimal:
  two digits for a control, four up to `ffff`, eight beyond.
-/
import Reckoner.Text.Printable

namespace Reckoner.Text

/-- `hex w n` — `n` in lower-case hexadecimal, padded with zeros to width `w`. -/
def hex (w n : Nat) : List Char :=
  let ds := Nat.toDigits 16 n
  List.replicate (w - ds.length) '0' ++ ds

/-- The letter that names a control character after a backslash. -/
def controlLetter? (c : Char) : Option Char :=
  match c.toNat with
  | 7 => some 'a'
  | 8 => some 'b'
  | 9 => some 't'
  | 10 => some 'n'
  | 11 => some 'v'
  | 12 => some 'f'
  | 13 => some 'r'
  | _ => none

/-- One character of a text between two `quote`s. -/
def escape (quote c : Char) : List Char :=
  if c = quote || c = '\x5c' then ['\x5c', c]
  else if isPrintable c then [c]
  else match controlLetter? c with
    | some l => ['\x5c', l]
    | none =>
      let n := c.toNat
      if n < 0x20 || n = 0x7f then '\x5c' :: 'x' :: hex 2 n
      else if n < 0x10000 then '\x5c' :: 'u' :: hex 4 n
      else '\x5c' :: 'U' :: hex 8 n

/-- A text between double quotes. -/
def quoted (s : String) : String :=
  String.ofList ('\x22' :: s.toList.flatMap (escape '\x22') ++ ['\x22'])

/-- A character between single quotes. -/
def quotedChar (c : Char) : String :=
  String.ofList ('\x27' :: escape '\x27' c ++ ['\x27'])

end Reckoner.Text
