/-
  Escape sequences in a text.  A backslash and a letter name a control character; up to three octal
  digits, two hexadecimal ones after `x`, four after `u` and eight after `U` name a code point.  A text
  takes only ASCII by octal and by `x`, a sequence of bytes takes any byte; anything else is refused.

  Complaints quote the sequence as it stands.  Its length is counted in bytes, so a sequence that ends
  inside a character shows a replacement mark for each byte of the part.
-/
import Reckoner.Text.Quoted

namespace Reckoner.Source

/-- Why an escape sequence is refused. -/
inductive EscapeFault
  /-- No sequence begins with this byte. -/
  | unknown (byte : Nat)
  /-- The text ends inside the sequence. -/
  | truncated (rest : String)
  /-- Not the digits the sequence wants. -/
  | digits (sequence : String)
  /-- An octal code beyond ASCII in a text. -/
  | octalCode (code : Nat)
  /-- An octal code beyond a byte. -/
  | octalByte (code : Nat)
  /-- A hexadecimal code beyond ASCII in a text. -/
  | hexCode (sequence : String) (code : Nat)
  /-- Beyond the last code point. -/
  | beyond (sequence : String) (code : Nat)
  /-- A code point that stands for no character. -/
  | surrogate (code : Nat)
  deriving DecidableEq, Repr

/-- Upper-case hexadecimal, at least four digits. -/
def codePoint (n : Nat) : String := String.ofList ((Text.hex 4 n).map Char.toUpper)

/-- Where a code point beyond ASCII should be written instead. -/
def useInstead (n : Nat) : String :=
  " (use \\u" ++ codePoint n ++ " for the UTF-8 encoding of U+" ++ codePoint n ++ ")"

/-- The wording of a refused escape sequence. -/
def EscapeFault.message : EscapeFault → String
  | unknown b => "invalid escape sequence \\" ++ String.singleton (Char.ofNat b)
  | truncated s => "truncated escape sequence " ++ s
  | digits s => "invalid escape sequence " ++ s
  | octalCode n => "non-ASCII octal escape \\" ++ String.ofList (Nat.toDigits 8 n) ++ useInstead n
  | octalByte n => "invalid escape sequence \\" ++ String.ofList (Nat.toDigits 8 n)
  | hexCode s n => "non-ASCII hex escape " ++ s ++ useInstead n
  | beyond s n => "code point out of range: " ++ s ++ " (max \\U" ++ String.ofList (Text.hex 8 n) ++ ")"
  | surrogate n => "invalid Unicode code point U+" ++ codePoint n

/-- The length of a text in bytes. -/
def byteLength : List Char → Nat
  | [] => 0
  | c :: r => c.utf8Size + byteLength r

/-- The first `n` bytes of a text.  Of a character that is cut, each byte shows as a replacement mark. -/
def takeBytes : Nat → List Char → List Char
  | _, [] => []
  | n, c :: r =>
    if c.utf8Size ≤ n then c :: takeBytes (n - c.utf8Size) r
    else List.replicate n (Char.ofNat 0xfffd)

/-- The first byte of a character. -/
def firstByte (c : Char) : Nat := ((String.utf8EncodeChar c).head?.map UInt8.toNat).getD 0

/-- The value of a hexadecimal digit. -/
def hexDigit? (c : Char) : Option Nat :=
  if c.isDigit then some (c.toNat - 48)
  else if 'a' ≤ c && c ≤ 'f' then some (c.toNat - 87)
  else if 'A' ≤ c && c ≤ 'F' then some (c.toNat - 55)
  else none

/-- The number that hexadecimal digits stand for; `none` if one of them is no digit. -/
def hexValue? (cs : List Char) : Option Nat :=
  cs.foldl (fun acc c => do return 16 * (← acc) + (← hexDigit? c)) (some 0)

/-- Whether a character is an octal digit. -/
def isOctal (c : Char) : Bool := '0' ≤ c && c ≤ '7'

/-- The control character, backslash or quote that a letter after a backslash names. -/
def namedEscape? : Char → Option Char
  | 'a' => some '\x07'
  | 'b' => some '\x08'
  | 'f' => some '\x0c'
  | 'n' => some '\n'
  | 'r' => some '\r'
  | 't' => some '\t'
  | 'v' => some '\x0b'
  | '\x5c' => some '\x5c'
  | '\x27' => some '\x27'
  | '\x22' => some '\x22'
  | _ => none

/-- A sequence of `width` hexadecimal digits after `\x`, `\u` or `\U` (`letter`), at the front of `cs`:
    the code and the rest. -/
def hexEscape (letter : Char) (width : Nat) (cs : List Char) :
    Except EscapeFault (Nat × List Char) :=
  let whole := '\x5c' :: letter :: cs
  if byteLength cs < width then .error (.truncated (String.ofList whole))
  else match hexValue? (cs.take width) with
    | some n => .ok (n, cs.drop width)
    | none => .error (.digits (String.ofList (takeBytes (width + 2) whole)))

/-- The characters that one escape sequence stands for, and the rest.  `c :: cs` follows the backslash. -/
def unescape (asBytes : Bool) (c : Char) (cs : List Char) :
    Except EscapeFault (List Char × List Char) :=
  if c = '\n' then .ok ([], cs)
  else match namedEscape? c with
    | some d => .ok ([d], cs)
    | none =>
      if isOctal c then
        let more := (cs.take 2).takeWhile isOctal
        let n := (c :: more).foldl (fun acc d => 8 * acc + (d.toNat - 48)) 0
        if !asBytes && n > 127 then .error (.octalCode n)
        else if n ≥ 256 then .error (.octalByte n)
        else .ok ([Char.ofNat n], cs.drop more.length)
      else if c = 'x' then
        match hexEscape c 2 cs with
        | .error f => .error f
        | .ok (n, rest) =>
          if !asBytes && n > 127 then
            .error (.hexCode (String.ofList ('\x5c' :: c :: cs.take 2)) n)
          else .ok ([Char.ofNat n], rest)
      else if c = 'u' || c = 'U' then
        let width := if c = 'u' then 4 else 8
        match hexEscape c width cs with
        | .error f => .error f
        | .ok (n, rest) =>
          if n > 0x10ffff then .error (.beyond (String.ofList ('\x5c' :: c :: cs.take width)) n)
          else if 0xd800 ≤ n && n < 0xe000 then .error (.surrogate n)
          else .ok ([Char.ofNat n], rest)
      else .error (.unknown (firstByte c))

theorem length_hexEscape_le {letter : Char} {width n : Nat} {cs rest : List Char}
    (h : hexEscape letter width cs = .ok (n, rest)) : rest.length ≤ cs.length := by
  unfold hexEscape at h
  split at h
  · simp at h
  · split at h
    · simp only [Except.ok.injEq, Prod.mk.injEq] at h
      rw [← h.2, List.length_drop]
      omega
    · simp at h

theorem length_unescape_le {asBytes : Bool} {c : Char} {cs out rest : List Char}
    (h : unescape asBytes c cs = .ok (out, rest)) : rest.length ≤ cs.length := by
  unfold unescape at h
  split at h
  · simp only [Except.ok.injEq, Prod.mk.injEq] at h
    exact Nat.le_of_eq (congrArg _ h.2.symm)
  · split at h
    · simp only [Except.ok.injEq, Prod.mk.injEq] at h
      exact Nat.le_of_eq (congrArg _ h.2.symm)
    · split at h
      · simp only at h
        split at h
        · simp at h
        · split at h
          · simp at h
          · simp only [Except.ok.injEq, Prod.mk.injEq] at h
            rw [← h.2, List.length_drop]
            omega
      · split at h
        · split at h
          · simp at h
          · rename_i hx
            split at h
            · simp at h
            · simp only [Except.ok.injEq, Prod.mk.injEq] at h
              rw [← h.2]; exact length_hexEscape_le hx
        · split at h
          · simp only at h
            split at h
            · simp at h
            · rename_i hx
              split at h
              · simp at h
              · split at h
                · simp at h
                · simp only [Except.ok.injEq, Prod.mk.injEq] at h
                  rw [← h.2]; exact length_hexEscape_le hx
          · simp at h

/-- The characters that the inside of a text stands for. -/
def decodeText (asBytes : Bool) (cs : List Char) : Except EscapeFault (List Char) :=
  match cs with
  | [] => .ok []
  | [c] => .ok [c]
  | c :: d :: r =>
    if c = '\x5c' then
      match _h : unescape asBytes d r with
      | .error f => .error f
      | .ok (out, rest) => (decodeText asBytes rest).map (out ++ ·)
    else (decodeText asBytes (d :: r)).map (c :: ·)
termination_by cs.length
decreasing_by
  · exact Nat.lt_of_le_of_lt (length_unescape_le _h) (by simp only [List.length_cons]; omega)
  · simp

end Reckoner.Source
