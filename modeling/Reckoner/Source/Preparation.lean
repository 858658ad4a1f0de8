/-
  Bringing a line into the form the scanner reads.  Everything from `#` on is a comment.  Leading zeros of
  a numeral are dropped, `n : d` becomes the call `__ratio__(n, d)`, and a word that the scanner reserves
  gets the mark `__kw_`.  Both new names begin with an underscore, so a source in which an identifier
  begins with one is refused first.

  Each step looks at one character and the class of the character before it: a numeral, a ratio or a word
  begins only where no word character stands in front.
-/
import Reckoner.Text.Blank

namespace Reckoner.Source

/-- Letters, digits and the underscore, of ASCII only. -/
def isWordChar (c : Char) : Bool := c.isAlphanum || c = '_'

/-- The characters after the first of a name: letters and the underscore. -/
def isNameChar (c : Char) : Bool := c.isAlpha || c = '_'

/-- A name: a letter, then letters and underscores. -/
def isName : List Char → Bool
  | [] => false
  | c :: r => c.isAlpha && r.all isNameChar

/-- What stands before the comment. -/
def cutComment (cs : List Char) : List Char := cs.takeWhile (· ≠ '#')

/-- Whether an underscore stands where no word character is in front; `afterWord` says of the place before
    `cs` that one is. -/
def hasLooseUnderscore (afterWord : Bool) : List Char → Bool
  | [] => false
  | c :: r => (c = '_' && !afterWord) || hasLooseUnderscore (isWordChar c) r

/-- Whether a text begins with a digit. -/
def startsDigit (cs : List Char) : Bool := cs.head?.any Char.isDigit

/-- Whether a text begins with a word character. -/
def startsWordChar (cs : List Char) : Bool := cs.head?.any isWordChar

/-- Drop the zeros that lead a numeral, all but a last one.  `edge` says that a numeral can begin here: at
    the start, or after a character that is neither a word character nor a point. -/
def dropZeros (edge : Bool) : List Char → List Char
  | [] => []
  | c :: r =>
    -- the place behind a dropped zero is still the beginning of the numeral
    if edge && c = '0' && startsDigit r then dropZeros true r
    else c :: dropZeros (!isWordChar c && c ≠ '.') r

/-- A sign at the front of a text, and the rest. -/
def splitSign : List Char → List Char × List Char
  | '+' :: r => (['+'], r)
  | '-' :: r => (['-'], r)
  | cs => ([], cs)

/-- A ratio `n : d` at the front of a text: its digits, its second part with a sign, and the rest.  Spaces
    may stand around the colon, none after the sign, and no word character after the last digit. -/
def ratio? (cs : List Char) : Option (List Char × List Char × List Char) :=
  let num := cs.takeWhile Char.isDigit
  match (cs.dropWhile Char.isDigit).dropWhile Text.isSpace with
  | ':' :: afterColon =>
    let signed := splitSign (afterColon.dropWhile Text.isSpace)
    let den := signed.2.takeWhile Char.isDigit
    let rest := signed.2.dropWhile Char.isDigit
    if num.isEmpty || den.isEmpty || startsWordChar rest then none else some (num, signed.1 ++ den, rest)
  | _ => none

theorem length_dropWhile_le {α : Type} (p : α → Bool) (l : List α) : (l.dropWhile p).length ≤ l.length :=
  (List.dropWhile_sublist p).length_le

theorem length_splitSign_le (cs : List Char) : (splitSign cs).2.length ≤ cs.length := by
  unfold splitSign
  split <;> simp

theorem length_ratio?_lt {cs num den rest : List Char} (h : ratio? cs = some (num, den, rest)) :
    rest.length < cs.length := by
  unfold ratio? at h
  split at h
  · rename_i afterColon hcolon
    simp only at h
    split at h
    · simp at h
    · simp only [Option.some.injEq, Prod.mk.injEq] at h
      have h1 := length_dropWhile_le Char.isDigit (splitSign (afterColon.dropWhile Text.isSpace)).2
      have h2 := length_splitSign_le (afterColon.dropWhile Text.isSpace)
      have h3 := length_dropWhile_le Text.isSpace afterColon
      have h4 := length_dropWhile_le Text.isSpace (cs.dropWhile Char.isDigit)
      have h5 := length_dropWhile_le Char.isDigit cs
      rw [hcolon, List.length_cons] at h4
      rw [← h.2.2]
      omega
  · simp at h

/-- Write every ratio as a call. -/
def callRatios (afterWord : Bool) (cs : List Char) : List Char :=
  match cs with
  | [] => []
  | c :: r =>
    if afterWord then c :: callRatios (isWordChar c) r
    else match _h : ratio? (c :: r) with
      | some (num, den, rest) =>
        "__ratio__(".toList ++ num ++ ", ".toList ++ den ++ ")".toList ++ callRatios true rest
      | none => c :: callRatios (isWordChar c) r
termination_by cs.length
decreasing_by
  · simp
  · exact length_ratio?_lt _h
  · simp

/-- The words that the scanner reserves. -/
def reservedWords : List String :=
  ["and", "break", "continue", "def", "elif", "else", "for", "if", "in", "lambda", "load", "not", "or",
   "pass", "return", "while", "as", "assert", "async", "await", "class", "del", "except", "finally",
   "from", "global", "import", "is", "nonlocal", "raise", "try", "with", "yield"]

/-- The mark put before a reserved word. -/
def wordMark : List Char := "__kw_".toList

/-- A word of the source as the scanner gets it: marked if it is reserved. -/
def markWord (w : List Char) : List Char :=
  if String.ofList w ∈ reservedWords then wordMark ++ w else w

/-- Mark every reserved word that has no word character on either side. -/
def markWords (afterWord : Bool) (cs : List Char) : List Char :=
  match cs with
  | [] => []
  | c :: r =>
    if !afterWord && c.isAlpha then
      let w := c :: r.takeWhile isNameChar
      let rest := r.dropWhile isNameChar
      (if startsDigit rest then w else markWord w) ++ markWords true rest
    else c :: markWords (isWordChar c) r
termination_by cs.length
decreasing_by
  · exact Nat.lt_succ_of_le (length_dropWhile_le _ _)
  · simp

/-- The form of an expression's source that the scanner reads; `none` if an identifier begins with an
    underscore. -/
def prepare? (src : List Char) : Option (List Char) :=
  let body := Text.trim (cutComment src)
  if hasLooseUnderscore false body then none
  else some (markWords false (callRatios false (dropZeros true body)))

end Reckoner.Source
