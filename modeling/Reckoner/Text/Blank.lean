/-
  White space.  Two classes are in use and they differ: `isBlank` is what is trimmed from the edges of a
  line (white space of every script), `isSpace` is what may stand around `:=` and inside `n : d`
  (five ASCII characters).
-/
namespace Reckoner.Text

/-- White space of every script: the ASCII controls from tab to carriage return, the space, and the
    spaces and line separators beyond ASCII. -/
def isBlank (c : Char) : Bool :=
  let n := c.toNat
  (9 ≤ n && n ≤ 13) || n = 0x20 || n = 0x85 || n = 0xa0 || n = 0x1680 || (0x2000 ≤ n && n ≤ 0x200a) ||
    n = 0x2028 || n = 0x2029 || n = 0x202f || n = 0x205f || n = 0x3000

/-- Tab, line feed, form feed, carriage return and space. -/
def isSpace (c : Char) : Bool :=
  c = '\t' || c = '\n' || c = '\x0c' || c = '\r' || c = ' '

/-- Each of these five is a blank. -/
theorem isBlank_of_isSpace {c : Char} (h : isSpace c = true) : isBlank c = true := by
  simp only [isSpace, Bool.or_eq_true, decide_eq_true_eq] at h
  rcases h with (((rfl | rfl) | rfl) | rfl) | rfl <;> rfl

/-- Drop blanks at the front. -/
def trimFront (cs : List Char) : List Char := cs.dropWhile isBlank

/-- Drop blanks at the back. -/
def trimBack (cs : List Char) : List Char := (cs.reverse.dropWhile isBlank).reverse

/-- Drop blanks at both ends. -/
def trim (cs : List Char) : List Char := trimBack (trimFront cs)

end Reckoner.Text
