/-
  Lines of input.  What is typed comes through a buffer of fixed size, so a line that does not fit with
  its line feed is handed over in pieces, and each piece is answered like a line.  A carriage return
  before a line feed belongs to the line end; at the end of a full buffer it waits for what follows.

  A character that does not fit whole leaves a replacement character for each of its bytes, on both
  sides of the cut.

  The buffer is that of a line editor, a library whose code does not belong to the calculator; this is
  what it does with an input that is no terminal.
-/
import Reckoner.Source.Reader

namespace Reckoner

/-- A line of input, or a piece of one. -/
structure InputLine where
  text : List Char
  /-- Whether the line ends here: a piece that has filled the buffer is not whole. -/
  whole : Bool
  deriving DecidableEq, Repr

/-- How many bytes the buffer holds. -/
def bufferSize : Nat := 4096

/-- Stands for a byte that belongs to no character. -/
def replacement : Char := '\ufffd'

/-- Cut an input into lines.  `held` is what the buffer holds, the latest first, and `room` how many
    bytes are still free in it, at least one. -/
def cutInput (room : Nat) (held : List Char) : List Char → List InputLine
  | [] => if held.isEmpty then [] else [⟨held.reverse, true⟩]
  | c :: rest =>
    let size := c.utf8Size
    if c = '\n' then ⟨Source.dropReturn held.reverse, true⟩ :: cutInput bufferSize [] rest
    else if size < room then cutInput (room - size) (c :: held) rest
    else if c = '\r' then ⟨held.reverse, false⟩ :: cutInput (bufferSize - 1) ['\r'] rest
    else if size = room then ⟨(c :: held).reverse, false⟩ :: cutInput bufferSize [] rest
    else
      ⟨held.reverse ++ List.replicate room replacement, false⟩ ::
        cutInput (bufferSize - (size - room)) (List.replicate (size - room) replacement) rest

/-- The lines of an input, long ones in pieces.  What follows the last line feed is a line, unless it is
    empty. -/
def inputLines (text : List Char) : List (List Char) := (cutInput bufferSize [] text).map InputLine.text

/-- The lines of an input before the first that does not fit. -/
def fittingLines (text : List Char) : List (List Char) :=
  ((cutInput bufferSize [] text).takeWhile InputLine.whole).map InputLine.text

end Reckoner
