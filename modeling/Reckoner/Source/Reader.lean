/-
  Sources of several lines.  A source is a named text; its lines are numbered from one, blank lines and
  comments are passed over but counted.  A line of `2 ^ 16` bytes or more ends the reading.
-/
import Reckoner.Run
import Reckoner.Source.Line

namespace Reckoner.Source

/-- A named text. -/
structure Document where
  name : String
  text : String
  deriving DecidableEq, Repr

/-- A line that holds an instruction, and where it stands. -/
structure Entry where
  file : String
  line : Int
  text : List Char
  deriving DecidableEq, Repr

/-- Why a reading fails. -/
inductive ReadError
  | malformed (file : String) (line : Int) (cause : Malformed)
  | tooLong
  deriving DecidableEq, Repr

/-- The wording of a failed reading. -/
def ReadError.message : ReadError → String
  | malformed file line m => file ++ ":" ++ Text.ofInt line ++ ": " ++ m.message
  | tooLong => "bufio.Scanner: token too long"

/-- The lines of a text.  A line feed ends a line; what follows the last one is a line unless it is
    empty. -/
def splitLines : List Char → List (List Char)
  | [] => []
  | c :: r =>
    if c = '\n' then [] :: splitLines r
    else match splitLines r with
      | [] => [[c]]
      | l :: ls => (c :: l) :: ls

/-- A line without the carriage return at its end. -/
def dropReturn (line : List Char) : List Char :=
  if line.getLast? = some '\r' then line.dropLast else line

/-- The longest line that is read, in bytes. -/
def longestLine : Nat := 65535

/-- The lines with instructions, the first of `lines` having the number `n`. -/
def entriesFrom (file : String) (n : Nat) : List (List Char) → List (Except ReadError Entry)
  | [] => []
  | l :: rest =>
    if longestLine < byteLength l then [.error .tooLong]
    else if skippable l then entriesFrom file (n + 1) rest
    else .ok ⟨file, n, dropReturn l⟩ :: entriesFrom file (n + 1) rest

/-- The lines of a document that hold instructions. -/
def Document.entries (d : Document) : List (Except ReadError Entry) :=
  entriesFrom d.name 1 (splitLines d.text.toList)

/-- Read the instruction of a line. -/
def Entry.read (e : Entry) : Except ReadError (Instruction Expr) :=
  match readLine e.text with
  | .ok i => .ok i
  | .error m => .error (.malformed e.file e.line m)

/-- What the readings of several documents give, one document after the other. -/
def readings (ds : List Document) : Readings ReadError Expr :=
  (ds.flatMap Document.entries).map fun
    | .ok e => e.read
    | .error f => .error f

end Reckoner.Source
