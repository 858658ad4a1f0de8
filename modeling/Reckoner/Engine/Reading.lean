/-
  Reading with notes.  The engine reads a line as `Source.readLine` does, gives the expression's parts
  their numbers, and notes on the parsing channel how it understood the source: first the phrase,
  written out again, then the instruction.  A phrase that cannot be written out breaks the reading off,
  but only when somebody listens.
-/
import Reckoner.Engine.State
import Reckoner.Source.Layout
import Reckoner.Source.Reader

namespace Reckoner

/-- Why a source is not read to its end. -/
inductive Refusal
  | malformed (cause : Source.Malformed)
  /-- The note on it cannot be written. -/
  | unwritable (cause : Source.LayoutFault)
  deriving DecidableEq, Repr

/-- Why a reading fails. -/
inductive Trouble
  | unread (cause : Source.ReadError)
  | unwritable (cause : Source.LayoutFault)
  deriving DecidableEq, Repr

/-- The wording of a failed reading. -/
def Trouble.message : Trouble → String
  | unread e => e.message
  | unwritable f => f.message

namespace Engine

/-- Note how the source of an expression was understood. -/
def noteSource (en : Engine) (src : List Char) (x : Source.Phrase) : Except Source.LayoutFault Engine :=
  if .parsing ∈ en.channels then
    match Source.layout x with
    | .ok s => .ok (en.note .parsing fun _ => Text.quoted (String.ofList src) ++ " => " ++ s)
    | .error f => .error f
  else .ok en

/-- Read an expression. -/
def readExpr (en : Engine) (src : List Char) : Except Refusal Node × Engine :=
  match Source.readPhrase src with
  | .error m => (.error (.malformed m), en)
  | .ok x =>
    match en.noteSource src x with
    | .error f => (.error (.unwritable f), en)
    | .ok en' =>
      match Source.expressionOf x with
      | .error m => (.error (.malformed m), en')
      | .ok e =>
        let placed := en'.place e
        (.ok placed.1, placed.2)

/-- Read the instruction of a line. -/
def readLine (en : Engine) (line : List Char) : Except Refusal (Instruction Node) × Engine :=
  match Source.instruction? line with
  | some (.assign x src) =>
    let read := en.readExpr src
    (read.1.map (.assign x), read.2)
  | some (.evaluate src) =>
    let read := en.readExpr src
    (read.1.map .evaluate, read.2)
  | _ => (.error (.malformed .head), en)

/-- Read a line of a document. -/
def readEntry (en : Engine) (e : Source.Entry) : Except Trouble (Instruction Node) × Engine :=
  let read := en.readLine e.text
  match read.1 with
  | .error (.malformed m) => (.error (.unread (.malformed e.file e.line m)), read.2)
  | .error (.unwritable f) => (.error (.unwritable f), read.2)
  | .ok i =>
    (.ok i, read.2.note .parsing fun _ => e.file ++ ":" ++ Text.ofInt e.line ++ ": " ++
      Text.quoted (String.ofList e.text) ++ " => " ++ (i.map Node.expr).text)

/-- Read the next line of a document, or find that it is too long. -/
def fetch (en : Engine) (entry : Except Source.ReadError Source.Entry) :
    Except Trouble (Instruction Node) × Engine :=
  match entry with
  | .ok e => en.readEntry e
  | .error f => (.error (.unread f), en)

end Engine

end Reckoner
