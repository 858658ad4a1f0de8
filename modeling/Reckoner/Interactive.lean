/-
  The interactive loop.  The calculator asks for a line, answers it and asks again.  A malformed line is
  complained about and otherwise forgotten; only a fault ends the conversation, or the word `:quit`, or
  the end of the input.  `:names` lists the bindings.  Lines that say something are kept in the history.

  `Shell.feed` answers one line, `Shell.converse` all the lines of an input.
-/
import Reckoner.Engine.Session
import Reckoner.Input

namespace Reckoner

/-- A conversation: what has been computed, what has been typed, and how many lines have been read. -/
structure Shell where
  session : Session
  /-- The lines typed, the oldest first. -/
  history : List String
  lines : Nat := 0

/-- The answer to a line. -/
inductive Reply
  | silence
  | result (r : Result)
  /-- The bindings, one to a line. -/
  | listing (bindings : List String)
  /-- The line cannot be read. -/
  | complaint (e : Source.ReadError)
  | farewell
  | fatal (f : Failure)
  /-- A note that cannot be written. -/
  | broken (f : Source.LayoutFault)
  deriving DecidableEq, Repr

namespace Reply

/-- What an answer prints. -/
def out : Reply → List String
  | result r => [r.text]
  | listing bs => bs
  | _ => []

/-- What an answer complains about. -/
def err : Reply → List String
  | complaint e => [e.message]
  | fatal f => ["error: " ++ f.message]
  | broken f => ["panic: " ++ f.message]
  | _ => []

/-- The exit code, if an answer ends the conversation. -/
def exit? : Reply → Option Nat
  | farewell => some 0
  | fatal _ => some 1
  | broken _ => some 2
  | _ => none

end Reply

/-- How many lines the history keeps. -/
def historyLimit : Nat := 1000

/-- Keep the latest lines of a history. -/
def keepLatest (history : List String) : List String := history.drop (history.length - historyLimit)

/-- Put a line at the end of a history, unless it is there already. -/
def remember (history : List String) (line : String) : List String :=
  if history.getLast? = some line then history else keepLatest (history ++ [line])

/-- The bindings of a namespace, one to a line. -/
def bindingLines (ns : Namespace Node) : List String :=
  ns.entries.map fun p => p.1 ++ " := " ++ p.2.expr.text

namespace Shell

/-- Read and execute a line that says something. -/
def execute (sh : Shell) (line : List Char) : Reply × Shell :=
  let read := sh.session.engine.readEntry ⟨"<stdin>", sh.lines, line⟩
  let session : Session := { sh.session with engine := read.2 }
  match read.1 with
  | .error (.unread e) => (.complaint e, { sh with session := session })
  | .error (.unwritable f) => (.broken f, { sh with session := session })
  | .ok i =>
    let done := session.step i
    match done.1 with
    | .error f => (.fatal f, { sh with session := done.2 })
    | .ok none => (.silence, { sh with session := done.2 })
    | .ok (some r) => (.result r, { sh with session := done.2 })

/-- Answer a line. -/
def feed (sh : Shell) (line : List Char) : Reply × Shell :=
  let sh := { sh with lines := sh.lines + 1 }
  let words := Text.trim line
  if words = ":quit".toList then (.farewell, sh)
  else if words = ":names".toList then (.listing (bindingLines sh.session.bindings), sh)
  else if Source.skippable line then (.silence, sh)
  else execute { sh with history := remember sh.history (String.ofList line) } line

/-- The notes taken since they were last handed out, and the shell without them. -/
def takeNotes (sh : Shell) : List String × Shell :=
  (sh.session.engine.notes,
    { sh with session := { sh.session with engine := { sh.session.engine with log := [] } } })

end Shell

/-- A note as it is shown. -/
def debugLine (note : String) : String := "DEBUG " ++ note

/-- What is shown before a line is asked for. -/
def prompt : String := "ratline> "

/-- What is shown first. -/
def banner : List String :=
  ["I heard you like to eval",
   "so we put an eval in your eval",
   "so you can eval while you eval",
   "Ctrl+D exits. Type :names to list bindings, :quit to exit."]

/-- Lines as one text. -/
def unlines (ls : List String) : String := String.join (ls.map (· ++ "\n"))

/-- The whole course of a conversation. -/
structure Transcript where
  out : String
  err : String
  exit : Nat
  shell : Shell

/-- Answer the lines of an input one after the other. -/
def Shell.converse (sh : Shell) : List (List Char) → Transcript
  | [] => ⟨prompt ++ "\n", "", 0, sh⟩
  | line :: rest =>
    let answered := sh.feed line
    let noted := answered.2.takeNotes
    let out := prompt ++ unlines answered.1.out
    let err := unlines (noted.1.map debugLine ++ answered.1.err)
    match answered.1.exit? with
    | some code => ⟨out, err, code, noted.2⟩
    | none =>
      let later := noted.2.converse rest
      ⟨out ++ later.out, err ++ later.err, later.exit, later.shell⟩

end Reckoner
