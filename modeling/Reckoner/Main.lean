/-
  The program.  All it does is fetch files, lines and the history for `Reckoner.CommandLine` and print
  what comes back.
-/
import Reckoner.CommandLine

namespace Reckoner

/-- Where the history is kept. -/
def historyPath : IO String := do
  return (← IO.getEnv "HOME").getD "" ++ "/.ratline_history"

/-- The text of a file, if it can be read. -/
def readText? (path : String) : IO (Option String) := do
  try
    return some (← IO.FS.readFile path)
  catch _ =>
    return none

/-- The files among the inputs, with their texts. -/
def readInputs (inputs : List String) : IO (List (String × String)) :=
  inputs.filterMapM fun path => do
    return (← readText? path).map fun text => (path, text)

/-- Print an answer. -/
def Answer.print (a : Answer) : IO UInt32 := do
  IO.print a.out
  IO.eprint a.err
  return a.exit.toUInt32

/-- The next line, in pieces if it is long; nothing at the end of the input. -/
def nextLines (stdin : IO.FS.Stream) : IO (List (List Char)) := do
  return inputLines (← stdin.getLine).toList

/-- Ask for lines and answer them, until the conversation ends.  `waiting` are the pieces of a long line
    that have been read but not yet answered. -/
partial def talk (stdin : IO.FS.Stream) (sh : Shell) (waiting : List (List Char)) :
    IO (UInt32 × Shell) := do
  IO.print prompt
  (← IO.getStdout).flush
  let pieces ← if waiting.isEmpty then nextLines stdin else pure waiting
  match pieces with
  | [] =>
    IO.println ""
    return (0, sh)
  | piece :: rest =>
    let answered := sh.feed piece
    let noted := answered.2.takeNotes
    IO.print (unlines answered.1.out)
    IO.eprint (unlines (noted.1.map debugLine ++ answered.1.err))
    match answered.1.exit? with
    | some code => return (code.toUInt32, noted.2)
    | none => talk stdin noted.2 rest

/-- Converse on the terminal, and keep the history. -/
def talkAtTerminal (en : Engine) : IO UInt32 := do
  IO.print (unlines banner)
  let path ← historyPath
  let history := (← readText? path).getD ""
  let (code, sh) ← talk (← IO.getStdin) (openShell en history) []
  try
    IO.FS.writeFile path (unlines sh.history)
  catch _ =>
    pure ()
  return code

end Reckoner

open Reckoner in
/-- Do what the arguments ask for. -/
def main (args : List String) : IO UInt32 := do
  match Task.ofArguments args with
  | .refuse f =>
    IO.eprint f.message
    return f.exit.toUInt32
  | .converse en => talkAtTerminal en
  | .run en inputs =>
    let files ← readInputs inputs
    (runBatch en (inputDocuments (fun path => files.lookup path) 1 inputs)).print
  | .residual en inputs =>
    let files ← readInputs inputs
    (printResidual en (inputDocuments (fun path => files.lookup path) 1 inputs)).print
