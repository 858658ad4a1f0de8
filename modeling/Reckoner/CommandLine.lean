/-
  The command line.  Flags come first; every argument behind them is an input, a file of statements if it
  names one and otherwise statements itself.  Without inputs the calculator converses.
-/
import Reckoner.Interactive

namespace Reckoner

/-- What the flags ask for. -/
structure Settings where
  parsing : Bool := false
  interpretation : Bool := false
  codeGeneration : Bool := false
  residual : Bool := false
  deriving DecidableEq, Repr

/-- Why the flags are not understood. -/
inductive FlagFault
  /-- The usage was asked for. -/
  | help
  | unformed (argument : String)
  | undefined (name : String)
  | notBoolean (value name : String)
  deriving DecidableEq, Repr

/-- The flags and what they do, in rising order. -/
def flagDescriptions : List (String × String) :=
  [("residual", "print the specialized program instead of running it"),
   ("show-codegen", "show generated code"),
   ("show-interpret", "show statement interpretation details"),
   ("show-parsing", "show parsing details")]

/-- How the program is to be called. -/
def usage : String :=
  "usage: ratline [flags] [INPUT...]\n\n" ++
  "Each INPUT is a file of statements or a statement itself.\n" ++
  "Without INPUT, statements are read interactively.\n\n" ++
  String.join (flagDescriptions.map fun p => "  -" ++ p.1 ++ "\n    \t" ++ p.2 ++ "\n")

namespace FlagFault

/-- What is said about flags that are not understood. -/
def message : FlagFault → String
  | help => usage
  | unformed arg => "bad flag syntax: " ++ arg ++ "\n" ++ usage
  | undefined name => "flag provided but not defined: -" ++ name ++ "\n" ++ usage
  | notBoolean value name =>
    "invalid boolean value " ++ Text.quoted value ++ " for -" ++ name ++ ": parse error\n" ++ usage

/-- The exit code. -/
def exit : FlagFault → Nat
  | help => 0
  | _ => 2

end FlagFault

/-- What an argument is, as long as flags are expected. -/
inductive Argument
  | input
  /-- Two dashes: all that follows is input. -/
  | separator
  | flag (name : String) (value : Option String)
  | unformed
  deriving DecidableEq, Repr

/-- A flag without its dashes: its name, and what follows the first equals sign. -/
def Argument.ofFlag : List Char → Argument
  | [] => unformed
  | c :: r =>
    if c = '-' || c = '=' then unformed
    else
      let name := String.ofList (c :: r.takeWhile (· ≠ '='))
      match r.dropWhile (· ≠ '=') with
      | [] => flag name none
      | _ :: value => flag name (some (String.ofList value))

/-- What an argument is. -/
def Argument.ofChars : List Char → Argument
  | ['-', '-'] => separator
  | '-' :: '-' :: name => ofFlag name
  | ['-'] => input
  | '-' :: name => ofFlag name
  | _ => input

/-- The truth value that a text spells. -/
def boolean? (s : String) : Option Bool :=
  if s ∈ ["1", "t", "T", "TRUE", "true", "True"] then some true
  else if s ∈ ["0", "f", "F", "FALSE", "false", "False"] then some false
  else none

namespace Settings

/-- Set a flag by its name. -/
def set? (s : Settings) (name : String) (on : Bool) : Option Settings :=
  match name with
  | "show-parsing" => some { s with parsing := on }
  | "show-interpret" => some { s with interpretation := on }
  | "show-codegen" => some { s with codeGeneration := on }
  | "residual" => some { s with residual := on }
  | _ => none

/-- Set a flag to the value it was given, or to true. -/
def apply (s : Settings) (name : String) (value : Option String) : Except FlagFault Settings :=
  match s.set? name true with
  | none => .error (if name = "help" || name = "h" then .help else .undefined name)
  | some on =>
    match value with
    | none => .ok on
    | some v =>
      match boolean? v with
      | none => .error (.notBoolean v name)
      | some b => .ok ((s.set? name b).getD s)

/-- The settings of the flags at the front, and the inputs behind them. -/
def ofArguments (s : Settings) : List String → Except FlagFault (Settings × List String)
  | [] => .ok (s, [])
  | arg :: rest =>
    match Argument.ofChars arg.toList with
    | .input => .ok (s, arg :: rest)
    | .separator => .ok (s, rest)
    | .unformed => .error (.unformed arg)
    | .flag name value =>
      match s.apply name value with
      | .error f => .error f
      | .ok s' => ofArguments s' rest

/-- The channels that are on. -/
def channels (s : Settings) : List Channel :=
  (if s.parsing then [.parsing] else []) ++ (if s.interpretation then [.interpretation] else []) ++
    if s.codeGeneration then [.codeGeneration] else []

end Settings

/-- What a call of the program leaves behind. -/
structure Answer where
  out : String
  err : String
  exit : Nat
  /-- The history, if the program has written it. -/
  history : Option (List String) := none
  deriving DecidableEq, Repr

/-- The documents that the inputs stand for; `file` gives the text of a file.  An input that is no file is
    called by its number. -/
def inputDocuments (file : String → Option String) (n : Nat) : List String → List Source.Document
  | [] => []
  | arg :: rest =>
    (match file arg with
    | some text => ⟨arg, text⟩
    | none => ⟨"<arg " ++ Text.ofNat n ++ ">", arg⟩) :: inputDocuments file (n + 1) rest

/-- What is said about a run that stopped short, and the exit code. -/
def stopReport : Stop Trouble → String × Nat
  | .unread (.unwritable f) => ("panic: " ++ f.message ++ "\n", 2)
  | .unread e => ("error: " ++ e.message ++ "\n", 1)
  | .fatal f => ("error: " ++ f.message ++ "\n", 1)

/-- Notes as they are shown. -/
def debugText (en : Engine) : String := unlines (en.notes.map debugLine)

/-- Run documents and print their results. -/
def runBatch (en : Engine) (ds : List Source.Document) : Answer :=
  let ran := en.run Engine.fetch (ds.flatMap Source.Document.entries)
  let out := unlines (ran.1.map fun p => p.1.text)
  let notes := debugText ran.2.state.engine
  match ran.2.status with
  | .stopped c => { out := out, err := notes ++ (stopReport c).1, exit := (stopReport c).2 }
  | _ => { out := out, err := notes, exit := 0 }

/-- Print the residual program of documents. -/
def printResidual (en : Engine) (ds : List Source.Document) : Answer :=
  let special := en.residual Engine.fetch (ds.flatMap Source.Document.entries)
  let notes := debugText special.2
  match special.1 with
  | .error c => { out := "", err := notes ++ (stopReport c).1, exit := (stopReport c).2 }
  | .ok is => { out := unlines (is.map fun i => (i.map Node.expr).text), err := notes, exit := 0 }

/-- The shell at the beginning of a conversation, with the text of the history; a line of it that is too
    long ends it. -/
def openShell (en : Engine) (history : String) : Shell :=
  { session := ⟨en, ∅⟩, history := keepLatest ((fittingLines history.toList).map String.ofList) }

/-- Converse about the lines of an input. -/
def converse (en : Engine) (stdin history : String) : Answer :=
  let t := (openShell en history).converse (inputLines stdin.toList)
  { out := unlines banner ++ t.out, err := t.err, exit := t.exit, history := some t.shell.history }

/-- What the program is called to do. -/
inductive Task
  | refuse (f : FlagFault)
  | converse (en : Engine)
  | run (en : Engine) (inputs : List String)
  | residual (en : Engine) (inputs : List String)

/-- The task that the arguments set. -/
def Task.ofArguments (args : List String) : Task :=
  match Settings.ofArguments {} args with
  | .error f => refuse f
  | .ok (s, inputs) =>
    let en : Engine := { channels := s.channels }
    if inputs.isEmpty then converse en
    else if s.residual then residual en inputs
    else run en inputs

/-- A call of the program: its arguments, the files it can see, its input and its history. -/
def commandLine (args : List String) (file : String → Option String) (stdin history : String) : Answer :=
  match Task.ofArguments args with
  | .refuse f => { out := "", err := f.message, exit := f.exit }
  | .converse en => converse en stdin history
  | .run en inputs => runBatch en (inputDocuments file 1 inputs)
  | .residual en inputs => printResidual en (inputDocuments file 1 inputs)

end Reckoner
