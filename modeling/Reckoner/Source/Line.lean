/-
  One line of source.  A line either assigns, `name := expression`, or evaluates, `>>> expression`.  What
  follows the head is brought into the form that the scanner reads, cut into tokens, read as phrases and
  turned into an expression; the first of these steps that fails decides the complaint.
-/
import Reckoner.Instruction
import Reckoner.Source.Grammar
import Reckoner.Source.Phrasing
import Reckoner.Source.Scanning

namespace Reckoner.Source

/-- Why a line or an expression cannot be read. -/
inductive Malformed
  /-- Neither an assignment nor an evaluation. -/
  | head
  /-- An identifier that begins with an underscore. -/
  | underscore
  | lexical (cause : LexicalFault)
  | phrase (cause : PhraseFault)
  /-- No statement, or more than one. -/
  | statements
  /-- A statement that is no expression. -/
  | assignment
  | grammar (cause : GrammarFault)
  deriving DecidableEq, Repr

/-- What is wrong with a line. -/
def Malformed.reason : Malformed → String
  | head => "expected `name := expression` or `>>> expression`"
  | underscore => "identifiers must start with a letter"
  | lexical f => f.message
  | phrase f => f.message
  | statements => "expected exactly one expression"
  | assignment => "expected an expression"
  | grammar f => f.message

/-- The wording of the complaint. -/
def Malformed.message (m : Malformed) : String := "malformed source: " ++ m.reason

/-! ## Expressions -/

/-- The statements that tokens say.  A fault of the scanner shows when the tokens before it have been
    taken. -/
def statementsOf (s : Scan) : Except Malformed (List Statement) :=
  match s.fault with
  | none =>
    match readPhrases (s.tokens ++ [⟨.eof, 0⟩]) with
    | .ok sts => .ok sts
    | .error f => .error (.phrase f)
  | some fault =>
    match readPhrases s.tokens with
    | .ok _ => .error (.lexical fault)
    | .error f => .error (.phrase f)

/-- The one expression among statements. -/
def onlyExpression : List Statement → Except Malformed Phrase
  | [.expression x] => .ok x
  | [.assignment] => .error .assignment
  | _ => .error .statements

/-- The phrase that a source says. -/
def readPhrase (src : List Char) : Except Malformed Phrase :=
  match prepare? src with
  | none => .error .underscore
  | some cs => do
    let sts ← statementsOf (scan cs)
    onlyExpression sts

/-- The expression of a phrase. -/
def expressionOf (x : Phrase) : Except Malformed Expr :=
  match exprOf x with
  | .ok e => .ok e
  | .error f => .error (.grammar f)

/-- The expression that a source says. -/
def readExpr (src : List Char) : Except Malformed Expr := do
  let x ← readPhrase src
  expressionOf x

/-! ## Instructions -/

/-- Lines that hold no instruction: blank ones and comments. -/
def skippable (line : List Char) : Bool :=
  match Text.trim line with
  | [] => true
  | c :: _ => c = '#'

/-- The name and the source of an assignment. -/
def assignment? (cs : List Char) : Option (Instruction (List Char)) :=
  let name := cs.takeWhile isNameChar
  match (cs.dropWhile isNameChar).dropWhile Text.isSpace with
  | ':' :: '=' :: r =>
    let body := r.dropWhile Text.isSpace
    if isName name && !body.contains '\n' then some (.assign (String.ofList name) body) else none
  | _ => none

/-- The instruction of a line, with the source of its expression unread. -/
def instruction? (line : List Char) : Option (Instruction (List Char)) :=
  match Text.trim line with
  | '>' :: '>' :: '>' :: r => some (.evaluate r)
  | cs => assignment? cs

/-- The instruction of a line. -/
def readLine (line : List Char) : Except Malformed (Instruction Expr) :=
  match instruction? line with
  | none => .error .head
  | some (.assign x src) => (readExpr src).map (.assign x)
  | some (.evaluate src) => (readExpr src).map .evaluate
  | some .missing => .error .head

end Reckoner.Source
