/-
  Sessions: an engine and the namespace that its assignments have built.  A session executes
  instructions as `step` does, and notes on the interpretation channel what it is about to do or has
  done.

  Where instructions come from is a parameter, `fetch`: lines still to be read, or instructions that are
  nodes already.
-/
import Reckoner.Engine.Reading
import Reckoner.Engine.Specialization
import Reckoner.Residual

namespace Reckoner

/-- An engine and a namespace. -/
structure Session where
  engine : Engine
  bindings : Namespace Node := ∅

/-- What is noted when `x` is bound to `n'` for `n`: also the new form, if `n` did not come back as
    itself. -/
def assignmentNote (x : String) (n n' : Node) : String :=
  let text := (Instruction.assign x n.expr).text
  if n'.id = n.id then text else text ++ " => " ++ n'.expr.text

/-- What is noted before `n` is evaluated: also the names it reads, if there are any. -/
def evaluationNote (n : Node) : String :=
  let text := (Instruction.evaluate n.expr).text
  match sortNames n.free with
  | [] => text
  | xs => text ++ " (resolving " ++ String.intercalate ", " xs ++ ")"

namespace Session

/-- Execute one instruction: the result, if it evaluates. -/
def step (s : Session) : Instruction Node → Except Failure (Option Result) × Session
  | .assign x n =>
    let special := s.engine.specialize s.bindings n
    match special.1 with
    | .error f => (.error f, { s with engine := special.2 })
    | .ok n' =>
      (.ok none, ⟨special.2.note .interpretation fun _ => assignmentNote x n n', s.bindings.bind x n'⟩)
  | .evaluate n =>
    let outcome := (s.engine.note .interpretation fun _ => evaluationNote n).evaluate s.bindings n
    match Result.ofOutcome outcome.1 with
    | .error f => (.error f, { s with engine := outcome.2 })
    | .ok r => (.ok (some r), { s with engine := outcome.2 })
  | .missing => (.error (.fault .noInstruction), s)

variable {ε ι : Type}

/-- Fetch an instruction and execute it. -/
def act (fetch : Engine → ι → Except ε (Instruction Node) × Engine) (s : Session) (item : ι) :
    Except (Stop ε) (Option Result) × Session :=
  let fetched := fetch s.engine item
  match fetched.1 with
  | .error e => (.error (.unread e), { s with engine := fetched.2 })
  | .ok i =>
    let done := step { s with engine := fetched.2 } i
    match done.1 with
    | .error f => (.error (.fatal f), done.2)
    | .ok r => (.ok r, done.2)

/-- Fetch and specialize all instructions. -/
def specializeAll (fetch : Engine → ι → Except ε (Instruction Node) × Engine) (s : Session) :
    List ι → Except (Stop ε) (List (Instruction Node)) × Engine
  | [] => (.ok [], s.engine)
  | item :: rest =>
    let fetched := fetch s.engine item
    match fetched.1 with
    | .error e => (.error (.unread e), fetched.2)
    | .ok (.assign x n) =>
      let special := fetched.2.specialize s.bindings n
      match special.1 with
      | .error f => (.error (.fatal f), special.2)
      | .ok n' =>
        let more := specializeAll fetch ⟨special.2, s.bindings.bind x n'⟩ rest
        (more.1.map (.assign x n' :: ·), more.2)
    | .ok (.evaluate n) =>
      let special := fetched.2.specialize s.bindings n
      match special.1 with
      | .error f => (.error (.fatal f), special.2)
      | .ok n' =>
        let more := specializeAll fetch ⟨special.2, s.bindings⟩ rest
        (more.1.map (.evaluate n' :: ·), more.2)
    | .ok .missing => (.error (.fatal (.fault .noInstruction)), fetched.2)

end Session

namespace Engine

variable {ε ι : Type}

/-- Run a source from an empty namespace. -/
def run (fetch : Engine → ι → Except ε (Instruction Node) × Engine) (en : Engine) (source : List ι) :
    List (Result × Results Session ι ε) × Results Session ι ε :=
  (Results.start ⟨en, ∅⟩ source).drain (Session.act fetch)

/-- The residual program of a source. -/
def residual (fetch : Engine → ι → Except ε (Instruction Node) × Engine) (en : Engine) (source : List ι) :
    Except (Stop ε) (List (Instruction Node)) × Engine :=
  let specialized := Session.specializeAll fetch ⟨en, ∅⟩ source
  (specialized.1.map prune, specialized.2)

end Engine

/-- Nothing has to be read: the instructions are there. -/
def given {ε : Type} (en : Engine) (i : Instruction Node) : Except ε (Instruction Node) × Engine :=
  (.ok i, en)

end Reckoner
