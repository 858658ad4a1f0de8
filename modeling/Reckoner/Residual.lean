/-
  Residual programs.  Specializing a program instruction by instruction, each against the assignments
  before it, leaves a program with the same results; most of its assignments are then read by nobody.
  `prune` drops them by walking backwards with the set of names that are still going to be read.
-/
import Reckoner.Run

namespace Reckoner

/-- `pruneWith is` — what is kept of `is`, and the names it reads before it assigns them. -/
def pruneWith {α : Type} [Mentions α] : List (Instruction α) → List (Instruction α) × List String
  | [] => ([], [])
  | .assign x a :: rest =>
    let (kept, live) := pruneWith rest
    if x ∈ live then (.assign x a :: kept, Mentions.mentioned a ++ live.filter (· ≠ x))
    else (kept, live)
  | .evaluate a :: rest =>
    let (kept, live) := pruneWith rest
    (.evaluate a :: kept, Mentions.mentioned a ++ live)
  | .missing :: rest =>
    let (kept, live) := pruneWith rest
    (.missing :: kept, live)

/-- Drop every assignment to a name that is not read before it is assigned again or the program ends. -/
def prune {α : Type} [Mentions α] (is : List (Instruction α)) : List (Instruction α) := (pruneWith is).1

/-- The instructions of a source, each with its expression specialized. -/
def specializeAll {ε : Type} (ns : Namespace Expr) :
    Readings ε Expr → Except (Stop ε) (List (Instruction Expr))
  | [] => .ok []
  | .error e :: _ => .error (.unread e)
  | .ok i :: rest =>
    match i with
    | .assign x e =>
      match specialize ns e with
      | .error f => .error (.fatal f)
      | .ok e' => (specializeAll (ns.bind x e') rest).map (.assign x e' :: ·)
    | .evaluate e =>
      match specialize ns e with
      | .error f => .error (.fatal f)
      | .ok e' => (specializeAll ns rest).map (.evaluate e' :: ·)
    | .missing => .error (.fatal (.fault .noInstruction))

/-- The residual program of a source. -/
def residual {ε : Type} (source : Readings ε Expr) : Except (Stop ε) (List (Instruction Expr)) :=
  (specializeAll ∅ source).map prune

end Reckoner
