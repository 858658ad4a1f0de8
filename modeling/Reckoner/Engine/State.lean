/-
  The engine's memory.  It numbers the nodes it makes, remembers which nodes it has compiled, counts the
  compilations, and keeps the notes that it was asked to take.  A node is compiled once, its operands
  before it.
-/
import Reckoner.Channel
import Reckoner.Engine.Code
import Std.Data.HashSet

namespace Reckoner

/-- What the engine remembers. -/
structure Engine where
  /-- The first number that no node has. -/
  fresh : Nat := 0
  /-- The numbers of the compiled nodes. -/
  compiled : Std.HashSet Nat := ∅
  compilations : Nat := 0
  /-- The channels on which notes are taken. -/
  channels : List Channel := []
  /-- The notes, the latest first. -/
  log : List String := []

namespace Engine

/-- Take a note, if its channel is on; only then is its text worked out. -/
def note (en : Engine) (c : Channel) (text : Unit → String) : Engine :=
  if c ∈ en.channels then { en with log := c.note (text ()) :: en.log } else en

/-- The notes in the order they were taken. -/
def notes (en : Engine) : List String := en.log.reverse

/-- Make nodes for an expression. -/
def place (en : Engine) (e : Expr) : Node × Engine :=
  let placed := Node.place en.fresh e
  (placed.1, { en with fresh := placed.2 })

/-- Make a node for an operation on two nodes. -/
def join (en : Engine) (op : Operator) (l r : Node) : Node × Engine :=
  (.binary en.fresh op l r, { en with fresh := en.fresh + 1 })

/-- Remember that a node has been compiled. -/
def markCompiled (en : Engine) (n : Node) : Engine :=
  { en with compiled := en.compiled.insert n.id, compilations := en.compilations + 1 }.note
    .codeGeneration fun _ => n.expr.text ++ " => " ++ n.code.text

/-- Compile a node, unless it has been compiled before. -/
def compile (en : Engine) (n : Node) : Engine :=
  if en.compiled.contains n.id then en
  else match n with
    | .binary _ _ l r => ((en.compile l).compile r).markCompiled n
    | _ => en.markCompiled n

end Engine

end Reckoner
