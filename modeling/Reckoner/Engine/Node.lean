/-
  Nodes: expressions with an identity.  The engine keeps what it has worked out for a node, and tells
  nodes apart by their number, not by what they say: two nodes of one form are different nodes, and one
  node may stand in several places.  `Node.expr` forgets the numbers.
-/
import Reckoner.Evaluation

namespace Reckoner

/-- An expression whose every part has a number. -/
inductive Node
  | integer (id : Nat) (n : Int)
  | rational (id : Nat) (num den : Int)
  | reference (id : Nat) (name : String)
  | binary (id : Nat) (op : Operator) (left right : Node)
  deriving DecidableEq, Repr

namespace Node

/-- The number of a node. -/
def id : Node → Nat
  | integer i _ => i
  | rational i _ _ => i
  | reference i _ => i
  | binary i _ _ _ => i

/-- The expression that a node stands for. -/
def expr : Node → Expr
  | integer _ n => .integer n
  | rational _ n d => .rational n d
  | reference _ x => .reference x
  | binary _ op l r => .binary op l.expr r.expr

/-- The left operand of an operation. -/
def left? : Node → Option Node
  | binary _ _ l _ => some l
  | _ => none

/-- The right operand of an operation. -/
def right? : Node → Option Node
  | binary _ _ _ r => some r
  | _ => none

/-- A literal stands for a known number. -/
def isLiteral (n : Node) : Bool := n.expr.isLiteral

/-- The names that a node reads. -/
def free (n : Node) : List String := n.expr.free

/-- Give every part of an expression a number, counting from `next`: operands before their operation, the
    left one first.  Also the first number not given. -/
def place (next : Nat) : Expr → Node × Nat
  | .integer n => (integer next n, next + 1)
  | .rational n d => (rational next n d, next + 1)
  | .reference x => (reference next x, next + 1)
  | .binary op l r =>
    let left := place next l
    let right := place left.2 r
    (binary right.2 op left.1 right.1, right.2 + 1)

theorem expr_place (next : Nat) (e : Expr) : (place next e).1.expr = e := by
  induction e generalizing next with
  | integer n => rfl
  | rational n d => rfl
  | reference x => rfl
  | binary op l r ihl ihr => simp [place, expr, ihl, ihr]

end Node

instance : Mentions Node := ⟨Node.free⟩

end Reckoner
