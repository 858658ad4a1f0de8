/-
  Expressions.  A literal keeps its integers as they were written, so `9 : 12` and `1 : 0` are literals;
  reducing and refusing happen when the literal is evaluated.  `free` lists the names an expression reads,
  `text` is its source form: every operation stands in parentheses, so the text shows the tree.
-/
import Reckoner.Constructor
import Reckoner.Value
import Reckoner.Text.Blank

namespace Reckoner

/-- The kinds of expressions. -/
inductive Kind
  | integer
  | rational
  | reference
  | binary
  deriving DecidableEq, Repr

namespace Kind

/-- The kind with a number, in the order of the constructors. -/
def ofNat? : Nat → Option Kind
  | 0 => some integer
  | 1 => some rational
  | 2 => some reference
  | 3 => some binary
  | _ => none

/-- The name of a kind. -/
def name : Kind → String
  | integer => "integer"
  | rational => "rational"
  | reference => "reference"
  | binary => "binary"

/-- The kinds that stand for a known number. -/
def isLiteral : Kind → Bool
  | integer => true
  | rational => true
  | _ => false

end Kind

/-- The name of the kind with a number, or a note that there is none. -/
def kindName (k : Option Kind) : String := (k.map Kind.name).getD "<unknown kind>"

/-- An expression. -/
inductive Expr
  | integer (n : Int)
  /-- Numerator and denominator as written. -/
  | rational (num den : Int)
  | reference (name : String)
  | binary (op : Operator) (left right : Expr)
  deriving DecidableEq, Repr

namespace Expr

/-- The kind of an expression. -/
def kind : Expr → Kind
  | integer _ => .integer
  | rational _ _ => .rational
  | reference _ => .reference
  | binary _ _ _ => .binary

/-- A literal stands for a known number. -/
def isLiteral (e : Expr) : Bool := e.kind.isLiteral

/-- The names an expression reads, from left to right and as often as they stand in it. -/
def free : Expr → List String
  | integer _ => []
  | rational _ _ => []
  | reference x => [x]
  | binary _ l r => l.free ++ r.free

/-- Whether an expression holds a literal built by this constructor. -/
def uses (c : Constructor) : Expr → Bool
  | integer _ => c = .int
  | rational _ _ => c = .fraction
  | reference _ => false
  | binary _ l r => l.uses c || r.uses c

/-- The constructors that the literals of an expression are built by. -/
def constants (e : Expr) : List Constructor :=
  [Constructor.fraction, Constructor.int].filter (e.uses ·)

/-- Whether every operator of an expression has arithmetic. -/
def isArithmetic : Expr → Bool
  | binary op l r => op.isArithmetic && l.isArithmetic && r.isArithmetic
  | _ => true

/-- The literal that stands for a number. -/
def ofNumber : Number → Expr
  | .int n => integer n
  | .fraction f => rational f.num f.den

/-- The source form of an expression, before the blanks at its ends are dropped. -/
def body : Expr → String
  | integer n => Text.ofInt n
  | rational n d => Text.ofInt n ++ " : " ++ Text.ofInt d
  | reference x => x
  | binary op l r => "(" ++ l.body ++ " " ++ op.symbol ++ " " ++ r.body ++ ")"

/-- The source form of an expression. -/
def text (e : Expr) : String := String.ofList (Text.trim e.body.toList)

/-- Literals are built from values: a number has one, no other value does. -/
def ofValue : Value → Except Failure Expr
  | .number x => .ok (ofNumber x)
  | v => .error (.fault (.noLiteral v.typeName v.render))

end Expr

/-- Names in rising order, each once. -/
def sortNames (xs : List String) : List String :=
  xs.foldr insertName []
where
  /-- Insert a name into a rising list that may hold it already. -/
  insertName (x : String) : List String → List String
    | [] => [x]
    | y :: r => if x < y then x :: y :: r else if x = y then y :: r else y :: insertName x r

end Reckoner
