/-
  Values of every type.  Expressions only ever compute numbers, but the operators and the comparisons
  are defined on texts and on the empty value as well: texts join and repeat, values of different types
  are unequal, and everything else is refused by naming the types.
-/
import Reckoner.Number

namespace Reckoner

/-- A value of any type. -/
inductive Value
  | number (x : Number)
  | text (s : String)
  | nothing
  deriving DecidableEq, Repr

/-- The six comparisons, and a symbol that is none of them. -/
inductive Relation
  | eq
  | ne
  | lt
  | le
  | gt
  | ge
  | other (symbol : String)
  deriving DecidableEq, Repr

/-- Why two values could not be compared. -/
inductive Incomparable
  /-- These types have no such comparison. -/
  | types (left symbol right : String)
  /-- Fractions have no comparison with this symbol. -/
  | symbol (symbol : String)
  /-- A symbol that orders nothing was put between two ordered values. -/
  | order (symbol : String)
  deriving DecidableEq, Repr

namespace Relation

/-- The comparison that a symbol spells. -/
def ofSymbol : String → Relation
  | "==" => eq
  | "!=" => ne
  | "<" => lt
  | "<=" => le
  | ">" => gt
  | ">=" => ge
  | s => other s

/-- The spelling of a comparison. -/
def symbol : Relation → String
  | eq => "=="
  | ne => "!="
  | lt => "<"
  | le => "<="
  | gt => ">"
  | ge => ">="
  | other s => s

/-- Whether a comparison holds of two things in this order; `none` for a symbol that is no comparison. -/
def holds : Relation → Ordering → Option Bool
  | eq, o => some (o == .eq)
  | ne, o => some (o != .eq)
  | lt, o => some (o == .lt)
  | le, o => some (o != .gt)
  | gt, o => some (o == .gt)
  | ge, o => some (o != .lt)
  | other _, _ => none

end Relation

/-- The wording of a refused comparison. -/
def Incomparable.message : Incomparable → String
  | types l s r => l ++ " " ++ s ++ " " ++ r ++ " not implemented"
  | symbol s => "unsupported comparison " ++ s
  | order s => s

/-- The order of two numbers, by cross-multiplication. -/
def Number.order (x y : Number) : Ordering :=
  compare (x.num * y.den) (y.num * x.den)

/-- Compare two fractions. -/
def Fraction.compare (r : Relation) (x y : Fraction) : Except Incomparable Bool :=
  match r.holds (Number.order (.fraction x) (.fraction y)) with
  | some b => .ok b
  | none => .error (.symbol r.symbol)

/-- Arithmetic with a fraction on one side: on its left if `onLeft`.  `none` if the other side is no
    number. -/
def Fraction.binary (op : Operator) (f : Fraction) (y : Value) (onLeft : Bool) :
    Except Failure (Option Number) :=
  match y with
  | .number y => (f.operate op y onLeft).map some
  | _ => .ok none

/-- The hash of a fraction: each character of its text is mixed in by exclusive or and a multiplication,
    modulo `2 ^ 32`. -/
def Fraction.hash (f : Fraction) : UInt32 :=
  (Number.fraction f).text.toList.foldl (fun h c => (h ^^^ c.toNat.toUInt32) * 16777619) 2166136261

namespace Value

/-- The name of a value's type. -/
def typeName : Value → String
  | number (.int _) => "int"
  | number (.fraction _) => "fraction"
  | text _ => "string"
  | nothing => "NoneType"

/-- A number as it is, a text between quotes. -/
def render : Value → String
  | number x => x.text
  | text s => Text.quoted s
  | nothing => "None"

/-- Zero, the empty text and the empty value count as false. -/
def truth : Value → Bool
  | number x => x.num != 0
  | text s => s != ""
  | nothing => false

/-- A text repeated `n` times.  The count must fit 32 bits and the result stay below `2 ^ 30` bytes. -/
def repeatText (s : String) (n : Int) : Except Failure Value :=
  if s = "" then .ok (text "")
  else if n < -2147483648 || 2147483647 < n then .error (.fault (.repeatCount n))
  else if n < 1 then .ok (text "")
  else if s.utf8ByteSize * n.toNat ≥ 1073741824 then
    .error (.fault (.repeatSize s.utf8ByteSize n.toNat))
  else .ok (text (String.join (List.replicate n.toNat s)))

/-- An operator applied to two values.  The symbol is looked at first, then the types. -/
def binary (op : Operator) (x y : Value) : Except Failure Value :=
  match op, x, y with
  | .other s, _, _ => .error (.fault (.operatorRule s))
  | op, number x, number y => (Number.apply op x y).map number
  | .add, text s, text t => .ok (text (s ++ t))
  | .mul, text s, number (.int n) => repeatText s n
  | .mul, number (.int n), text s => repeatText s n
  | op, x, y => .error (.fault (.operands x.typeName op.symbol y.typeName))

/-- Compare two values.  Fractions, whole numbers and texts are compared among themselves; all else is
    unequal, and has no order. -/
def compare (r : Relation) (x y : Value) : Except Incomparable Bool :=
  let unrelated (same : Bool) : Except Incomparable Bool :=
    match r with
    | .eq => .ok same
    | .ne => .ok (!same)
    | _ => .error (.types x.typeName r.symbol y.typeName)
  let ordered (o : Ordering) : Except Incomparable Bool :=
    match r.holds o with
    | some b => .ok b
    | none => .error (.order r.symbol)
  match x, y with
  | number (.fraction f), number (.fraction g) => f.compare r g
  | number (.int m), number (.int n) => ordered (Ord.compare m n)
  | text s, text t => ordered (Ord.compare s t)
  | nothing, nothing => unrelated true
  | _, _ => unrelated false

end Value

end Reckoner
