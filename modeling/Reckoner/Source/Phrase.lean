/-
  Phrases: what a sequence of tokens says, before it is asked whether the calculator can work with it.
  The grammar of phrases is that of a larger language, with calls, lists, comprehensions and
  comparisons, so a line that uses them is refused for what it is and not for its punctuation.

  Where a phrase was written over several lines is kept only as far as its layout needs it: an operation
  remembers whether its operands stand on different lines, a call whether it fits on one.
-/
import Reckoner.Source.Token

namespace Reckoner.Source

/-- What stands between two operands. -/
inductive Connective
  | conj
  | disj
  | inside
  | notInside
  | mark (m : Mark)
  deriving DecidableEq, Repr

namespace Connective

/-- The spelling of a connective. -/
def spelling : Connective → String
  | conj => "and"
  | disj => "or"
  | inside => "in"
  | notInside => "not in"
  | mark m => m.spelling

/-- How tightly a connective binds; a mark that is no connective binds nothing. -/
def level? : Connective → Option Nat
  | disj => some 0
  | conj => some 1
  | inside => some 3
  | notInside => some 3
  | mark m =>
    match m with
    | .same => some 3
    | .differs => some 3
    | .less => some 3
    | .greater => some 3
    | .atMost => some 3
    | .atLeast => some 3
    | .bar => some 4
    | .caret => some 5
    | .ampersand => some 6
    | .shiftLeft => some 7
    | .shiftRight => some 7
    | .plus => some 8
    | .minus => some 8
    | .star => some 9
    | .percent => some 9
    | .slash => some 9
    | .floor => some 9
    | _ => none

/-- How tightly a connective binds, from 0 for the loosest. -/
def level (c : Connective) : Nat := c.level?.getD 0

/-- Comparisons, which cannot be chained. -/
def isComparison (c : Connective) : Bool := c.level? = some 3

/-- The connective that a token stands for. -/
def ofToken? : Token → Option Connective
  | .word .conj => some conj
  | .word .disj => some disj
  | .word .within => some inside
  | .mark m => if (level? (mark m)).isSome then some (mark m) else none
  | _ => none

end Connective

/-- A phrase. -/
inductive Phrase
  | name (s : String)
  | int (raw : String) (value : Nat)
  | float (raw : String)
  | text (raw value : String)
  | bytes (raw : String)
  | paren (x : Phrase)
  | signed (sign : Mark) (x : Phrase)
  /-- Two operands; `broken` if the second begins on another line than the first ends. -/
  | binary (op : Connective) (broken : Bool) (x y : Phrase)
  | call (f : Phrase) (oneLine : Bool) (args : List Phrase)
  /-- An argument with its name. -/
  | named (name : String) (broken : Bool) (value : Phrase)
  /-- An argument behind one star or two. -/
  | starred (double : Bool) (x : Phrase)
  | dot (x : Phrase) (name : String)
  | index (x i : Phrase)
  | slice (x : Phrase) (lower upper stride : Option Phrase)
  /-- A list; `tall` if each item is to have its own line, however few there are. -/
  | list (tall : Bool) (items : List Phrase)
  /-- The entries are pairs. -/
  | dict (entries : List Phrase)
  | pair (key value : Phrase)
  /-- Bracketed only if it is empty: otherwise the brackets around a tuple are a phrase of their own. -/
  | tuple (bracketed oneLine : Bool) (items : List Phrase)
  | conditional (x condition other : Phrase)
  /-- The clauses are `each` and `filter`. -/
  | comprehension (curly : Bool) (body : Phrase) (clauses : List Phrase)
  | each (vars domain : Phrase)
  | filter (condition : Phrase)
  deriving Repr

/-- What a line of phrases says. -/
inductive Statement
  | expression (x : Phrase)
  | assignment
  deriving Repr

/-- Why tokens say nothing. -/
inductive PhraseFault
  | unexpected (got : Token) (wanted : String)
  /-- A conditional without its second alternative. -/
  | noElse
  /-- A comma at the end of a tuple without brackets. -/
  | trailingComma
  /-- No name behind a point. -/
  | notIdentifier
  /-- An argument's name that is no name. -/
  | argumentName
  /-- Two comparisons in a row. -/
  | chain (first second : Connective)
  deriving DecidableEq, Repr

/-- The wording of a fault in the phrases. -/
def PhraseFault.message : PhraseFault → String
  | unexpected got wanted => "got " ++ got.called ++ ", want " ++ wanted
  | noElse => "conditional expression without else clause"
  | trailingComma => "unparenthesized tuple with trailing comma"
  | notIdentifier => "not an identifier"
  | argumentName => "keyword argument must have form name=expr"
  | chain a b => a.spelling ++ " does not associate with " ++ b.spelling ++ " (use parens)"

end Reckoner.Source
