/-
  From phrases to expressions.  Of all that phrases can say the calculator takes names, decimal numerals
  with at most one sign, ratios of two of them, brackets, and the four operations; everything else is
  refused by naming it.
-/
import Reckoner.Expr
import Reckoner.Source.Phrase
import Reckoner.Source.Preparation

namespace Reckoner.Source

/-- Why a phrase is no expression. -/
inductive GrammarFault
  | identifier (name : String)
  | operator (symbol : String)
  | integer (raw : String)
  | decimal (raw : String)
  | literal (raw : String)
  | call
  /-- A part of a ratio that is no integer. -/
  | parts
  /-- A sign before something that is no numeral. -/
  | sign
  | shape (name : String)
  deriving DecidableEq, Repr

/-- The wording of a refused phrase. -/
def GrammarFault.message : GrammarFault → String
  | identifier x => "invalid identifier " ++ Text.quoted x
  | operator s => "unsupported operator " ++ s
  | integer raw => "unsupported integer literal " ++ raw
  | decimal raw => "unsupported decimal literal " ++ raw
  | literal raw => "unsupported literal " ++ raw
  | call => "unsupported call expression"
  | parts => "fraction parts must be integers"
  | sign => "sign applied to a non-literal"
  | shape s => "unsupported expression *syntax." ++ s

/-- What a complaint calls a phrase that is no expression. -/
def Phrase.shape : Phrase → String
  | name _ => "Ident"
  | int _ _ => "Literal"
  | float _ => "Literal"
  | text _ _ => "Literal"
  | bytes _ => "Literal"
  | paren _ => "ParenExpr"
  | signed _ _ => "UnaryExpr"
  | binary _ _ _ _ => "BinaryExpr"
  | call _ _ _ => "CallExpr"
  | named _ _ _ => "BinaryExpr"
  | starred _ _ => "UnaryExpr"
  | dot _ _ => "DotExpr"
  | index _ _ => "IndexExpr"
  | slice _ _ _ _ => "SliceExpr"
  | list _ _ => "ListExpr"
  | dict _ => "DictExpr"
  | pair _ _ => "DictEntry"
  | tuple _ _ _ => "TupleExpr"
  | conditional _ _ _ => "CondExpr"
  | comprehension _ _ _ => "Comprehension"
  | each _ _ => "ForClause"
  | filter _ => "IfClause"

/-- The operator of a connective, for the four that are operators. -/
def Connective.operator? : Connective → Option Operator
  | mark .plus => some .add
  | mark .minus => some .sub
  | mark .star => some .mul
  | mark .slash => some .div
  | _ => none

/-- The number of a numeral with a sign or without. -/
def signedBy (negative : Bool) (n : Int) : Int := if negative then -n else n

/-- The number of a numeral, which must be written in decimal digits. -/
def integerOf (raw : String) (value : Nat) : Except GrammarFault Int :=
  if raw.toList.all Char.isDigit then .ok value else .error (.integer raw)

/-- The numerator and denominator of a numeral with a point, which must have digits on both sides of
    it. -/
def decimalOf (raw : String) : Except GrammarFault (Int × Int) :=
  let whole := raw.toList.takeWhile Char.isDigit
  match raw.toList.dropWhile Char.isDigit with
  | '.' :: places =>
    if whole.isEmpty || places.isEmpty || !places.all Char.isDigit then .error (.decimal raw)
    else .ok (Text.natOfDigits (whole ++ places), (Nat.pow 10 places.length : Nat))
  | _ => .error (.decimal raw)

/-- The number of a part of a ratio. -/
def ratioPart : Phrase → Except GrammarFault Int
  | .int raw n => integerOf raw n
  | .signed .minus (.int raw n) => (integerOf raw n).map (signedBy true)
  | .signed .plus (.int raw n) => integerOf raw n
  | _ => .error .parts

/-- The literal that a phrase stands for behind a minus sign, or a plus sign or none. -/
def literalOf (negative : Bool) : Phrase → Except GrammarFault Expr
  | .int raw n => (integerOf raw n).map fun n => .integer (signedBy negative n)
  | .float raw => (decimalOf raw).map fun p => .rational (signedBy negative p.1) p.2
  | .text raw _ => .error (.literal raw)
  | .bytes raw => .error (.literal raw)
  | .call (.name "__ratio__") _ [num, den] => do
    let n ← ratioPart num
    let d ← ratioPart den
    return .rational (signedBy negative n) d
  | .call _ _ _ => .error .call
  | _ => .error .sign

/-- A name as the source has it, without the mark of a reserved word. -/
def unmarkWord (cs : List Char) : List Char :=
  if wordMark.isPrefixOf cs then cs.drop wordMark.length else cs

/-- The reference of a name. -/
def referenceOf (s : String) : Except GrammarFault Expr :=
  let x := unmarkWord s.toList
  if isName x then .ok (.reference (String.ofList x)) else .error (.identifier (String.ofList x))

/-- The expression that a phrase stands for. -/
def exprOf : Phrase → Except GrammarFault Expr
  | .name s => referenceOf s
  | .paren x => exprOf x
  | .signed sign x =>
    if sign = .minus || sign = .plus then literalOf (sign = .minus) x
    else .error (.operator sign.spelling)
  | .binary op _ x y =>
    match op.operator? with
    | none => .error (.operator op.spelling)
    | some o => do
      let l ← exprOf x
      let r ← exprOf y
      return .binary o l r
  | .int raw n => literalOf false (.int raw n)
  | .float raw => literalOf false (.float raw)
  | .text raw v => literalOf false (.text raw v)
  | .bytes raw => literalOf false (.bytes raw)
  | .call f oneLine args => literalOf false (.call f oneLine args)
  | x => .error (.shape x.shape)

end Reckoner.Source
