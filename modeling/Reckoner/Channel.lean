/-
  The three channels on which the calculator can show its work.  A note is one line: the name of its
  channel in a column of fixed width, then what is to be said.
-/
namespace Reckoner

/-- A channel for notes. -/
inductive Channel
  | parsing
  | interpretation
  | codeGeneration
  deriving DecidableEq, Repr

namespace Channel

/-- The channel with a number, in the order of the constructors. -/
def ofNat? : Nat → Option Channel
  | 0 => some parsing
  | 1 => some interpretation
  | 2 => some codeGeneration
  | _ => none

/-- The name of a channel. -/
def name : Channel → String
  | parsing => "parsing"
  | interpretation => "interpretation"
  | codeGeneration => "code-generation"

/-- The channel with a name. -/
def ofName? : String → Option Channel
  | "parsing" => some parsing
  | "interpretation" => some interpretation
  | "code-generation" => some codeGeneration
  | _ => none

/-- A note: the channel's name in fifteen columns, a colon and the text. -/
def note (c : Channel) (text : String) : String :=
  String.ofList (c.name.toList ++ List.replicate (15 - c.name.length) ' ') ++ ": " ++ text

end Channel

/-- The name of the channel with a number, or a remark that there is none. -/
def channelName (c : Option Channel) : String := (c.map Channel.name).getD "<unknown channel>"

end Reckoner
