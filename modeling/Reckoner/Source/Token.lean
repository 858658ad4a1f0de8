/-
  Tokens.  A line is read as a sequence of tokens: names, numerals, texts, marks and reserved words.
  The scanner knows far more marks than the calculator has use for; what is of no use is refused later,
  by name.
-/
namespace Reckoner.Source

/-- The marks. -/
inductive Mark
  | plus
  | minus
  | star
  | slash
  | floor
  | percent
  | ampersand
  | bar
  | caret
  | shiftLeft
  | shiftRight
  | tilde
  | dot
  | comma
  | equals
  | semicolon
  | colon
  | openParen
  | closeParen
  | openBracket
  | closeBracket
  | openBrace
  | closeBrace
  | less
  | greater
  | atLeast
  | atMost
  | same
  | differs
  | power
  /-- An operator joined to an equals sign. -/
  | update (operator : String)
  deriving DecidableEq, Repr

/-- The spelling of a mark. -/
def Mark.spelling : Mark → String
  | plus => "+"
  | minus => "-"
  | star => "*"
  | slash => "/"
  | floor => "//"
  | percent => "%"
  | ampersand => "&"
  | bar => "|"
  | caret => "^"
  | shiftLeft => "<<"
  | shiftRight => ">>"
  | tilde => "~"
  | dot => "."
  | comma => ","
  | equals => "="
  | semicolon => ";"
  | colon => ":"
  | openParen => "("
  | closeParen => ")"
  | openBracket => "["
  | closeBracket => "]"
  | openBrace => "\x7b"
  | closeBrace => "\x7d"
  | less => "<"
  | greater => ">"
  | atLeast => ">="
  | atMost => "<="
  | same => "=="
  | differs => "!="
  | power => "**"
  | update op => op ++ "="

/-- The reserved words.  Most have no part in any expression and are only ever named in a complaint. -/
inductive Keyword
  | conj
  | disj
  | within
  | negation
  | when
  | otherwise
  | each
  | idle (spelling : String)
  deriving DecidableEq, Repr

namespace Keyword

/-- The reserved word with a spelling. -/
def ofSpelling? : String → Option Keyword
  | "and" => some conj
  | "or" => some disj
  | "in" => some within
  | "not" => some negation
  | "if" => some when
  | "else" => some otherwise
  | "for" => some each
  | s =>
    if s ∈ ["as", "async", "await", "break", "class", "continue", "def", "del", "elif", "except",
        "finally", "from", "global", "import", "is", "lambda", "load", "nonlocal", "pass", "raise",
        "return", "try", "while", "with", "yield"] then
      some (idle s)
    else none

/-- What a complaint calls a reserved word: each by its spelling, also those that no phrase has a use
    for. -/
def called : Keyword → String
  | conj => "and"
  | disj => "or"
  | within => "in"
  | negation => "not"
  | when => "if"
  | otherwise => "else"
  | each => "for"
  | idle s => s

end Keyword

/-- A token. -/
inductive Token
  | eof
  | newline
  | indent
  | name (s : String)
  | int (raw : String) (value : Nat)
  | float (raw : String)
  | text (raw value : String)
  | bytes (raw : String)
  | mark (m : Mark)
  | word (k : Keyword)
  deriving DecidableEq, Repr

namespace Token

/-- What a complaint calls a token. -/
def called : Token → String
  | eof => "end of file"
  | newline => "newline"
  | indent => "indent"
  | name _ => "identifier"
  | int _ _ => "int literal"
  | float _ => "float literal"
  | text _ _ => "string literal"
  | bytes _ => ""
  | mark m => "'" ++ m.spelling ++ "'"
  | word k => k.called

/-- How many line ends stand inside a token: only a text can hold any. -/
def lineEnds : Token → Nat
  | text raw _ => raw.toList.count '\n'
  | bytes raw => raw.toList.count '\n'
  | _ => 0

end Token

/-- A token and the line it begins on. -/
structure Placed where
  token : Token
  line : Nat
  deriving DecidableEq, Repr

/-- The line on which a token ends. -/
def Placed.lastLine (t : Placed) : Nat := t.line + t.token.lineEnds

end Reckoner.Source
