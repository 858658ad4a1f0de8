/-
  The layout of a phrase: how it is written out again once it has been arranged.  Blanks stand around
  every connective, and a list of two or more items takes a line for each.  An operation that was
  written over two lines keeps its line end, with the second operand under the first.

  Two phrases have no layout: an integer beyond 64 bits, and a sequence of bytes.

  The printer is a library's, and its code does not belong to the calculator.  What is said here follows
  what it prints.
-/
import Reckoner.Source.Arrangement
import Reckoner.Source.Escape
import Reckoner.Text.Blank
import Reckoner.Text.Decimal

namespace Reckoner.Source

/-- Why a phrase has no layout. -/
inductive LayoutFault
  /-- An integer of `2 ^ 63` or more. -/
  | wideInteger
  /-- A sequence of bytes. -/
  | bytes
  deriving DecidableEq, Repr

/-- The wording of a missing layout. -/
def LayoutFault.message : LayoutFault → String
  | wideInteger => "interface conversion: interface \x7b\x7d is *big.Int, not int64"
  | bytes => "unreachable"

/-! ## Phrases without a layout -/

mutual

/-- The first part of a phrase that has no layout.  The arguments of a call come before what is called. -/
def Phrase.fault? : Phrase → Option LayoutFault
  | .name _ => none
  | .int _ n => if 9223372036854775808 ≤ n then some .wideInteger else none
  | .float _ => none
  | .text _ _ => none
  | .bytes _ => some .bytes
  | .paren x => x.fault?
  | .signed _ x => x.fault?
  | .binary _ _ x y => x.fault?.or y.fault?
  | .call f _ args => (faultAmong? args).or f.fault?
  | .named _ _ x => x.fault?
  | .starred _ x => x.fault?
  | .dot x _ => x.fault?
  | .index x i => x.fault?.or i.fault?
  | .slice x lower upper stride =>
    x.fault?.or ((faultIn? lower).or ((faultIn? upper).or (faultIn? stride)))
  | .list _ items => faultAmong? items
  | .dict entries => faultAmong? entries
  | .pair k v => k.fault?.or v.fault?
  | .tuple _ _ items => faultAmong? items
  | .conditional x c y => x.fault?.or (c.fault?.or y.fault?)
  | .comprehension _ body clauses => body.fault?.or (faultAmong? clauses)
  | .each vars domain => vars.fault?.or domain.fault?
  | .filter c => c.fault?

/-- The first part without a layout in a list of phrases. -/
def faultAmong? : List Phrase → Option LayoutFault
  | [] => none
  | x :: rest => x.fault?.or (faultAmong? rest)

/-- The first part without a layout in a phrase that may be absent. -/
def faultIn? : Option Phrase → Option LayoutFault
  | none => none
  | some x => x.fault?

end

/-! ## Writing -/

/-- Where the next character goes: the margin of new lines, how many brackets are open, and the column,
    counted in bytes. -/
structure Spot where
  margin : Nat
  depth : Nat
  column : Nat

namespace Spot

/-- The spot behind some text. -/
def after (s : Spot) (out : List Char) : Spot :=
  { s with
    column :=
      if out.contains '\n' then byteLength (out.reverse.takeWhile (· ≠ '\n'))
      else s.column + byteLength out }

/-- Inside a bracket that begins here. -/
def enter (s : Spot) : Spot := { s with depth := s.depth + 1, column := s.column + 1 }

/-- A new line at the margin. -/
def newLine (s : Spot) : List Char := '\n' :: List.replicate s.margin ' '

/-- A line end inside an operation: outside brackets it needs a backslash. -/
def breakLine (s : Spot) : List Char := if s.depth = 0 then ' ' :: '\x5c' :: s.newLine else s.newLine

end Spot

/-- How far the items of a long list are indented. -/
def indentation : Nat := 4

/-- The binding strength of a sign. -/
def signStrength : Nat := 11

/-- The binding strength of what takes a suffix. -/
def suffixStrength : Nat := 12

/-- A numeral with a point or an exponent: a digit before the point, and with both a small `e` and no
    zeros or plus sign behind it. -/
def floatLayout (raw : List Char) : List Char :=
  let whole := if raw.head? = some '.' then '0' :: raw else raw
  let isMark (c : Char) : Bool := c = 'e' || c = 'E'
  match whole.dropWhile fun c => !isMark c with
  | _ :: exponent =>
    if whole.contains '.' then
      whole.takeWhile (fun c => !isMark c) ++ 'e' :: exponent.dropWhile fun c => c = '0' || c = '+'
    else whole
  | [] => whole

/-- One byte of a text between quotes.  Between three quotes a line end stands as it is. -/
def byteLayout (triple : Bool) (b : Nat) : List Char :=
  if triple && b = 0x0a then ['\n']
  else match Text.controlLetter? (Char.ofNat b) with
    | some l => ['\x5c', l]
    | none =>
      if b = 0x22 || b = 0x5c then ['\x5c', Char.ofNat b]
      else if b < 0x20 || 0x80 ≤ b then
        let ds := Nat.toDigits 8 b
        '\x5c' :: (List.replicate (3 - ds.length) '0' ++ ds)
      else [Char.ofNat b]

/-- The bytes of a text between quotes.  Between three, one or two quotes stand as they are if something
    else follows them. -/
def bytesLayout (triple : Bool) : List Nat → List Char
  | [] => []
  | [b] => byteLayout triple b
  | b :: c :: rest =>
    if triple && b = 0x22 && c ≠ 0x22 then '\x22' :: bytesLayout triple (c :: rest)
    else if triple && b = 0x22 && rest.head?.any (· ≠ 0x22) then
      '\x22' :: '\x22' :: bytesLayout triple rest
    else byteLayout triple b ++ bytesLayout triple (c :: rest)

/-- A text between quotes: three double ones if it was written so, or else one. -/
def textLayout (raw value : String) : List Char :=
  let triple := raw.toList.take 3 = ['\x22', '\x22', '\x22']
  let quotes := List.replicate (if triple then 3 else 1) '\x22'
  quotes ++ bytesLayout triple (value.toUTF8.toList.map UInt8.toNat) ++ quotes

/-- Put brackets around a text if they are needed. -/
def bracket (needed : Bool) (out : List Char) : List Char := if needed then '(' :: out ++ [')'] else out

mutual

/-- Write a phrase at a spot; in brackets if it binds less than `outer`. -/
def write (outer : Nat) (s : Spot) : Phrase → List Char
  | .name x => x.toList
  | .int _ n => Text.natDigits n
  | .float raw => floatLayout raw.toList
  | .text raw v => textLayout raw v
  | .bytes raw => raw.toList
  | .paren x => bracket true (write 0 s.enter x)
  | .signed m x =>
    let inside := if signStrength < outer then s.enter else s
    let sign := m.spelling.toList
    bracket (signStrength < outer) (sign ++ write suffixStrength (inside.after sign) x)
  | .binary op broken x y =>
    let strength := op.level + 1
    let inside := if strength < outer then s.enter else s
    let here := if broken then { inside with margin := inside.column } else inside
    let left := write strength here x ++ ' ' :: op.spelling.toList
    let front := left ++ if broken then here.breakLine else [' ']
    bracket (strength < outer) (front ++ write (strength + 1) (here.after front) y)
  | .call f oneLine args =>
    let front := write suffixStrength s f
    let inside := (s.after front).enter
    front ++ bracket true
      (if oneLine || args.length ≤ 1 then writeCompact inside args
      else writeTall { inside with margin := s.margin + indentation } args ++ s.newLine)
  | .named n broken x =>
    let here := if broken then { s with margin := s.column + indentation } else s
    let front := n.toList ++ ' ' :: '=' :: if broken then here.breakLine else [' ']
    front ++ write 0 (here.after front) x
  | .starred double x =>
    let star := if double then ['*', '*'] else ['*']
    star ++ write suffixStrength (s.after star) x
  | .dot x n => write suffixStrength s x ++ '.' :: n.toList
  | .index x i =>
    let front := write suffixStrength s x ++ ['[']
    front ++ write 0 (s.after front) i ++ [']']
  | .slice x lower upper _ =>
    let front := write suffixStrength s x ++ ['[']
    let middle := front ++ writeIn (s.after front) lower ++ [':']
    middle ++ writeIn (s.after middle) upper ++ [']']
  | .list tall items =>
    '[' :: (if !tall && items.length ≤ 1 then writeCompact s.enter items
      else writeTall { s.enter with margin := s.margin + indentation } items ++ s.newLine) ++ [']']
  | .dict entries =>
    '\x7b' :: (if entries.length ≤ 1 then writeCompact s.enter entries
      else writeTall { s.enter with margin := s.margin + indentation } entries ++ s.newLine) ++ ['\x7d']
  | .pair k v =>
    let front := write 0 s k ++ [':', ' ']
    front ++ write 0 (s.after front) v
  | .tuple bracketed _ items =>
    if bracketed then bracket true (writeCompact s.enter items)
    else writeCompact { s with depth := s.depth + 1 } items
  | .conditional x c y =>
    let front := write 0 s x ++ " if ".toList
    let middle := front ++ write 0 (s.after front) c ++ " else ".toList
    middle ++ write 0 (s.after middle) y
  | .comprehension curly body clauses =>
    let front := (if curly then '\x7b' else '[') :: write 0 s.enter body
    front ++ writeClauses ({ s with depth := s.depth + 1 }.after front) clauses ++
      [if curly then '\x7d' else ']']
  | .each vars domain =>
    let front := " for ".toList ++ write 0 (s.after " for ".toList) vars ++ " in ".toList
    front ++ write 0 (s.after front) domain
  | .filter c => " if ".toList ++ write 0 (s.after " if ".toList) c

/-- Write phrases on one line, with commas between them. -/
def writeCompact (s : Spot) : List Phrase → List Char
  | [] => []
  | [x] => write 0 s x
  | x :: rest =>
    let front := write 0 s x ++ [',', ' ']
    front ++ writeCompact (s.after front) rest

/-- Write phrases on a line each, with a comma behind each; none behind a last argument with stars. -/
def writeTall (s : Spot) : List Phrase → List Char
  | [] => []
  | x :: rest =>
    let item := s.newLine ++ write 0 (s.after s.newLine) x
    let comma := if rest.isEmpty && 1 < x.argumentRank then [] else [',']
    item ++ comma ++ writeTall s rest

/-- Write the clauses of a comprehension, one behind the other. -/
def writeClauses (s : Spot) : List Phrase → List Char
  | [] => []
  | x :: rest =>
    let front := write 0 s x
    front ++ writeClauses (s.after front) rest

/-- Write a phrase that may be absent. -/
def writeIn (s : Spot) : Option Phrase → List Char
  | none => []
  | some x => write 0 s x

end

/-- A phrase written out on its own. -/
def layout (x : Phrase) : Except LayoutFault String :=
  match x.fault? with
  | some f => .error f
  | none => .ok (String.ofList (Text.trim (write 0 ⟨0, 0, 0⟩ (arrange x))))

end Reckoner.Source
