/-
  Reading tokens as phrases.  The reader takes one token after the other.  Between two tokens it is a
  stack of what has been begun, innermost first, and a mode: what may come next.  Nothing is ever taken
  back, so a complaint always names the token at which the tokens so far stop making sense.

  When an operand is complete, suffixes bind first, then signs, then connectives by their level; after
  that the innermost open phrase decides.

  As with the scanner, the phrases and the wording of the complaints are those of a library whose code
  does not belong to the calculator; they are followed as they are described and as they answer.
-/
import Reckoner.Source.Phrase

namespace Reckoner.Source

/-- A phrase, and the lines on which it begins and ends. -/
structure Piece where
  phrase : Phrase
  first : Nat
  last : Nat

/-- A comprehension that has had its body and some clauses, the last of them first. -/
structure Clauses where
  line : Nat
  curly : Bool
  body : Phrase
  clauses : List Phrase

/-- A phrase that has been begun.  Lists of parts are kept with the last part first. -/
inductive Frame
  | sign (sign : Mark) (line : Nat)
  | left (x : Piece) (op : Connective)
  | group (line : Nat)
  /-- A tuple that has had a comma. -/
  | series (items : List Piece)
  | list (line : Nat) (items : List Phrase)
  /-- In a dictionary, before a colon. -/
  | key (line : Nat) (entries : List Phrase)
  /-- In a dictionary, behind a colon. -/
  | entry (line : Nat) (entries : List Phrase) (key : Phrase)
  | argument (f : Piece) (args : List Phrase)
  | named (f : Piece) (args : List Phrase) (name : String) (line : Nat)
  | starred (f : Piece) (args : List Phrase) (double : Bool)
  | index (x : Piece)
  | upper (x : Piece) (lower : Option Phrase)
  | stride (x : Piece) (lower upper : Option Phrase)
  /-- The right side of an assignment. -/
  | target
  /-- Behind `if`. -/
  | condition (x : Piece)
  /-- Behind `else`. -/
  | otherwise (x : Piece) (condition : Phrase)
  /-- Behind `for`. -/
  | binders (c : Clauses) (items : List Piece)
  /-- Behind the `in` of a clause. -/
  | domain (c : Clauses) (vars : Phrase)
  /-- Behind the `if` of a clause. -/
  | filter (c : Clauses)

/-- What may come next. -/
inductive Mode
  /-- A statement, or nothing more. -/
  | start
  /-- Behind a semicolon: a statement, or the end of the line. -/
  | resume
  | operand
  /-- Behind an opening bracket or a colon of a slice: an operand, or what ends the phrase already. -/
  | first
  /-- Behind a comma: an operand, or what ends the phrase. -/
  | next
  /-- Behind a point: a name. -/
  | member (x : Piece)
  /-- Behind `not`: the `in` that belongs to it. -/
  | negated (x : Piece)
  /-- An operand is there. -/
  | complete (x : Piece)

/-- What has been read: the statements so far, the last first, the open phrases and the mode. -/
structure Phrasing where
  statements : List Statement
  stack : List Frame
  mode : Mode

namespace Phrasing

/-- Nothing has been read. -/
def begin : Phrasing := ⟨[], [], .start⟩

/-- Go on with other open phrases and another mode. -/
def goto (s : Phrasing) (stack : List Frame) (mode : Mode) : Except PhraseFault Phrasing :=
  .ok { s with stack := stack, mode := mode }

/-- A statement is over. -/
def finish (s : Phrasing) (st : Statement) (mode : Mode) : Except PhraseFault Phrasing :=
  .ok ⟨st :: s.statements, [], mode⟩

/-- The complaint about a token. -/
def refuse (t : Placed) (wanted : String) : Except PhraseFault Phrasing :=
  .error (.unexpected t.token wanted)

/-- A mark as a complaint wants it. -/
def wantMark (t : Placed) (m : Mark) : Except PhraseFault Phrasing := refuse t (Token.mark m).called

/-! ## Putting phrases together -/

/-- A phrase of one token. -/
def leaf (x : Phrase) (t : Placed) : Piece := ⟨x, t.line, t.lastLine⟩

/-- Two operands and what stands between them. -/
def join (x : Piece) (op : Connective) (y : Piece) : Piece :=
  ⟨.binary op (x.last ≠ y.first) x.phrase y.phrase, x.first, y.last⟩

/-- The tuple of pieces that come last first. -/
def tupleOf (last : Piece) (before : List Piece) : Piece :=
  let first := (before.getLast?.getD last).first
  ⟨.tuple false (first = last.last) ((last :: before).reverse.map (·.phrase)), first, last.last⟩

/-- A call that ends with token `t`; the arguments come last first. -/
def callOf (f : Piece) (args : List Phrase) (t : Placed) : Piece :=
  ⟨.call f.phrase (f.first = t.line) args.reverse, f.first, t.line⟩

/-- A slice that ends with token `t`. -/
def sliceOf (x : Piece) (lower upper stride : Option Phrase) (t : Placed) : Piece :=
  ⟨.slice x.phrase lower upper stride, x.first, t.line⟩

/-- Signs in front of a piece, the innermost first. -/
def applySigns (x : Piece) : List Frame → Piece × List Frame
  | .sign m line :: rest => applySigns ⟨.signed m x.phrase, line, x.last⟩ rest
  | stack => (x, stack)

/-- Join a piece with the left operands that wait for it and whose connectives bind tighter than
    `level`. -/
def joinAbove (level : Nat) (y : Piece) : List Frame → Piece × List Frame
  | .left x op :: rest =>
    if level < op.level then joinAbove level (join x op y) rest else (y, .left x op :: rest)
  | stack => (y, stack)

/-- Join a piece with all left operands that wait for it. -/
def joinAll (y : Piece) : List Frame → Piece × List Frame
  | .left x op :: rest => joinAll (join x op y) rest
  | stack => (y, stack)

/-- End the conditionals whose last alternative is `y`. -/
def endConditionals (y : Piece) : List Frame → Piece × List Frame
  | .otherwise x c :: rest => endConditionals ⟨.conditional x.phrase c y.phrase, x.first, y.last⟩ rest
  | stack => (y, stack)

/-- Add a clause to a comprehension, and see what token `t` brings: another clause or the end. -/
def afterClause (s : Phrasing) (c : Clauses) (clause : Phrase) (rest : List Frame) (t : Placed) :
    Except PhraseFault Phrasing :=
  let c' : Clauses := { c with clauses := clause :: c.clauses }
  let closer : Mark := if c.curly then .closeBrace else .closeBracket
  if t.token = .word .each then s.goto (.binders c' [] :: rest) .operand
  else if t.token = .word .when then s.goto (.filter c' :: rest) .operand
  else if t.token = .mark closer then
    s.goto rest (.complete ⟨.comprehension c.curly c.body c'.clauses.reverse, c.line, t.line⟩)
  else refuse t ((Token.mark closer).called ++ ", for, or if")

/-! ## What a token brings -/

/-- An operand must begin. -/
def operand (s : Phrasing) (stack : List Frame) (t : Placed) : Except PhraseFault Phrasing :=
  match t.token with
  | .name x => s.goto stack (.complete (leaf (.name x) t))
  | .int raw n => s.goto stack (.complete (leaf (.int raw n) t))
  | .float raw => s.goto stack (.complete (leaf (.float raw) t))
  | .text raw v => s.goto stack (.complete (leaf (.text raw v) t))
  | .bytes raw => s.goto stack (.complete (leaf (.bytes raw) t))
  | .mark .openBracket => s.goto (.list t.line [] :: stack) .first
  | .mark .openBrace => s.goto (.key t.line [] :: stack) .first
  | .mark .openParen => s.goto (.group t.line :: stack) .first
  | .mark .minus => s.goto (.sign .minus t.line :: stack) .operand
  | .mark .plus => s.goto (.sign .plus t.line :: stack) .operand
  | .mark .tilde => s.goto (.sign .tilde t.line :: stack) .operand
  | _ => refuse t "primary expression"

/-- An argument must begin. -/
def argument (s : Phrasing) (f : Piece) (args : List Phrase) (rest : List Frame) (t : Placed) :
    Except PhraseFault Phrasing :=
  match t.token with
  | .mark .closeParen => s.goto rest (.complete (callOf f args t))
  | .mark .star => s.goto (.starred f args false :: rest) .operand
  | .mark .power => s.goto (.starred f args true :: rest) .operand
  | _ => s.operand (.argument f args :: rest) t

/-- What comes right behind an opening bracket or a colon of a slice. -/
def opening (s : Phrasing) (t : Placed) : Except PhraseFault Phrasing :=
  match s.stack, t.token with
  | .group line :: rest, .mark .closeParen =>
    s.goto rest (.complete ⟨.tuple true (line = t.line) [], line, t.line⟩)
  | .list line _ :: rest, .mark .closeBracket => s.goto rest (.complete ⟨.list false [], line, t.line⟩)
  | .key line _ :: rest, .mark .closeBrace => s.goto rest (.complete ⟨.dict [], line, t.line⟩)
  | .argument _ _ :: _, .eof => wantMark t .closeParen
  | .argument f args :: rest, _ => s.argument f args rest t
  | .index x :: rest, .mark .colon => s.goto (.upper x none :: rest) .first
  | .upper x lower :: rest, .mark .colon => s.goto (.stride x lower none :: rest) .first
  | .upper x lower :: rest, .mark .closeBracket =>
    s.goto rest (.complete (sliceOf x lower none none t))
  | .stride x lower upper :: rest, .mark .closeBracket =>
    s.goto rest (.complete (sliceOf x lower upper none t))
  | stack, _ => s.operand stack t

/-- The tokens that end a list of phrases behind a comma. -/
def endsList : Token → Bool
  | .eof => true
  | .newline => true
  | .mark .equals => true
  | .mark .closeBrace => true
  | .mark .closeBracket => true
  | .mark .closeParen => true
  | .mark .semicolon => true
  | _ => false

/-- Whether a token is the sign of an assignment. -/
def isAssignment : Token → Bool
  | .mark .equals => true
  | .mark (.update _) => true
  | _ => false

/-- Whether a comma behind a phrase makes a tuple of it, by what is open around it. -/
def takesSeries : List Frame → Bool
  | [] => true
  | .target :: _ => true
  | .group _ :: _ => true
  | .index _ :: _ => true
  | _ => false

/-- What may follow a statement. -/
def afterStatement (s : Phrasing) (st : Statement) (t : Placed) : Except PhraseFault Phrasing :=
  match t.token with
  | .mark .semicolon => s.finish st .resume
  | .newline => s.finish st .start
  | .eof => s.finish st .start
  | _ => refuse t "newline"

/-- What may follow an argument. -/
def afterArgument (s : Phrasing) (f : Piece) (args : List Phrase) (rest : List Frame) (t : Placed) :
    Except PhraseFault Phrasing :=
  match t.token with
  | .mark .comma => s.goto (.argument f args :: rest) .next
  | .mark .closeParen => s.goto rest (.complete (callOf f args t))
  | .eof => wantMark t .closeParen
  | _ => wantMark t .comma

/-- What may follow a whole phrase `x`, by what is open around it. -/
def close (s : Phrasing) (x : Piece) (stack : List Frame) (t : Placed) : Except PhraseFault Phrasing :=
  match stack with
  | [] =>
    if isAssignment t.token then s.goto [.target] .operand else s.afterStatement (.expression x.phrase) t
  | .target :: _ => s.afterStatement .assignment t
  | .group line :: rest =>
    if t.token = .mark .closeParen then s.goto rest (.complete ⟨.paren x.phrase, line, t.line⟩)
    else wantMark t .closeParen
  | .list line items :: rest =>
    match t.token with
    | .mark .closeBracket =>
      s.goto rest (.complete ⟨.list false (x.phrase :: items).reverse, line, t.line⟩)
    | .mark .comma => s.goto (.list line (x.phrase :: items) :: rest) .next
    | .word .each =>
      if items.isEmpty then s.goto (.binders ⟨line, false, x.phrase, []⟩ [] :: rest) .operand
      else wantMark t .closeBracket
    | _ => wantMark t .closeBracket
  | .key line entries :: rest =>
    if t.token = .mark .colon then s.goto (.entry line entries x.phrase :: rest) .operand
    else wantMark t .colon
  | .entry line entries key :: rest =>
    let entry := Phrase.pair key x.phrase
    match t.token with
    | .mark .closeBrace => s.goto rest (.complete ⟨.dict (entry :: entries).reverse, line, t.line⟩)
    | .mark .comma => s.goto (.key line (entry :: entries) :: rest) .next
    | .word .each =>
      if entries.isEmpty then s.goto (.binders ⟨line, true, entry, []⟩ [] :: rest) .operand
      else wantMark t .closeBrace
    | _ => wantMark t .closeBrace
  | .argument f args :: rest =>
    if t.token = .mark .equals then
      match x.phrase with
      | .name n => s.goto (.named f args n x.last :: rest) .operand
      | _ => .error .argumentName
    else s.afterArgument f (x.phrase :: args) rest t
  | .named f args n line :: rest => s.afterArgument f (.named n (line ≠ x.first) x.phrase :: args) rest t
  | .starred f args double :: rest => s.afterArgument f (.starred double x.phrase :: args) rest t
  | .index y :: rest =>
    match t.token with
    | .mark .closeBracket => s.goto rest (.complete ⟨.index y.phrase x.phrase, y.first, t.line⟩)
    | .mark .colon => s.goto (.upper y (some x.phrase) :: rest) .first
    | _ => wantMark t .closeBracket
  | .upper y lower :: rest =>
    match t.token with
    | .mark .closeBracket => s.goto rest (.complete (sliceOf y lower (some x.phrase) none t))
    | .mark .colon => s.goto (.stride y lower (some x.phrase) :: rest) .first
    | _ => wantMark t .closeBracket
  | .stride y lower upper :: rest =>
    if t.token = .mark .closeBracket then
      s.goto rest (.complete (sliceOf y lower upper (some x.phrase) t))
    else wantMark t .closeBracket
  | _ => refuse t "newline"

/-- What may follow a phrase that no conditional takes in: a comma makes a tuple of it where it may. -/
def closeSeries (s : Phrasing) (x : Piece) (stack : List Frame) (t : Placed) :
    Except PhraseFault Phrasing :=
  match stack with
  | .series items :: rest =>
    if t.token = .mark .comma then s.goto (.series (x :: items) :: rest) .next
    else s.close (tupleOf x items) rest t
  | _ =>
    if t.token = .mark .comma && takesSeries stack then s.goto (.series [x] :: stack) .next
    else s.close x stack t

/-- What may follow a phrase that no connective takes in. -/
def closeOperation (s : Phrasing) (x : Piece) (stack : List Frame) (t : Placed) :
    Except PhraseFault Phrasing :=
  match stack with
  | .condition y :: rest =>
    if t.token = .word .otherwise then s.goto (.otherwise y x.phrase :: rest) .operand else .error .noElse
  | .domain c vars :: rest => s.afterClause c (.each vars x.phrase) rest t
  | .filter c :: rest => s.afterClause c (.filter x.phrase) rest t
  | _ =>
    if t.token = .word .when then s.goto (.condition x :: stack) .operand
    else
      let whole := endConditionals x stack
      s.closeSeries whole.1 whole.2 t

/-- A connective follows an operand. -/
def connect (s : Phrasing) (x : Piece) (op : Connective) (stack : List Frame) :
    Except PhraseFault Phrasing :=
  let joined := joinAbove op.level x stack
  match joined.2 with
  | .left y op' :: rest =>
    -- what is left on top binds as tightly as `op` or less: equals go to the left
    if op'.level = op.level then
      if op.isComparison then .error (.chain op' op)
      else s.goto (.left (join y op' joined.1) op :: rest) .operand
    else s.goto (.left joined.1 op :: joined.2) .operand
  | stack' => s.goto (.left joined.1 op :: stack') .operand

/-- An operand with its suffixes and signs is there; `stack` has no sign on top. -/
def afterOperand (s : Phrasing) (x : Piece) (stack : List Frame) (t : Placed) :
    Except PhraseFault Phrasing :=
  match stack with
  | .binders c items :: rest =>
    if t.token = .mark .comma then s.goto (.binders c (x :: items) :: rest) .next
    else if t.token = .word .within then
      let vars := if items.isEmpty then x.phrase else (tupleOf x items).phrase
      s.goto (.domain c vars :: rest) .operand
    else refuse t "in"
  | _ =>
    if t.token = .word .negation then s.goto stack (.negated x)
    else match Connective.ofToken? t.token with
      | some op => s.connect x op stack
      | none =>
        let joined := joinAll x stack
        s.closeOperation joined.1 joined.2 t

/-- What comes behind a comma. -/
def afterComma (s : Phrasing) (t : Placed) : Except PhraseFault Phrasing :=
  match s.stack with
  | .series (x :: items) :: rest =>
    if endsList t.token then
      match rest with
      | .group _ :: _ => s.close (tupleOf x items) rest t
      | _ => .error .trailingComma
    else s.operand s.stack t
  | .list line items :: rest =>
    if t.token = .mark .closeBracket then
      s.goto rest (.complete ⟨.list false items.reverse, line, t.line⟩)
    else if endsList t.token then wantMark t .closeBracket
    else s.operand s.stack t
  | .key line entries :: rest =>
    if t.token = .mark .closeBrace then s.goto rest (.complete ⟨.dict entries.reverse, line, t.line⟩)
    else s.operand s.stack t
  | .argument f args :: rest => s.argument f args rest t
  | .binders _ _ :: _ => if endsList t.token then refuse t "in" else s.operand s.stack t
  | stack => s.operand stack t

/-- Take one token. -/
def take (s : Phrasing) (t : Placed) : Except PhraseFault Phrasing :=
  match s.mode with
  | .start => if t.token = .newline || t.token = .eof then .ok s else s.operand s.stack t
  | .resume => if t.token = .newline || t.token = .eof then s.goto s.stack .start else s.operand s.stack t
  | .operand => s.operand s.stack t
  | .first => s.opening t
  | .next => s.afterComma t
  | .member x =>
    match t.token with
    | .name n => s.goto s.stack (.complete ⟨.dot x.phrase n, x.first, t.lastLine⟩)
    | _ => .error .notIdentifier
  | .negated x => if t.token = .word .within then s.connect x .notInside s.stack else refuse t "in"
  | .complete x =>
    match t.token with
    | .mark .dot => s.goto s.stack (.member x)
    | .mark .openBracket => s.goto (.index x :: s.stack) .first
    | .mark .openParen => s.goto (.argument x [] :: s.stack) .first
    | _ =>
      let whole := applySigns x s.stack
      s.afterOperand whole.1 whole.2 t

end Phrasing

/-- The statements that a sequence of tokens says; the end of everything is the last of them. -/
def readPhrases (ts : List Placed) : Except PhraseFault (List Statement) :=
  (ts.foldlM Phrasing.take Phrasing.begin).map fun s => s.statements.reverse

end Reckoner.Source
