/-
  Cutting a text into tokens.  Blanks separate tokens; a line end is a token only outside brackets and
  only after something on its line; a backslash joins a line to the next.  A line that begins with a
  blank outside brackets is announced by the token `indent`, which no expression can begin with.  A null
  character ends the text, as its end does.

  The scanner never looks at what the tokens mean, so its whole answer is the list of tokens up to the
  end or up to the first fault.  A reader of the tokens comes upon the fault only when it has taken the
  last token before it.

  The calculator has its scanner from a library for another notation, whose code does not belong to it.
  The rules below are that scanner's, as it is described and as it answers.
-/
import Reckoner.Source.Numeral
import Reckoner.Text.Letter

namespace Reckoner.Source

/-- Every line end as a line feed: a carriage return is one, alone or before a line feed. -/
def unifyLineEnds : List Char → List Char
  | [] => []
  | '\r' :: '\n' :: r => '\n' :: unifyLineEnds r
  | '\r' :: r => '\n' :: unifyLineEnds r
  | c :: r => c :: unifyLineEnds r

/-! ## Texts -/

/-- Put characters in front of what has been taken from a text. -/
def takeAlso (front : List Char) (o : Except LexicalFault (List Char × List Char)) :
    Except LexicalFault (List Char × List Char) :=
  o.map fun p => (front ++ p.1, p.2)

/-- The rest of a text on one line, up to and with its closing quote, and what follows.  A backslash takes
    the next character along. -/
def shortText (quote : Char) : List Char → Except LexicalFault (List Char × List Char)
  | [] => .error .textEnd
  | [c] => if c = quote then .ok ([c], []) else if c = '\n' then .error .textLineEnd else .error .textEnd
  | c :: d :: r =>
    if c = quote then .ok ([c], d :: r)
    else if c = '\n' then .error .textLineEnd
    else if c = '\x5c' then takeAlso [c, d] (shortText quote r)
    else takeAlso [c] (shortText quote (d :: r))

/-- The rest of a text between three quotes, up to and with the last of them, and what follows.  `count`
    quotes stand directly before `cs`. -/
def longText (quote : Char) (count : Nat) : List Char → Except LexicalFault (List Char × List Char)
  | [] => .error .textEnd
  | [c] => if c = quote && count = 2 then .ok ([c], []) else .error .textEnd
  | c :: d :: r =>
    if c = quote then
      if count = 2 then .ok ([c], d :: r)
      else takeAlso [c] (longText quote (count + 1) (d :: r))
    else if c = '\x5c' then takeAlso [c, d] (longText quote 0 r)
    else takeAlso [c] (longText quote 0 (d :: r))

/-- The token of a text: `opening` stands before its opening quotes, `quotes` of them on each side, and
    `body` goes from the opening quotes to the last closing one. -/
def textToken (opening : List Char) (quotes : Nat) (quote : Char) (body : List Char) :
    Except LexicalFault Token :=
  let raw := String.ofList (opening ++ List.replicate quotes quote ++ body)
  let asBytes := opening.contains 'b'
  let inside := body.take (body.length - quotes)
  match (if opening.contains 'r' then .ok inside else decodeText asBytes inside) with
  | .error f => .error (.escape f)
  | .ok value => .ok (if asBytes then .bytes raw else .text raw (String.ofList value))

/-- The text whose opening quote stands directly before `cs`. -/
def readText (opening : List Char) (quote : Char) (cs : List Char) :
    Except LexicalFault (Token × List Char) :=
  let finish (quotes : Nat) : Except LexicalFault (List Char × List Char) → _
    | .error f => .error f
    | .ok (body, rest) => (textToken opening quotes quote body).map fun t => (t, rest)
  match cs with
  | a :: b :: r =>
    if a = quote && b = quote then finish 3 (longText quote 0 r) else finish 1 (shortText quote cs)
  | _ => finish 1 (shortText quote cs)

/-! ## Single tokens -/

/-- Where an identifier can begin. -/
def isIdentifierStart (c : Char) : Bool := c = '_' || Text.isLetter c

/-- What an identifier goes on with. -/
def isIdentifierChar (c : Char) : Bool := c.isDigit || isIdentifierStart c

/-- Whether a character is a quote. -/
def isQuote (c : Char) : Bool := c = '\x27' || c = '\x22'

/-- The mark that begins with `c` and goes on in `cs`: the longest there is. -/
def mark? (c : Char) (cs : List Char) : Option (Mark × List Char) :=
  match c, cs with
  | ',', r => some (.comma, r)
  | '=', '=' :: r => some (.same, r)
  | '=', r => some (.equals, r)
  | '<', '=' :: r => some (.atMost, r)
  | '<', '<' :: '=' :: r => some (.update "<<", r)
  | '<', '<' :: r => some (.shiftLeft, r)
  | '<', r => some (.less, r)
  | '>', '=' :: r => some (.atLeast, r)
  | '>', '>' :: '=' :: r => some (.update ">>", r)
  | '>', '>' :: r => some (.shiftRight, r)
  | '>', r => some (.greater, r)
  | '!', '=' :: r => some (.differs, r)
  | '+', '=' :: r => some (.update "+", r)
  | '+', r => some (.plus, r)
  | '-', '=' :: r => some (.update "-", r)
  | '-', r => some (.minus, r)
  | '%', '=' :: r => some (.update "%", r)
  | '%', r => some (.percent, r)
  | '/', '=' :: r => some (.update "/", r)
  | '/', '/' :: '=' :: r => some (.update "//", r)
  | '/', '/' :: r => some (.floor, r)
  | '/', r => some (.slash, r)
  | '&', '=' :: r => some (.update "&", r)
  | '&', r => some (.ampersand, r)
  | '|', '=' :: r => some (.update "|", r)
  | '|', r => some (.bar, r)
  | '^', '=' :: r => some (.update "^", r)
  | '^', r => some (.caret, r)
  | '*', '*' :: r => some (.power, r)
  | '*', '=' :: r => some (.update "*", r)
  | '*', r => some (.star, r)
  | ':', r => some (.colon, r)
  | ';', r => some (.semicolon, r)
  | '~', r => some (.tilde, r)
  | '.', r => some (.dot, r)
  | '(', r => some (.openParen, r)
  | ')', r => some (.closeParen, r)
  | '[', r => some (.openBracket, r)
  | ']', r => some (.closeBracket, r)
  | '\x7b', r => some (.openBrace, r)
  | '\x7d', r => some (.closeBrace, r)
  | _, _ => none

/-- The identifier or reserved word that begins with `c`. -/
def identifier (c : Char) (cs : List Char) : Token × List Char :=
  let s := String.ofList (c :: cs.takeWhile isIdentifierChar)
  let t := match Keyword.ofSpelling? s with
    | some k => Token.word k
    | none => .name s
  (t, cs.dropWhile isIdentifierChar)

/-- The token that begins with `c` and goes on in `cs`, and the rest. -/
def lexeme (c : Char) (cs : List Char) : Except LexicalFault (Token × List Char) :=
  if isQuote c then readText [] c cs
  else if isIdentifierStart c then
    match cs with
    | q :: r =>
      if (c = 'r' || c = 'b') && isQuote q then readText [c] q r
      else match r with
        | q' :: r' =>
          if c = 'r' && q = 'b' && isQuote q' then readText ['r', 'b'] q' r'
          else .ok (identifier c cs)
        | [] => .ok (identifier c cs)
    | [] => .ok (identifier c cs)
  else if c.isDigit then numeral c cs
  else if c = '.' && startsDigit cs then pointNumeral cs
  else match mark? c cs with
    | some (m, r) => .ok (.mark m, r)
    | none => .error (.character c)

/-! ## Every token shortens the text -/

theorem exists_of_takeAlso {front raw rest : List Char} {o : Except LexicalFault (List Char × List Char)}
    (h : takeAlso front o = .ok (raw, rest)) : ∃ raw', o = .ok (raw', rest) := by
  cases o with
  | error f => simp [takeAlso, Except.map] at h
  | ok p =>
    simp only [takeAlso, Except.map, Except.ok.injEq, Prod.mk.injEq] at h
    exact ⟨p.1, by rw [← h.2]⟩

theorem length_shortText_lt {quote : Char} {cs raw rest : List Char}
    (h : shortText quote cs = .ok (raw, rest)) : rest.length < cs.length := by
  fun_induction shortText quote cs generalizing raw rest <;> grind [exists_of_takeAlso]

theorem length_longText_lt {quote : Char} {count : Nat} {cs raw rest : List Char}
    (h : longText quote count cs = .ok (raw, rest)) : rest.length < cs.length := by
  fun_induction longText quote count cs generalizing raw rest <;> grind [exists_of_takeAlso]

theorem length_readText_lt {opening : List Char} {quote : Char} {cs rest : List Char} {t : Token}
    (h : readText opening quote cs = .ok (t, rest)) : rest.length < cs.length := by
  unfold readText at h
  simp only at h
  have key : ∀ {quotes : Nat} {o : Except LexicalFault (List Char × List Char)},
      (match o with
        | .error f => .error f
        | .ok (body, rest) => (textToken opening quotes quote body).map fun t => (t, rest)) =
        Except.ok (t, rest) →
      ∃ body, o = .ok (body, rest) := by
    intro quotes o ho
    split at ho
    · simp at ho
    · rename_i body rest'
      cases htok : textToken opening quotes quote body with
      | error f => simp [htok, Except.map] at ho
      | ok u =>
        simp only [htok, Except.map, Except.ok.injEq, Prod.mk.injEq] at ho
        exact ⟨body, by rw [ho.2]⟩
  split at h
  · split at h
    · obtain ⟨body, hb⟩ := key h
      have := length_longText_lt hb
      simp; omega
    · obtain ⟨body, hb⟩ := key h
      exact length_shortText_lt hb
  · obtain ⟨body, hb⟩ := key h
    exact length_shortText_lt hb

theorem length_mark?_le {c : Char} {cs rest : List Char} {m : Mark} (h : mark? c cs = some (m, rest)) :
    rest.length ≤ cs.length := by
  unfold mark? at h
  split at h <;> simp only [Option.some.injEq, Prod.mk.injEq, reduceCtorEq] at h <;>
    (have hr := congrArg List.length h.2; try simp only [List.length_cons]) <;> omega

theorem length_lexeme_le {c : Char} {cs rest : List Char} {t : Token}
    (h : lexeme c cs = .ok (t, rest)) : rest.length ≤ cs.length := by
  have hident : ∀ {u : Token} {r : List Char}, Except.ok (identifier c cs) =
      (Except.ok (u, r) : Except LexicalFault _) → r.length ≤ cs.length := by
    intro u r hi
    simp only [identifier, Except.ok.injEq, Prod.mk.injEq] at hi
    rw [← hi.2]; exact length_dropWhile_le _ _
  unfold lexeme at h
  split at h
  · exact Nat.le_of_lt (length_readText_lt h)
  · split at h
    · split at h
      · split at h
        · have := length_readText_lt h
          simp; omega
        · split at h
          · split at h
            · have := length_readText_lt h
              simp; omega
            · exact hident h
          · exact hident h
      · exact hident h
    · split at h
      · exact length_numeral_le h
      · split at h
        · exact length_pointNumeral_le h
        · split at h
          · rename_i hm
            simp only [Except.ok.injEq, Prod.mk.injEq] at h
            rw [← h.2]; exact length_mark?_le hm
          · simp at h

/-! ## The whole text -/

/-- The tokens of a text, up to its end or up to a fault. -/
structure Scan where
  tokens : List Placed
  fault : Option LexicalFault
  deriving DecidableEq, Repr

/-- Put a token in front. -/
def Scan.push (t : Placed) (s : Scan) : Scan := { s with tokens := t :: s.tokens }

/-- Whether something stands on the line that begins with `cs`, behind its blanks. -/
def hasContent (cs : List Char) : Bool :=
  match cs.dropWhile fun c => c = ' ' || c = '\t' with
  | [] => false
  | c :: _ => c ≠ '\n' && c.toNat ≠ 0

/-- The bracket depth behind a token; `none` if it closes what nothing opened. -/
def depthAfter? (depth : Nat) : Token → Option Nat
  | .mark .openParen => some (depth + 1)
  | .mark .openBracket => some (depth + 1)
  | .mark .openBrace => some (depth + 1)
  | .mark .closeParen => if depth = 0 then none else some (depth - 1)
  | .mark .closeBracket => if depth = 0 then none else some (depth - 1)
  | .mark .closeBrace => if depth = 0 then none else some (depth - 1)
  | _ => some depth

/-- Scan `cs` at a bracket depth.  `fresh` says that nothing stands before it on its line, which has the
    number `line`. -/
def scanFrom (depth : Nat) (fresh : Bool) (line : Nat) (cs : List Char) : Scan :=
  match cs with
  | [] => ⟨[], none⟩
  | c :: r =>
    if c.toNat = 0 then ⟨[], none⟩
    else if c = ' ' || c = '\t' then
      -- only the first blank of a line announces it: behind it the line is no longer fresh
      if fresh && depth = 0 && hasContent r then (scanFrom depth false line r).push ⟨.indent, line⟩
      else scanFrom depth fresh line r
    else if c = '\n' then
      -- blank lines and lines inside brackets end without a token
      if fresh || 0 < depth then scanFrom depth true (line + 1) r
      else (scanFrom depth true (line + 1) r).push ⟨.newline, line⟩
    else if c = '\x5c' then
      match r with
      | [] => ⟨[], some .strayBackslash⟩
      | d :: r' => if d = '\n' then scanFrom depth false (line + 1) r' else ⟨[], some .strayBackslash⟩
    else match _h : lexeme c r with
      | .error f => ⟨[], some f⟩
      | .ok (t, rest) =>
        match depthAfter? depth t with
        | none => ⟨[], some (.unopened c)⟩
        | some depth' => (scanFrom depth' false (line + t.lineEnds) rest).push ⟨t, line⟩
termination_by cs.length
decreasing_by
  · simp
  · simp
  · simp
  · simp
  · simp only [List.length_cons]; omega
  · exact Nat.lt_succ_of_le (length_lexeme_le _h)

/-- The tokens of a text. -/
def scan (cs : List Char) : Scan := scanFrom 0 true 1 (unifyLineEnds cs)

end Reckoner.Source
