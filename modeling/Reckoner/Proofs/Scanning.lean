/-
  The tokens of a sentence.  `Scans` says what the scanner takes from the front of a text: some lexemes,
  and the rest; two such judgements compose.  A prepared sentence is scanned as the lexemes of its
  parts, one after the other (`scans_write`).

  One thing can go wrong.  The scanner takes a decimal for a floating-point number and refuses it if no
  double is as large, although all its digits are kept.  So a lexeme carries a note whether it passes:
  at the first one that does not, the scan ends with a fault (`foldr_onto`).
-/
import Reckoner.Proofs.Preparation
import Reckoner.Source.Scanning

namespace Reckoner.Source

/-! ## Lexemes

  A scan stops at its first fault, so what is scanned behind a lexeme counts only if the lexeme passes.
  Therefore `Scans` is stated with a fold: the lexemes are put, one by one, in front of whatever the
  rest gives.  No token of a sentence holds a line end, so all of them are on one line. -/

/-- A token, and whether the scanner lets it pass. -/
structure Lexeme where
  token : Token
  fits : Bool

/-- Put a lexeme in front of what is scanned behind it. -/
def Lexeme.onto (line : Nat) (l : Lexeme) (s : Scan) : Scan :=
  if l.fits then s.push ⟨l.token, line⟩ else ⟨[], some .floatLiteral⟩

/-- The tokens of some lexemes, on a line. -/
def placed (line : Nat) (ls : List Lexeme) : List Placed := ls.map fun l => ⟨l.token, line⟩

/-- Lexemes that all pass are scanned as their tokens; otherwise the scan ends among them. -/
theorem foldr_onto (line : Nat) (ls : List Lexeme) (s : Scan) :
    (ls.all (·.fits) = true → ls.foldr (Lexeme.onto line) s = ⟨placed line ls ++ s.tokens, s.fault⟩) ∧
      (ls.all (·.fits) = false → ∃ ts, ts <+: placed line ls ∧
        ls.foldr (Lexeme.onto line) s = ⟨ts, some .floatLiteral⟩) := by
  induction ls with
  | nil => exact ⟨fun _ => rfl, fun h => nomatch h⟩
  | cons l ls ih =>
    obtain ⟨hall, hsome⟩ := ih
    rw [List.foldr_cons, List.all_cons]
    cases hl : l.fits with
    | true =>
      -- the lexeme passes, and what is behind it decides
      simp only [Lexeme.onto, hl, if_true, Bool.true_and]
      constructor
      · intro h
        rw [hall h]
        rfl
      · intro h
        obtain ⟨ts, hts, hs⟩ := hsome h
        exact ⟨⟨l.token, line⟩ :: ts, List.cons_prefix_cons.2 ⟨rfl, hts⟩, by rw [hs]; rfl⟩
    | false =>
      -- the scan ends here, whatever is behind it
      refine ⟨fun h => ?_, fun _ => ⟨[], List.nil_prefix, ?_⟩⟩
      · cases h
      · simp [Lexeme.onto, hl]

/-- `Scans depth cs ls depth' rest` — at a bracket depth, what is scanned of `cs` are the lexemes `ls`,
    and then `rest` at the depth `depth'`. -/
def Scans (depth : Nat) (cs : List Char) (ls : List Lexeme) (depth' : Nat) (rest : List Char) : Prop :=
  ∀ line, scanFrom depth false line cs = ls.foldr (Lexeme.onto line) (scanFrom depth' false line rest)

namespace Scans

/-- What is scanned of a text, and then of its rest, is scanned of the text. -/
theorem trans {d₁ d₂ d₃ : Nat} {cs₁ cs₂ cs₃ : List Char} {ls₁ ls₂ : List Lexeme}
    (h₁ : Scans d₁ cs₁ ls₁ d₂ cs₂) (h₂ : Scans d₂ cs₂ ls₂ d₃ cs₃) : Scans d₁ cs₁ (ls₁ ++ ls₂) d₃ cs₃ := by
  intro line
  rw [h₁ line, h₂ line, List.foldr_append]

/-- Spaces and tabs are passed over. -/
theorem gap (depth : Nat) {g : List Char} (hg : Spaced g) (r : List Char) :
    Scans depth (g ++ r) [] depth r := by
  intro line
  induction g with
  | nil => rfl
  | cons c g ih =>
    rw [List.cons_append, scanFrom.eq_def]
    rcases hg c List.mem_cons_self with rfl | rfl
    · simpa using ih (spaced_of_cons hg)
    · simpa using ih (spaced_of_cons hg)

end Scans

/-- The characters that begin a token on a line. -/
def beginsToken (c : Char) : Bool := c.toNat ≠ 0 && c ∉ [' ', '\t', '\n', '\x5c']

/-- Word characters begin a token. -/
theorem beginsToken_of_isWordChar {c : Char} (h : isWordChar c = true) : beginsToken c = true :=
  of_isWordChar (by decide) h

/-- One step of the scan: the outcome of `lexeme` decides. -/
theorem scanFrom_cons {depth line : Nat} {fresh : Bool} {c : Char} {r : List Char}
    (hc : beginsToken c = true) :
    scanFrom depth fresh line (c :: r) =
      match lexeme c r with
      | .error f => ⟨[], some f⟩
      | .ok (t, rest) =>
        match depthAfter? depth t with
        | none => ⟨[], some (.unopened c)⟩
        | some depth' => (scanFrom depth' false (line + t.lineEnds) rest).push ⟨t, line⟩ := by
  have hc : c.toNat ≠ 0 ∧ c ≠ ' ' ∧ c ≠ '\t' ∧ c ≠ '\n' ∧ c ≠ '\x5c' := by
    simpa [beginsToken] using hc
  obtain ⟨h0, h1, h2, h3, h4⟩ := hc
  rw [scanFrom.eq_def]
  simp only [h0, h1, h2, h3, h4, decide_false, Bool.or_self, Bool.false_eq_true, if_false]
  split
  · rename_i hl
    rewrite [hl]
    rfl
  · rename_i hl
    rewrite [hl]
    rfl

/-- A token that passes. -/
theorem scans_token {depth depth' : Nat} {c : Char} {r rest : List Char} {t : Token}
    (hc : beginsToken c = true) (h : lexeme c r = .ok (t, rest))
    (hdepth : depthAfter? depth t = some depth') (hline : t.lineEnds = 0) :
    Scans depth (c :: r) [⟨t, true⟩] depth' rest := by
  intro line
  rw [scanFrom_cons hc, h]
  simp only [hdepth, hline]
  rfl

/-- A token that does not. -/
theorem scans_fault {depth : Nat} {c : Char} {r : List Char} (hc : beginsToken c = true)
    (h : lexeme c r = .error .floatLiteral) (t : Token) (rest : List Char) :
    Scans depth (c :: r) [⟨t, false⟩] depth rest := by
  intro line
  rw [scanFrom_cons hc, h]
  rfl

/-! ## Marks

  A mark is scanned as it stands unless the next character makes a longer one of it.  Behind a mark of a
  sentence stands a gap, a bracket, a sign or a word, none of which does. -/

/-- The characters that lengthen one of the marks of a sentence to another mark. -/
def lengthens (c : Char) : Bool := c ∈ ['=', '*', '/']

/-- No mark goes on with a word character. -/
theorem not_lengthens_of_isWordChar {c : Char} (h : isWordChar c = true) : lengthens c = false := by
  simpa using of_isWordChar (p := fun c => !lengthens c) (by decide) h

def Sign.mark : Sign → Mark
  | plus => .plus
  | minus => .minus

def Operation.mark {outer inner : Level} : Operation outer inner → Mark
  | plus => .plus
  | minus => .minus
  | times => .star
  | slash => .slash

/-- The mark of an operation is found, if what follows does not lengthen it. -/
theorem mark?_operation {outer inner : Level} (op : Operation outer inner) {r : List Char}
    (hr : ∀ c ∈ r.head?, lengthens c = false) : mark? op.char r = some (op.mark, r) := by
  cases r with
  | nil => cases op <;> rfl
  | cons c r =>
    -- the longer marks are those with one of three characters behind
    have hc : c ≠ '=' ∧ c ≠ '*' ∧ c ≠ '/' := by simpa [lengthens] using hr c rfl
    obtain ⟨h1, h2, h3⟩ := hc
    cases op <;> simp [mark?, Operation.char, Operation.mark, h1, h2, h3]

/-- The characters that only a mark begins with. -/
def beginsMark (c : Char) : Bool :=
  !isQuote c && !isIdentifierStart c && !c.isDigit && c ≠ '.' && beginsToken c

/-- A mark that begins as no other token does is scanned, with the depth that it leaves. -/
theorem scans_mark {depth depth' : Nat} {c : Char} {r rest : List Char} {m : Mark}
    (hc : beginsMark c = true) (h : mark? c r = some (m, rest))
    (hdepth : depthAfter? depth (.mark m) = some depth') :
    Scans depth (c :: r) [⟨.mark m, true⟩] depth' rest := by
  have hc : (((isQuote c = false ∧ isIdentifierStart c = false) ∧ c.isDigit = false) ∧ c ≠ '.') ∧
      beginsToken c = true := by
    simpa [beginsMark] using hc
  obtain ⟨⟨⟨⟨h1, h2⟩, h3⟩, h4⟩, h5⟩ := hc
  refine scans_token h5 ?_ hdepth rfl
  simp [lexeme, h1, h2, h3, h4, h]

/-- An operation is scanned as its mark. -/
theorem scans_operation {outer inner : Level} (op : Operation outer inner) (depth : Nat) {r : List Char}
    (hr : ∀ c ∈ r.head?, lengthens c = false) :
    Scans depth (op.char :: r) [⟨.mark op.mark, true⟩] depth r := by
  refine scans_mark ?_ (mark?_operation op hr) ?_
  · cases op <;> decide
  · cases op <;> rfl

/-- So is a sign, by the same characters. -/
theorem scans_sign (sign : Sign) (depth : Nat) {r : List Char} (hr : ∀ c ∈ r.head?, lengthens c = false) :
    Scans depth (sign.char :: r) [⟨.mark sign.mark, true⟩] depth r := by
  cases sign with
  | plus => exact scans_operation .plus depth hr
  | minus => exact scans_operation .minus depth hr

/-- Brackets are counted. -/
theorem scans_open (depth : Nat) (r : List Char) :
    Scans depth ('(' :: r) [⟨.mark .openParen, true⟩] (depth + 1) r :=
  scans_mark (by decide) rfl rfl

theorem scans_close (depth : Nat) (r : List Char) :
    Scans (depth + 1) (')' :: r) [⟨.mark .closeParen, true⟩] depth r :=
  scans_mark (by decide) rfl rfl

theorem scans_comma (depth : Nat) (r : List Char) :
    Scans depth (',' :: r) [⟨.mark .comma, true⟩] depth r :=
  scans_mark (by decide) rfl rfl

/-! ## Words

  An identifier may be the prefix of a text if a quote follows; behind a word of a sentence no quote
  stands, and in it there is none. -/

/-- The scanner has more characters for identifiers than the calculator has for words. -/
theorem isIdentifierChar_of_isWordChar {c : Char} (h : isWordChar c = true) : isIdentifierChar c = true :=
  of_isWordChar (by decide) h

/-- The word characters begin an identifier or a numeral. -/
theorem isIdentifierStart_of_isWordChar {c : Char} (hc : isWordChar c = true)
    (hdigit : c.isDigit = false) :
    isIdentifierStart c = true := by
  have h := isIdentifierChar_of_isWordChar hc
  rwa [isIdentifierChar, hdigit, Bool.false_or] at h

/-- No identifier begins with a digit. -/
theorem not_isIdentifierStart_of_isDigit {c : Char} (hc : c.isDigit = true) :
    isIdentifierStart c = false := by
  have h := of_isWordChar (p := fun c => !c.isDigit || !isIdentifierStart c) (by decide)
    (isWordChar_of_isDigit hc)
  simpa [hc] using h

/-- No quote is part of an identifier. -/
theorem not_isQuote_of_isIdentifierChar {c : Char} (h : isIdentifierChar c = true) :
    isQuote c = false := by
  cases hq : isQuote c with
  | false => rfl
  | true =>
    have hq : c = '\x27' ∨ c = '\x22' := by simpa [isQuote] using hq
    rcases hq with rfl | rfl <;> exact absurd h (by decide)

/-- What begins like an identifier is one: no quote follows that would make a text of it. -/
theorem lexeme_identifier {c : Char} {cs r : List Char} (hc : isIdentifierStart c = true)
    (hcs : ∀ d ∈ cs, isIdentifierChar d = true)
    (hr : ∀ d ∈ r.head?, isIdentifierChar d = false ∧ isQuote d = false) :
    lexeme c (cs ++ r) = .ok (identifier c (cs ++ r)) := by
  have hquote : isQuote c = false := not_isQuote_of_isIdentifierChar (by simp [isIdentifierChar, hc])
  -- no quote stands in the identifier or behind it
  have hhead : ∀ {l : List Char}, (∀ d ∈ l, isIdentifierChar d = true) →
      ∀ d ∈ (l ++ r).head?, isQuote d = false := by
    intro l hl d hd
    cases l with
    | nil => exact (hr d hd).2
    | cons e l =>
      cases hd
      exact not_isQuote_of_isIdentifierChar (hl d List.mem_cons_self)
  unfold lexeme
  rw [if_neg (by simp [hquote]), if_pos hc]
  -- a prefix of a text has one letter or two, so the cases are of the first two characters behind
  cases cs with
  | nil =>
    cases r with
    | nil => rfl
    | cons q r =>
      obtain ⟨hq, hq'⟩ := hr q rfl
      have hb : q ≠ 'b' := by
        rintro rfl
        exact absurd hq (by decide)
      simp only [List.nil_append, hq', Bool.and_false, Bool.false_eq_true, if_false, hb, decide_false,
        Bool.false_and]
      cases r <;> rfl
  | cons q cs =>
    have hq := hhead hcs q rfl
    have hnext := hhead fun d hd => hcs d (List.mem_cons_of_mem q hd)
    simp only [List.cons_append, hq, Bool.and_false, Bool.false_eq_true, if_false]
    cases h : cs ++ r with
    | nil => rfl
    | cons q' t =>
      have hq' : isQuote q' = false := hnext q' (by rw [h]; rfl)
      simp only [hq', Bool.and_false, Bool.false_eq_true, if_false]

/-- A word that begins with no digit and is not reserved is scanned as a name. -/
theorem scans_word {w r : List Char} {depth : Nat} (hw : ∀ c ∈ w, isWordChar c = true) (hne : w ≠ [])
    (hhead : ∀ c ∈ w.head?, c.isDigit = false) (hkey : Keyword.ofSpelling? (String.ofList w) = none)
    (hr : ∀ c ∈ r.head?, isIdentifierChar c = false ∧ isQuote c = false) :
    Scans depth (w ++ r) [⟨.name (String.ofList w), true⟩] depth r := by
  cases w with
  | nil => exact absurd rfl hne
  | cons c cs =>
    have hcw := hw c List.mem_cons_self
    have hcs : ∀ d ∈ cs, isIdentifierChar d = true := fun d hd =>
      isIdentifierChar_of_isWordChar (hw d (List.mem_cons_of_mem c hd))
    have hstart : isIdentifierStart c = true := isIdentifierStart_of_isWordChar hcw (hhead c rfl)
    have hstop : ∀ d ∈ r.head?, isIdentifierChar d = false := fun d hd => (hr d hd).1
    rw [List.cons_append]
    refine scans_token (beginsToken_of_isWordChar hcw) ?_ rfl rfl
    rw [lexeme_identifier hstart hcs hr, identifier, takeWhile_run hcs hstop,
      dropWhile_run hcs hstop, hkey]

/-! ## Numerals

  Numerals have lost their leading zeros, so none is taken for octal.  Behind them no word goes on, so
  there is no exponent and no letter of another base. -/

/-- The limit lies between two powers of ten, which is what the number of digits tells. -/
theorem ten_pow_le_doubleLimit : 10 ^ 307 ≤ doubleLimit := by decide +kernel

theorem doubleLimit_le_ten_pow : doubleLimit ≤ 10 ^ 310 := by decide +kernel

/-- What is too large for a double is so by comparison with the limit; looking at the number of digits
    first makes no difference. -/
theorem exceedsDouble_iff (m k : Nat) :
    exceedsDouble m (-(k : Int)) = true ↔ doubleLimit * 10 ^ k ≤ m := by
  have hscale : ∀ a, (10 ^ a ≤ doubleLimit → 10 ^ (a + k) ≤ doubleLimit * 10 ^ k) ∧
      (doubleLimit ≤ 10 ^ a → doubleLimit * 10 ^ k ≤ 10 ^ (a + k)) := by
    intro a
    rw [Nat.pow_add]
    exact ⟨Nat.mul_le_mul_right (10 ^ k), Nat.mul_le_mul_right (10 ^ k)⟩
  -- numbers of up to 307 digits lie below the limit, and those of more than 310 above it
  have hlow := (hscale 307).1 ten_pow_le_doubleLimit
  have hhigh := (hscale 310).2 doubleLimit_le_ten_pow
  unfold exceedsDouble
  by_cases hm : m = 0
  · have hpos : 0 < doubleLimit * 10 ^ k := Nat.lt_of_lt_of_le (Nat.pow_pos (by decide)) hlow
    simp only [hm, if_true, Bool.false_eq_true, false_iff]
    omega
  · simp only [hm, if_false]
    split
    · -- more than 310 digits in front of the point
      rename_i hlarge
      have hlen : ¬ (Nat.toDigits 10 m).length ≤ 310 + k := by
        unfold Text.natDigits at hlarge
        omega
      rw [Nat.length_toDigits_le_iff (by decide) (by omega)] at hlen
      simp only [true_iff]
      omega
    · split
      · -- fewer than 308
        rename_i hsmall
        have hlen : (Nat.toDigits 10 m).length ≤ 307 + k := by
          unfold Text.natDigits at hsmall
          omega
        rw [Nat.length_toDigits_le_iff (by decide) (by omega)] at hlen
        simp only [Bool.false_eq_true, false_iff]
        omega
      · cases k with
        | zero =>
          have hexponent : -((0 : Nat) : Int) = .ofNat 0 := rfl
          simp only [hexponent, Nat.pow_eq, Nat.pow_zero, Nat.mul_one, decide_eq_true_eq]
        | succ k =>
          have hexponent : -((k + 1 : Nat) : Int) = .negSucc k := rfl
          simp only [hexponent, Nat.pow_eq, decide_eq_true_eq]

/-- Whether the scanner lets a numeral pass: a decimal must lie below the largest doubles. -/
def Numeral.fits : Numeral Blank → Bool
  | decimal front places =>
    Text.natOfDigits (front ++ places.val) < doubleLimit * 10 ^ places.val.length
  | _ => true

/-- What begins with a digit, and goes on with digits or with no word, is a decimal numeral. -/
theorem lexeme_digit {c : Char} {t : List Char} (hc : c.isDigit = true)
    (ht : ∀ d ∈ t.head?, d.isDigit = true ∨ isWordChar d = false) : lexeme c t = decimalNumeral c t := by
  have hcw := isWordChar_of_isDigit hc
  have hquote : isQuote c = false := not_isQuote_of_isIdentifierChar (isIdentifierChar_of_isWordChar hcw)
  have hstart := not_isIdentifierStart_of_isDigit hc
  -- it is no text and no identifier
  have hlexeme : lexeme c t = numeral c t := by
    unfold lexeme
    rw [if_neg (by simp [hquote]), if_neg (by simp [hstart]), if_pos hc]
  rw [hlexeme]
  unfold numeral
  cases t with
  | nil => rfl
  | cons d t =>
    -- no letter of another base follows
    have hletter : d ∉ ['x', 'X', 'o', 'O', 'b', 'B'] := by
      intro hmem
      have hall : ['x', 'X', 'o', 'O', 'b', 'B'].all (fun d => !d.isDigit && isWordChar d) = true := by
        decide
      have hd := List.all_eq_true.1 hall d hmem
      rcases ht d rfl with h | h <;> simp [h] at hd
    simp only [List.mem_cons, List.not_mem_nil, or_false, not_or] at hletter
    obtain ⟨h1, h2, h3, h4, h5, h6⟩ := hletter
    simp [h1, h2, h3, h4, h5, h6]

/-- Behind a digit come digits, and then no letter that would make a numeral of another base. -/
theorem head_digits {cs r : List Char} (hcs : ∀ d ∈ cs, d.isDigit = true)
    (hr : ∀ d ∈ r.head?, isWordChar d = false) :
    ∀ d ∈ (cs ++ r).head?, d.isDigit = true ∨ isWordChar d = false := by
  cases cs with
  | nil => exact fun d hd => Or.inr (hr d hd)
  | cons e cs =>
    rintro _ ⟨⟩
    exact Or.inl (hcs e List.mem_cons_self)

/-- Where no word goes on, no exponent begins. -/
theorem ne_exponent {c : Char} (hc : isWordChar c = false) : c ≠ 'e' ∧ c ≠ 'E' := by
  constructor <;> (rintro rfl; cases hc)

/-- A run of digits without zeros in front is scanned as its number. -/
theorem scans_digits (ds : Digits) (hlead : ∀ cs, ds.val = '0' :: cs → cs = []) (depth : Nat)
    {r : List Char} (hr : ∀ c ∈ r.head?, isWordChar c = false ∧ c ≠ '.') :
    Scans depth (ds ++ r) [⟨.int (String.ofList ds) ds.value, true⟩] depth r := by
  have hdigits := ds.property.2
  obtain ⟨c, cs, hcons, hc⟩ := ds.exists_cons
  have hcs : ∀ d ∈ cs, d.isDigit = true :=
    fun d hd => hdigits d (by rw [hcons]; exact List.mem_cons_of_mem c hd)
  have hstop : ∀ d ∈ r.head?, d.isDigit = false := fun d hd => not_isDigit_of_not_isWordChar (hr d hd).1
  have hnext := head_digits hcs fun d hd => (hr d hd).1
  -- a zero stands alone, so no octal numeral is meant
  have hzero : c = '0' → cs = [] := fun h => hlead cs (h ▸ hcons)
  have hnumeral : decimalNumeral c (cs ++ r) =
      .ok (.int (String.ofList (c :: cs)) (Text.natOfDigits (c :: cs)), r) := by
    -- of the two checks for octal numerals neither finds anything
    have hplain : (c = '0' && !cs.all isOctal) = false ∧ (c = '0' && cs.any (· ≠ '0')) = false := by
      by_cases h : c = '0'
      · rw [hzero h]
        simp
      · simp [h]
    simp only [decimalNumeral, takeWhile_run hcs hstop, dropWhile_run hcs hstop, hplain.1, hplain.2]
    cases r with
    | nil => rfl
    | cons p r =>
      obtain ⟨hp, hdot⟩ := hr p rfl
      obtain ⟨he, hE⟩ := ne_exponent hp
      simp [hdot, he, hE]
  rw [Digits.value, hcons, List.cons_append]
  exact scans_token (beginsToken_of_isWordChar (isWordChar_of_isDigit hc))
    ((lexeme_digit hc hnext).trans hnumeral) rfl rfl

/-- A decimal is scanned with all its digits, if it is not too large. -/
theorem scans_decimal (front places : Digits) (depth : Nat) {r : List Char}
    (hr : ∀ c ∈ r.head?, isWordChar c = false) :
    Scans depth (front ++ '.' :: (places ++ r))
      [⟨.float (String.ofList (front ++ '.' :: places)),
        (Numeral.decimal front places : Numeral Blank).fits⟩]
      depth r := by
  have hplaces := places.property.2
  have hfront := front.property.2
  obtain ⟨c, cs, hcons, hc⟩ := front.exists_cons
  have hcs : ∀ d ∈ cs, d.isDigit = true := fun d hd =>
    hfront d (by rw [hcons]; exact List.mem_cons_of_mem c hd)
  have hnext : ∀ t : List Char, ∀ d ∈ (cs ++ '.' :: t).head?, d.isDigit = true ∨ isWordChar d = false :=
    fun t => head_digits hcs (by rintro d ⟨⟩; rfl)
  have hstop : ∀ d ∈ r.head?, d.isDigit = false := fun d hd => not_isDigit_of_not_isWordChar (hr d hd)
  have hpoint : ∀ t : List Char, ∀ d ∈ ('.' :: t).head?, d.isDigit = false := by
    rintro t d ⟨⟩
    rfl
  -- behind the digits no exponent begins, so the number is closed there
  have hclose : decimalNumeral c (cs ++ '.' :: (places.val ++ r)) =
      closeFloat (c :: (cs ++ '.' :: places.val)) (c :: (cs ++ places.val))
      (-(places.val.length : Int)) r := by
    simp only [decimalNumeral, takeWhile_run hcs (hpoint _), dropWhile_run hcs (hpoint _), if_true,
      takeWhile_run hplaces hstop, dropWhile_run hplaces hstop]
    cases r with
    | nil => rfl
    | cons p r =>
      obtain ⟨he, hE⟩ := ne_exponent (hr p rfl)
      simp [finishFloat, he, hE]
  have hbegin := beginsToken_of_isWordChar (isWordChar_of_isDigit hc)
  have hlexeme := (lexeme_digit hc (hnext _)).trans hclose
  have hexceeds := exceedsDouble_iff (Text.natOfDigits (c :: (cs ++ places.val))) places.val.length
  rw [closeFloat] at hlexeme
  simp only [Numeral.fits, hcons, List.cons_append]
  -- all that is asked of the digits is whether they are too many
  by_cases h : doubleLimit * 10 ^ places.val.length ≤ Text.natOfDigits (c :: (cs ++ places.val))
  · rw [if_pos (hexceeds.2 h)] at hlexeme
    rw [decide_eq_false (Nat.not_lt.2 h)]
    exact scans_fault hbegin hlexeme _ _
  · rw [if_neg fun h' => h (hexceeds.1 h')] at hlexeme
    rw [decide_eq_true (Nat.not_le.1 h)]
    exact scans_token hbegin hlexeme rfl rfl

/-! ## Names

  Every word that the scanner reserves has been marked, and no marked word is reserved.  So names are
  scanned as names. -/

/-- The scanner reserves no word that is not marked. -/
theorem mem_reservedWords_of_ofSpelling? {s : String} {w : Keyword} (h : Keyword.ofSpelling? s = some w) :
    s ∈ reservedWords := by
  unfold Keyword.ofSpelling? at h
  -- the seven words with a part in phrases, and then the idle ones
  split at h
  · decide
  · decide
  · decide
  · decide
  · decide
  · decide
  · decide
  · split at h
    · rename_i hmem
      have hall : ["as", "async", "await", "break", "class", "continue", "def", "del", "elif", "except",
          "finally", "from", "global", "import", "is", "lambda", "load", "nonlocal", "pass", "raise",
          "return", "try", "while", "with", "yield"].all (· ∈ reservedWords) = true := by decide
      exact of_decide_eq_true (List.all_eq_true.1 hall s hmem)
    · cases h

/-- A name is not reserved when it has been marked. -/
theorem ofSpelling?_markWord (x : Name) : Keyword.ofSpelling? (String.ofList (markWord x)) = none := by
  have hnone : String.ofList (markWord x) ∉ reservedWords →
      Keyword.ofSpelling? (String.ofList (markWord x)) = none := by
    intro hx
    cases h : Keyword.ofSpelling? (String.ofList (markWord x)) with
    | none => rfl
    | some w => exact absurd (mem_reservedWords_of_ofSpelling? h) hx
  refine hnone fun hmem => ?_
  unfold markWord at hmem
  split at hmem
  · -- no reserved word begins with the mark
    have hall : reservedWords.all (fun w => w.toList.head? ≠ some '_') = true := by decide
    have h := of_decide_eq_true (List.all_eq_true.1 hall _ hmem)
    rw [String.toList_ofList] at h
    exact h rfl
  · rename_i hx
    exact hx hmem

/-- **A name is scanned** as one, marked if it was reserved. -/
theorem scans_name (x : Name) (depth : Nat) {r : List Char} (hr : Loose r) :
    Scans depth (markWord x ++ r) [⟨.name (String.ofList (markWord x)), true⟩] depth r := by
  obtain ⟨c, cs, hx, hc, _⟩ := x.exists_cons
  -- with the mark it begins with an underscore, without one with a letter
  have hhead : ∃ d ds, markWord x.val = d :: ds ∧ d.isDigit = false := by
    unfold markWord
    split
    · exact ⟨_, _, rfl, rfl⟩
    · exact ⟨c, cs, hx, not_isDigit_of_isAlpha hc⟩
  obtain ⟨d, ds, hcons, hd⟩ := hhead
  refine scans_word ?_ ?_ ?_ (ofSpelling?_markWord x) ?_
  · intro e he
    rcases mem_markWord he with he | he
    · have hall : wordMark.all isWordChar = true := by decide
      exact List.all_eq_true.1 hall e he
    · exact isWordChar_of_mem_name x e he
  · rw [hcons]
    exact List.cons_ne_nil d ds
  · rw [hcons]
    rintro _ ⟨⟩
    exact hd
  · -- behind the name stands a plain character, or nothing
    cases r with
    | nil => exact fun _ h => nomatch h
    | cons e r =>
      rintro _ ⟨⟩
      have h := of_isPlain (p := fun c => !isIdentifierChar c && !isQuote c) (by decide) hr.cons
      simpa using h

/-! ## Sentences

  The lexemes of a sentence are those of its parts in order.  The induction goes along the grammar, with
  any loose text behind the sentence; brackets raise the depth in between. -/

/-- The lexeme of a run of digits. -/
def Digits.lexeme (ds : Digits) : Lexeme := ⟨.int (String.ofList ds) ds.value, true⟩

def Sign.lexemes : Option Sign → List Lexeme
  | none => []
  | some s => [⟨.mark s.mark, true⟩]

/-- The lexemes of a numeral; those of a ratio are a call. -/
def Numeral.lexemes : Numeral Blank → List Lexeme
  | whole ds => [ds.lexeme]
  | ratio num _ _ sign den =>
    [⟨.name "__ratio__", true⟩] ++ ([⟨.mark .openParen, true⟩] ++ ([num.lexeme] ++
      ([⟨.mark .comma, true⟩] ++ (Sign.lexemes sign ++ ([den.lexeme] ++ [⟨.mark .closeParen, true⟩])))))
  | decimal front places =>
    [⟨.float (String.ofList (front ++ '.' :: places)), (decimal front places : Numeral Blank).fits⟩]

def Atom.lexemes : Atom Blank → List Lexeme
  | numeral n => n.lexemes
  | name x => [⟨.name (String.ofList (markWord x)), true⟩]

/-- The lexemes of a sentence, its numerals without zeros in front. -/
def Sentence.lexemes : {k : Level} → Sentence Blank k → List Lexeme
  | _, atom a => a.stripped.lexemes
  | _, signed sign _ n => [⟨.mark sign.mark, true⟩] ++ n.stripped.lexemes
  | _, group _ e _ => [⟨.mark .openParen, true⟩] ++ (e.lexemes ++ [⟨.mark .closeParen, true⟩])
  | _, ofFactor t => t.lexemes
  | _, ofTerm t => t.lexemes
  | _, operation op l _ _ r => l.lexemes ++ ([⟨.mark op.mark, true⟩] ++ r.lexemes)

/-- Digits that have lost their zeros have no zero in front, unless it is all. -/
theorem scans_stripped (ds : Digits) (depth : Nat) {r : List Char}
    (hr : ∀ c ∈ r.head?, isWordChar c = false ∧ c ≠ '.') :
    Scans depth (ds.stripped ++ r) [ds.stripped.lexeme] depth r :=
  scans_digits ds.stripped (fun _ h => tail_eq_nil_of_stripZeros h) depth hr

/-- A run of digits begins with nothing that lengthens a mark. -/
theorem Digits.head_not_lengthens (ds : Digits) (r : List Char) :
    ∀ c ∈ (ds.val ++ r).head?, lengthens c = false := by
  obtain ⟨d, cs, hcons, hd⟩ := ds.exists_cons
  rw [hcons]
  rintro _ ⟨⟩
  exact not_lengthens_of_isWordChar (isWordChar_of_isDigit hd)

/-- The call of a ratio is scanned as its lexemes, whatever follows. -/
theorem scans_called (num den : Digits) (before after : Gap Blank) (sign : Option Sign) (depth : Nat)
    (r : List Char) :
    Scans depth ((Numeral.ratio num before after sign den).stripped.called ++ r)
      (Numeral.ratio num before after sign den).stripped.lexemes depth r := by
  have hname : ∀ t : List Char,
      Scans depth ("__ratio__(".toList ++ t) [⟨.name "__ratio__", true⟩] depth ('(' :: t) := by
    intro t
    have hword : ∀ c ∈ "__ratio__".toList, isWordChar c = true := List.all_eq_true.1 rfl
    exact scans_word hword (by decide) (by rintro _ ⟨⟩; rfl) (by decide) (by rintro _ ⟨⟩; decide)
  have hnum : ∀ t : List Char, Scans (depth + 1) (num.stripped ++ (", ".toList ++ t))
      [num.stripped.lexeme] (depth + 1) (", ".toList ++ t) :=
    fun t => scans_stripped num _ (by rintro _ ⟨⟩; decide)
  have hcomma : ∀ t : List Char, Scans (depth + 1) (", ".toList ++ t) [⟨.mark .comma, true⟩]
      (depth + 1) t :=
    fun t =>
      (scans_comma _ _).trans (Scans.gap _ (g := [' ']) (fun c hc => Or.inl (List.mem_singleton.1 hc)) t)
  have hsign : ∀ t : List Char, Scans (depth + 1) (Sign.text sign ++ (den.stripped ++ t))
      (Sign.lexemes sign) (depth + 1) (den.stripped ++ t) := by
    intro t
    cases sign with
    | none => exact fun _ => rfl
    | some s => exact scans_sign s _ (den.stripped.head_not_lengthens t)
  have hden : Scans (depth + 1) (den.stripped ++ (')' :: r)) [den.stripped.lexeme] (depth + 1)
      (')' :: r) :=
    scans_stripped den _ (by rintro _ ⟨⟩; decide)
  show Scans depth
    (("__ratio__(".toList ++ num.stripped ++ ", ".toList ++ (Sign.text sign ++ den.stripped) ++
      ")".toList) ++ r) _ depth r
  simp only [List.append_assoc]
  -- the call from left to right: its name, the bracket, the first part, the comma, the second part
  exact (hname _).trans ((scans_open _ _).trans ((hnum _).trans ((hcomma _).trans ((hsign _).trans
    (hden.trans (scans_close _ _))))))

/-- **A numeral is scanned** as its lexemes. -/
theorem scans_numeral (n : Numeral Spaced) (depth : Nat) {r : List Char} (hr : Loose r) :
    Scans depth (n.stripped.called ++ r) n.stripped.lexemes depth r := by
  cases n with
  | whole ds => exact scans_stripped ds depth hr.head_ends
  | ratio num before after sign den => exact scans_called num den before after sign depth r
  | decimal front places =>
    show Scans depth ((front.stripped.val ++ '.' :: places.val) ++ r) _ depth r
    rw [List.append_assoc, List.cons_append]
    exact scans_decimal front.stripped places depth hr.head_not_isWordChar

/-- **A numeral or a name is scanned** as its lexemes. -/
theorem scans_atom (a : Atom Spaced) (depth : Nat) {r : List Char} (hr : Loose r) :
    Scans depth (a.stripped.marked ++ r) a.stripped.lexemes depth r := by
  cases a with
  | numeral n => exact scans_numeral n depth hr
  | name x => exact scans_name x depth hr

/-- A numeral or name begins with a word character, also as the scanner gets it. -/
theorem Atom.exists_cons_marked (a : Atom Blank) : ∃ c cs, a.marked = c :: cs ∧ isWordChar c = true := by
  cases a with
  | numeral n =>
    cases n with
    | whole ds => exact (Atom.numeral (.whole ds) : Atom Blank).exists_cons_text
    | ratio num before after sign den => exact ⟨'_', _, rfl, rfl⟩
    | decimal front places => exact (Atom.numeral (.decimal front places) : Atom Blank).exists_cons_text
  | name x =>
    obtain ⟨c, cs, hx, hc, _⟩ := x.exists_cons
    show ∃ c cs, markWord x.val = c :: cs ∧ isWordChar c = true
    unfold markWord
    split
    · exact ⟨'_', _, rfl, rfl⟩
    · exact ⟨c, cs, hx, isWordChar_of_isAlpha hc⟩

/-- A sentence begins with a bracket, a sign or a word character, which lengthens no mark. -/
theorem Sentence.head_not_lengthens (s : Sentence Spaced k) (r : List Char) :
    ∀ c ∈ (s.write (fun a => a.stripped.marked) ++ r).head?, lengthens c = false := by
  have hhead : ∃ c cs, s.write (fun a => a.stripped.marked) = c :: cs ∧ lengthens c = false := by
    refine exists_cons_write (p := fun c => lengthens c = false) rfl (fun sign => by cases sign <;> rfl)
      (fun a => ?_) s
    obtain ⟨c, cs, ha, hc⟩ := a.stripped.exists_cons_marked
    exact ⟨c, cs, ha, not_lengthens_of_isWordChar hc⟩
  obtain ⟨c, cs, hs, hc⟩ := hhead
  rw [hs]
  rintro _ ⟨⟩
  exact hc

/-- **A sentence is scanned** as its lexemes. -/
theorem scans_write (s : Sentence Spaced k) (depth : Nat) {r : List Char} (hr : Loose r) :
    Scans depth (s.write (fun a => a.stripped.marked) ++ r) s.lexemes depth r := by
  induction s generalizing depth r with
  | atom a => exact scans_atom a depth hr
  | signed sign gap n =>
    -- behind the sign stands a gap or the numeral, which do not lengthen it
    have hnext : ∀ c ∈ (gap.val ++ (n.stripped.called ++ r)).head?, lengthens c = false :=
      head_gap (p := fun c => lengthens c = false) rfl rfl gap.property
        ((Sentence.atom (.numeral n)).head_not_lengthens r)
    simp only [Sentence.write, List.append_assoc, List.cons_append]
    exact (scans_sign sign depth hnext).trans
      ((Scans.gap depth gap.property _).trans (scans_numeral n depth hr))
  | group before e after ih =>
    -- inside the brackets the depth is one more
    simp only [Sentence.write, List.append_assoc, List.cons_append, List.nil_append]
    have hbody := ih (depth + 1) (loose_gap (.stop (c := ')') rfl r) after.property)
    exact (scans_open depth _).trans ((Scans.gap _ before.property _).trans
      (hbody.trans ((Scans.gap _ after.property _).trans (scans_close depth r))))
  | ofFactor t ih => exact ih depth hr
  | ofTerm t ih => exact ih depth hr
  | operation op l before after right ihl ihr =>
    -- the left operand stands before a gap and the mark, which is a loose text
    have hnext :=
      head_gap (p := fun c => lengthens c = false) rfl rfl after.property (right.head_not_lengthens r)
    simp only [Sentence.write, List.append_assoc, List.cons_append]
    exact (ihl depth (loose_gap (.stop op.isStop_char _) before.property)).trans
      ((Scans.gap depth before.property _).trans ((scans_operation op depth hnext).trans
        ((Scans.gap depth after.property _).trans (ihr depth hr))))

/-- Whether the scanner lets all decimals of a sentence pass. -/
def Sentence.fits : {k : Level} → Sentence Blank k → Bool
  | _, atom (.numeral n) => n.fits
  | _, atom (.name _) => true
  | _, signed _ _ n => n.fits
  | _, group _ e _ => e.fits
  | _, ofFactor t => t.fits
  | _, ofTerm t => t.fits
  | _, operation _ l _ _ r => l.fits && r.fits

/-- A numeral passes with its zeros if it does without them. -/
theorem Numeral.all_fits (n : Numeral Blank) : n.stripped.lexemes.all (·.fits) = n.fits := by
  cases n with
  | whole ds => rfl
  | ratio num before after sign den => cases sign <;> rfl
  | decimal front places =>
    have hvalue : Text.natOfDigits (front.stripped.val ++ places.val) =
        Text.natOfDigits (front.val ++ places.val) := natOfDigits_stripZeros_append front.val places.val
    simp only [stripped, lexemes, List.all_cons, List.all_nil, Bool.and_true, fits, hvalue]

/-- All lexemes of a sentence pass if all its decimals do. -/
theorem Sentence.all_fits (s : Sentence Blank k) : s.lexemes.all (·.fits) = s.fits := by
  induction s with
  | atom a =>
    cases a with
    | numeral n => exact n.all_fits
    | name x => rfl
  | signed sign gap n => exact n.all_fits
  | group before e after ih => simp [lexemes, fits, ih]
  | ofFactor t ih => exact ih
  | ofTerm t ih => exact ih
  | operation op l before after r ihl ihr => simp [lexemes, fits, ihl, ihr]

/-- Where there is no carriage return there is nothing to unify. -/
theorem unifyLineEnds_of_not_mem {cs : List Char} (h : '\r' ∉ cs) : unifyLineEnds cs = cs := by
  fun_induction unifyLineEnds cs with
  | case1 => rfl
  | case2 r => exact absurd List.mem_cons_self h
  | case3 r => exact absurd List.mem_cons_self h
  | case4 c r _ _ ih => rw [ih fun hr => h (List.mem_cons_of_mem c hr)]

/-- **The scan of a sentence.**  If all its decimals pass, it has the tokens of the sentence; if one
    does not, it ends with a fault before the first that does not. -/
theorem scan_write (s : Sentence Spaced k) :
    (s.fits = true → scan (s.write fun a => a.stripped.marked) = ⟨placed 1 s.lexemes, none⟩) ∧
      (s.fits = false → ∃ ts, ts <+: placed 1 s.lexemes ∧
        scan (s.write fun a => a.stripped.marked) = ⟨ts, some .floatLiteral⟩) := by
  -- the scan unifies line ends first, and there are none
  have hreturn : '\r' ∉ s.write fun a => a.stripped.marked := by
    intro h
    rcases mem_write h with h | ⟨a, h⟩
    · cases h
    · cases isSourceChar_of_mem_marked h
  -- nothing stands on the line yet, but no blank announces it
  have hfresh : scan (s.write fun a => a.stripped.marked) =
      scanFrom 0 false 1 (s.write (fun a => a.stripped.marked) ++ []) := by
    have hhead : ∃ c cs, s.write (fun a => a.stripped.marked) = c :: cs ∧ beginsToken c = true := by
      refine exists_cons_write (p := fun c => beginsToken c = true) (by decide)
        (fun sign => by cases sign <;> decide) (fun a => ?_) s
      obtain ⟨c, cs, ha, hc⟩ := a.stripped.exists_cons_marked
      exact ⟨c, cs, ha, beginsToken_of_isWordChar hc⟩
    obtain ⟨c, cs, hs, hc⟩ := hhead
    rw [scan, unifyLineEnds_of_not_mem hreturn, List.append_nil, hs, scanFrom_cons hc, scanFrom_cons hc]
  have hend : scanFrom 0 false 1 [] = ⟨[], none⟩ := by rw [scanFrom.eq_def]
  rw [hfresh, scans_write s 0 .nil 1, hend, ← s.all_fits]
  have h := foldr_onto 1 s.lexemes ⟨[], none⟩
  rw [List.append_nil] at h
  exact h

end Reckoner.Source
