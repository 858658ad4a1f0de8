/-
  What is written can be read.  The source form of an expression is a sentence: integers are runs of
  digits with a minus sign where they are negative, and every operation stands in brackets
  (`exists_sentence`).  It has no decimals, so it is read as its tree, which is the expression again; a
  line is a head and a sentence (`readLine_text`).  So the writable instructions are those that some line
  is read as (`exists_readLine_iff`).
-/
import Reckoner.Proofs.Reading
import Reckoner.Proofs.Writable

namespace Reckoner

open Source

/-! ## Expressions -/

/-- No gap at all. -/
def noGap : Gap Spaced := ⟨[], fun _ h => nomatch h⟩

/-- A single space. -/
def space : Gap Spaced := ⟨[' '], fun _ h => Or.inl (List.mem_singleton.1 h)⟩

/-- The digits of a number. -/
def Source.Digits.ofNat (n : Nat) : Digits :=
  ⟨Text.natDigits n, Nat.toDigits_ne_nil,
    fun _ h => Nat.isDigit_of_mem_toDigits (by decide) (by decide) h⟩

theorem Source.Digits.value_ofNat (n : Nat) : (Digits.ofNat n).value = n := Text.natOfDigits_natDigits n

/-- The sign that an integer is written with. -/
def signOf (n : Int) : Option Sign := if n < 0 then some .minus else none

/-- An integer is written as its sign, if it is negative, and the digits of its absolute value. -/
theorem intDigits_eq (n : Int) :
    Text.intDigits n = Sign.text (signOf n) ++ (Digits.ofNat n.natAbs).val := by
  unfold Text.intDigits signOf
  split <;> rfl

/-- The sign and the absolute value make up the integer again. -/
theorem apply_signOf (n : Int) : ((signOf n).getD .plus).apply (n.natAbs : Int) = n := by
  unfold signOf
  split
  · show -(n.natAbs : Int) = n
    omega
  · show (n.natAbs : Int) = n
    omega

/-- A numeral behind the sign of an integer, if it has one. -/
def signedNumeral (sign : Option Sign) (n : Numeral Spaced) : Sentence Spaced .factor :=
  match sign with
  | none => .atom (.numeral n)
  | some s => .signed s noGap n

/-- A signed numeral is written as the sign and the numeral, with nothing in between. -/
theorem source_signedNumeral (sign : Option Sign) (n : Numeral Spaced) :
    (signedNumeral sign n).source = Sign.text sign ++ n.text := by
  cases sign <;> rfl

theorem tree_signedNumeral (sign : Option Sign) (n : Numeral Spaced) :
    (signedNumeral sign n).tree = n.tree (sign.getD .plus) := by
  cases sign <;> rfl

theorem fits_signedNumeral (sign : Option Sign) (n : Numeral Spaced) :
    (signedNumeral sign n).fits = n.fits := by
  cases sign <;> rfl

/-- An operation in brackets. -/
theorem exists_operation {op : Operator} (hop : op.isArithmetic = true) (l r : Sentence Spaced .factor) :
    ∃ s : Sentence Spaced .factor,
      s.source = '(' :: (l.source ++ (' ' :: (op.symbol.toList ++ ' ' :: (r.source ++ [')'])))) ∧
        s.tree = .binary op l.tree r.tree ∧ s.fits = (l.fits && r.fits) := by
  cases op with
  | add =>
    -- `+` and `-` join expressions and terms, `*` and `/` join terms and factors; the brackets make a
    -- factor of either, so the operands, which are factors, only have to be lifted
    exact ⟨.group noGap (.operation .plus (.ofTerm (.ofFactor l)) space space (.ofFactor r)) noGap,
      by simp [Sentence.source, Sentence.write, noGap, space, Operation.char, Operator.symbol], rfl, rfl⟩
  | sub =>
    exact ⟨.group noGap (.operation .minus (.ofTerm (.ofFactor l)) space space (.ofFactor r)) noGap,
      by simp [Sentence.source, Sentence.write, noGap, space, Operation.char, Operator.symbol], rfl, rfl⟩
  | mul =>
    exact ⟨.group noGap (.ofTerm (.operation .times (.ofFactor l) space space r)) noGap,
      by simp [Sentence.source, Sentence.write, noGap, space, Operation.char, Operator.symbol], rfl, rfl⟩
  | div =>
    exact ⟨.group noGap (.ofTerm (.operation .slash (.ofFactor l) space space r)) noGap,
      by simp [Sentence.source, Sentence.write, noGap, space, Operation.char, Operator.symbol], rfl, rfl⟩
  | other s => cases hop

/-- **The source form of an expression is a sentence** with that expression for its tree, and without
    decimals. -/
theorem exists_sentence {e : Expr} (he : e.isWritable = true) :
    ∃ s : Sentence Spaced .factor, s.source = e.body.toList ∧ s.tree = e ∧ s.fits = true := by
  induction e with
  | integer n =>
    refine ⟨signedNumeral (signOf n) (.whole (.ofNat n.natAbs)), ?_, ?_, ?_⟩
    · rw [source_signedNumeral, Expr.body, Text.ofInt, String.toList_ofList, intDigits_eq]
      rfl
    · rw [tree_signedNumeral, Numeral.tree, Digits.value_ofNat, apply_signOf]
    · rw [fits_signedNumeral]
      rfl
  | rational n d =>
    refine ⟨signedNumeral (signOf n)
      (.ratio (.ofNat n.natAbs) space space (signOf d) (.ofNat d.natAbs)), ?_, ?_, ?_⟩
    · simp only [source_signedNumeral, Expr.body, Text.ofInt, String.toList_append, String.toList_ofList,
        intDigits_eq, List.append_assoc]
      rfl
    · rw [tree_signedNumeral, Numeral.tree, Digits.value_ofNat, Digits.value_ofNat, apply_signOf,
        apply_signOf]
    · rw [fits_signedNumeral]
      rfl
  | reference x =>
    refine ⟨.atom (.name ⟨x.toList, he⟩), rfl, ?_, rfl⟩
    exact congrArg Expr.reference String.ofList_toList
  | binary op l r ihl ihr =>
    obtain ⟨hop, hl, hr⟩ := Expr.isWritable_binary.1 he
    obtain ⟨sl, hsl, htl, hfl⟩ := ihl hl
    obtain ⟨sr, hsr, htr, hfr⟩ := ihr hr
    obtain ⟨s, hs, ht, hf⟩ := exists_operation hop sl sr
    refine ⟨s, ?_, ?_, ?_⟩
    · -- written in brackets with a space on both sides of the operator, as `Expr.body` has it
      rw [hs, hsl, hsr]
      simp [Expr.body]
    · rw [ht, htl, htr]
    · rw [hf, hfl, hfr]
      rfl

/-! ## Instructions -/

/-- A line that begins with no blank and ends with the source form of an expression is not trimmed. -/
theorem trim_line {line : List Char} (hhead : ∃ c cs, line = c :: cs ∧ Text.isBlank c = false)
    (front : List Char) {e : Expr} (he : e.isWritable = true) (hline : line = front ++ e.body.toList) :
    Text.trim line = line := by
  obtain ⟨s, hs, _, _⟩ := exists_sentence he
  obtain ⟨cs, c, hlast, hc⟩ := exists_concat_source s
  -- a sentence ends with no blank, and so does whatever ends with one
  have htrim : Text.trim ([] ++ (line ++ [])) = line :=
    trim_spaced noGap.property noGap.property hhead ⟨front ++ cs, c, by simp [hline, ← hs, hlast], hc⟩
  rwa [List.nil_append, List.append_nil] at htrim

/-- An expression that can be written down is not trimmed where it is written. -/
theorem toList_text {e : Expr} (he : e.isWritable = true) : e.text.toList = e.body.toList := by
  obtain ⟨s, hs, _, _⟩ := exists_sentence he
  rw [Expr.text, String.toList_ofList]
  exact trim_line (hs ▸ exists_cons_source s) [] he rfl

/-- The source form of an expression is read as the expression, also behind a gap. -/
theorem readExpr_body {e : Expr} (he : e.isWritable = true) (lead : Gap Spaced) :
    readExpr (lead ++ e.body.toList) = .ok e := by
  obtain ⟨s, hs, ht, hf⟩ := exists_sentence he
  have h := readExpr_of_fits hf lead noGap none
  rw [ht, hs] at h
  simpa [commented, noGap] using h

/-- What stands between the name and the expression of an assignment. -/
theorem assignment?_text {x body : List Char} (hx : isName x = true)
    (hhead : ∀ c ∈ body.head?, Text.isSpace c = false) (hline : '\n' ∉ body) :
    assignment? (x ++ ' ' :: ':' :: '=' :: ' ' :: body) = some (.assign (String.ofList x) body) := by
  -- the name is all of what can be in a name, up to the space behind it
  have hname : ∀ c ∈ x, isNameChar c = true := by
    obtain ⟨c, cs, hcons, hc, hcs⟩ := Name.exists_cons ⟨x, hx⟩
    intro d hd
    rw [show x = c :: cs from hcons] at hd
    rcases List.mem_cons.1 hd with rfl | hd
    · simp [isNameChar, hc]
    · exact hcs d hd
  have hnext : ∀ c ∈ (' ' :: ':' :: '=' :: ' ' :: body).head?, isNameChar c = false := by
    rintro c ⟨⟩
    rfl
  -- of the spaces around the sign none is left over
  have hcolon : (' ' :: ':' :: '=' :: ' ' :: body).dropWhile Text.isSpace = ':' :: '=' :: ' ' :: body :=
    rfl
  have hbody : (' ' :: body).dropWhile Text.isSpace = body :=
    dropWhile_run (w := [' ']) (by simp [Text.isSpace]) hhead
  unfold assignment?
  simp only [takeWhile_run hname hnext, dropWhile_run hname hnext, hcolon, hbody]
  rw [if_pos (by simp [hx, hline])]

/-- A source form begins with no space and holds no line end. -/
theorem head_body {e : Expr} (he : e.isWritable = true) :
    (∀ c ∈ e.body.toList.head?, Text.isSpace c = false) ∧ '\n' ∉ e.body.toList := by
  obtain ⟨s, hs, _, _⟩ := exists_sentence he
  obtain ⟨c, cs, hcons, hc⟩ := exists_cons_source s
  rw [← hs]
  constructor
  · rw [hcons]
    rintro _ ⟨⟩
    cases h : Text.isSpace c with
    | false => rfl
    | true => rw [Text.isBlank_of_isSpace h] at hc; cases hc
  · -- no character of a sentence is a line end
    intro h
    cases isSourceChar_of_mem_source h

/-- **A line is read as the instruction that it was written for.** -/
theorem readLine_text {i : Instruction Expr} (hi : i.isWritable = true) :
    readLine i.text.toList = .ok i := by
  cases i with
  | assign x e =>
    obtain ⟨hx, he⟩ := (Bool.and_eq_true _ _).mp hi
    obtain ⟨c, cs, hcons, hc, _⟩ := Name.exists_cons ⟨x.toList, hx⟩
    -- the line as characters; a name begins with a letter, so nothing of it is trimmed
    have htext : (Instruction.assign x e).text.toList = x.toList ++ ' ' :: ':' :: '=' :: ' ' ::
        e.body.toList := by
      rw [Instruction.text, String.toList_append, String.toList_append, toList_text he, List.append_assoc]
      rfl
    have hline : x.toList ++ ' ' :: ':' :: '=' :: ' ' :: e.body.toList =
        c :: (cs ++ ' ' :: ':' :: '=' :: ' ' :: e.body.toList) := by
      rw [show x.toList = c :: cs from hcons, List.cons_append]
    have htrim := trim_line ⟨c, _, hline, not_isBlank_of_isWordChar (isWordChar_of_isAlpha hc)⟩
      (x.toList ++ [' ', ':', '=', ' ']) he (by simp)
    have hassign := assignment?_text hx (head_body he).1 (head_body he).2
    have hinstruction : instruction? (Instruction.assign x e).text.toList =
        some (.assign x e.body.toList) := by
      rw [htext, instruction?, htrim]
      split
      · -- a name does not begin with the arrows of an evaluation
        rename_i h
        rw [hline] at h
        obtain ⟨rfl, _⟩ := List.cons.inj h
        cases hc
      · rw [hassign, String.ofList_toList]
    have hread : readExpr e.body.toList = .ok e := readExpr_body he noGap
    rw [readLine, hinstruction]
    show (readExpr e.body.toList).map _ = _
    rw [hread]
    rfl
  | evaluate e =>
    have htext : (Instruction.evaluate e).text.toList = '>' :: '>' :: '>' :: ' ' :: e.body.toList := by
      rw [Instruction.text, String.toList_append, toList_text hi]
      rfl
    have htrim : Text.trim ('>' :: '>' :: '>' :: ' ' :: e.body.toList) = '>' :: '>' :: '>' :: ' ' ::
        e.body.toList :=
      trim_line ⟨_, _, rfl, rfl⟩ ['>', '>', '>', ' '] hi rfl
    -- the space behind the arrows is left to the expression, which may begin with a gap
    have hread : readExpr (' ' :: e.body.toList) = .ok e := readExpr_body hi space
    rw [readLine, htext, instruction?, htrim]
    show (readExpr (' ' :: e.body.toList)).map _ = _
    rw [hread]
    rfl
  | missing => cases hi

/-- **What can be read is what can be written.** -/
theorem exists_readLine_iff {i : Instruction Expr} :
    (∃ line, readLine line = .ok i) ↔ i.isWritable = true :=
  ⟨fun ⟨_, h⟩ => isWritable_of_readLine h, fun h => ⟨_, readLine_text h⟩⟩

end Reckoner
