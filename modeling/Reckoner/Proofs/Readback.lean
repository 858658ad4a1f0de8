/-
  Results read back.  A whole number is printed as a numeral, a fraction as a division of two numerals,
  the first of which may have a sign.  Both are sentences (`Number.sentence`), so a line that asks for
  the text of a number is read as the tree of that sentence; the sign goes to the numerator because it
  binds tighter than the division.  Dividing the parts of a fraction gives the fraction, so the number
  comes out that was printed.
-/
import Reckoner.Proofs.Engine
import Reckoner.Proofs.Rational
import Reckoner.Proofs.RoundTrip

namespace Reckoner

open Source

/-! ## Lines that evaluate a sentence -/

/-- **A line of arrows and a sentence** evaluates the tree of the sentence. -/
theorem readLine_sentence {k : Level} {s : Sentence Spaced k} (hs : s.fits = true) :
    readLine ('>' :: '>' :: '>' :: ' ' :: s.source) = .ok (.evaluate s.tree) := by
  obtain ⟨cs, c, hlast, hc⟩ := exists_concat_source s
  have htrim : Text.trim ([] ++ (('>' :: '>' :: '>' :: ' ' :: s.source) ++ [])) =
      '>' :: '>' :: '>' :: ' ' :: s.source :=
    trim_spaced noGap.property noGap.property ⟨_, _, rfl, rfl⟩
      ⟨'>' :: '>' :: '>' :: ' ' :: cs, c, by simp [hlast], hc⟩
  rw [List.nil_append, List.append_nil] at htrim
  have hread : readExpr (' ' :: s.source) = .ok s.tree := by
    have h := readExpr_of_fits hs space noGap none
    simpa [commented, noGap, space] using h
  rw [readLine, instruction?, htrim]
  show (readExpr (' ' :: s.source)).map _ = _
  rw [hread]
  rfl

/-! ## The texts of numbers -/

/-- An integer as it is printed. -/
def integerSentence (n : Int) : Sentence Spaced .factor :=
  signedNumeral (signOf n) (.whole (.ofNat n.natAbs))

/-- The sentence of an integer is what is printed of it. -/
theorem source_integerSentence (n : Int) : (integerSentence n).source = Text.intDigits n := by
  rw [integerSentence, source_signedNumeral, intDigits_eq]
  rfl

/-- Its tree is the literal of the integer. -/
theorem tree_integerSentence (n : Int) : (integerSentence n).tree = .integer n := by
  rw [integerSentence, tree_signedNumeral, Numeral.tree, Digits.value_ofNat, apply_signOf]

/-- It has no decimals, and only decimals can be too large. -/
theorem fits_integerSentence (n : Int) : (integerSentence n).fits = true := by
  rw [integerSentence, fits_signedNumeral]
  rfl

namespace Number

/-- A number as it is printed. -/
def sentence : Number → Sentence Spaced .term
  | int n => .ofFactor (integerSentence n)
  | fraction f =>
    .operation .slash (.ofFactor (integerSentence f.num)) noGap noGap (integerSentence f.den)

/-- The sentence of a number is what is printed of it: the division sign stands without spaces. -/
theorem source_sentence (v : Number) : v.sentence.source = v.text.toList := by
  cases v with
  | int n =>
    show (integerSentence n).source = _
    rw [source_integerSentence, text, Text.ofInt, String.toList_ofList]
  | fraction f =>
    show (integerSentence f.num).source ++ '/' :: (integerSentence f.den).source = _
    rw [source_integerSentence, source_integerSentence]
    simp [text, Text.ofInt, Text.ofNat, Text.intDigits]

/-- The sentence of a number has no decimals either. -/
theorem fits_sentence (v : Number) : v.sentence.fits = true := by
  cases v with
  | int n => exact fits_integerSentence n
  | fraction f =>
    show ((integerSentence f.num).fits && (integerSentence f.den).fits) = true
    rw [fits_integerSentence, fits_integerSentence]
    rfl

/-- The two parts of a fraction, divided, are the fraction. -/
theorem apply_div_parts (f : Fraction) : apply .div (int f.num) (int f.den) = .ok (fraction f) := by
  have hden : (f.den : ℚ) ≠ 0 := cast_den_ne_zero (fraction f)
  rw [apply_eq, toRat_int, toRat_int, Int.cast_natCast, Operator.onRat]
  simp only [if_neg hden]
  exact congrArg Except.ok (ofRat_toRat (fraction f))

/-- **What is printed evaluates to what was printed.** -/
theorem evaluateIn_sentence (ns : Namespace Expr) (active : List String) (v : Number) :
    evaluateIn ns active v.sentence.tree = .ok v := by
  have hinteger : ∀ n : Int, evaluateIn ns active (integerSentence n).tree = .ok (int n) := by
    intro n
    rw [tree_integerSentence]
    exact evaluateIn_ofNumber ns active (int n)
  cases v with
  | int n => exact hinteger n
  | fraction f =>
    show evaluateIn ns active (.binary .div (integerSentence f.num).tree (integerSentence f.den).tree) = _
    rw [evaluateIn_binary, hinteger, hinteger]
    exact apply_div_parts f

/-- The line that asks for the text of a number evaluates the sentence of the number. -/
theorem readLine_number (v : Number) :
    readLine (">>> " ++ (Result.value v).text).toList = .ok (.evaluate v.sentence.tree) := by
  have h := readLine_sentence v.fits_sentence
  rw [source_sentence] at h
  rw [String.toList_append]
  exact h

end Number

/-- **Results read back.**  The line that asks for the text of a number is read, and in every namespace
    that binds no constant it evaluates to that number, also for the engine, whatever it remembers.  So
    two numbers of one text are one number. -/
theorem evaluate_printed :
    (∀ v : Number, ∃ e, readLine (">>> " ++ (Result.value v).text).toList = .ok (.evaluate e) ∧
      ∀ ns : Namespace Expr, ns.Unreserved → evaluate ns e = .ok v ∧
        ∀ (en : Engine) (bindings : Namespace Node) (n : Node), bindings.exprs = ns → n.expr = e →
          (en.evaluate bindings n).1 = .ok v) ∧
    Function.Injective fun v : Number => (Result.value v).text := by
  have hback : ∀ (v : Number) {ns : Namespace Expr}, ns.Unreserved →
      evaluate ns v.sentence.tree = .ok v := by
    intro v ns h
    rw [evaluate_eq h, Number.evaluateIn_sentence]
  refine ⟨fun v => ⟨v.sentence.tree, v.readLine_number, fun ns h => ⟨hback v h, ?_⟩⟩, fun v w htext => ?_⟩
  · rintro en bindings n rfl hn
    rw [(en.evaluate_eq bindings n).1, hn, hback v h]
  · -- both lines are one line, so one expression is read, and it has one number
    have hline : readLine (">>> " ++ (Result.value v).text).toList =
        readLine (">>> " ++ (Result.value w).text).toList :=
      congrArg (fun t => readLine (">>> " ++ t).toList) htext
    rw [v.readLine_number, w.readLine_number] at hline
    have htree : v.sentence.tree = w.sentence.tree := Instruction.evaluate.inj (Except.ok.inj hline)
    have hv := hback v unreserved_empty
    rw [htree, hback w unreserved_empty] at hv
    exact (Except.ok.inj hv).symm

/-- The text `-3/4`, read beside a binding. -/
theorem evaluate_printed_debt :
    ((∅ : Namespace Expr).bind "x" (.reference "y")).Unreserved ∧
      ∃ e, readLine ">>> -3/4".toList = .ok (.evaluate e) ∧
        evaluate ((∅ : Namespace Expr).bind "x" (.reference "y")) e = .ok (.fraction debt) := by
  have hunreserved : ((∅ : Namespace Expr).bind "x" (.reference "y")).Unreserved :=
    unreserved_empty.bind (fun c => by cases c <;> decide) _
  obtain ⟨e, hread, heval⟩ := evaluate_printed.1 (.fraction debt)
  have htext : ">>> " ++ (Result.value (.fraction debt)).text = ">>> -3/4" := by decide
  rw [htext] at hread
  exact ⟨hunreserved, e, hread, (heval _ hunreserved).1⟩

end Reckoner
