/-
  Every sentence is read, and as the tree of its derivation (`readExpr_of_fits`).  There is one
  exception, and it comes from the scanner: a decimal that no double can hold is refused, although
  nothing of it would have been rounded (`readExpr_of_not_fits`).
-/
import Reckoner.Proofs.Phrasing
import Reckoner.Source.Line

namespace Reckoner.Source

variable {k : Level}

/-- A sentence whose decimals all pass is read as its tree. -/
theorem readExpr_of_fits {s : Sentence Spaced k} (hs : s.fits = true) (lead trail : Gap Spaced)
    (comment : Option (List Char)) :
    readExpr (commented (lead ++ (s.source ++ trail)) comment) = .ok s.tree := by
  have hscan := (scan_write s).1 hs
  have hphrase : readPhrase (commented (lead ++ (s.source ++ trail)) comment) = .ok s.phrase := by
    simp only [readPhrase, prepare?_commented, hscan, statementsOf, readPhrases_lexemes]
    rfl
  rw [readExpr, hphrase]
  show expressionOf s.phrase = .ok s.tree
  rw [expressionOf, exprOf_phrase]

/-- A sentence with a decimal that is too large is refused by the scanner. -/
theorem readExpr_of_not_fits {s : Sentence Spaced k} (hs : s.fits = false) (lead trail : Gap Spaced)
    (comment : Option (List Char)) :
    readExpr (commented (lead ++ (s.source ++ trail)) comment) = .error (.lexical .floatLiteral) := by
  obtain ⟨ts, hprefix, hscan⟩ := (scan_write s).2 hs
  obtain ⟨sts, hsts⟩ := exists_readPhrases_of_prefix s hprefix
  simp only [readExpr, readPhrase, prepare?_commented, hscan, statementsOf, hsts]
  rfl

/-- **Reading a sentence.**  With spaces and tabs around it and a comment behind it, a sentence is read
    as the tree of its derivation, unless one of its decimals is too large for a double; then the
    scanner refuses it. -/
theorem readExpr_source (s : Sentence Spaced .sum) (lead trail : Gap Spaced)
    (comment : Option (List Char)) :
    readExpr (commented (lead ++ (s.source ++ trail)) comment) =
      if s.fits then .ok s.tree else .error (.lexical .floatLiteral) := by
  cases hs : s.fits with
  | true => exact readExpr_of_fits hs lead trail comment
  | false => exact readExpr_of_not_fits hs lead trail comment

/-- The decimal `10 ^ 309 + 1 / 2`. -/
def hugeDecimal : Sentence Spaced .sum :=
  .ofTerm (.ofFactor (.atom (.numeral (.decimal
    ⟨'1' :: List.replicate 309 '0', List.cons_ne_nil _ _, List.all_eq_true.1 (by decide +kernel)⟩
    ⟨['5'], List.cons_ne_nil _ _, List.all_eq_true.1 rfl⟩))))

/-- **A decimal that is refused**, although its tree is the rational of its digits over ten. -/
theorem readExpr_hugeDecimal :
    hugeDecimal.source = '1' :: (List.replicate 309 '0' ++ ['.', '5']) ∧
      hugeDecimal.tree = .rational (10 ^ 310 + 5) 10 ∧
      readExpr hugeDecimal.source = .error (.lexical .floatLiteral) := by
  refine ⟨rfl, by decide +kernel, ?_⟩
  have hfits : hugeDecimal.fits = false := by decide +kernel
  have h := readExpr_of_not_fits hfits ⟨[], fun _ h => nomatch h⟩ ⟨[], fun _ h => nomatch h⟩ none
  rw [commented, List.nil_append, List.append_nil] at h
  exact h

end Reckoner.Source
