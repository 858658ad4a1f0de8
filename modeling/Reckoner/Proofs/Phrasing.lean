/-
  From the tokens of a sentence to its expression.  The reader of phrases keeps a stack of what has been
  begun.  Reading a sentence leaves the stack below as it was, and an operand on top; but the operand
  may still be in pieces, as left operands and signs that wait.  This does not matter: on every token
  that can follow, the reader does what it would do with the operand in one piece (`Completes`).  That
  is how tightly an operation binds, and that equals go to the left (`take_join`).

  So a sentence is read as the phrase of its derivation (`readPhrases_lexemes`), and the expression of
  that phrase is the tree of the sentence (`exprOf_phrase`).
-/
import Reckoner.Proofs.Outcome
import Reckoner.Proofs.Scanning
import Reckoner.Source.Grammar
import Reckoner.Source.Phrasing

namespace Reckoner.Source

/-! ## The phrase of a sentence -/

def Digits.phrase (ds : Digits) : Phrase := .int (String.ofList ds) ds.value

def Sign.phrase : Option Sign → Phrase → Phrase
  | none, x => x
  | some s, x => .signed s.mark x

def Numeral.phrase : Numeral Blank → Phrase
  | whole ds => ds.phrase
  | ratio num _ _ sign den => .call (.name "__ratio__") true [num.phrase, Sign.phrase sign den.phrase]
  | decimal front places => .float (String.ofList (front ++ '.' :: places))

def Atom.phrase : Atom Blank → Phrase
  | numeral n => n.phrase
  | name x => .name (String.ofList (markWord x))

/-- The phrase of a sentence, its numerals without zeros in front. -/
def Sentence.phrase : {k : Level} → Sentence Blank k → Phrase
  | _, atom a => a.stripped.phrase
  | _, signed sign _ n => .signed sign.mark n.stripped.phrase
  | _, group _ e _ => .paren e.phrase
  | _, ofFactor t => t.phrase
  | _, ofTerm t => t.phrase
  | _, operation op l _ _ r => .binary (.mark op.mark) false l.phrase r.phrase

/-- A phrase on the first line. -/
def onLine (x : Phrase) : Piece := ⟨x, 1, 1⟩

/-! ## What may follow, and what may be open

  A sentence of a level stands between something that binds less tightly and something that binds no
  tighter.  Both are said of the one token that follows and the one frame on top, for the reader looks
  no further. -/

/-- How tightly the operations of a level bind. -/
def Level.binding : Level → Nat
  | sum => 8
  | term => 9
  | factor => 10

/-- The tokens that can follow a sentence of a level: the end, a closing bracket, or an operation that
    binds no tighter. -/
def follows (level : Nat) : Token → Bool
  | .eof => true
  | .mark m =>
    m = .closeParen || (m ∈ [Mark.plus, .minus, .star, .slash] && (Connective.mark m).level ≤ level)
  | _ => false

/-- The stacks on which a sentence of a level stands: on top is a bracket, or an operation that binds less
    tightly. -/
def admits (level : Nat) : List Frame → Bool
  | [] => true
  | .group _ :: _ => true
  | .left _ op :: _ => op.level < level
  | _ => false

/-- What can follow where little may follow can do so where more may. -/
theorem follows_mono {a b : Nat} (hab : a ≤ b) {t : Token} (h : follows a t = true) :
    follows b t = true := by
  cases t with
  | mark m =>
    simp only [follows, Bool.or_eq_true, Bool.and_eq_true, decide_eq_true_eq] at h ⊢
    exact h.imp id fun ⟨hm, hl⟩ => ⟨hm, Nat.le_trans hl hab⟩
  | eof => rfl
  | _ => cases h

/-- What admits a looser level admits a tighter one. -/
theorem admits_mono {a b : Nat} (hab : a ≤ b) {stack : List Frame} (h : admits a stack = true) :
    admits b stack = true := by
  cases stack with
  | nil => rfl
  | cons f stack =>
    cases f with
    | left x op => exact decide_eq_true (Nat.lt_of_lt_of_le (of_decide_eq_true h) hab)
    | group line => rfl
    | _ => cases h

/-- A token that can follow is the end, a closing bracket or an operation. -/
theorem follows_cases {level : Nat} {t : Token} (h : follows level t = true) :
    (t = .eof ∨ t = .mark .closeParen) ∨
      ∃ m, t = .mark m ∧ m ∈ [Mark.plus, .minus, .star, .slash] ∧ (Connective.mark m).level ≤ level := by
  cases t with
  | eof => exact Or.inl (Or.inl rfl)
  | mark m =>
    simp only [follows, Bool.or_eq_true, Bool.and_eq_true, decide_eq_true_eq] at h
    rcases h with rfl | ⟨hm, hl⟩
    · exact Or.inl (Or.inr rfl)
    · exact Or.inr ⟨m, rfl, hm, hl⟩
  | _ => cases h

/-! ## One token behind an operand

  All marks that can follow are treated alike, so each of these lemmas is about any of them.  Signs are
  applied first, then operations are joined, and then the token does what it does. -/

namespace Phrasing

variable {sts : List Statement} {stack : List Frame} {t : Placed} {level : Nat}

/-- Of what has been read, only the statements matter besides what is given. -/
theorem afterOperand_congr {s s' : Phrasing} (h : s.statements = s'.statements) (x : Piece)
    (stack : List Frame) (t : Placed) : s.afterOperand x stack t = s'.afterOperand x stack t := by
  cases s
  cases s'
  cases h
  rfl

/-- Behind an operand, whatever can follow applies the signs before it. -/
theorem take_complete (ht : follows level t.token = true) (x : Piece) :
    take ⟨sts, stack, .complete x⟩ t =
      afterOperand ⟨sts, [], .start⟩ (applySigns x stack).1 (applySigns x stack).2 t := by
  have hcongr : afterOperand ⟨sts, stack, .complete x⟩ (applySigns x stack).1 (applySigns x stack).2 t =
      afterOperand ⟨sts, [], .start⟩ (applySigns x stack).1 (applySigns x stack).2 t :=
    afterOperand_congr rfl _ _ t
  rw [← hcongr]
  obtain ⟨token, line⟩ := t
  -- none of the tokens that can follow is one of those that go on with an operand
  rcases follows_cases ht with (rfl | rfl) | ⟨m, rfl, hm, _⟩
  · rfl
  · rfl
  · simp only [List.mem_cons, List.not_mem_nil, or_false] at hm
    rcases hm with rfl | rfl | rfl | rfl <;> rfl

/-- No sign waits where a sentence can stand. -/
theorem applySigns_of_admits (h : admits level stack = true) (x : Piece) :
    applySigns x stack = (x, stack) := by
  cases stack with
  | nil => rfl
  | cons f stack =>
    cases f with
    | left y op => rfl
    | group line => rfl
    | _ => cases h

/-- A sign waits for its operand and nothing else. -/
theorem take_signed (ht : follows level t.token = true) (m : Mark)
    (x : Phrase) :
    take ⟨sts, .sign m 1 :: stack, .complete (onLine x)⟩ t =
      take ⟨sts, stack, .complete (onLine (.signed m x))⟩ t := by
  rw [take_complete ht, take_complete ht]
  rfl

/-- What follows an operand on a stack without signs: a connective, or the end of the operation. -/
theorem afterOperand_connective {m : Mark} {line : Nat} (hm : m ∈ [Mark.plus, .minus, .star, .slash])
    (hstack : admits level stack = true) (x : Piece) :
    afterOperand ⟨sts, [], .start⟩ x stack ⟨.mark m, line⟩ =
      connect ⟨sts, [], .start⟩ x (.mark m) stack := by
  simp only [List.mem_cons, List.not_mem_nil, or_false] at hm
  cases stack with
  | nil => rcases hm with rfl | rfl | rfl | rfl <;> rfl
  | cons f stack =>
    cases f with
    | left y op => rcases hm with rfl | rfl | rfl | rfl <;> rfl
    | group line => rcases hm with rfl | rfl | rfl | rfl <;> rfl
    | _ => cases hstack

/-- The end of an operation joins all that waits for it. -/
theorem afterOperand_end (ht : t.token = .eof ∨ t.token = .mark .closeParen)
    (hstack : admits level stack = true) (x : Piece) :
    afterOperand ⟨sts, [], .start⟩ x stack t =
      closeOperation ⟨sts, [], .start⟩ (joinAll x stack).1 (joinAll x stack).2 t := by
  obtain ⟨token, line⟩ := t
  cases stack with
  | nil => rcases ht with rfl | rfl <;> rfl
  | cons f stack =>
    cases f with
    | left y op => rcases ht with rfl | rfl <;> rfl
    | group line => rcases ht with rfl | rfl <;> rfl
    | _ => cases hstack

/-- Nothing on the stack binds tighter than the level it admits. -/
theorem joinAbove_of_admits (h : admits level stack = true) (x : Piece) :
    joinAbove level x stack = (x, stack) := by
  cases stack with
  | nil => rfl
  | cons f stack =>
    cases f with
    | left y op =>
      -- it binds less tightly, so it stays
      have hlt : op.level < level := of_decide_eq_true h
      rw [joinAbove, if_neg (Nat.not_lt.2 (Nat.le_of_lt hlt))]
    | group line => rfl
    | _ => cases h

/-- An operation on a stack that binds less tightly waits for its right operand. -/
theorem connect_of_admits {op : Connective} (h : admits op.level stack = true) (x : Piece) :
    connect ⟨sts, [], .start⟩ x op stack = .ok ⟨sts, .left x op :: stack, .operand⟩ := by
  unfold connect
  simp only [joinAbove_of_admits h]
  cases stack with
  | nil => rfl
  | cons f stack =>
    cases f with
    | left y op' =>
      have hlt : op'.level < op.level := of_decide_eq_true h
      simp only [Nat.ne_of_lt hlt, if_false]
      rfl
    | group line => rfl
    | _ => cases h

/-- **Operations join to the left.**  A left operand that waits on a stack which binds less tightly is
    joined with its right operand by whatever can follow. -/
theorem take_join {op : Connective} (hstack : admits op.level stack = true)
    (ht : follows op.level t.token = true) (x y : Piece) :
    take ⟨sts, .left x op :: stack, .complete y⟩ t = take ⟨sts, stack, .complete (join x op y)⟩ t := by
  have hleft : admits (op.level + 1) (.left x op :: stack) = true := decide_eq_true (Nat.lt_succ_self _)
  rw [take_complete ht, take_complete ht, applySigns_of_admits hleft, applySigns_of_admits hstack]
  obtain ⟨token, line⟩ := t
  rcases follows_cases ht with hend | ⟨m, rfl, hm, hlevel⟩
  · -- the end of an operation joins all that waits, whatever its level
    rw [afterOperand_end hend hleft, afterOperand_end hend hstack]
    rfl
  · rw [afterOperand_connective hm hleft, afterOperand_connective hm hstack]
    by_cases hlt : (Connective.mark m).level < op.level
    · -- the next operation binds less tightly: both sides join
      unfold connect
      simp only [joinAbove, hlt, if_true]
    · -- it binds as tightly: the left operand is joined, and waits for the next
      have heq : op.level = (Connective.mark m).level := Nat.le_antisymm (Nat.not_lt.1 hlt) hlevel
      have hright : connect ⟨sts, [], .start⟩ (join x op y) (.mark m) stack =
          .ok ⟨sts, .left (join x op y) (.mark m) :: stack, .operand⟩ :=
        connect_of_admits (heq ▸ hstack) _
      have hcomp : (Connective.mark m).isComparison = false := by
        simp only [List.mem_cons, List.not_mem_nil, or_false] at hm
        rcases hm with rfl | rfl | rfl | rfl <;> rfl
      rw [hright]
      unfold connect
      simp only [joinAbove, hlt, if_false]
      simp only [heq, if_true, hcomp, Bool.false_eq_true, if_false]
      rfl

/-- An operation behind its left operand waits for the right one. -/
theorem take_operation {outer inner : Level} (op : Operation outer inner)
    (hstack : admits outer.binding stack = true) (x : Piece) :
    take ⟨sts, stack, .complete x⟩ ⟨.mark op.mark, 1⟩ =
      .ok ⟨sts, .left x (.mark op.mark) :: stack, .operand⟩ := by
  have hlevel : (Connective.mark op.mark).level = outer.binding := by cases op <;> rfl
  have hmark : op.mark ∈ [Mark.plus, .minus, .star, .slash] := by cases op <;> decide
  have hfollows : follows outer.binding (.mark op.mark) = true := by cases op <;> rfl
  rw [take_complete hfollows, applySigns_of_admits hstack, afterOperand_connective hmark hstack]
  exact connect_of_admits (hlevel ▸ hstack) x

theorem take_closeParen (x : Phrase) :
    take ⟨sts, .group 1 :: stack, .complete (onLine x)⟩ ⟨.mark .closeParen, 1⟩ =
      .ok ⟨sts, stack, .complete (onLine (.paren x))⟩ := rfl

end Phrasing

/-! ## A whole sentence

  The induction goes along the grammar, for any state in which an operand may begin and any stack that
  admits the level of the sentence. -/

/-- The tokens that a sentence begins with. -/
def beginsOperand : Token → Bool
  | .name _ => true
  | .int _ _ => true
  | .float _ => true
  | .mark .openParen => true
  | .mark .plus => true
  | .mark .minus => true
  | _ => false

/-- An operand may begin. -/
def Ready (s : Phrasing) : Prop :=
  ∀ t : Placed, beginsOperand t.token = true → s.take t = s.operand s.stack t

/-- An operand may begin at the start, behind an operation and behind a bracket. -/
theorem ready_begin : Ready .begin := by
  rintro ⟨token, line⟩ h
  cases token with
  | eof => cases h
  | newline => cases h
  | _ => rfl

theorem ready_operand (sts : List Statement) (stack : List Frame) : Ready ⟨sts, stack, .operand⟩ :=
  fun _ _ => rfl

theorem ready_group (sts : List Statement) (stack : List Frame) :
    Ready ⟨sts, .group 1 :: stack, .first⟩ := by
  rintro ⟨token, line⟩ h
  cases token with
  | mark m => cases m <;> first | rfl | cases h
  | _ => rfl

/-- `Completes s ls level x` — reading the lexemes `ls` from `s` leads to where whatever can follow does
    what it does with the operand `x` on the stack of `s`. -/
def Completes (s : Phrasing) (ls : List Lexeme) (level : Nat) (x : Phrase) : Prop :=
  ∃ s', (placed 1 ls).foldlM Phrasing.take s = .ok s' ∧
    ∀ t : Placed, follows level t.token = true →
      s'.take t = Phrasing.take ⟨s.statements, s.stack, .complete (onLine x)⟩ t

/-- Reading goes on where it was. -/
theorem foldlM_placed_append (ls ls' : List Lexeme) (s : Phrasing) :
    (placed 1 (ls ++ ls')).foldlM Phrasing.take s =
      (placed 1 ls).foldlM Phrasing.take s >>= (placed 1 ls').foldlM Phrasing.take := by
  rw [placed, List.map_append, List.foldlM_append]
  rfl

/-- Reading a numeral or a name puts it on the stack in one piece. -/
theorem foldlM_numeral (n : Numeral Blank) {s : Phrasing} (hs : Ready s) :
    (placed 1 n.lexemes).foldlM Phrasing.take s =
      .ok ⟨s.statements, s.stack, .complete (onLine n.phrase)⟩ := by
  cases n with
  | whole ds =>
    show (s.take ⟨.int _ _, 1⟩ >>= fun s' => pure s') = _
    rw [hs _ rfl]
    rfl
  | ratio num before after sign den =>
    -- the tokens of the call, one after the other
    cases sign with
    | none =>
      show (s.take ⟨.name "__ratio__", 1⟩ >>= _) = _
      rw [hs _ rfl]
      rfl
    | some sign =>
      show (s.take ⟨.name "__ratio__", 1⟩ >>= _) = _
      rw [hs _ rfl]
      cases sign <;> rfl
  | decimal front places =>
    show (s.take ⟨.float _, 1⟩ >>= fun s' => pure s') = _
    rw [hs _ rfl]
    rfl

theorem foldlM_atom (a : Atom Blank) {s : Phrasing} (hs : Ready s) :
    (placed 1 a.lexemes).foldlM Phrasing.take s =
      .ok ⟨s.statements, s.stack, .complete (onLine a.phrase)⟩ := by
  cases a with
  | numeral n => exact foldlM_numeral n hs
  | name x =>
    show (s.take ⟨.name _, 1⟩ >>= fun s' => pure s') = _
    rw [hs _ rfl]
    rfl

/-- What completes an operand for a level does so for a looser one. -/
theorem Completes.mono {s : Phrasing} {ls : List Lexeme} {a b : Nat} {x : Phrase} (hab : a ≤ b)
    (h : Completes s ls b x) : Completes s ls a x := by
  obtain ⟨s', hread, hnext⟩ := h
  exact ⟨s', hread, fun t ht => hnext t (follows_mono hab ht)⟩

/-- **A sentence is read** as its phrase, wherever an operand may begin on a stack that its level
    admits. -/
theorem completes_lexemes (e : Sentence Blank k) {s : Phrasing} (hs : Ready s)
    (hstack : admits k.binding s.stack = true) : Completes s e.lexemes k.binding e.phrase := by
  induction e generalizing s with
  | atom a => exact ⟨_, foldlM_atom a.stripped hs, fun _ _ => rfl⟩
  | signed sign gap n =>
    -- the sign waits on the stack, and is applied by whatever follows
    have hsign : (placed 1 [⟨.mark sign.mark, true⟩]).foldlM Phrasing.take s =
        .ok ⟨s.statements, .sign sign.mark 1 :: s.stack, .operand⟩ := by
      show (s.take ⟨.mark sign.mark, 1⟩ >>= fun s' => pure s') = _
      rw [hs _ (by cases sign <;> rfl)]
      cases sign <;> rfl
    refine ⟨_, ?_, fun t ht => Phrasing.take_signed ht sign.mark n.stripped.phrase⟩
    rw [Sentence.lexemes, foldlM_placed_append, hsign]
    exact foldlM_numeral n.stripped (ready_operand _ _)
  | group before e after ih =>
    have hopen : (placed 1 [⟨.mark .openParen, true⟩]).foldlM Phrasing.take s =
        .ok ⟨s.statements, .group 1 :: s.stack, .first⟩ := by
      show (s.take ⟨.mark .openParen, 1⟩ >>= fun s' => pure s') = _
      rw [hs _ rfl]
      rfl
    -- the closing bracket follows at every level, and completes what is still in pieces
    obtain ⟨s', hread, hnext⟩ := ih (ready_group s.statements s.stack) rfl
    refine ⟨⟨s.statements, s.stack, .complete (onLine (.paren e.phrase))⟩, ?_, fun _ _ => rfl⟩
    rw [Sentence.lexemes, foldlM_placed_append, hopen]
    show (placed 1 (e.lexemes ++ [⟨.mark .closeParen, true⟩])).foldlM Phrasing.take _ = _
    rw [foldlM_placed_append, hread]
    show (s'.take ⟨.mark .closeParen, 1⟩ >>= fun s' => pure s') = _
    rw [hnext _ rfl, Phrasing.take_closeParen]
    rfl
  | ofFactor t ih => exact (ih hs (admits_mono (by decide) hstack)).mono (by decide)
  | ofTerm t ih => exact (ih hs (admits_mono (by decide) hstack)).mono (by decide)
  | @operation outer inner op l before after r ihl ihr =>
    have hlevel : (Connective.mark op.mark).level = outer.binding := by cases op <;> rfl
    have hinner : inner.binding = outer.binding + 1 := by cases op <;> rfl
    obtain ⟨s₁, hread₁, hnext₁⟩ := ihl hs hstack
    -- the operation follows the left operand, which is thereby completed and waits on the stack
    have hop : s₁.take ⟨.mark op.mark, 1⟩ =
        .ok ⟨s.statements, .left (onLine l.phrase) (.mark op.mark) :: s.stack, .operand⟩ := by
      rw [hnext₁ _ (by cases op <;> rfl), Phrasing.take_operation op hstack]
    have hleft : admits inner.binding (.left (onLine l.phrase) (.mark op.mark) :: s.stack) = true :=
      decide_eq_true (by omega)
    obtain ⟨s₂, hread₂, hnext₂⟩ := ihr (ready_operand s.statements _) hleft
    refine ⟨s₂, ?_, fun t ht => ?_⟩
    · rw [Sentence.lexemes, foldlM_placed_append, hread₁]
      show (s₁.take ⟨.mark op.mark, 1⟩ >>= (placed 1 r.lexemes).foldlM Phrasing.take) = _
      rw [hop]
      exact hread₂
    · -- with the right operand completed, what follows joins the two
      rw [hnext₂ t (follows_mono (by omega) ht), Phrasing.take_join (hlevel ▸ hstack) (hlevel ▸ ht)]
      rfl

/-- The tokens of a sentence say its phrase. -/
theorem readPhrases_lexemes (e : Sentence Blank k) :
    readPhrases (placed 1 e.lexemes ++ [⟨.eof, 0⟩]) = .ok [.expression e.phrase] := by
  have hadmits : admits k.binding Phrasing.begin.stack = true := rfl
  obtain ⟨s', hread, hnext⟩ := completes_lexemes e ready_begin hadmits
  rw [readPhrases, List.foldlM_append, hread]
  show (s'.take ⟨.eof, 0⟩ >>= fun s => pure s).map _ = _
  -- the end completes the operand, and makes a statement of it
  rw [hnext _ rfl]
  rfl

/-- The reader has nothing to complain about before the end, either. -/
theorem exists_readPhrases_of_prefix (e : Sentence Blank k) {ts : List Placed}
    (h : ts <+: placed 1 e.lexemes) :
    ∃ sts, readPhrases ts = .ok sts := by
  obtain ⟨ts', hts⟩ := h
  -- the whole is read without complaint, so each part of the way is
  have hall := readPhrases_lexemes e
  rw [readPhrases, ← hts, List.append_assoc, List.foldlM_append] at hall
  obtain ⟨s, hs, _⟩ := exists_of_map_ok hall
  obtain ⟨s', hs', _⟩ := exists_of_bind_ok hs
  exact ⟨s'.statements.reverse, by rw [readPhrases, hs']; rfl⟩

/-! ## The expression of the phrase

  Signs go with their numerals, marks are taken off, and zeros in front do not count. -/

/-- Digits stand for their number, with a point or a sign as well. -/
theorem integerOf_digits (ds : Digits) :
    integerOf (String.ofList ds) ds.value = .ok (ds.value : Int) := by
  have hall : (String.ofList ds.val).toList.all Char.isDigit = true := by
    rw [String.toList_ofList]
    exact List.all_eq_true.2 ds.property.2
  rw [integerOf, if_pos hall]

theorem decimalOf_digits (front places : Digits) :
    decimalOf (String.ofList (front ++ '.' :: places)) =
      .ok (Text.natOfDigits (front ++ places.val), (10 ^ places.val.length : Nat)) := by
  obtain ⟨hne, hfront⟩ := front.property
  obtain ⟨hne', hplaces⟩ := places.property
  have hpoint : ∀ c ∈ ('.' :: places.val).head?, c.isDigit = false := by
    rintro c ⟨⟩
    rfl
  have hall : places.val.all Char.isDigit = true := List.all_eq_true.2 hplaces
  unfold decimalOf
  simp only [String.toList_ofList, takeWhile_run hfront hpoint, dropWhile_run hfront hpoint, hall]
  rw [if_neg (by simp [hne, hne'])]
  rfl

/-- The parts of a ratio may have a sign. -/
theorem ratioPart_sign (sign : Option Sign) (ds : Digits) :
    ratioPart (Sign.phrase sign ds.phrase) = .ok ((sign.getD .plus).apply ds.value) := by
  have hint := integerOf_digits ds
  cases sign with
  | none => exact hint
  | some s =>
    cases s with
    | plus => exact hint
    | minus =>
      show (integerOf (String.ofList ds) ds.value).map (signedBy true) = _
      rw [hint]
      rfl

/-- A numeral behind a sign is its literal. -/
theorem literalOf_phrase (sign : Sign) (n : Numeral Blank) :
    literalOf (sign = .minus) n.phrase = .ok (n.tree sign) := by
  -- the sign of the reader is that of the grammar
  have hsign : ∀ v : Nat, signedBy (sign = .minus) v = sign.apply v := by
    intro v
    cases sign <;> rfl
  cases n with
  | whole ds =>
    show (integerOf (String.ofList ds) ds.value).map _ = _
    rw [integerOf_digits]
    exact congrArg (fun v => Except.ok (Expr.integer v)) (hsign ds.value)
  | ratio num before after s den =>
    have hnum : ratioPart num.phrase = .ok (num.value : Int) := ratioPart_sign none num
    show (do
      let n ← ratioPart num.phrase
      let d ← ratioPart (Sign.phrase s den.phrase)
      return Expr.rational (signedBy (sign = Sign.minus) n) d) = _
    rw [hnum, ratioPart_sign s den]
    exact congrArg (fun v => Except.ok (Expr.rational v _)) (hsign num.value)
  | decimal front places =>
    show (decimalOf (String.ofList (front ++ '.' :: places))).map _ = _
    rw [decimalOf_digits]
    exact congrArg (fun v => Except.ok (Expr.rational v _)) (hsign _)

/-- A numeral without a sign is its literal, too. -/
theorem exprOf_numeral (n : Numeral Blank) : exprOf n.phrase = .ok (n.tree .plus) := by
  rw [← literalOf_phrase .plus n]
  cases n <;> rfl

/-- What does not begin as the mark does is left. -/
theorem unmarkWord_cons {c : Char} (hc : c ≠ '_') (cs : List Char) : unmarkWord (c :: cs) = c :: cs := by
  have hprefix : wordMark.isPrefixOf (c :: cs) = false := by
    cases h : wordMark.isPrefixOf (c :: cs) with
    | false => rfl
    | true =>
      have hcons : ('_' :: ['_', 'k', 'w', '_']) <+: c :: cs := List.isPrefixOf_iff_prefix.1 h
      exact absurd (List.cons_prefix_cons.1 hcons).1.symm hc
  rw [unmarkWord, hprefix]
  rfl

/-- Behind the mark of a reserved word the name goes on as before. -/
theorem unmarkWord_append (x : Name) {w : List Char} (hw : w = x.val ∨ w = markWord x) (v : List Char) :
    unmarkWord (w ++ v) = x.val ++ v := by
  obtain ⟨c, cs, hx, hc, _⟩ := x.exists_cons
  have hplain : unmarkWord (x.val ++ v) = x.val ++ v := by
    have hunderscore : c ≠ '_' := by
      rintro rfl
      cases hc
    rw [hx, List.cons_append, unmarkWord_cons hunderscore]
  rcases hw with rfl | rfl
  · exact hplain
  · -- the mark is there if the name is reserved, and only then
    unfold markWord
    split
    · have hprefix : wordMark.isPrefixOf (wordMark ++ (x.val ++ v)) = true :=
        List.isPrefixOf_iff_prefix.2 (List.prefix_append _ _)
      rw [List.append_assoc, unmarkWord, if_pos hprefix, List.drop_left]
    · exact hplain

/-- The mark of a reserved word is taken off again. -/
theorem unmarkWord_markWord (x : Name) : unmarkWord (markWord x) = x := by
  have h := unmarkWord_append x (Or.inr rfl) []
  rwa [List.append_nil, List.append_nil] at h

/-- A name refers to itself, marked or not. -/
theorem referenceOf_markWord (x : Name) :
    referenceOf (String.ofList (markWord x)) = .ok (.reference (String.ofList x)) := by
  unfold referenceOf
  simp only [String.toList_ofList, unmarkWord_markWord, x.property, if_true]

/-- **The expression of a sentence's phrase is its tree.** -/
theorem exprOf_phrase (e : Sentence Blank k) : exprOf e.phrase = .ok e.tree := by
  induction e with
  | atom a =>
    cases a with
    | numeral n => exact (exprOf_numeral n.stripped).trans (congrArg _ (n.tree_stripped .plus))
    | name x => exact referenceOf_markWord x
  | signed sign gap n =>
    have hmark : (sign.mark = Mark.minus || sign.mark = Mark.plus) = true := by cases sign <;> rfl
    have hminus : decide (sign.mark = Mark.minus) = decide (sign = Sign.minus) := by cases sign <;> rfl
    rw [Sentence.phrase, exprOf, if_pos hmark, hminus, literalOf_phrase, n.tree_stripped]
    rfl
  | group before e after ih => exact ih
  | ofFactor t ih => exact ih
  | ofTerm t ih => exact ih
  | operation op l before after r ihl ihr =>
    have hop : (Connective.mark op.mark).operator? = some op.operator := by cases op <;> rfl
    rw [Sentence.phrase, exprOf, hop, ihl, ihr]
    rfl

end Reckoner.Source
