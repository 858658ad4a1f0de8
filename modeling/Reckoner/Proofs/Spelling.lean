/-
  Which tokens say an expression.  `Spelled` relates a phrase to the tokens it is read from, for the
  phrases that can become expressions.

  The reader of phrases knows a much larger language, but what is foreign to expressions stays foreign
  in every phrase around it, and whatever has been begun must be finished.  So a reading that ends with
  an expression goes through states that hold nothing foreign (`Clean`), and between two such states a
  token can do very little (`move_of_take`).
-/
import Reckoner.Proofs.Phrasing

namespace Reckoner.Source

/-! ## Phrases and their tokens

  The levels are those of sentences, so that a spelled phrase gives a sentence once its tokens are
  traced to the text.  A comma may stand behind the second part of a ratio, which no sentence has; it
  comes from no text, since ratios are called without it. -/

/-- A part of a ratio. -/
inductive Part : Phrase → List Token → Prop
  | bare (raw : String) (n : Nat) : Part (.int raw n) [.int raw n]
  | signed (sign : Sign) (raw : String) (n : Nat) :
      Part (.signed sign.mark (.int raw n)) [.mark sign.mark, .int raw n]

/-- A numeral.  Behind the parts of a ratio the reader lets a comma pass. -/
inductive Literal : Phrase → List Token → Prop
  | int (raw : String) (n : Nat) : Literal (.int raw n) [.int raw n]
  | float (raw : String) : Literal (.float raw) [.float raw]
  | ratio (oneLine : Bool) {a b : Phrase} {ts us : List Token} (ha : Part a ts) (hb : Part b us)
      {comma : List Token} (hcomma : comma = [] ∨ comma = [.mark .comma]) :
      Literal (.call (.name "__ratio__") oneLine [a, b])
        (.name "__ratio__" :: .mark .openParen ::
          (ts ++ .mark .comma :: (us ++ (comma ++ [.mark .closeParen]))))

/-- A phrase of a level of the grammar, and its tokens. -/
inductive Spelled : Level → Phrase → List Token → Prop
  | name (s : String) : Spelled .factor (.name s) [.name s]
  | literal {x : Phrase} {ts : List Token} (h : Literal x ts) : Spelled .factor x ts
  | signed (sign : Sign) {x : Phrase} {ts : List Token} (h : Literal x ts) :
      Spelled .factor (.signed sign.mark x) (.mark sign.mark :: ts)
  | group {x : Phrase} {ts : List Token} (h : Spelled .sum x ts) :
      Spelled .factor (.paren x) (.mark .openParen :: (ts ++ [.mark .closeParen]))
  | ofFactor {x : Phrase} {ts : List Token} (h : Spelled .factor x ts) : Spelled .term x ts
  | ofTerm {x : Phrase} {ts : List Token} (h : Spelled .term x ts) : Spelled .sum x ts
  | operation {outer inner : Level} (op : Operation outer inner) (broken : Bool) {x y : Phrase}
      {ts us : List Token} (hx : Spelled outer x ts) (hy : Spelled inner y us) :
      Spelled outer (.binary (.mark op.mark) broken x y) (ts ++ .mark op.mark :: us)

/-- The mark of an operation binds as its level does. -/
theorem Operation.level_mark {outer inner : Level} (op : Operation outer inner) :
    (Connective.mark op.mark).level = outer.binding := by
  cases op <;> rfl

/-- The right operand is of the next tighter level, so equals go to the left. -/
theorem Operation.binding_inner {outer inner : Level} (op : Operation outer inner) :
    inner.binding = outer.binding + 1 := by
  cases op <;> rfl

/-- What binds tightly can stand where less is asked for. -/
theorem Spelled.loosen {j k : Level} {x : Phrase} {ts : List Token} (h : Spelled j x ts)
    (hjk : k.binding ≤ j.binding) : Spelled k x ts := by
  -- each of the nine pairs of levels is a way to wrap the phrase, or is excluded
  cases j with
  | sum =>
    cases k with
    | sum => exact h
    | term => exact absurd hjk (by decide)
    | factor => exact absurd hjk (by decide)
  | term =>
    cases k with
    | sum => exact .ofTerm h
    | term => exact h
    | factor => exact absurd hjk (by decide)
  | factor =>
    cases k with
    | sum => exact .ofTerm (.ofFactor h)
    | term => exact .ofFactor h
    | factor => exact h

/-! ## Phrases that become expressions

  What a phrase becomes is told from its shape, and is told of all its parts: an operation that becomes
  an expression has operands that do, and a call has the two parts of a ratio.  These inversions are
  what carries soundness from a finished phrase back to the moment it was begun. -/

/-- The phrase becomes an expression. -/
def Phrase.Sound (x : Phrase) : Prop := ∃ e, exprOf x = .ok e

/-- An operation that becomes an expression has an operator with arithmetic, and operands that become
    expressions. -/
theorem exists_of_exprOf_binary {op : Connective} {broken : Bool} {x y : Phrase} {e : Expr}
    (h : exprOf (.binary op broken x y) = .ok e) :
    ∃ o l r, op.operator? = some o ∧ exprOf x = .ok l ∧ exprOf y = .ok r ∧ e = .binary o l r := by
  rw [exprOf] at h
  cases ho : op.operator? with
  | none =>
    rw [ho] at h
    cases h
  | some o =>
    rw [ho] at h
    obtain ⟨l, hl, h⟩ := exists_of_bind_ok h
    obtain ⟨r, hr, h⟩ := exists_of_bind_ok h
    exact ⟨o, l, r, rfl, hl, hr, (Except.ok.inj h).symm⟩

/-- Behind a sign a numeral is read as a literal with the sign. -/
theorem exprOf_signed (sign : Sign) (x : Phrase) :
    exprOf (.signed sign.mark x) = literalOf (sign = .minus) x := by
  cases sign <;> rfl

/-- Nothing but plus and minus, before a numeral, becomes an expression. -/
theorem exists_of_exprOf_signed {m : Mark} {x : Phrase} {e : Expr} (h : exprOf (.signed m x) = .ok e) :
    ∃ sign : Sign, m = sign.mark ∧ literalOf (sign = .minus) x = .ok e := by
  rw [exprOf] at h
  split at h
  · rename_i hm
    have hm : m = .minus ∨ m = .plus := by simpa using hm
    rcases hm with rfl | rfl
    · exact ⟨.minus, rfl, h⟩
    · exact ⟨.plus, rfl, h⟩
  · cases h

/-- A call that becomes an expression is a ratio of two parts. -/
theorem exists_of_literalOf_call {negative : Bool} {f : Phrase} {oneLine : Bool} {args : List Phrase}
    {e : Expr} (h : literalOf negative (.call f oneLine args) = .ok e) :
    ∃ num den n d, f = .name "__ratio__" ∧ args = [num, den] ∧ ratioPart num = .ok n ∧
      ratioPart den = .ok d ∧
      e = .rational (signedBy negative n) d := by
  unfold literalOf at h
  split at h
  · cases ‹Phrase.call _ _ _ = _›
  · cases ‹Phrase.call _ _ _ = _›
  · cases ‹Phrase.call _ _ _ = _›
  · cases ‹Phrase.call _ _ _ = _›
  · -- the only call that is taken is that of a ratio with two arguments
    rename_i num den heq
    cases heq
    obtain ⟨n, hn, h⟩ := exists_of_bind_ok h
    obtain ⟨d, hd, h⟩ := exists_of_bind_ok h
    exact ⟨num, den, n, d, rfl, rfl, hn, hd, (Except.ok.inj h).symm⟩
  · cases h
  · cases h

/-- A sign makes no difference to whether a numeral is taken. -/
theorem sound_of_literalOf {negative : Bool} {x : Phrase} {e : Expr} (h : literalOf negative x = .ok e) :
    x.Sound := by
  cases x with
  | int raw n =>
    obtain ⟨v, hv, _⟩ := exists_of_map_ok h
    exact ⟨_, by rw [exprOf, literalOf, hv]; rfl⟩
  | float raw =>
    obtain ⟨v, hv, _⟩ := exists_of_map_ok h
    exact ⟨_, by rw [exprOf, literalOf, hv]; rfl⟩
  | call f oneLine args =>
    -- the parts are the same with another sign in front
    obtain ⟨num, den, n, d, rfl, rfl, hn, hd, _⟩ := exists_of_literalOf_call h
    exact ⟨_, by rw [exprOf, literalOf, hn, hd]; rfl⟩
  | _ => cases h

/-- A part of a ratio is an integer with a sign or without one. -/
theorem exists_of_ratioPart {x : Phrase} {v : Int} (h : ratioPart x = .ok v) :
    (∃ raw n, x = .int raw n) ∨
      ∃ (sign : Sign) (raw : String) (n : Nat), x = .signed sign.mark (.int raw n) := by
  unfold ratioPart at h
  split at h
  · exact Or.inl ⟨_, _, rfl⟩
  · exact Or.inr ⟨.minus, _, _, rfl⟩
  · exact Or.inr ⟨.plus, _, _, rfl⟩
  · cases h

/-- A part of a ratio is sound by itself, too. -/
theorem sound_of_ratioPart {x : Phrase} {v : Int} (h : ratioPart x = .ok v) : x.Sound := by
  rcases exists_of_ratioPart h with ⟨raw, n, rfl⟩ | ⟨sign, raw, n, rfl⟩
  · have hv : integerOf raw n = .ok v := h
    exact ⟨_, by rw [exprOf, literalOf, hv]; rfl⟩
  · -- a sign is passed to the integer behind it
    have hint : ∃ w, integerOf raw n = .ok w := by
      cases sign with
      | plus => exact ⟨v, h⟩
      | minus =>
        obtain ⟨w, hw, _⟩ := exists_of_map_ok (o := integerOf raw n) h
        exact ⟨w, hw⟩
    obtain ⟨w, hw⟩ := hint
    exact ⟨_, by rw [exprOf_signed, literalOf, hw]; rfl⟩

/-- The tokens of a part, if a sum is one. -/
theorem Spelled.part {k : Level} {x : Phrase} {ts : List Token} (h : Spelled k x ts) {v : Int}
    (hv : ratioPart x = .ok v) : Part x ts := by
  induction h with
  | name s => cases hv
  | literal h =>
    cases h with
    | int raw n => exact .bare raw n
    | float raw => cases hv
    | ratio => cases hv
  | signed sign h =>
    -- a sign stands before an integer, and not before a decimal or a ratio
    cases h with
    | int raw n => exact .signed sign raw n
    | float raw => cases sign <;> cases hv
    | ratio => cases sign <;> cases hv
  | group h => cases hv
  | ofFactor h ih => exact ih hv
  | ofTerm h ih => exact ih hv
  | operation op broken hx hy => cases hv

/-- The tokens of a numeral, if a factor is one. -/
theorem Spelled.literal_of {x : Phrase} {ts : List Token} (h : Spelled .factor x ts) {negative : Bool}
    {e : Expr} (he : literalOf negative x = .ok e) : Literal x ts := by
  cases h with
  | name s => cases he
  | literal h => exact h
  | signed sign h => cases he
  | group h => cases he
  | operation op => nomatch op

/-! ## States that hold nothing foreign

  `Phrasing.Clean` is the invariant of a reading that ends in an expression.  It is proved backwards: of
  the last state it is known, and a state from which a token leads to a clean one is clean itself.
  `Move` lists all that a token can do then, out of the many things that the reader can do. -/

/-- The shapes of phrases that no expression has. -/
def Phrase.isForeign : Phrase → Bool
  | .name _ => false
  | .int _ _ => false
  | .float _ => false
  | .paren _ => false
  | .signed _ _ => false
  | .binary _ _ _ _ => false
  | .call _ _ _ => false
  | _ => true

/-- No expression comes of a phrase of such a shape. -/
theorem exprOf_of_isForeign {x : Phrase} (hx : x.isForeign = true) (e : Expr) : exprOf x ≠ .ok e := by
  intro he
  cases x with
  | name | int | float | paren | signed | binary | call => cases hx
  | _ => cases he

/-- The frames that an expression can be inside of. -/
def Frame.Clean : Frame → Prop
  | .sign m _ => m = .plus ∨ m = .minus
  | .left x op => x.phrase.Sound ∧ ∃ o, op.operator? = some o
  | .group _ => True
  | .argument f args => f.phrase = .name "__ratio__" ∧ ∀ a ∈ args, ∃ v, ratioPart a = .ok v
  | _ => False

/-- An operand that becomes an expression, or will as soon as it is called. -/
def Phrase.Usable (x : Phrase) : Prop := x = .name "__ratio__" ∨ x.Sound

/-- The modes that a reading can be in without anything foreign. -/
def Mode.Clean : Mode → Prop
  | .member _ => False
  | .negated _ => False
  | .complete x => x.phrase.Usable
  | _ => True

/-- The modes between the first and the last token of a statement. -/
def Mode.isInside : Mode → Bool
  | .start => false
  | .resume => false
  | _ => true

/-- Nothing foreign has been begun, and at most one statement is over, with nothing begun behind it. -/
structure Phrasing.Clean (s : Phrasing) : Prop where
  frames : s.mode.isInside = true → ∀ f ∈ s.stack, f.Clean
  mode : s.mode.Clean
  statements : s.statements = [] ∨ s.mode.isInside = false ∧ ∃ x, s.statements = [.expression x] ∧ x.Sound

/-- The modes in which an operand can begin. -/
def Mode.Awaits : Mode → Prop
  | .start => True
  | .resume => True
  | .operand => True
  | .first => True
  | .next => True
  | _ => False

/-- How an operand begins. -/
inductive Begins (stack : List Frame) : Token → Phrasing → Prop
  | leaf {t : Token} {x : Piece} (h : Spelled .factor x.phrase [t]) :
      Begins stack t ⟨[], stack, .complete x⟩
  | group (line : Nat) : Begins stack (.mark .openParen) ⟨[], .group line :: stack, .first⟩
  | sign (sign : Sign) (line : Nat) :
      Begins stack (.mark sign.mark) ⟨[], .sign sign.mark line :: stack, .operand⟩

/-- The tokens behind a statement that end its line or everything. -/
def Token.isBreak (t : Token) : Bool := t = .newline || t = .eof

/-- What closes the phrase `x`, by what is open around it. -/
inductive Closes (x : Piece) : List Frame → Token → Phrasing → Prop
  | statement {t : Token} {mode : Mode}
      (h : t = .mark .semicolon ∧ mode = .resume ∨ t.isBreak = true ∧ mode = .start) :
      Closes x [] t ⟨[.expression x.phrase], [], mode⟩
  | group (stack : List Frame) (line first last : Nat) :
      Closes x (.group line :: stack) (.mark .closeParen)
        ⟨[], stack, .complete ⟨.paren x.phrase, first, last⟩⟩
  | argument (stack : List Frame) (f : Piece) (args : List Phrase) :
      Closes x (.argument f args :: stack) (.mark .comma)
        ⟨[], .argument f (x.phrase :: args) :: stack, .next⟩
  | call (stack : List Frame) (f : Piece) (args : List Phrase) (t : Placed) :
      Closes x (.argument f args :: stack) (.mark .closeParen)
        ⟨[], stack, .complete (Phrasing.callOf f (x.phrase :: args) t)⟩

/-- What a token can do between two clean states. -/
inductive Move : Phrasing → Token → Phrasing → Prop
  | idle {t : Token} (ht : t.isBreak = true) (sts : List Statement) (stack : List Frame) :
      Move ⟨sts, stack, .start⟩ t ⟨sts, stack, .start⟩
  | resume {t : Token} (ht : t.isBreak = true) (sts : List Statement) (stack : List Frame) :
      Move ⟨sts, stack, .resume⟩ t ⟨sts, stack, .start⟩
  | operand {t : Token} {stack : List Frame} {mode : Mode} {s' : Phrasing} (hm : mode.Awaits)
      (h : Begins stack t s') : Move ⟨[], stack, mode⟩ t s'
  | callee (f : Piece) (stack : List Frame) :
      Move ⟨[], stack, .complete f⟩ (.mark .openParen) ⟨[], .argument f [] :: stack, .first⟩
  | call {mode : Mode} (hm : mode.Awaits) (f : Piece) (args : List Phrase) (stack : List Frame)
      (t : Placed) :
      Move ⟨[], .argument f args :: stack, mode⟩ (.mark .closeParen)
        ⟨[], stack, .complete (Phrasing.callOf f args t)⟩
  | connect {m : Mark} {s' : Phrasing} {x : Piece} {stack : List Frame}
      (hx : (Phrasing.applySigns x stack).1.phrase.Sound)
      (h : Phrasing.connect ⟨[], [], .start⟩ (Phrasing.applySigns x stack).1 (.mark m)
        (Phrasing.applySigns x stack).2 = .ok s') :
      Move ⟨[], stack, .complete x⟩ (.mark m) s'
  | close {t : Token} {s' : Phrasing} {x : Piece} {stack : List Frame}
      (hx : (Phrasing.applySigns x stack).1.phrase.Sound)
      (h : Closes (Phrasing.joinAll (Phrasing.applySigns x stack).1 (Phrasing.applySigns x stack).2).1
        (Phrasing.joinAll (Phrasing.applySigns x stack).1 (Phrasing.applySigns x stack).2).2 t s') :
      Move ⟨[], stack, .complete x⟩ t s'

/-! ## One token between clean states

  The lemmas follow the functions of the reader, one for each.  Most branches lead to a frame or a
  phrase that is foreign, and are out of the question by `goto_ne_ok_of_frame` or
  `goto_ne_ok_of_foreign`; what is left are the moves. -/

namespace Phrasing

variable {s s' : Phrasing} {stack : List Frame} {mode : Mode} {t : Placed} {x : Piece}

/-- What goes on inside a statement to a clean state. -/
theorem clean_of_goto (hm : mode.isInside = true) (h : s.goto stack mode = .ok s') (hc : s'.Clean) :
    s.statements = [] ∧ s' = ⟨[], stack, mode⟩ ∧ (∀ f ∈ stack, f.Clean) ∧ mode.Clean := by
  cases h
  -- inside a statement no other one is over
  have hsts : s.statements = [] := by
    rcases hc.statements with hsts | ⟨hmode, _⟩
    · exact hsts
    · exact absurd (hm.symm.trans hmode) (by decide)
  refine ⟨hsts, ?_, hc.frames hm, hc.mode⟩
  rw [hsts]

/-- A foreign frame on top is not clean. -/
theorem goto_ne_ok_of_frame (hm : mode.isInside = true) {f : Frame} (hf : ¬ f.Clean) (hc : s'.Clean) :
    s.goto (f :: stack) mode ≠ .ok s' := by
  intro h
  obtain ⟨_, _, hframes, _⟩ := clean_of_goto hm h hc
  exact hf (hframes f List.mem_cons_self)

/-- A foreign operand is not clean. -/
theorem goto_ne_ok_of_foreign (hx : x.phrase.isForeign = true) (hc : s'.Clean) :
    s.goto stack (.complete x) ≠ .ok s' := by
  intro h
  obtain ⟨_, _, _, hu | ⟨e, he⟩⟩ := clean_of_goto rfl h hc
  · rw [hu] at hx
    cases hx
  · exact exprOf_of_isForeign hx e he

/-- An operand that begins. -/
theorem begins_of_operand (h : s.operand stack t = .ok s') (hc : s'.Clean) :
    s.statements = [] ∧ (∀ f ∈ stack, f.Clean) ∧ Begins stack t.token s' := by
  -- one token that is an operand by itself
  have hleaf : ∀ {x : Phrase}, Spelled .factor x [t.token] →
      s.goto stack (.complete (leaf x t)) = .ok s' →
      s.statements = [] ∧ (∀ f ∈ stack, f.Clean) ∧ Begins stack t.token s' := by
    intro x hx h
    obtain ⟨hsts, rfl, hframes, _⟩ := clean_of_goto rfl h hc
    exact ⟨hsts, hframes, .leaf hx⟩
  -- a sign, which waits for its operand
  have hsign : ∀ sign : Sign, t.token = .mark sign.mark →
      s.goto (.sign sign.mark t.line :: stack) .operand = .ok s' →
      s.statements = [] ∧ (∀ f ∈ stack, f.Clean) ∧ Begins stack t.token s' := by
    intro sign ht h
    obtain ⟨hsts, rfl, hframes, _⟩ := clean_of_goto rfl h hc
    exact ⟨hsts, fun f hf => hframes f (List.mem_cons_of_mem _ hf), ht ▸ .sign sign t.line⟩
  unfold operand at h
  split at h
  · rename_i y ht
    exact hleaf (ht ▸ .name y) h
  · rename_i raw n ht
    exact hleaf (ht ▸ .literal (.int raw n)) h
  · rename_i raw ht
    exact hleaf (ht ▸ .literal (.float raw)) h
  · -- texts and bytes are foreign operands, brackets and braces open foreign frames
    exact absurd h (goto_ne_ok_of_foreign rfl hc)
  · exact absurd h (goto_ne_ok_of_foreign rfl hc)
  · exact absurd h (goto_ne_ok_of_frame rfl id hc)
  · exact absurd h (goto_ne_ok_of_frame rfl id hc)
  · rename_i ht
    obtain ⟨hsts, rfl, hframes, _⟩ := clean_of_goto rfl h hc
    exact ⟨hsts, fun f hf => hframes f (List.mem_cons_of_mem _ hf), ht ▸ .group t.line⟩
  · exact hsign .minus ‹_› h
  · exact hsign .plus ‹_› h
  · exact absurd h (goto_ne_ok_of_frame rfl (by rintro (hm | hm) <;> cases hm) hc)
  · cases h

/-- Signs, left operands and conditionals that are taken in leave their mark on the phrase. -/
theorem clean_of_applySigns (hx : (applySigns x stack).1.phrase.Sound)
    (hstack : ∀ f ∈ (applySigns x stack).2, f.Clean) : x.phrase.Sound ∧ ∀ f ∈ stack, f.Clean := by
  fun_induction applySigns x stack with
  | case1 x m line rest ih =>
    -- a sign that has been applied stands before a numeral, which is sound without it
    obtain ⟨⟨e, he⟩, hrest⟩ := ih hx hstack
    obtain ⟨sign, rfl, hlit⟩ := exists_of_exprOf_signed he
    refine ⟨sound_of_literalOf hlit, List.forall_mem_cons.2 ⟨?_, hrest⟩⟩
    cases sign with
    | plus => exact Or.inl rfl
    | minus => exact Or.inr rfl
  | case2 x stack => exact ⟨hx, hstack⟩

/-- An operation that has been put together tells of both its operands, and of the frame that waited. -/
theorem clean_of_join {y : Piece} {op : Connective} (h : (join x op y).phrase.Sound) :
    y.phrase.Sound ∧ (Frame.left x op).Clean := by
  obtain ⟨e, he⟩ := h
  obtain ⟨o, l, r, ho, hl, hr, _⟩ := exists_of_exprOf_binary he
  exact ⟨⟨r, hr⟩, ⟨l, hl⟩, o, ho⟩

/-- So does an operand that has been joined with all that binds tighter than a level, -/
theorem clean_of_joinAbove {level : Nat} (hx : (joinAbove level x stack).1.phrase.Sound)
    (hstack : ∀ f ∈ (joinAbove level x stack).2, f.Clean) : x.phrase.Sound ∧ ∀ f ∈ stack, f.Clean := by
  fun_induction joinAbove level x stack with
  | case1 y x op rest hlevel ih =>
    -- what was joined last is an operation; its left operand was the frame
    obtain ⟨hjoin, hrest⟩ := ih hx hstack
    obtain ⟨hy, hleft⟩ := clean_of_join hjoin
    exact ⟨hy, List.forall_mem_cons.2 ⟨hleft, hrest⟩⟩
  | case2 y x op rest hlevel => exact ⟨hx, hstack⟩
  | case3 y stack => exact ⟨hx, hstack⟩

/-- or with all that waited for a right operand. -/
theorem clean_of_joinAll (hx : (joinAll x stack).1.phrase.Sound)
    (hstack : ∀ f ∈ (joinAll x stack).2, f.Clean) : x.phrase.Sound ∧ ∀ f ∈ stack, f.Clean := by
  fun_induction joinAll x stack with
  | case1 y x op rest ih =>
    obtain ⟨hjoin, hrest⟩ := ih hx hstack
    obtain ⟨hy, hleft⟩ := clean_of_join hjoin
    exact ⟨hy, List.forall_mem_cons.2 ⟨hleft, hrest⟩⟩
  | case2 y stack => exact ⟨hx, hstack⟩

/-- A conditional is no expression, so none has been ended. -/
theorem endConditionals_of_sound (hx : (endConditionals x stack).1.phrase.Sound) :
    endConditionals x stack = (x, stack) := by
  -- a conditional inside of others stays one
  have hconditional : ∀ (stack : List Frame) (y : Piece) (a b c : Phrase), y.phrase = .conditional a b c →
      ¬ (endConditionals y stack).1.phrase.Sound := by
    intro stack y a b c hy hsound
    fun_induction endConditionals y stack generalizing a b c with
    | case1 y x cond rest ih => exact ih _ _ _ rfl hsound
    | case2 y stack =>
      rw [hy] at hsound
      obtain ⟨_, he⟩ := hsound
      cases he
  fun_cases endConditionals x stack with
  | case1 y cond rest =>
    rw [endConditionals] at hx
    exact absurd hx (hconditional _ _ _ _ _ rfl)
  | case2 => rfl

/-- A call that becomes an expression has parts of a ratio for arguments. -/
theorem clean_of_callOf {f : Piece} {args : List Phrase} (h : (callOf f args t).phrase.Usable) :
    (Frame.argument f args).Clean ∧ ∃ num den, args = [den, num] := by
  rcases h with h | ⟨e, he⟩
  · cases h
  · have he : literalOf false (callOf f args t).phrase = .ok e := he
    obtain ⟨num, den, n, d, hf, hargs, hn, hd, _⟩ := exists_of_literalOf_call he
    -- arguments are kept the last first
    have hargs : args = [den, num] := by
      rw [← List.reverse_reverse args, hargs]
      rfl
    refine ⟨⟨hf, ?_⟩, num, den, hargs⟩
    rw [hargs]
    exact List.forall_mem_cons.2 ⟨⟨d, hd⟩, List.forall_mem_cons.2 ⟨⟨n, hn⟩, fun _ h => nomatch h⟩⟩

/-- The first statement that is over is the only one, and an expression. -/
theorem clean_of_finish {st : Statement} (h : s.finish st mode = .ok s') (hc : s'.Clean) :
    s.statements = [] ∧ ∃ x, st = .expression x ∧ x.Sound ∧ s' = ⟨[.expression x], [], mode⟩ := by
  cases h
  rcases hc.statements with hsts | ⟨_, x, hsts, hx⟩
  · cases hsts
  · obtain ⟨rfl, hnil⟩ := List.cons.inj hsts
    refine ⟨hnil, x, rfl, hx, ?_⟩
    rw [hnil]

/-- A statement ends with a semicolon, a line end or the end of everything. -/
theorem clean_of_afterStatement {st : Statement} (h : s.afterStatement st t = .ok s') (hc : s'.Clean) :
    s.statements = [] ∧ ∃ y mode, st = .expression y ∧ y.Sound ∧ s' = ⟨[.expression y], [], mode⟩ ∧
      (t.token = .mark .semicolon ∧ mode = .resume ∨ t.token.isBreak = true ∧ mode = .start) := by
  unfold afterStatement at h
  split at h
  · rename_i ht
    obtain ⟨hsts, y, hst, hy, hs'⟩ := clean_of_finish h hc
    exact ⟨hsts, y, _, hst, hy, hs', Or.inl ⟨ht, rfl⟩⟩
  · rename_i ht
    obtain ⟨hsts, y, hst, hy, hs'⟩ := clean_of_finish h hc
    exact ⟨hsts, y, _, hst, hy, hs', Or.inr ⟨by rw [ht]; rfl, rfl⟩⟩
  · rename_i ht
    obtain ⟨hsts, y, hst, hy, hs'⟩ := clean_of_finish h hc
    exact ⟨hsts, y, _, hst, hy, hs', Or.inr ⟨by rw [ht]; rfl, rfl⟩⟩
  · cases h

/-- Behind an argument stands a comma, or the bracket that ends the call; either way it is part of a
    ratio. -/
theorem closes_of_afterArgument {f : Piece} {args : List Phrase}
    (h : s.afterArgument f (x.phrase :: args) stack t = .ok s') (hc : s'.Clean) :
    s.statements = [] ∧ x.phrase.Sound ∧ (∀ g ∈ Frame.argument f args :: stack, g.Clean) ∧
      Closes x (.argument f args :: stack) t.token s' := by
  -- an argument that has just been added was a part, and the others were so before
  have hframe : (Frame.argument f (x.phrase :: args)).Clean → x.phrase.Sound ∧
      (Frame.argument f args).Clean := by
    rintro ⟨hf, hargs⟩
    obtain ⟨⟨v, hv⟩, hargs⟩ := List.forall_mem_cons.1 hargs
    exact ⟨sound_of_ratioPart hv, hf, hargs⟩
  unfold afterArgument at h
  split at h
  · rename_i ht
    obtain ⟨hsts, rfl, hframes, _⟩ := clean_of_goto rfl h hc
    obtain ⟨hargument, hstack⟩ := List.forall_mem_cons.1 hframes
    obtain ⟨hx, hargument⟩ := hframe hargument
    exact ⟨hsts, hx, List.forall_mem_cons.2 ⟨hargument, hstack⟩, ht ▸ .argument stack f args⟩
  · rename_i ht
    obtain ⟨hsts, rfl, hstack, hu⟩ := clean_of_goto rfl h hc
    obtain ⟨hx, hargument⟩ := hframe (clean_of_callOf hu).1
    exact ⟨hsts, hx, List.forall_mem_cons.2 ⟨hargument, hstack⟩, ht ▸ .call stack f args t⟩
  · cases h
  · cases h

/-- What closes a phrase: nothing foreign is around it. -/
theorem closes_of_close (h : s.close x stack t = .ok s') (hc : s'.Clean) :
    s.statements = [] ∧ x.phrase.Sound ∧ (∀ f ∈ stack, f.Clean) ∧ Closes x stack t.token s' := by
  unfold close at h
  split at h
  · -- nothing is open: the statement ends, unless an assignment is meant
    split at h
    · exact absurd h (goto_ne_ok_of_frame rfl id hc)
    · obtain ⟨hsts, y, mode, hst, hy, rfl, ht⟩ := clean_of_afterStatement h hc
      cases hst
      exact ⟨hsts, hy, List.forall_mem_nil _, .statement ht⟩
  · -- an assignment is no expression
    obtain ⟨_, _, _, hst, _⟩ := clean_of_afterStatement h hc
    cases hst
  · -- a bracket around a phrase
    rename_i line rest
    split at h
    · rename_i ht
      obtain ⟨hsts, rfl, hframes, hu⟩ := clean_of_goto rfl h hc
      have hx : x.phrase.Sound := by
        rcases hu with hu | hu
        · cases hu
        · exact hu
      exact ⟨hsts, hx, List.forall_mem_cons.2 ⟨trivial, hframes⟩, ht ▸ .group rest line line t.line⟩
    · cases h
  · -- lists, keys and entries of dictionaries: foreign phrases, or foreign frames that stay open
    split at h
    · exact absurd h (goto_ne_ok_of_foreign rfl hc)
    · exact absurd h (goto_ne_ok_of_frame rfl id hc)
    · split at h
      · exact absurd h (goto_ne_ok_of_frame rfl id hc)
      · cases h
    · cases h
  · split at h
    · exact absurd h (goto_ne_ok_of_frame rfl id hc)
    · cases h
  · simp only at h
    split at h
    · exact absurd h (goto_ne_ok_of_foreign rfl hc)
    · exact absurd h (goto_ne_ok_of_frame rfl id hc)
    · split at h
      · exact absurd h (goto_ne_ok_of_frame rfl id hc)
      · cases h
    · cases h
  · -- an argument, unless it is only the name of one
    split at h
    · split at h
      · exact absurd h (goto_ne_ok_of_frame rfl id hc)
      · cases h
    · exact closes_of_afterArgument h hc
  · -- an argument with a name or behind stars is no part of a ratio
    obtain ⟨_, ⟨_, he⟩, _⟩ := closes_of_afterArgument (x := ⟨_, 0, 0⟩) h hc
    cases he
  · obtain ⟨_, ⟨_, he⟩, _⟩ := closes_of_afterArgument (x := ⟨_, 0, 0⟩) h hc
    cases he
  · -- indices and slices are foreign
    split at h
    · exact absurd h (goto_ne_ok_of_foreign rfl hc)
    · exact absurd h (goto_ne_ok_of_frame rfl id hc)
    · cases h
  · split at h
    · exact absurd h (goto_ne_ok_of_foreign rfl hc)
    · exact absurd h (goto_ne_ok_of_frame rfl id hc)
    · cases h
  · split at h
    · exact absurd h (goto_ne_ok_of_foreign rfl hc)
    · cases h
  · cases h

/-- A tuple is no expression, so no comma has made one. -/
theorem closes_of_closeSeries (h : s.closeSeries x stack t = .ok s') (hc : s'.Clean) :
    s.statements = [] ∧ x.phrase.Sound ∧ (∀ f ∈ stack, f.Clean) ∧ Closes x stack t.token s' := by
  unfold closeSeries at h
  split at h
  · split at h
    · exact absurd h (goto_ne_ok_of_frame rfl id hc)
    · obtain ⟨_, ⟨_, he⟩, _⟩ := closes_of_close h hc
      cases he
  · split at h
    · exact absurd h (goto_ne_ok_of_frame rfl id hc)
    · exact closes_of_close h hc

/-- A comprehension never leads to a clean state: it goes on, or it ends and is foreign. -/
theorem not_clean_of_afterClause {c : Clauses} {clause : Phrase}
    (h : s.afterClause c clause stack t = .ok s') :
    ¬ s'.Clean := by
  intro hc
  unfold afterClause at h
  simp only at h
  generalize hcloser : (if c.curly = true then Mark.closeBrace else Mark.closeBracket) = closer at h
  split at h
  · exact goto_ne_ok_of_frame rfl id hc h
  · split at h
    · exact goto_ne_ok_of_frame rfl id hc h
    · split at h
      · exact absurd h (goto_ne_ok_of_foreign rfl hc)
      · cases h

/-- Behind an operation: a condition and a clause are foreign, so it is closed as it is. -/
theorem closes_of_closeOperation (h : s.closeOperation x stack t = .ok s') (hc : s'.Clean) :
    s.statements = [] ∧ x.phrase.Sound ∧ (∀ f ∈ stack, f.Clean) ∧ Closes x stack t.token s' := by
  unfold closeOperation at h
  split at h
  · split at h
    · exact absurd h (goto_ne_ok_of_frame rfl id hc)
    · cases h
  · exact absurd hc (not_clean_of_afterClause h)
  · exact absurd hc (not_clean_of_afterClause h)
  · split at h
    · exact absurd h (goto_ne_ok_of_frame rfl id hc)
    · simp only at h
      have hclose := closes_of_closeSeries h hc
      rw [endConditionals_of_sound hclose.2.1] at hclose
      exact hclose

/-- A connective that follows a clean operand. -/
theorem clean_of_connect {op : Connective} (h : s.connect x op stack = .ok s') (hc : s'.Clean) :
    s.statements = [] ∧ x.phrase.Sound ∧ (∀ f ∈ stack, f.Clean) ∧ ∃ o, op.operator? = some o := by
  -- in all cases the left operand waits in the end, and is clean with what is below it
  have hleft : ∀ {y : Piece} {rest : List Frame}, s.goto (.left y op :: rest) .operand = .ok s' →
      s.statements = [] ∧ y.phrase.Sound ∧ (∀ f ∈ rest, f.Clean) ∧ ∃ o, op.operator? = some o := by
    intro y rest h
    obtain ⟨hsts, _, hframes, _⟩ := clean_of_goto rfl h hc
    obtain ⟨⟨hy, ho⟩, hrest⟩ := List.forall_mem_cons.1 hframes
    exact ⟨hsts, hy, hrest, ho⟩
  unfold connect at h
  simp only at h
  split at h
  · rename_i y op' rest htop
    split at h
    · split at h
      · cases h
      · -- the operand on the stack is joined first
        obtain ⟨hsts, hjoin, hrest, ho⟩ := hleft h
        obtain ⟨hy, hframe⟩ := clean_of_join hjoin
        obtain ⟨hx, hstack⟩ :=
          clean_of_joinAbove hy (by rw [htop]; exact List.forall_mem_cons.2 ⟨hframe, hrest⟩)
        exact ⟨hsts, hx, hstack, ho⟩
    · obtain ⟨hsts, hy, hrest, ho⟩ := hleft h
      obtain ⟨hx, hstack⟩ := clean_of_joinAbove hy hrest
      exact ⟨hsts, hx, hstack, ho⟩
  · obtain ⟨hsts, hy, hrest, ho⟩ := hleft h
    obtain ⟨hx, hstack⟩ := clean_of_joinAbove hy hrest
    exact ⟨hsts, hx, hstack, ho⟩

/-- What follows an operand: the operations that bind it are done, or another one begins. -/
theorem move_of_afterOperand
    (h : s.afterOperand (applySigns x stack).1 (applySigns x stack).2 t = .ok s') (hc : s'.Clean) :
    s.statements = [] ∧ x.phrase.Sound ∧ (∀ f ∈ stack, f.Clean) ∧
      Move ⟨[], stack, .complete x⟩ t.token s' := by
  unfold afterOperand at h
  split at h
  · -- the variables of a comprehension
    split at h
    · exact absurd h (goto_ne_ok_of_frame rfl id hc)
    · split at h
      · exact absurd h (goto_ne_ok_of_frame rfl id hc)
      · cases h
  · -- anywhere else: `not`, a connective, or the end of the operation
    split at h
    · obtain ⟨_, _, _, hmode⟩ := clean_of_goto rfl h hc
      exact hmode.elim
    · split at h
      · rename_i op hop
        obtain ⟨hsts, hy, hrest, o, ho⟩ := clean_of_connect h hc
        obtain ⟨hx, hstack⟩ := clean_of_applySigns hy hrest
        have hmark : ∃ m, op = .mark m ∧ t.token = .mark m := by
          cases ht : t.token with
          | mark m =>
            rw [ht, Connective.ofToken?] at hop
            split at hop
            · exact ⟨m, (Option.some.inj hop).symm, rfl⟩
            · cases hop
          | word k =>
            -- the words that connect are no operators
            rw [ht] at hop
            cases k with
            | conj => cases hop; cases ho
            | disj => cases hop; cases ho
            | within => cases hop; cases ho
            | _ => cases hop
          | _ =>
            rw [ht] at hop
            cases hop
        obtain ⟨m, rfl, ht⟩ := hmark
        refine ⟨hsts, hx, hstack, ?_⟩
        rw [ht]
        refine .connect hy ?_
        cases s
        cases hsts
        exact h
      · simp only at h
        obtain ⟨hsts, hz, hrest, hcloses⟩ := closes_of_closeOperation h hc
        obtain ⟨hy, hrest⟩ := clean_of_joinAll hz hrest
        obtain ⟨hx, hstack⟩ := clean_of_applySigns hy hrest
        exact ⟨hsts, hx, hstack, .close hy hcloses⟩

/-- A mode in which an operand can begin holds nothing yet. -/
theorem clean_of_awaits (hm : mode.Awaits) : mode.Clean := by
  cases mode with
  | member | negated | complete => exact hm.elim
  | _ => trivial

/-- Where an operand is awaited and one begins. -/
theorem move_of_operand (hm : s.mode.Awaits) (h : s.operand s.stack t = .ok s') (hc : s'.Clean) :
    s.Clean ∧ Move s t.token s' := by
  obtain ⟨sts, stack, mode⟩ := s
  obtain ⟨rfl, hframes, hbegins⟩ := begins_of_operand h hc
  exact ⟨⟨fun _ => hframes, clean_of_awaits hm, Or.inl rfl⟩, .operand hm hbegins⟩

/-- Where an argument is awaited it begins, or the call is over. -/
theorem move_of_argument {f : Piece} {args : List Phrase} (hm : s.mode.Awaits)
    (hstack : s.stack = .argument f args :: stack) (h : s.argument f args stack t = .ok s')
    (hc : s'.Clean) :
    s.Clean ∧ Move s t.token s' := by
  obtain ⟨sts, _, mode⟩ := s
  cases hstack
  unfold argument at h
  split at h
  · -- the bracket that ends the call
    rename_i ht
    obtain ⟨hsts, rfl, hframes, hu⟩ := clean_of_goto rfl h hc
    cases hsts
    have hframes := List.forall_mem_cons.2 ⟨(clean_of_callOf hu).1, hframes⟩
    exact ⟨⟨fun _ => hframes, clean_of_awaits hm, Or.inl rfl⟩, ht ▸ .call hm f args stack t⟩
  · -- stars open foreign frames
    exact absurd h (goto_ne_ok_of_frame rfl id hc)
  · exact absurd h (goto_ne_ok_of_frame rfl id hc)
  · exact move_of_operand hm h hc

/-- Behind an opening bracket. -/
theorem move_of_opening (hm : s.mode.Awaits) (h : s.opening t = .ok s') (hc : s'.Clean) :
    s.Clean ∧ Move s t.token s' := by
  unfold opening at h
  split at h
  · exact absurd h (goto_ne_ok_of_foreign rfl hc)
  · exact absurd h (goto_ne_ok_of_foreign rfl hc)
  · exact absurd h (goto_ne_ok_of_foreign rfl hc)
  · cases h
  · exact move_of_argument hm ‹_› h hc
  · exact absurd h (goto_ne_ok_of_frame rfl id hc)
  · exact absurd h (goto_ne_ok_of_frame rfl id hc)
  · exact absurd h (goto_ne_ok_of_foreign rfl hc)
  · exact absurd h (goto_ne_ok_of_foreign rfl hc)
  · exact move_of_operand hm h hc

/-- Behind a comma: a tuple or a list is no expression, so only an argument can be meant. -/
theorem move_of_afterComma (hm : s.mode.Awaits) (h : s.afterComma t = .ok s') (hc : s'.Clean) :
    s.Clean ∧ Move s t.token s' := by
  unfold afterComma at h
  split at h
  · -- a series is a tuple, also behind its last comma
    split at h
    · split at h
      · obtain ⟨_, ⟨_, he⟩, _⟩ := closes_of_close h hc
        cases he
      · cases h
    · exact move_of_operand hm h hc
  · split at h
    · exact absurd h (goto_ne_ok_of_foreign rfl hc)
    · split at h
      · cases h
      · exact move_of_operand hm h hc
  · split at h
    · exact absurd h (goto_ne_ok_of_foreign rfl hc)
    · exact move_of_operand hm h hc
  · -- the comma of a call
    exact move_of_argument hm ‹_› h hc
  · split at h
    · cases h
    · exact move_of_operand hm h hc
  · exact move_of_operand hm h hc

/-- Behind an operand. -/
theorem move_of_complete (hx : s.mode = .complete x) (h : s.take t = .ok s') (hc : s'.Clean) :
    s.Clean ∧ Move s t.token s' := by
  obtain ⟨sts, stack, _⟩ := s
  cases hx
  have hinside : sts = [] → (∀ f ∈ stack, f.Clean) → x.phrase.Usable → Clean ⟨sts, stack, .complete x⟩ :=
    fun hsts hframes hu => ⟨fun _ => hframes, hu, Or.inl hsts⟩
  simp only [take] at h
  split at h
  · -- a point asks for the name of a member
    obtain ⟨_, _, _, hmode⟩ := clean_of_goto rfl h hc
    exact hmode.elim
  · -- a bracket for an index
    exact absurd h (goto_ne_ok_of_frame rfl id hc)
  · -- what is called can only be the ratio
    rename_i ht
    obtain ⟨hsts, rfl, hframes, _⟩ := clean_of_goto rfl h hc
    obtain ⟨⟨hf, _⟩, hstack⟩ := List.forall_mem_cons.1 hframes
    refine ⟨hinside hsts hstack (Or.inl hf), ?_⟩
    cases hsts
    exact ht ▸ .callee x stack
  · obtain ⟨hsts, hx, hstack, hmove⟩ := move_of_afterOperand h hc
    refine ⟨hinside hsts hstack (Or.inr hx), ?_⟩
    cases hsts
    exact hmove

/-- **One token between clean states.**  What leads to a clean state comes from one, by one of the
    moves. -/
theorem move_of_take (h : s.take t = .ok s') (hc : s'.Clean) : s.Clean ∧ Move s t.token s' := by
  obtain ⟨sts, stack, mode⟩ := s
  cases mode with
  | start =>
    simp only [take] at h
    split at h
    · rename_i ht
      cases h
      exact ⟨hc, .idle ht sts stack⟩
    · exact move_of_operand trivial h hc
  | resume =>
    -- behind a semicolon a line may end, or another statement begins
    simp only [take] at h
    split at h
    · rename_i ht
      cases h
      refine ⟨⟨(fun h => nomatch h), trivial, ?_⟩, .resume ht sts stack⟩
      rcases hc.statements with hsts | ⟨_, hx⟩
      · exact Or.inl hsts
      · exact Or.inr ⟨rfl, hx⟩
    · exact move_of_operand trivial h hc
  | operand => exact move_of_operand trivial h hc
  | first => exact move_of_opening trivial h hc
  | next => exact move_of_afterComma trivial h hc
  | member x =>
    -- a member is foreign
    simp only [take] at h
    split at h
    · exact absurd h (goto_ne_ok_of_foreign rfl hc)
    · cases h
  | negated x =>
    -- `not in` connects, but has no operator
    simp only [take] at h
    split at h
    · obtain ⟨_, _, _, o, ho⟩ := clean_of_connect h hc
      cases ho
    · cases h
  | complete x => exact move_of_complete rfl h hc

end Phrasing

end Reckoner.Source
