/-
  The transcript of a reading.  `Reads` says which tokens have been read up to a state: those of what
  has been begun (`Opened`), and those of the operand that is there.  Every move adds its token
  (`reads_of_move`), so a whole reading that ends with an expression has read the tokens of the
  expression, with line ends around them and perhaps a semicolon behind them (`spelled_of_readPhrases`).
-/
import Reckoner.Proofs.Spelling

namespace Reckoner.Source

/-! ## What a state has read

  A state is a stack of what has been begun and a mode.  `Opened` lists the tokens of the stack from the
  bottom, `Reads` adds those of the operand that has just been completed.  What waits on the stack binds
  more tightly the higher it stands (`bears`), so that an operand can be put together with what waits
  for it in one way only, and the level of each phrase is known when it is done.  Only readings that end
  in an expression matter, so every state is taken to be clean: the statements and operands it holds
  become expressions. -/

/-- The arguments of a call, the last first, each with its comma. -/
inductive Listed : List Phrase → List Token → Prop
  | nil : Listed [] []
  | cons {a : Phrase} {args : List Phrase} {ts us : List Token} (h : Listed args ts) (ha : Part a us) :
      Listed (a :: args) (ts ++ (us ++ [.mark .comma]))

/-- Whether an operand of a level can stand on a stack: what waits on top binds less tightly, and is no
    sign. -/
def bears (level : Nat) : List Frame → Bool
  | .left _ op :: _ => op.level < level
  | .sign _ _ :: _ => false
  | _ => true

/-- The tokens of what has been begun. -/
inductive Opened : List Frame → List Token → Prop
  | bottom {ts : List Token} (h : ∀ t ∈ ts, t.isBreak = true) : Opened [] ts
  | sign {stack : List Frame} {ts : List Token} (h : Opened stack ts) (sign : Sign) (line : Nat) :
      Opened (.sign sign.mark line :: stack) (ts ++ [.mark sign.mark])
  | left {stack : List Frame} {ts us : List Token} {x : Piece} {outer inner : Level} (h : Opened stack ts)
      (op : Operation outer inner) (hx : Spelled outer x.phrase us)
      (hb : bears outer.binding stack = true) :
      Opened (.left x (.mark op.mark) :: stack) (ts ++ (us ++ [.mark op.mark]))
  | group {stack : List Frame} {ts : List Token} (h : Opened stack ts) (line : Nat) :
      Opened (.group line :: stack) (ts ++ [.mark .openParen])
  | argument {stack : List Frame} {ts us : List Token} {f : Piece} {args : List Phrase}
      (h : Opened stack ts) (hf : f.phrase = .name "__ratio__") (ha : Listed args us) :
      Opened (.argument f args :: stack) (ts ++ .name "__ratio__" :: .mark .openParen :: us)

/-- What stands behind an expression: a semicolon perhaps, and line ends. -/
inductive Trailing : List Token → Prop
  | breaks {ts : List Token} (h : ∀ t ∈ ts, t.isBreak = true) : Trailing ts
  | semicolon {ts : List Token} (h : ∀ t ∈ ts, t.isBreak = true) : Trailing (.mark .semicolon :: ts)

/-- What has been read up to a state. -/
inductive Reads : Phrasing → List Token → Prop
  | start {ts : List Token} (h : ∀ t ∈ ts, t.isBreak = true) : Reads .begin ts
  | awaits {stack : List Frame} {ts : List Token} {mode : Mode} (h : Opened stack ts)
      (hm : mode = .operand ∨ mode = .first ∨ mode = .next) : Reads ⟨[], stack, mode⟩ ts
  | complete {stack : List Frame} {ts us : List Token} {x : Piece} (h : Opened stack ts)
      (hx : Spelled .factor x.phrase us) : Reads ⟨[], stack, .complete x⟩ (ts ++ us)
  | ended {lead ts trail : List Token} {x : Phrase} {mode : Mode} (hlead : ∀ t ∈ lead, t.isBreak = true)
      (hx : Spelled .sum x ts) (htrail : Trailing trail) (hm : mode = .start ∨ mode = .resume) :
      Reads ⟨[.expression x], [], mode⟩ (lead ++ (ts ++ trail))

/-- `Splits stack k x ts` — the tokens `ts` are those of a stack and of an operand of the level `k` that
    stands on it. -/
def Splits (stack : List Frame) (k : Level) (x : Phrase) (ts : List Token) : Prop :=
  bears k.binding stack = true ∧ ∃ us vs, ts = us ++ vs ∧ Opened stack us ∧ Spelled k x vs

namespace Phrasing

variable {stack : List Frame} {ts us : List Token} {x : Piece} {k : Level}

/-- Whether a sign waits on top. -/
def isSigned : List Frame → Bool
  | .sign _ _ :: _ => true
  | _ => false

/-- Where no sign waits, none is applied. -/
theorem applySigns_of_not_isSigned (hstack : isSigned stack = false) (x : Piece) :
    applySigns x stack = (x, stack) := by
  fun_cases applySigns x stack with
  | case1 => cases hstack
  | case2 => rfl

/-- A stack without a sign on top bears any factor. -/
theorem bears_of_not_isSigned (h : Opened stack ts) (hstack : isSigned stack = false) :
    bears Level.factor.binding stack = true := by
  cases h with
  | sign h sign line => cases hstack
  -- every operation binds less tightly than a factor
  | left h op hx hb => cases op <;> rfl
  | _ => rfl

/-- A sign in front of a sign: no numeral comes of it, whatever is around. -/
theorem not_sound_of_two_signs {m m' : Mark} {z : Phrase} (hx : x.phrase = .signed m (.signed m' z)) :
    ¬ (applySigns x stack).1.phrase.Sound := by
  intro hs
  fun_induction applySigns x stack generalizing m m' z with
  | case1 y n line rest ih => exact ih (congrArg _ hx) hs
  | case2 y rest =>
    rw [hx] at hs
    obtain ⟨e, he⟩ := hs
    obtain ⟨_, _, hlit⟩ := exists_of_exprOf_signed he
    cases hlit

/-- At most one sign is applied to an operand, which is then a numeral. -/
theorem splits_applySigns (h : Opened stack ts) (hx : Spelled .factor x.phrase us)
    (hsound : (applySigns x stack).1.phrase.Sound) :
    Splits (applySigns x stack).2 .factor (applySigns x stack).1.phrase (ts ++ us) := by
  by_cases hstack : isSigned stack = false
  · rw [applySigns_of_not_isSigned hstack]
    exact ⟨bears_of_not_isSigned h hstack, ts, us, rfl, h, hx⟩
  · cases h with
    | @sign stack ts h sign line =>
      rw [applySigns] at hsound ⊢
      -- below the sign stands no other, or what comes of them would not be sound
      have hbelow : isSigned stack = false := by
        cases stack with
        | nil => rfl
        | cons f rest =>
          cases f with
          | sign m line' =>
            rw [applySigns] at hsound
            exact absurd hsound (not_sound_of_two_signs rfl)
          | _ => rfl
      rw [applySigns_of_not_isSigned hbelow] at hsound ⊢
      -- a sign becomes part of an expression only in front of a numeral
      obtain ⟨e, he⟩ := hsound
      obtain ⟨_, _, hlit⟩ := exists_of_exprOf_signed he
      refine ⟨bears_of_not_isSigned h hbelow, ts, .mark sign.mark :: us, ?_, h,
        .signed sign (hx.literal_of hlit)⟩
      rw [List.append_assoc]
      rfl
    | _ => exact absurd rfl hstack

/-- A left operand that waits is joined with its right one. -/
theorem splits_join {y : Piece} {op : Connective} (h : Splits (.left x op :: stack) k y.phrase ts) :
    ∃ outer : Level, outer.binding = op.level ∧ Splits stack outer (join x op y).phrase ts := by
  obtain ⟨hb, _, vs, rfl, hopened, hy⟩ := h
  cases hopened with
  | @left _ ts us _ outer inner hopened op hx hb' =>
    -- the right operand binds more tightly than the operation, so it is of the level that the operation
    -- wants
    have hlt : outer.binding < k.binding := op.level_mark ▸ of_decide_eq_true hb
    have hinner := op.binding_inner
    refine ⟨outer, op.level_mark.symm, hb', ts, us ++ .mark op.mark :: vs, ?_, hopened, ?_⟩
    · simp only [List.append_assoc, List.cons_append, List.nil_append]
    · exact .operation op _ hx (hy.loosen (by omega))

/-- Joining the operations that bind tighter than a level leaves an operand that does, on what does
    not. -/
theorem splits_joinAbove {level : Nat} (h : Splits stack k x.phrase ts) (hk : level < k.binding) :
    (∃ k' : Level, level < k'.binding ∧
      Splits (joinAbove level x stack).2 k' (joinAbove level x stack).1.phrase ts) ∧
      ∀ y op rest, (joinAbove level x stack).2 = .left y op :: rest → op.level ≤ level := by
  fun_induction joinAbove level x stack generalizing k with
  | case1 y x op rest hlevel ih =>
    -- what waits binds tighter than the level: it is joined, and the search goes on below
    obtain ⟨outer, houter, hjoin⟩ := splits_join h
    exact ih hjoin (houter ▸ hlevel)
  | case2 y x op rest hlevel =>
    -- what waits does not bind tighter, and stays
    refine ⟨⟨k, hk, h⟩, ?_⟩
    rintro _ _ _ ⟨⟩
    exact Nat.not_lt.1 hlevel
  | case3 y stack hstack => exact ⟨⟨k, hk, h⟩, fun _ _ _ htop => absurd htop (hstack _ _ _)⟩

/-- Joining all that waits leaves an operand of the loosest level, on something that waits for no right
    operand. -/
theorem splits_joinAll (h : Splits stack k x.phrase ts) :
    Splits (joinAll x stack).2 .sum (joinAll x stack).1.phrase ts := by
  fun_induction joinAll x stack generalizing k with
  | case1 y x op rest ih =>
    obtain ⟨_, _, hjoin⟩ := splits_join h
    exact ih hjoin
  | case2 y stack hstack =>
    -- nothing waits for a right operand any more
    obtain ⟨hb, us, vs, rfl, hopened, hy⟩ := h
    refine ⟨?_, us, vs, rfl, hopened, hy.loosen (by cases k <;> decide)⟩
    cases hopened with
    | sign => cases hb
    | left => exact absurd rfl (hstack _ _ _)
    | _ => rfl

/-- The marks of the four operations. -/
theorem exists_operation {m : Mark} {o : Operator} (h : (Connective.mark m).operator? = some o) :
    ∃ (outer inner : Level) (op : Operation outer inner), m = op.mark := by
  unfold Connective.operator? at h
  split at h
  · rename_i heq
    cases heq
    exact ⟨_, _, .plus, rfl⟩
  · rename_i heq
    cases heq
    exact ⟨_, _, .minus, rfl⟩
  · rename_i heq
    cases heq
    exact ⟨_, _, .times, rfl⟩
  · rename_i heq
    cases heq
    exact ⟨_, _, .slash, rfl⟩
  · cases h

/-- The levels differ in how tightly they bind. -/
theorem binding_injective {j k : Level} (h : j.binding = k.binding) : j = k := by
  cases j <;> cases k <;> first | rfl | cases h

/-- **A connective** behind an operand: what binds tighter is joined, equals go to the left, and the
    rest waits. -/
theorem reads_connect {m : Mark} {s' : Phrasing} (h : connect ⟨[], [], .start⟩ x (.mark m) stack = .ok s')
    (hc : s'.Clean) (hx : Splits stack .factor x.phrase ts) : Reads s' (ts ++ [.mark m]) := by
  obtain ⟨_, _, _, o, ho⟩ := clean_of_connect h hc
  obtain ⟨outer, inner, op, rfl⟩ := exists_operation ho
  have hlevel := op.level_mark
  -- all operations bind less tightly than the operand
  have hfactor : (Connective.mark op.mark).level < Level.factor.binding := by cases op <;> decide
  obtain ⟨⟨k, hk, hz⟩, htop⟩ := splits_joinAbove hx hfactor
  -- in the end a left operand waits, of the level of the operation
  have hleft : ∀ {y : Piece} {rest : List Frame}, Splits rest outer y.phrase ts →
      s' = ⟨[], .left y (.mark op.mark) :: rest, .operand⟩ → Reads s' (ts ++ [.mark op.mark]) := by
    rintro y rest ⟨hb, us, vs, rfl, hopened, hy⟩ rfl
    rw [List.append_assoc]
    exact .awaits (.left hopened op hy hb) (Or.inl rfl)
  -- if what has been joined already can be this operand, it is taken as a phrase of the looser level
  have hloosen : bears outer.binding (joinAbove (Connective.mark op.mark).level x stack).2 = true →
      Splits (joinAbove (Connective.mark op.mark).level x stack).2 outer
        (joinAbove (Connective.mark op.mark).level x stack).1.phrase ts := by
    obtain ⟨_, us, vs, hts, hopened, hy⟩ := hz
    exact fun hb => ⟨hb, us, vs, hts, hopened, hy.loosen (by omega)⟩
  unfold connect at h
  simp only at h
  split at h
  · rename_i y op' rest hstack
    split at h
    · -- an operation of the same level waits, so it takes what has been joined as its right operand
      rename_i heq
      split at h
      · cases h
      · rw [hstack] at hz
        obtain ⟨outer', houter, hjoin⟩ := splits_join hz
        cases binding_injective (houter.trans (heq.trans hlevel))
        exact hleft hjoin (Except.ok.inj h).symm
    · -- what waits binds less tightly
      rename_i hne
      have hle := htop y op' rest hstack
      refine hleft (hloosen ?_) (Except.ok.inj h).symm
      rw [hstack]
      exact decide_eq_true (by omega)
  · -- nothing waits, or a bracket does
    rename_i hnotleft
    refine hleft (hloosen ?_) (Except.ok.inj h).symm
    have hb := hz.1
    revert hnotleft hb
    cases (joinAbove (Connective.mark op.mark).level x stack).2 with
    | nil => exact fun _ _ => rfl
    | cons f rest =>
      intro hnotleft hb
      cases f with
      | left y op' => exact absurd rfl (hnotleft y op' rest)
      | sign m line => cases hb
      | _ => rfl

/-- The tokens of a call that is complete. -/
theorem spelled_callOf {f : Piece} (hf : f.phrase = .name "__ratio__") {num den : Phrase}
    {ts us : List Token} (hnum : Part num ts) (hden : Part den us) {comma : List Token}
    (hcomma : comma = [] ∨ comma = [.mark .comma]) (t : Placed) :
    Spelled .factor (callOf f [den, num] t).phrase
      (.name "__ratio__" :: .mark .openParen ::
        (ts ++ .mark .comma :: (us ++ (comma ++ [.mark .closeParen])))) := by
  have hcall : (callOf f [den, num] t).phrase =
      .call (.name "__ratio__") (f.first = t.line) [num, den] := by
    rw [← hf]
    rfl
  rw [hcall]
  exact .literal (.ratio _ hnum hden hcomma)

/-- **What closes a phrase** puts its tokens between those around it. -/
theorem reads_close {t : Token} {s' : Phrasing} (h : Closes x stack t s') (hc : s'.Clean)
    (hx : Splits stack .sum x.phrase ts) : Reads s' (ts ++ [t]) := by
  obtain ⟨_, us, vs, rfl, hopened, hx⟩ := hx
  rw [List.append_assoc]
  cases h with
  | statement h =>
    -- a statement ends with a line end, the end of everything or a semicolon
    cases hopened with
    | bottom hlead =>
      rcases h with ⟨rfl, rfl⟩ | ⟨ht, rfl⟩
      · exact .ended hlead hx (.semicolon (List.forall_mem_nil _)) (Or.inr rfl)
      · exact .ended hlead hx (.breaks (List.forall_mem_singleton.2 ht)) (Or.inl rfl)
  | group stack line first last =>
    -- a bracket closes what it opened
    cases hopened with
    | group hopened =>
      rw [List.append_assoc]
      exact .complete hopened (.group hx)
  | argument stack f args =>
    -- a comma leaves one more argument, which is part of a ratio
    cases hopened with
    | argument hopened hf ha =>
      obtain ⟨⟨_, hparts⟩, _⟩ := List.forall_mem_cons.1 (hc.frames rfl)
      obtain ⟨v, hv⟩ := hparts _ List.mem_cons_self
      rw [List.append_assoc]
      exact .awaits (.argument hopened hf (.cons ha (hx.part hv))) (Or.inr (Or.inr rfl))
  | call stack f args t =>
    -- a ratio has two arguments, the second of which has just ended
    cases hopened with
    | argument hopened hf ha =>
      obtain ⟨⟨_, hparts⟩, num, den, hargs⟩ := clean_of_callOf hc.mode
      obtain ⟨hden, rfl⟩ := List.cons.inj hargs
      obtain ⟨v, hv⟩ := hparts _ List.mem_cons_self
      cases ha with
      | cons ha hnum =>
        cases ha with
        | nil =>
          have hreads := Reads.complete hopened (spelled_callOf hf hnum (hx.part hv) (Or.inl rfl) t)
          simpa only [List.append_assoc, List.cons_append, List.nil_append] using hreads

/-- One more break behind breaks. -/
theorem isBreak_concat {t : Token} (hts : ∀ u ∈ ts, u.isBreak = true) (ht : t.isBreak = true) :
    ∀ u ∈ ts ++ [t], u.isBreak = true := by
  intro u hu
  rcases List.mem_append.1 hu with hu | hu
  · exact hts u hu
  · rw [List.mem_singleton.1 hu]
    exact ht

/-- Behind a statement line ends add nothing. -/
theorem reads_ended {t : Token} {x : Phrase} {mode : Mode} (h : Reads ⟨[.expression x], stack, mode⟩ ts)
    (ht : t.isBreak = true) : Reads ⟨[.expression x], stack, .start⟩ (ts ++ [t]) := by
  cases h with
  | @ended lead us trail _ _ hlead hx htrail _ =>
    have htrail' : Trailing (trail ++ [t]) := by
      cases htrail with
      | breaks h => exact .breaks (isBreak_concat h ht)
      | semicolon h => exact .semicolon (isBreak_concat h ht)
    rw [List.append_assoc, List.append_assoc]
    exact .ended hlead hx htrail' (Or.inl rfl)

/-- **One move** reads one token. -/
theorem reads_of_move {s s' : Phrasing} {t : Token} (hm : Move s t s') (hc : s'.Clean) (h : Reads s ts) :
    Reads s' (ts ++ [t]) := by
  cases hm with
  | idle ht sts stack =>
    -- breaks before and behind a statement
    cases h with
    | start h => exact .start (isBreak_concat h ht)
    | awaits h hm => rcases hm with hm | hm | hm <;> cases hm
    | ended hlead hx htrail hm => exact reads_ended (.ended hlead hx htrail hm) ht
  | resume ht sts stack =>
    cases h with
    | awaits h hm => rcases hm with hm | hm | hm <;> cases hm
    | ended hlead hx htrail hm => exact reads_ended (.ended hlead hx htrail hm) ht
  | @operand _ stack mode _ hawaits hbegins =>
    -- the first token of an operand
    have hopened : Opened stack ts := by
      cases h with
      | start h => exact .bottom h
      | awaits h hm => exact h
      | complete => exact hawaits.elim
    cases hbegins with
    | leaf hx => exact .complete hopened hx
    | group line => exact .awaits (.group hopened line) (Or.inr (Or.inl rfl))
    | sign sign line => exact .awaits (.sign hopened sign line) (Or.inl rfl)
  | callee f stack =>
    -- only the call of a ratio is clean
    cases h with
    | awaits h hm => rcases hm with hm | hm | hm <;> cases hm
    | complete h hf =>
      obtain ⟨⟨hname, _⟩, _⟩ := List.forall_mem_cons.1 (hc.frames rfl)
      rw [hname] at hf
      cases hf with
      | name s =>
        rw [List.append_assoc]
        exact .awaits (.argument h hname .nil) (Or.inr (Or.inl rfl))
      | literal h => cases h
  | @call mode hawaits f args stack t =>
    -- a bracket behind a comma: the call has ended with a comma behind its second argument
    have hopened : Opened (.argument f args :: stack) ts := by
      cases h with
      | awaits h hm => exact h
      | complete => exact hawaits.elim
    obtain ⟨_, num, den, rfl⟩ := clean_of_callOf hc.mode
    cases hopened with
    | argument hstack hf ha =>
      cases ha with
      | cons ha hden =>
        cases ha with
        | cons ha hnum =>
          cases ha with
          | nil =>
            have hreads := Reads.complete hstack (spelled_callOf hf hnum hden (Or.inr rfl) t)
            simpa only [List.append_assoc, List.cons_append, List.nil_append] using hreads
  | connect hx hconnect =>
    cases h with
    | awaits h hm => rcases hm with hm | hm | hm <;> cases hm
    | complete h hf => exact reads_connect hconnect hc (splits_applySigns h hf hx)
  | close hx hcloses =>
    cases h with
    | awaits h hm => rcases hm with hm | hm | hm <;> cases hm
    | complete h hf => exact reads_close hcloses hc (splits_joinAll (splits_applySigns h hf hx))

/-- What ends clean was clean all along. -/
theorem clean_of_foldlM {ts : List Placed} {s s' : Phrasing} (h : ts.foldlM take s = .ok s')
    (hc : s'.Clean) :
    s.Clean := by
  induction ts generalizing s with
  | nil =>
    cases h
    exact hc
  | cons t ts ih =>
    obtain ⟨s₁, h₁, h⟩ := exists_of_bind_ok h
    exact (move_of_take h₁ (ih h)).1

/-- **A whole run** reads its tokens. -/
theorem reads_of_foldlM {us : List Placed} {s s' : Phrasing} (h : us.foldlM take s = .ok s')
    (hc : s'.Clean) (hs : Reads s ts) : Reads s' (ts ++ us.map (·.token)) := by
  induction us generalizing s ts with
  | nil =>
    cases h
    rw [List.map_nil, List.append_nil]
    exact hs
  | cons u us ih =>
    -- the state between is clean, since the last one is
    obtain ⟨s₁, h₁, h⟩ := exists_of_bind_ok h
    have hc₁ := clean_of_foldlM h hc
    have h₂ := ih h (reads_of_move (move_of_take h₁ hc₁).2 hc₁ hs)
    rw [List.append_assoc] at h₂
    exact h₂

/-! ## The end of everything

  The end of the text is taken like any other token.  It is taken only by a state that can end its
  statement, and leaves the state that begins a new one. -/

section End

variable {s s' : Phrasing} {line : Nat}

/-- At the end of everything a phrase is closed only if it is a whole statement. -/
theorem mode_of_close_eof (h : s.close x stack ⟨.eof, line⟩ = .ok s') : s'.mode = .start := by
  cases stack with
  | nil =>
    cases h
    rfl
  | cons f stack =>
    cases f with
    | target =>
      cases h
      rfl
    | _ => cases h

/-- The same behind a series of operands. -/
theorem mode_of_closeSeries_eof (h : s.closeSeries x stack ⟨.eof, line⟩ = .ok s') : s'.mode = .start := by
  unfold closeSeries at h
  split at h
  · rw [if_neg (fun h => nomatch h)] at h
    exact mode_of_close_eof h
  · rw [if_neg (by simp)] at h
    exact mode_of_close_eof h

/-- A comprehension is not ended by the end of everything, as its bracket is missing. -/
theorem afterClause_eof {c : Clauses} {clause : Phrase} :
    s.afterClause c clause stack ⟨.eof, line⟩ ≠ .ok s' := by
  intro h
  unfold afterClause at h
  simp only at h
  rw [if_neg (fun h => nomatch h), if_neg (fun h => nomatch h), if_neg (fun h => nomatch h)] at h
  cases h

/-- The same behind an operation, where a comprehension may be open. -/
theorem mode_of_closeOperation_eof (h : s.closeOperation x stack ⟨.eof, line⟩ = .ok s') :
    s'.mode = .start := by
  unfold closeOperation at h
  split at h
  · cases h
  · exact absurd h afterClause_eof
  · exact absurd h afterClause_eof
  · rw [if_neg (fun h => nomatch h)] at h
    exact mode_of_closeSeries_eof h

/-- The end of everything ends the statement, or is refused. -/
theorem mode_of_take_eof (h : s.take ⟨.eof, line⟩ = .ok s') : s'.mode = .start := by
  obtain ⟨sts, stack, mode⟩ := s
  cases mode with
  | start =>
    cases h
    rfl
  | resume =>
    cases h
    rfl
  | operand => cases h
  | first =>
    cases stack with
    | nil => cases h
    | cons f stack => cases f <;> cases h
  | next =>
    cases stack with
    | nil => cases h
    | cons f stack =>
      cases f with
      | series items =>
        cases items with
        | nil => cases h
        | cons y items =>
          cases stack with
          | nil => cases h
          | cons f stack => cases f <;> cases h
      | _ => cases h
  | member y => cases h
  | negated y => cases h
  | complete y =>
    -- an operand is complete, and so is the statement if no bracket is open
    have h : afterOperand _ (applySigns y stack).1 (applySigns y stack).2 ⟨.eof, line⟩ = .ok s' := h
    unfold afterOperand at h
    split at h
    · cases h
    · rw [if_neg (fun h => nomatch h)] at h
      exact mode_of_closeOperation_eof h

end End

end Phrasing

/-- Behind a statement the transcript is complete. -/
theorem Reads.exists_of_expression {stack : List Frame} {mode : Mode} {ts : List Token} {x : Phrase}
    (h : Reads ⟨[.expression x], stack, mode⟩ ts) :
    ∃ lead us trail, ts = lead ++ (us ++ trail) ∧ (∀ t ∈ lead, t.isBreak = true) ∧ Spelled .sum x us ∧
      Trailing trail := by
  cases h with
  | ended hlead hx htrail hm => exact ⟨_, _, _, rfl, hlead, hx, htrail⟩

/-- Whether a token is written with characters of its own. -/
def Token.isWritten : Token → Bool
  | .eof => false
  | .newline => false
  | .indent => false
  | _ => true

/-- A token that is written is no break. -/
theorem Token.isBreak_of_isWritten {t : Token} (h : t.isWritten = true) : t.isBreak = false := by
  cases t with
  | eof => cases h
  | newline => cases h
  | _ => rfl

/-- The parts of a ratio are written: digits, and perhaps a sign. -/
theorem Part.isWritten {x : Phrase} {ts : List Token} (h : Part x ts) : ∀ t ∈ ts, t.isWritten = true := by
  cases h with
  | bare raw n => exact List.forall_mem_singleton.2 rfl
  | signed sign raw n => exact List.forall_mem_cons.2 ⟨rfl, List.forall_mem_singleton.2 rfl⟩

/-- The tokens of a literal are all written. -/
theorem Literal.isWritten {x : Phrase} {ts : List Token} (h : Literal x ts) :
    ∀ t ∈ ts, t.isWritten = true := by
  cases h with
  | int raw n => exact List.forall_mem_singleton.2 rfl
  | float raw => exact List.forall_mem_singleton.2 rfl
  | ratio oneLine hx hy hcomma =>
    simp only [List.forall_mem_cons, List.forall_mem_append]
    refine ⟨rfl, rfl, hx.isWritten, rfl, hy.isWritten, ?_, rfl, List.forall_mem_nil _⟩
    rcases hcomma with rfl | rfl
    · exact List.forall_mem_nil _
    · exact List.forall_mem_singleton.2 rfl

/-- The tokens of an expression are all written. -/
theorem Spelled.isWritten {k : Level} {x : Phrase} {ts : List Token} (h : Spelled k x ts) :
    ∀ t ∈ ts, t.isWritten = true := by
  induction h with
  | name s => exact List.forall_mem_singleton.2 rfl
  | literal h => exact h.isWritten
  | signed sign h => exact List.forall_mem_cons.2 ⟨rfl, h.isWritten⟩
  | group h ih =>
    simp only [List.forall_mem_cons, List.forall_mem_append]
    exact ⟨rfl, ih, rfl, List.forall_mem_nil _⟩
  | ofFactor h ih => exact ih
  | ofTerm h ih => exact ih
  | operation op broken hx hy ihx ihy =>
    simp only [List.forall_mem_cons, List.forall_mem_append]
    exact ⟨ihx, rfl, ihy⟩

/-- There is a first token in every expression. -/
theorem Spelled.ne_nil {k : Level} {x : Phrase} {ts : List Token} (h : Spelled k x ts) : ts ≠ [] := by
  induction h with
  | name s => exact List.cons_ne_nil _ _
  | literal h => cases h <;> exact List.cons_ne_nil _ _
  | signed sign h => exact List.cons_ne_nil _ _
  | group h => exact List.cons_ne_nil _ _
  | ofFactor h ih => exact ih
  | ofTerm h ih => exact ih
  | operation op broken hx hy ihx ihy => exact List.append_ne_nil_of_left_ne_nil ihx _

/-- The end of everything is a break, and may be left out of what trails. -/
theorem Trailing.of_concat {ts : List Token} (h : Trailing (ts ++ [.eof])) : Trailing ts := by
  generalize hall : ts ++ [Token.eof] = all at h
  cases h with
  | breaks h =>
    refine .breaks fun t ht => h t ?_
    rw [← hall]
    exact List.mem_append_left _ ht
  | @semicolon us h =>
    -- the end is not the semicolon, so it stands behind it
    cases ts with
    | nil => cases hall
    | cons t ts =>
      obtain ⟨rfl, rfl⟩ := List.cons.inj hall
      exact .semicolon fun t ht => h t (List.mem_append_left _ ht)

/-- **Which tokens say an expression.**  Those of the expression, with line ends around them and perhaps a
    semicolon behind them. -/
theorem spelled_of_readPhrases {ts : List Placed} {x : Phrase} {e : Expr}
    (h : readPhrases (ts ++ [⟨.eof, 0⟩]) = .ok [.expression x]) (he : exprOf x = .ok e) :
    ∃ lead us trail, ts.map (·.token) = lead ++ (us ++ trail) ∧ (∀ t ∈ lead, t.isBreak = true) ∧
      Spelled .sum x us ∧ Trailing trail := by
  obtain ⟨s, hs, hreverse⟩ := exists_of_map_ok h
  have hsts : s.statements = [.expression x] := by
    rw [← List.reverse_reverse s.statements, hreverse]
    rfl
  have hmode : s.mode = .start := by
    rw [List.foldlM_append] at hs
    obtain ⟨s₁, _, hs⟩ := exists_of_bind_ok hs
    obtain ⟨s₂, hs, hlast⟩ := exists_of_bind_ok hs
    cases hlast
    exact Phrasing.mode_of_take_eof hs
  -- the last state is clean: it holds the one statement, and nothing is open
  have hclean : s.Clean := by
    refine ⟨?_, ?_, Or.inr ⟨?_, x, hsts, e, he⟩⟩
    · rw [hmode]
      exact fun h => nomatch h
    · rw [hmode]
      trivial
    · rw [hmode]
      rfl
  have hreads := Phrasing.reads_of_foldlM hs hclean (.start (List.forall_mem_nil _))
  obtain ⟨sts, stack, mode⟩ := s
  cases hsts
  obtain ⟨lead, us, trail, hall, hlead, hx, htrail⟩ := hreads.exists_of_expression
  rw [List.nil_append, List.map_append] at hall
  have hall : ts.map (·.token) ++ [.eof] = lead ++ (us ++ trail) := hall
  -- the last token of all is the end of everything, and stands behind the expression
  rcases List.eq_nil_or_concat trail with rfl | ⟨trail, t, rfl⟩
  · rcases List.eq_nil_or_concat us with rfl | ⟨vs, t, rfl⟩
    · exact absurd rfl hx.ne_nil
    · rw [List.append_nil, List.concat_eq_append, ← List.append_assoc] at hall
      have hlast : [Token.eof] = [t] := List.append_inj_right' hall rfl
      cases hlast
      cases hx.isWritten .eof (by simp)
  · rw [List.concat_eq_append, ← List.append_assoc, ← List.append_assoc] at hall
    have hlast := List.append_inj_right' hall rfl
    rw [List.concat_eq_append, ← hlast] at htrail
    refine ⟨lead, us, trail, ?_, hlead, hx, htrail.of_concat⟩
    rw [List.append_inj_left' hall rfl, List.append_assoc]

end Reckoner.Source
