/-
  What is accepted.  A source that is read is a sentence and the expression is its tree, up to three
  things that the scanner lets pass: a semicolon behind the sentence, a backslash that joins two lines,
  and a null character, which hides what follows it (`sentence_of_readExpr`).  A source without these
  three characters is accepted only if it is a sentence with white space between its tokens, and one
  that has any of them never is such a sentence.
-/
import Reckoner.Proofs.Recovery
import Reckoner.Source.Line

namespace Reckoner.Source

variable {k : Level} {c : Char}

/-! ## From a reading to a sentence

  A reading goes through five stages, and each can refuse: preparing, scanning, parsing, taking the only
  expression out of what was parsed, and building the tree.  Where none refuses, the tokens were those
  of a sentence (`spelled_of_readPhrases`), and the text can be taken back from the tokens
  (`Yields.skip`, `exists_sentence`). -/

/-- The source of an expression as it stands before it is prepared. -/
def bodyOf (src : List Char) : List Char := Text.trim (cutComment src)

/-- What was scanned and read of a source, if it was read. -/
theorem exists_tokens {src : List Char} {e : Expr} (h : readExpr src = .ok e) :
    ∃ x ts, readPhrases (ts ++ [⟨.eof, 0⟩]) = .ok [.expression x] ∧ exprOf x = .ok e ∧
      hasLooseUnderscore false (bodyOf src) = false ∧
      Says 0 true (prepared (bodyOf src)) (ts.map (·.token)) := by
  obtain ⟨x, hx, he⟩ := exists_of_bind_ok h
  -- the tree was built: nothing in the phrase is outside the grammar
  have he : exprOf x = .ok e := by
    unfold expressionOf at he
    split at he
    · rename_i e' he'
      cases he
      exact he'
    · cases he
  unfold readPhrase prepare? at hx
  simp only at hx
  split at hx
  · -- a loose underscore is refused before anything is scanned
    cases hx
  · rename_i cs hcs
    split at hcs
    · cases hcs
    · rename_i hloose
      cases hcs
      obtain ⟨sts, hsts, hx⟩ := exists_of_bind_ok hx
      -- one statement came out of the parsing, and it is an expression
      have honly : sts = [.expression x] := by
        unfold onlyExpression at hx
        split at hx
        · cases hx
          rfl
        · cases hx
        · cases hx
      subst honly
      unfold statementsOf at hsts
      split at hsts
      · rename_i hfault
        split at hsts
        · rename_i sts hread
          cases hsts
          exact ⟨x, _, hread, he, by simpa [bodyOf] using hloose, 1, hfault, rfl⟩
        · cases hsts
      · split at hsts
        · cases hsts
        · cases hsts

/-- **A source that is read** is a sentence whose tree is the expression, with a gap before and a tail
    behind it. -/
theorem sentence_of_readExpr {src : List Char} {e : Expr} (h : readExpr src = .ok e) :
    ∃ (lead : Gap Wide) (s : Sentence Wide .sum) (tail : List Char),
      bodyOf src = lead.val ++ (s.source ++ tail) ∧ Tail tail ∧ s.tree = e := by
  obtain ⟨x, ts, hread, he, hloose, hscanned⟩ := exists_tokens h
  obtain ⟨lead, us, trail, htokens, hlead, hx, htrail⟩ := spelled_of_readPhrases hread he
  rw [htokens] at hscanned
  -- no token is an indentation: neither those of the sentence nor what stands around it
  have htrailing : ∀ t ∈ trail, t ≠ .indent := by
    cases htrail with
    | breaks hbreaks =>
      rintro t ht rfl
      cases hbreaks _ ht
    | semicolon hbreaks =>
      rintro t ht rfl
      rcases List.mem_cons.1 ht with ht | ht
      · cases ht
      · cases hbreaks _ ht
  have hindent : Token.indent ∉ lead ++ (us ++ trail) := by
    intro hmem
    rcases List.mem_append.1 hmem with hmem | hmem
    · cases hlead _ hmem
    · rcases List.mem_append.1 hmem with hmem | hmem
      · cases hx.isWritten _ hmem
      · exact htrailing _ hmem rfl
  have hyields : Yields 0 true (bodyOf src) (lead ++ (us ++ trail)) := ⟨hloose, hscanned, hindent⟩
  -- what comes behind the sentence cannot run together with its last token
  have hapart : ∀ t ∈ trail.head?, t.isApart = true := by
    cases htrail with
    | breaks hbreaks =>
      intro t ht
      have hbreak := hbreaks t (List.mem_of_mem_head? ht)
      cases t with
      | eof => rfl
      | newline => rfl
      | _ => cases hbreak
    | semicolon => exact isApart_mark _ _
  -- the first token of the sentence ends the breaks before it
  obtain ⟨t, us', hus⟩ := List.exists_cons_of_ne_nil hx.ne_nil
  have ht : t.isBreak = false :=
    Token.isBreak_of_isWritten (hx.isWritten t (by rw [hus]; exact List.mem_cons_self))
  rw [hus, List.cons_append] at hyields
  obtain ⟨g, r, _, hbody, hyields, _⟩ := Yields.skip hlead ht hyields
  rw [← List.cons_append, ← hus] at hyields
  obtain ⟨g', s, tail, rfl, hs, hyields⟩ := exists_sentence hx he hapart hyields
  exact ⟨⟨g.val ++ g'.val, g.property.append g'.property⟩, s, tail, by rw [hbody, List.append_assoc],
    tail_of_yields hyields htrail, hs⟩

/-! ## Sentences with white space

  A gap of the wider kind is white space and joined lines.  Without a backslash no lines are joined, so
  every gap is white space, and the sentence is one of the narrower kind with the same text and the same
  tree. -/

/-- A numeral without a backslash has white space in its gaps. -/
theorem Numeral.exists_white (n : Numeral Wide) (h : '\x5c' ∉ n.text) :
    ∃ n' : Numeral White, n'.text = n.text ∧ ∀ sign, n'.tree sign = n.tree sign := by
  cases n with
  | whole ds => exact ⟨.whole ds, rfl, fun _ => rfl⟩
  | decimal front places => exact ⟨.decimal front places, rfl, fun _ => rfl⟩
  | ratio num before after sign den =>
    simp only [text, List.mem_append, List.mem_cons, not_or] at h
    obtain ⟨_, hbefore, _, hafter, _⟩ := h
    exact ⟨.ratio num ⟨before, white_of_wide before.property hbefore⟩
      ⟨after, white_of_wide after.property hafter⟩ sign den, rfl, fun _ => rfl⟩

/-- A sentence without a backslash has white space in its gaps. -/
theorem Sentence.exists_white (s : Sentence Wide k) (h : '\x5c' ∉ s.source) :
    ∃ s' : Sentence White k, s'.source = s.source ∧ s'.tree = s.tree := by
  induction s with
  | atom a =>
    cases a with
    | numeral n =>
      obtain ⟨n', htext, htree⟩ := n.exists_white h
      exact ⟨.atom (.numeral n'), htext, htree .plus⟩
    | name x => exact ⟨.atom (.name x), rfl, rfl⟩
  | signed sign gap n =>
    simp only [source, write, Atom.text, List.mem_append, List.mem_cons, not_or] at h
    obtain ⟨_, hgap, hn⟩ := h
    obtain ⟨n', htext, htree⟩ := n.exists_white hn
    refine ⟨.signed sign ⟨gap, white_of_wide gap.property hgap⟩ n', ?_, htree sign⟩
    simp only [source, write, Atom.text, htext]
  | group before e after ih =>
    simp only [source, write, List.mem_append, List.mem_cons, not_or] at h
    obtain ⟨_, hbefore, he, hafter, _⟩ := h
    obtain ⟨e', hsource, htree⟩ := ih he
    refine ⟨.group ⟨before, white_of_wide before.property hbefore⟩ e'
      ⟨after, white_of_wide after.property hafter⟩, ?_, htree⟩
    simp only [source] at hsource
    simp only [source, write, hsource]
  | ofFactor t ih =>
    obtain ⟨t', hsource, htree⟩ := ih h
    exact ⟨.ofFactor t', hsource, htree⟩
  | ofTerm t ih =>
    obtain ⟨t', hsource, htree⟩ := ih h
    exact ⟨.ofTerm t', hsource, htree⟩
  | operation op l before after r ihl ihr =>
    -- a text has no backslash exactly if none of its parts has one
    simp only [source, write, List.mem_append, List.mem_cons, not_or] at h
    obtain ⟨hl, hbefore, _, hafter, hr⟩ := h
    obtain ⟨l', hlsource, hltree⟩ := ihl hl
    obtain ⟨r', hrsource, hrtree⟩ := ihr hr
    refine ⟨.operation op l' ⟨before, white_of_wide before.property hbefore⟩
      ⟨after, white_of_wide after.property hafter⟩ r', ?_, ?_⟩
    · simp only [source] at hlsource hrsource
      simp only [source, write, hlsource, hrsource]
    · simp only [tree, hltree, hrtree]

/-- The characters of a sentence. -/
theorem Sentence.mem_source {s : Sentence White k} (h : c ∈ s.source) :
    Text.isSpace c = true ∨ isSourceChar c = true := by
  have hgap : ∀ g : Gap White, ∀ c ∈ g.val, Text.isSpace c = true ∨ isSourceChar c = true :=
    fun g c hc => Or.inl (g.property c hc)
  exact forall_mem_write (p := fun c => Text.isSpace c = true ∨ isSourceChar c = true)
    (fun c hc => Or.inr (isSourceChar_of_isPlain hc)) hgap
    (forall_mem_text (fun c hc => Or.inr hc) hgap) s c h

/-- The characters that no sentence has, although the scanner lets them pass. -/
def isStray (c : Char) : Bool := c = ';' || c = '\x5c' || c.toNat = 0

/-- A sentence with white space has no stray character. -/
theorem Sentence.not_isStray {s : Sentence White k} (h : c ∈ s.source) : isStray c = false := by
  cases hc : isStray c with
  | false => rfl
  | true =>
    have hc : c = ';' ∨ c = '\x5c' ∨ c = '\x00' := by
      have hc : (c = ';' ∨ c = '\x5c') ∨ c.toNat = 0 := by simpa [isStray] using hc
      rcases hc with (hc | hc) | hc
      · exact Or.inl hc
      · exact Or.inr (Or.inl hc)
      · exact Or.inr (Or.inr (Char.toNat_inj.1 hc))
    have hmem := mem_source h
    -- none of the three is a space or a character that sentences are written with
    rcases hc with rfl | rfl | rfl <;> rcases hmem with hmem | hmem <;> cases hmem

/-! ## Trimmed texts -/

/-- A trimmed text ends with no blank. -/
theorem not_isBlank_last_trim (cs front : List Char) (h : Text.trim cs = front ++ [c]) :
    Text.isBlank c = false := by
  have hrev := congrArg List.reverse h
  rw [Text.trim, Text.trimBack, List.reverse_reverse, List.reverse_append] at hrev
  exact head_dropWhile Text.isBlank _ c (by rw [hrev]; rfl)

/-- A trimmed text begins with no blank. -/
theorem not_isBlank_head_trim (cs back : List Char) (h : Text.trim cs = c :: back) :
    Text.isBlank c = false := by
  -- what is trimmed behind leaves the front as it is
  have hsplit := List.takeWhile_append_dropWhile (p := Text.isBlank) (l := (Text.trimFront cs).reverse)
  have hfront : Text.trimFront cs = Text.trim cs ++
      ((Text.trimFront cs).reverse.takeWhile Text.isBlank).reverse := by
    rw [Text.trim, Text.trimBack, ← List.reverse_append, hsplit, List.reverse_reverse]
  rw [h, List.cons_append] at hfront
  exact head_dropWhile Text.isBlank cs c (by rw [← Text.trimFront, hfront]; rfl)

/-- White space before and behind a part of a trimmed text is none. -/
theorem eq_of_trim {cs lead body tail : List Char} (hlead : White lead) (htail : White tail)
    (h : Text.trim cs = lead ++ (body ++ tail)) : lead = [] ∧ tail = [] := by
  constructor
  · cases lead with
    | nil => rfl
    | cons c lead =>
      have hblank := Text.isBlank_of_isSpace (hlead c List.mem_cons_self)
      rw [not_isBlank_head_trim cs _ h] at hblank
      cases hblank
  · rcases List.eq_nil_or_concat tail with rfl | ⟨front, c, rfl⟩
    · rfl
    · have hblank := Text.isBlank_of_isSpace (htail c (by simp))
      rw [not_isBlank_last_trim cs (lead ++ (body ++ front)) (by rw [h]; simp)] at hblank
      cases hblank

/-! ## What is accepted -/

/-- A tail without a stray character is white space. -/
theorem white_of_tail {tail : List Char} (h : Tail tail) (hstray : ∀ c ∈ tail, isStray c = false) :
    White tail := by
  cases h with
  | gap hg hr =>
    -- either the gap is all, or a null character follows it
    cases hr with
    | nil =>
      rw [List.append_nil] at hstray ⊢
      exact white_of_wide hg fun hmem => absurd (hstray _ hmem) (by decide)
    | null hc r =>
      have hfalse := hstray _ (List.mem_append_right _ List.mem_cons_self)
      simp [isStray, hc] at hfalse
  | semicolon hg hg' hr => exact absurd (hstray ';' (by simp)) (by decide)

/-- A source that is read is a sentence with white space exactly if it has no stray character: then
    nothing is left of the gap before the sentence and the tail behind it, since the text is trimmed. -/
theorem exists_white_iff {src : List Char} {e : Expr} (h : readExpr src = .ok e) :
    (∃ s : Sentence White .sum, s.source = bodyOf src ∧ s.tree = e) ↔
      ∀ c ∈ bodyOf src, isStray c = false := by
  constructor
  · rintro ⟨s, hs, _⟩ c hc
    rw [← hs] at hc
    exact Sentence.not_isStray hc
  · intro hstray
    obtain ⟨lead, s, tail, hbody, htail, rfl⟩ := sentence_of_readExpr h
    have hparts : ∀ c, c ∈ lead.val ∨ c ∈ s.source ∨ c ∈ tail → isStray c = false := by
      intro c hc
      refine hstray c ?_
      rw [hbody]
      simpa only [List.mem_append] using hc
    have hback : isStray '\x5c' = true := by decide
    have hlead : White lead.val := white_of_wide lead.property fun hmem => by
      rw [hparts _ (Or.inl hmem)] at hback
      cases hback
    obtain ⟨hl, rfl⟩ :=
      eq_of_trim hlead (white_of_tail htail fun c hc => hparts c (Or.inr (Or.inr hc))) hbody
    obtain ⟨s', hsource, htree⟩ := s.exists_white fun hmem => by
      rw [hparts _ (Or.inr (Or.inl hmem))] at hback
      cases hback
    refine ⟨s', ?_, htree⟩
    rw [hsource, hbody, hl, List.nil_append, List.append_nil]

/-- **What is accepted.**  Every source is refused with a complaint that says so, or it is read as the
    tree of a sentence that it consists of, with a gap before and a tail behind it.  It is a sentence
    with nothing but white space between its tokens if and only if it has none of the three stray
    characters. -/
theorem readExpr_accepts (src : List Char) :
    (∃ m : Malformed, readExpr src = .error m ∧ ∃ reason, m.message = "malformed source: " ++ reason) ∨
      ∃ e, readExpr src = .ok e ∧
        (∃ (lead : Gap Wide) (s : Sentence Wide .sum) (tail : List Char),
          Text.trim (cutComment src) = lead.val ++ (s.source ++ tail) ∧ Tail tail ∧ s.tree = e) ∧
        ((∃ s : Sentence White .sum, s.source = Text.trim (cutComment src) ∧ s.tree = e) ↔
          ∀ c ∈ Text.trim (cutComment src), c ≠ ';' ∧ c ≠ '\x5c' ∧ c.toNat ≠ 0) := by
  cases h : readExpr src with
  | error m => exact Or.inl ⟨m, rfl, m.reason, rfl⟩
  | ok e =>
    refine Or.inr ⟨e, rfl, sentence_of_readExpr h, (exists_white_iff h).trans ?_⟩
    refine forall_congr' fun c => imp_congr_right fun _ => ?_
    simp [isStray, and_assoc]

/-- **A source that is accepted and is no sentence**: a semicolon stands behind its numeral. -/
theorem readExpr_semicolon :
    readExpr ['1', ';'] = .ok (.integer 1) ∧ Text.trim (cutComment ['1', ';']) = ['1', ';'] ∧
      ∀ s : Sentence White .sum, s.source ≠ ['1', ';'] := by
  refine ⟨eq_ok_of_toOption (by decide +kernel), by decide, fun s hs => ?_⟩
  have hmem : ';' ∈ s.source := by
    rw [hs]
    decide
  exact absurd (Sentence.not_isStray hmem) (by decide)

end Reckoner.Source
