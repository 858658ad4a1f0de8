/-
  From the tokens back to the text.  The scanner gets a source in its prepared form; `Yields` says which
  tokens the rest of a source has, and one token after the other is traced to the piece of the source
  that it was made of (`seen_of_front`).  So the source of an expression is found to be a sentence
  (`exists_sentence`), whose gaps are white space or joints of two lines, and behind it nothing is left
  but a semicolon and what a null character hides (`tail_of_yields`).
-/
import Reckoner.Proofs.Lexing
import Reckoner.Proofs.Restoration
import Reckoner.Proofs.Transcript

namespace Reckoner.Source

variable {depth : Nat} {fresh : Bool} {c : Char} {r cs : List Char} {t : Token} {ts : List Token}

/-! ## What a text says

  The scanner numbers its tokens by lines; `Says` forgets the numbers, which no law below needs.  One
  lemma for each way in which a text can go on says what its tokens are then: at its end, at a blank, a
  line end, a backslash, and where a token begins. -/

/-- The text is scanned without a fault, and these are its tokens. -/
def Says (depth : Nat) (fresh : Bool) (cs : List Char) (ts : List Token) : Prop :=
  ∃ line, (scanFrom depth fresh line cs).fault = none ∧
    (scanFrom depth fresh line cs).tokens.map (·.token) = ts

namespace Says

/-- At the end of the text there is no token. -/
theorem nil (h : Says depth fresh [] ts) : ts = [] := by
  obtain ⟨line, _, rfl⟩ := h
  rw [scanFrom.eq_def]
  rfl

/-- Nor is there one behind a null character, which ends the text for the scanner. -/
theorem null (hc : c.toNat = 0) (h : Says depth fresh (c :: r) ts) : ts = [] := by
  obtain ⟨line, _, rfl⟩ := h
  rw [scanFrom.eq_def]
  simp only [hc, if_true, List.map_nil]

/-- A blank that announces no line is passed over. -/
theorem blank (hc : c = ' ' ∨ c = '\t') (h : Says depth fresh (c :: r) ts) (hindent : Token.indent ∉ ts) :
    Says depth fresh r ts := by
  obtain ⟨line, hfault, htokens⟩ := h
  have hnull : c.toNat ≠ 0 := by rcases hc with rfl | rfl <;> decide
  have hblank : (c = ' ' || c = '\t') = true := by simpa using hc
  rw [scanFrom.eq_def] at hfault htokens
  simp only [hnull, hblank, if_true, if_false] at hfault htokens
  split at htokens
  · -- a blank at the beginning of a line is announced, which was excluded
    rw [← htokens] at hindent
    exact absurd List.mem_cons_self hindent
  · rename_i hplain
    rw [if_neg hplain] at hfault
    exact ⟨line, hfault, htokens⟩

/-- A line end is a break or nothing. -/
theorem lineEnd (h : Says depth fresh ('\n' :: r) ts) :
    ∃ bs ts', ts = bs ++ ts' ∧ (∀ t ∈ bs, t.isBreak = true) ∧ Says depth true r ts' := by
  obtain ⟨line, hfault, rfl⟩ := h
  have hscan : scanFrom depth fresh line ('\n' :: r) =
      if fresh || 0 < depth then scanFrom depth true (line + 1) r
      else (scanFrom depth true (line + 1) r).push ⟨.newline, line⟩ := by
    rw [scanFrom.eq_def]
    simp
  rw [hscan] at hfault ⊢
  -- inside brackets, or on an empty line, the line end is nothing
  split
  · rename_i hpass
    rw [if_pos hpass] at hfault
    exact ⟨[], _, rfl, List.forall_mem_nil _, line + 1, hfault, rfl⟩
  · rename_i hpass
    rw [if_neg hpass] at hfault
    refine ⟨[.newline], _, rfl, ?_, line + 1, hfault, rfl⟩
    rintro t ht
    rw [List.mem_singleton.1 ht]
    rfl

/-- A backslash joins two lines. -/
theorem backslash (h : Says depth fresh ('\x5c' :: r) ts) :
    ∃ r', r = '\n' :: r' ∧ Says depth false r' ts := by
  obtain ⟨line, hfault, rfl⟩ := h
  cases r with
  | nil =>
    -- a backslash at the end is a fault
    rw [scanFrom.eq_def] at hfault
    simp at hfault
  | cons d r' =>
    have hscan : scanFrom depth fresh line ('\x5c' :: d :: r') =
        if d = '\n' then scanFrom depth false (line + 1) r' else ⟨[], some .strayBackslash⟩ := by
      rw [scanFrom.eq_def]
      simp
    rw [hscan] at hfault ⊢
    by_cases hd : d = '\n'
    · rw [if_pos hd] at hfault ⊢
      exact ⟨r', by rw [hd], line + 1, hfault, rfl⟩
    · -- so is one before anything but a line end
      rw [if_neg hd] at hfault
      cases hfault

/-- Everything else begins a token. -/
theorem token (hc : beginsToken c = true) (h : Says depth fresh (c :: cs) ts) :
    ∃ t rest depth' ts', ts = t :: ts' ∧ Lexed c cs t rest ∧ depthAfter? depth t = some depth' ∧
      Says depth' false rest ts' := by
  obtain ⟨line, hfault, rfl⟩ := h
  rw [scanFrom_cons hc] at hfault ⊢
  cases hlexeme : lexeme c cs with
  | error f =>
    -- a fault is not said
    rw [hlexeme] at hfault
    cases hfault
  | ok p =>
    obtain ⟨t, rest⟩ := p
    rw [hlexeme] at hfault
    simp only at hfault ⊢
    cases hdepth : depthAfter? depth t with
    | none =>
      -- nor is a bracket that closes nothing
      rw [hdepth] at hfault
      cases hfault
    | some depth' =>
      rw [hdepth] at hfault
      exact ⟨t, rest, depth', _, rfl, lexed_of_lexeme hlexeme, hdepth, _, hfault, rfl⟩

/-- Where a token begins it does not matter what stood on the line. -/
theorem stale (hc : beginsToken c = true) (h : Says depth fresh (c :: cs) ts) :
    Says depth false (c :: cs) ts := by
  obtain ⟨line, hfault, htokens⟩ := h
  refine ⟨line, ?_⟩
  rw [scanFrom_cons hc] at hfault htokens ⊢
  exact ⟨hfault, htokens⟩

/-- What is scanned as lexemes says them. -/
theorem of_scans {ls : List Lexeme} {depth' : Nat} {rest : List Char}
    (hscans : Scans depth cs ls depth' rest) (hall : ls.all (·.fits) = true)
    (h : Says depth false cs ts) :
    ∃ ts', ts = ls.map (·.token) ++ ts' ∧ Says depth' false rest ts' := by
  obtain ⟨line, hfault, rfl⟩ := h
  rw [hscans line, (foldr_onto line ls _).1 hall] at hfault ⊢
  refine ⟨_, ?_, line, hfault, rfl⟩
  rw [List.map_append, placed, List.map_map]
  rfl

end Says

/-! ## Gaps

  Between two tokens of the source stands more than the grammar of sentences had: line ends, and
  backslashes that join two lines.  Such a gap is passed piece by piece; a line end outside of brackets
  leaves a break among the tokens, and nothing else does. -/

/-- White space, and joints of two lines. -/
inductive Wide : List Char → Prop
  | nil : Wide []
  | space {c : Char} (hc : Text.isSpace c = true) {g : List Char} (hg : Wide g) : Wide (c :: g)
  | joint {c : Char} (hc : c = '\n' ∨ c = '\r') {g : List Char} (hg : Wide g) : Wide ('\x5c' :: c :: g)

/-- A gap behind a gap is a gap. -/
theorem Wide.append {g g' : List Char} (hg : Wide g) (hg' : Wide g') : Wide (g ++ g') := by
  induction hg with
  | nil => exact hg'
  | space hc _ ih => exact .space hc ih
  | joint hc _ ih => exact .joint hc ih

/-- White space is a gap of this kind. -/
theorem wide_of_white {g : List Char} (h : White g) : Wide g := by
  induction g with
  | nil => exact .nil
  | cons c g ih => exact .space (h c List.mem_cons_self) (ih fun d hd => h d (List.mem_cons_of_mem c hd))

/-- A gap without a backslash is white space. -/
theorem white_of_wide {g : List Char} (h : Wide g) (hg : '\x5c' ∉ g) : White g := by
  induction h with
  | nil => exact fun _ h => nomatch h
  | space hc _ ih => exact List.forall_mem_cons.2 ⟨hc, ih fun h => hg (List.mem_cons_of_mem _ h)⟩
  -- a joint has a backslash
  | joint hc _ ih => exact absurd List.mem_cons_self hg

/-- The tokens that the rest of a source has. -/
structure Yields (depth : Nat) (fresh : Bool) (r : List Char) (ts : List Token) : Prop where
  loose : hasLooseUnderscore false r = false
  scanned : Says depth fresh (prepared r) ts
  indent : Token.indent ∉ ts

/-- A line end of the source, alone or inside a joint. -/
theorem Yields.lineEnd (hc : c = '\n' ∨ c = '\r') (hloose : hasLooseUnderscore false (c :: r) = false)
    (hindent : Token.indent ∉ ts) {p : List Char} (hp : prepared (c :: r) = '\n' :: p)
    (h : Says depth fresh p ts) : ∃ e r', r = e ++ r' ∧ Wide e ∧ Yields depth fresh r' ts := by
  have hword : isWordChar c = false := by rcases hc with rfl | rfl <;> rfl
  obtain ⟨e, r', hsource, he, hprepared⟩ := exists_of_lineEnd hc r
  rw [hp] at hprepared
  obtain ⟨_, rfl⟩ := List.cons.inj hprepared
  rw [hasLooseUnderscore_cons false hword] at hloose
  rcases he with rfl | rfl
  · -- the line end was a single character
    obtain ⟨_, hr⟩ := List.cons.inj hsource
    subst hr
    exact ⟨[], r, rfl, .nil, hloose, h, hindent⟩
  · -- the line end was a carriage return and a line feed, of which preparing left one
    obtain ⟨_, hr⟩ := List.cons.inj hsource
    subst hr
    exact ⟨['\n'], r', rfl, .space rfl .nil, hloose, h, hindent⟩

/-- The source ends, or a token begins. -/
def Stops (r : List Char) : Prop := ∀ c ∈ r.head?, c.toNat = 0 ∨ beginsToken c = true ∧ c ≠ '\r'

/-- A piece of a gap is passed over.  Line ends may be breaks. -/
theorem Yields.pass (h : Yields depth fresh (c :: r) ts) (hstop : ¬ Stops (c :: r)) :
    ∃ g r' bs ts' fresh', c :: r = g ++ r' ∧ r'.length ≤ r.length ∧ Wide g ∧ ts = bs ++ ts' ∧
      (∀ t ∈ bs, t.isBreak = true) ∧ Yields depth fresh' r' ts' := by
  have hstop : ¬ (c.toNat = 0 ∨ beginsToken c = true ∧ c ≠ '\r') := by
    intro hc
    refine hstop ?_
    rintro d ⟨⟩
    exact hc
  -- what stops no gap is a blank, a line end or a backslash
  have hc : (c = ' ' ∨ c = '\t') ∨ (c = '\n' ∨ c = '\r') ∨ c = '\x5c' := by
    by_cases hreturn : c = '\r'
    · exact Or.inr (Or.inl (Or.inr hreturn))
    · have hstop : ¬ c.toNat = 0 ∧
          (¬ c.toNat = 0 → ¬ c = ' ' → ¬ c = '\t' → ¬ c = '\n' → c = '\x5c') := by
        simpa [beginsToken, hreturn] using hstop
      grind
  obtain ⟨hloose, hscanned, hindent⟩ := h
  rcases hc with hc | hc | rfl
  · -- blanks go to the scanner as they are
    have hword : isWordChar c = false ∧ c ≠ '.' ∧ c ≠ '\r' := by rcases hc with rfl | rfl <;> decide
    have hspace : Text.isSpace c = true := by rcases hc with rfl | rfl <;> rfl
    rw [prepared_cons hword.1 hword.2.1 hword.2.2] at hscanned
    rw [hasLooseUnderscore_cons false hword.1] at hloose
    exact ⟨[c], r, [], ts, fresh, rfl, Nat.le_refl _, .space hspace .nil, rfl,
      List.forall_mem_nil _, hloose, hscanned.blank hc hindent, hindent⟩
  · -- a line end may leave a break
    have hspace : Text.isSpace c = true := by rcases hc with rfl | rfl <;> rfl
    obtain ⟨_, _, _, _, hprepared⟩ := exists_of_lineEnd hc r
    rw [hprepared] at hscanned
    obtain ⟨bs, ts', rfl, hbs, hscanned⟩ := hscanned.lineEnd
    have hindent : Token.indent ∉ ts' := fun hmem => hindent (List.mem_append_right bs hmem)
    obtain ⟨e, r', rfl, he, hrest⟩ := Yields.lineEnd hc hloose hindent hprepared hscanned
    exact ⟨c :: e, r', bs, ts', true, rfl, by simp, .space hspace he, rfl, hbs, hrest⟩
  · -- a backslash stands before a line end
    rw [prepared_cons rfl (by decide) (by decide)] at hscanned
    obtain ⟨p, hp, hjoined⟩ := hscanned.backslash
    obtain ⟨d, r₁, rfl, hd⟩ := exists_of_prepared_lineEnd hp
    rw [hasLooseUnderscore_cons false rfl] at hloose
    obtain ⟨e, r', rfl, he, hrest⟩ := Yields.lineEnd hd hloose hindent hp hjoined
    exact ⟨'\x5c' :: d :: e, r', [], ts, false, rfl, by simp; omega, .joint hd he, rfl,
      List.forall_mem_nil _, hrest⟩

/-- **Gaps.**  Behind a gap the source ends, or a token begins. -/
theorem Yields.exists_gap (h : Yields depth fresh r ts) :
    ∃ g r' bs ts' fresh', r = g ++ r' ∧ Wide g ∧ ts = bs ++ ts' ∧ (∀ t ∈ bs, t.isBreak = true) ∧
      Yields depth fresh' r' ts' ∧ Stops r' := by
  -- every piece that is passed over leaves a shorter source
  induction hn : r.length using Nat.strongRecOn generalizing r ts fresh with
  | ind n ih =>
    subst hn
    by_cases hstop : Stops r
    · exact ⟨[], r, [], ts, fresh, rfl, .nil, rfl, List.forall_mem_nil _, h, hstop⟩
    · cases r with
      | nil => exact absurd (fun _ h => nomatch h) hstop
      | cons c r =>
        obtain ⟨g, r₁, bs, ts₁, fresh₁, hsource, hlen, hg, rfl, hbs, hrest⟩ := h.pass hstop
        obtain ⟨g', r', bs', ts', fresh', rfl, hg', rfl, hbs', hyields, hstop'⟩ :=
          ih r₁.length (Nat.lt_succ_of_le hlen) hrest rfl
        rw [hsource]
        exact ⟨g ++ g', r', bs ++ bs', ts', fresh', by rw [List.append_assoc], hg.append hg',
          by rw [List.append_assoc], List.forall_mem_append.2 ⟨hbs, hbs'⟩, hyields, hstop'⟩

/-! ## Tokens and their pieces of the source

  What the scanner gets at a place is one of five things (`Front`), by what stands there in the source.
  For each of them the token that the scanner takes is followed back to its piece.  A token that no
  expression has needs no piece (`Token.Foreign`); with it the reading has failed already. -/

/-- The tokens that no expression has. -/
inductive Token.Foreign : Token → Prop
  | name {s : String} (hratio : s ≠ "__ratio__") (h : ∀ e, referenceOf s ≠ .ok e) : Foreign (.name s)
  | int {raw : String} {n : Nat} (h : ∀ v, integerOf raw n ≠ .ok v) : Foreign (.int raw n)
  | float {raw : String} (h : ∀ p, decimalOf raw ≠ .ok p) : Foreign (.float raw)
  | text (raw value : String) : Foreign (.text raw value)
  | bytes (raw : String) : Foreign (.bytes raw)
  | mark {m : Mark} (h : m.char? = none) : Foreign (.mark m)
  | word (k : Keyword) : Foreign (.word k)

/-- What the first token of a source was made of.  A ratio has been made a call of many tokens. -/
inductive Seen (depth : Nat) : List Char → List Token → Prop
  | foreign {t : Token} (ht : t.Foreign) {r : List Char} {ts : List Token} : Seen depth r (t :: ts)
  | mark {m : Mark} {c : Char} (hm : m.char? = some c) {depth' : Nat}
      (hdepth : depthAfter? depth (.mark m) = some depth') {r : List Char} {ts : List Token}
      (h : Says depth' false (prepared r) ts) : Seen depth (c :: r) (.mark m :: ts)
  | name (x : Name) {s : String} (hs : referenceOf s = .ok (.reference (String.ofList x))) {r : List Char}
      (hr : Ends r) {ts : List Token} (h : Says depth false (prepared r) ts) :
      Seen depth (x.val ++ r) (.name s :: ts)
  | int (ds : Digits) {raw : String} {n : Nat} (hn : integerOf raw n = .ok (ds.value : Int))
      {r : List Char} {ts : List Token} (h : Says depth false (carried r) ts) :
      Seen depth (ds.val ++ r) (.int raw n :: ts)
  | float (front places : Digits) {raw : String}
      (hp : decimalOf raw =
        .ok ((Text.natOfDigits (front ++ places.val) : Int), ((10 ^ places.val.length : Nat) : Int)))
      {r : List Char} {ts : List Token} (h : Says depth false (carried r) ts) :
      Seen depth ((Numeral.decimal front places : Numeral Wide).text ++ r) (.float raw :: ts)
  | ratio (n d : Digits) (before after : Gap White) (sign : Option Sign) {r : List Char} (hr : Ends r)
      {us ts : List Token} (h : Says depth false (prepared r) ts)
      (hus : .name "__ratio__" :: us =
        (Numeral.ratio n before after sign d).stripped.lexemes.map (·.token) ++ ts) :
      Seen depth ((Numeral.ratio n before after sign d).text ++ r) (.name "__ratio__" :: us)

/-- An identifier that begins with a run of word characters holds the run, and goes on as far as it
    can. -/
theorem identifier_word {w v : List Char} (hw : ∀ d ∈ w, isWordChar d = true) {rest : List Char}
    {s : String} (h : identifier c (w ++ v) = (.name s, rest)) :
    s = String.ofList (c :: (w ++ v.takeWhile isIdentifierChar)) ∧
      rest = v.dropWhile isIdentifierChar := by
  have hall : ∀ d ∈ w, isIdentifierChar d = true := fun d hd => isIdentifierChar_of_isWordChar (hw d hd)
  obtain ⟨rfl, ⟨k, hk⟩ | hs⟩ := token_of_identifier h
  · cases hk
  · cases hs
    rw [List.takeWhile_append_of_pos hall, List.dropWhile_append_of_pos hall]
    exact ⟨rfl, rfl⟩

/-- A name of the source that is taken ends where its identifier ends. -/
theorem name_of_identifier (x : Name) {w : List Char} (hw : c :: w = x.val ∨ c :: w = markWord x)
    (hr : ∀ d ∈ r.head?, isNameChar d = false) {s : String} {rest : List Char}
    (h : identifier c (w ++ carried r) = (.name s, rest)) :
    s ≠ "__ratio__" ∧ ∀ e, referenceOf s = .ok e → e = .reference (String.ofList x) ∧ Ends r ∧
      rest = carried r := by
  have hword : ∀ d ∈ c :: w, isWordChar d = true := by
    rcases hw with hw | hw
    · rw [hw]
      exact isWordChar_of_mem_name x
    · rw [hw]
      exact isWordChar_of_mem_markWord x
  obtain ⟨rfl, rfl⟩ := identifier_word (fun d hd => hword d (List.mem_cons_of_mem c hd)) h
  have hunmark := unmarkWord_append x hw ((carried r).takeWhile isIdentifierChar)
  obtain ⟨c₀, cs₀, hx, hc₀, _⟩ := x.exists_cons
  constructor
  · -- a name begins with a letter, also behind the mark
    intro hratio
    have htext := congrArg String.toList hratio
    rw [String.toList_ofList, ← List.cons_append] at htext
    rw [htext, hx] at hunmark
    have hhead : '_' = c₀ := (List.cons.inj hunmark).1
    rw [← hhead] at hc₀
    cases hc₀
  · intro e he
    unfold referenceOf at he
    simp only [String.toList_ofList, ← List.cons_append, hunmark] at he
    split at he
    · rename_i hname
      -- were there more of the identifier than the name, the name would have ended too early in the
      -- source
      have hmore : (carried r).takeWhile isIdentifierChar = [] := by
        cases hmore : (carried r).takeWhile isIdentifierChar with
        | nil => rfl
        | cons d ds =>
          rw [hmore, hx, List.cons_append, isName] at hname
          have hd : isNameChar d = true :=
            List.all_eq_true.1 ((Bool.and_eq_true _ _).mp hname).2 d
              (List.mem_append_right _ List.mem_cons_self)
          have hhead : (carried r).head? = some d := by
            cases hcarried : carried r with
            | nil =>
              rw [hcarried] at hmore
              cases hmore
            | cons d' t =>
              rw [hcarried, List.takeWhile_cons] at hmore
              split at hmore
              · rw [(List.cons.inj hmore).1]
                rfl
              · cases hmore
          rw [head_carried (p := fun d => isNameChar d = false) rfl hr d hhead] at hd
          cases hd
      rw [hmore, List.append_nil] at he
      refine ⟨(Except.ok.inj he).symm, ?_, ?_⟩
      · -- no word goes on behind the name
        intro d hd
        obtain ⟨r', rfl⟩ := List.head?_eq_some_iff.1 hd
        cases hdw : isWordChar d with
        | false => rfl
        | true =>
          obtain ⟨t, ht⟩ := carried_cons (c := d) (by rintro rfl; cases hdw) r'
          rw [ht, List.takeWhile_cons, isIdentifierChar_of_isWordChar hdw] at hmore
          cases hmore
      · have hall := List.takeWhile_append_dropWhile (p := isIdentifierChar) (l := carried r)
        rwa [hmore, List.nil_append] at hall
    · cases he

/-- An identifier that begins with no word character, with a letter beyond ASCII say, is no name of an
    expression. -/
theorem foreign_of_identifier (hc : isWordChar c = false) {rest : List Char}
    (h : identifier c cs = (t, rest)) :
    t.Foreign := by
  obtain ⟨_, ⟨k, rfl⟩ | rfl⟩ := token_of_identifier h
  · exact .word k
  · have hunderscore : c ≠ '_' := by
      rintro rfl
      cases hc
    refine .name ?_ ?_
    · -- it does not begin with the underscore of the call
      intro hratio
      have htext := congrArg String.toList hratio
      rw [String.toList_ofList] at htext
      exact hunderscore (List.cons.inj htext).1
    · -- it does not begin with a letter of ASCII, as names do
      intro e he
      unfold referenceOf at he
      simp only [String.toList_ofList, unmarkWord_cons hunderscore] at he
      rw [isName, not_isAlpha_of_not_isWordChar hc] at he
      cases he

/-- What stands at the front of digits that the scanner gets. -/
theorem seen_of_digits (ds : Digits) (hr : ∀ d ∈ r.head?, d.isDigit = false)
    (h : Says depth fresh (ds.stripped.val ++ carried r) ts) : Seen depth (ds.val ++ r) ts := by
  obtain ⟨c, cs, hcons, hc⟩ := ds.stripped.exists_cons
  have hcs : ∀ d ∈ cs, d.isDigit = true := fun d hd =>
    ds.stripped.property.2 d (by rw [hcons]; exact List.mem_cons_of_mem c hd)
  have hcarried : ∀ d ∈ (carried r).head?, d.isDigit = false := head_carried rfl hr
  rw [hcons, List.cons_append] at h
  obtain ⟨t, rest, depth', ts, rfl, hlexed, hdepth, hscanned⟩ :=
    h.token (beginsToken_of_isWordChar (isWordChar_of_isDigit hc))
  -- digits are scanned as a numeral, or as a text that no expression has
  have hnumeral : t.Foreign ∨ numeral c (cs ++ carried r) = .ok (t, rest) := by
    cases hlexed with
    | text raw value => exact Or.inl (.text raw value)
    | bytes raw => exact Or.inl (.bytes raw)
    | word hstart _ =>
      rw [not_isIdentifierStart_of_isDigit hc] at hstart
      cases hstart
    | numeral _ h => exact Or.inr h
    | point hpoint _ =>
      subst hpoint
      cases hc
    | mark _ hdigit _ =>
      rw [hc] at hdigit
      cases hdigit
  rcases hnumeral with hforeign | hnumeral
  · exact .foreign hforeign
  · rcases token_of_numeral hnumeral with ⟨raw, n, rfl⟩ | ⟨raw, rfl⟩
    · cases hdepth
      cases hv : integerOf raw n with
      | error f =>
        refine .foreign (.int fun v h => ?_)
        rw [hv] at h
        cases h
      | ok v =>
        -- an integer: zeros that were dropped in front do not change its value
        obtain ⟨rfl, rfl, _⟩ := integer_of_numeral hcs hcarried hnumeral hv
        have hvalue : Text.natOfDigits (c :: cs) = ds.value := by
          rw [← hcons]
          exact ds.value_stripped
        rw [hvalue] at hv
        exact .int ds hv hscanned
    · cases hdepth
      cases hp : decimalOf raw with
      | error f =>
        refine .foreign (.float fun p h => ?_)
        rw [hp] at h
        cases h
      | ok p =>
        obtain ⟨places, hplaces, hrest, rfl⟩ := decimal_of_numeral hc hcs hcarried hnumeral hp
        -- the point stands in the source, and the digits behind it
        have hpoint : r.head? = some '.' := by
          rcases head?_carried r '.' (by rw [hplaces]; rfl) with hline | hpoint
          · cases hline
          · exact hpoint
        obtain ⟨r₁, rfl⟩ := List.head?_eq_some_iff.1 hpoint
        rw [carried_point] at hplaces
        obtain ⟨r', rfl, rfl, _⟩ := exists_of_pointed places hrest (List.cons.inj hplaces).2
        have hvalue : Text.natOfDigits (c :: (cs ++ places.val)) =
            Text.natOfDigits (ds.val ++ places.val) := by
          rw [← List.cons_append, ← hcons]
          exact natOfDigits_stripZeros_append ds.val places.val
        rw [hvalue] at hp
        have hseen := Seen.float ds places hp hscanned
        rwa [Numeral.text, List.append_assoc, List.cons_append] at hseen

/-- What stands at the front of a name that the scanner gets. -/
theorem seen_of_name (x : Name) (hr : ∀ d ∈ r.head?, isNameChar d = false)
    (h : Says depth fresh ((if startsDigit r then x.val else markWord x) ++ carried r) ts) :
    Seen depth (x.val ++ r) ts := by
  -- the scanner gets the name as it is or with a mark, and in both cases a word that begins with no
  -- digit
  have hw : ∃ c w, (if startsDigit r then x.val else markWord x) = c :: w ∧
      (c :: w = x.val ∨ c :: w = markWord x) ∧ isWordChar c = true ∧ c.isDigit = false := by
    obtain ⟨c, w, hx, hc, _⟩ := x.exists_cons
    have hname : ∃ c w, x.val = c :: w ∧ isWordChar c = true ∧ c.isDigit = false :=
      ⟨c, w, hx, isWordChar_of_isAlpha hc, not_isDigit_of_isAlpha hc⟩
    split
    · obtain ⟨c, w, hx, hc⟩ := hname
      exact ⟨c, w, hx, Or.inl hx.symm, hc⟩
    · have hmark : ∃ c w, markWord x.val = c :: w ∧ isWordChar c = true ∧ c.isDigit = false := by
        unfold markWord
        split
        · exact ⟨'_', _, rfl, rfl, rfl⟩
        · exact hname
      obtain ⟨c, w, hx, hc⟩ := hmark
      exact ⟨c, w, hx, Or.inr hx.symm, hc⟩
  obtain ⟨c, w, hcons, hw, hc, hdigit⟩ := hw
  rw [hcons, List.cons_append] at h
  obtain ⟨t, rest, depth', ts, rfl, hlexed, hdepth, hscanned⟩ := h.token (beginsToken_of_isWordChar hc)
  cases hlexed with
  | text raw value => exact .foreign (.text raw value)
  | bytes raw => exact .foreign (.bytes raw)
  | word _ hid =>
    rcases (token_of_identifier hid).2 with ⟨k, rfl⟩ | rfl
    · exact .foreign (.word k)
    · obtain ⟨hratio, hname⟩ := name_of_identifier x hw hr hid
      cases hs : referenceOf (String.ofList (c :: (w ++ carried r).takeWhile isIdentifierChar)) with
      | error f =>
        refine .foreign (.name hratio fun e h => ?_)
        rw [hs] at h
        cases h
      | ok e =>
        obtain ⟨rfl, hends, rfl⟩ := hname e hs
        cases hdepth
        rw [carried_of_ends hends] at hscanned
        exact .name x hs hends hscanned
  | numeral hd _ =>
    rw [hdigit] at hd
    cases hd
  | point hpoint _ =>
    subst hpoint
    cases hc
  | mark hstart _ _ =>
    rw [isIdentifierStart_of_isWordChar hc hdigit] at hstart
    cases hstart

/-- **Tokens and their pieces of the source.**  What the scanner takes from the front of a prepared
    source says what stands at the front of the source. -/
theorem seen_of_front {p : List Char} (hfront : Front r p) (hbegin : ∀ c ∈ r.head?, beginsToken c = true)
    (h : Says depth fresh p ts) : Seen depth r ts := by
  cases hfront with
  | @other c hc hpoint r =>
    -- neither a word nor a point: a mark, or what no expression has
    obtain ⟨t, rest, depth', ts, rfl, hlexed, hdepth, hscanned⟩ := h.token (hbegin c rfl)
    cases hlexed with
    | text raw value => exact .foreign (.text raw value)
    | bytes raw => exact .foreign (.bytes raw)
    | word _ hid => exact .foreign (foreign_of_identifier hc hid)
    | numeral hd _ =>
      rw [not_isDigit_of_not_isWordChar hc] at hd
      cases hd
    | point hp _ => exact absurd hp hpoint
    | @mark m _ _ _ hmark =>
      cases hm : m.char? with
      | none => exact .foreign (.mark hm)
      | some d =>
        obtain ⟨rfl, rfl⟩ := mark?_char hm hmark
        exact .mark hm hdepth hscanned
  | point r p =>
    -- a point that no digit precedes begins a decimal that is refused, or is a mark alone
    obtain ⟨t, rest, depth', ts, rfl, hlexed, _, _⟩ := h.token (by decide)
    cases hlexed with
    | text raw value => exact .foreign (.text raw value)
    | bytes raw => exact .foreign (.bytes raw)
    | word hstart _ => exact absurd hstart (by decide)
    | numeral hd _ => cases hd
    | point _ hp =>
      obtain ⟨raw, rfl, hbad⟩ := not_taken_of_pointNumeral hp
      exact .foreign (.float hbad)
    | mark _ _ hmark =>
      cases hmark
      exact .foreign (.mark rfl)
  | name x hr => exact seen_of_name x hr h
  | digits ds hr => exact seen_of_digits ds hr h
  | @ratio n d before after sign r hr =>
    -- a call begins with an underscore
    have hfits : (Numeral.ratio n before after sign d).stripped.lexemes.all (·.fits) = true :=
      Numeral.all_fits _
    obtain ⟨ts', hts, hscanned⟩ :=
      Says.of_scans (scans_called n d before after sign depth (prepared r)) hfits
        (h.stale (c := '_') rfl)
    cases hts
    exact .ratio n d before after sign hr hscanned rfl

/-! ## From tokens to sentences

  Where a token has been traced, the rest of the source yields the rest of the tokens, if the next token
  cannot have been part of the same word (`Token.isApart`).  Phrases are spelled with marks between
  their numerals and names, so this is always so, and the sentence is put together along the
  spelling. -/

/-- No token that a numeral or a name before it could go on with. -/
def Token.isApart : Token → Bool
  | .eof => true
  | .newline => true
  | .indent => true
  | .mark _ => true
  | _ => false

/-- Where the next token cannot go on with a word, no word goes on: otherwise the next token would be a
    word or a numeral. -/
theorem ends_of_scanned (h : Says depth fresh (carried r) ts) (hts : ∀ t ∈ ts.head?, t.isApart = true) :
    Ends r := by
  intro c hc
  obtain ⟨r', rfl⟩ := List.head?_eq_some_iff.1 hc
  cases hword : isWordChar c with
  | false => rfl
  | true =>
    obtain ⟨p, hp⟩ := carried_cons (c := c) (by rintro rfl; cases hword) r'
    rw [hp] at h
    obtain ⟨t, rest, depth', ts, rfl, hlexed, _, _⟩ := h.token (beginsToken_of_isWordChar hword)
    have hapart := hts t rfl
    cases hlexed with
    | text raw value => cases hapart
    | bytes raw => cases hapart
    | word _ hid =>
      -- a word or a numeral would be the next token
      rcases (token_of_identifier hid).2 with ⟨k, rfl⟩ | rfl
      · cases hapart
      · cases hapart
    | numeral _ hnumeral =>
      rcases token_of_numeral hnumeral with ⟨raw, n, rfl⟩ | ⟨raw, rfl⟩
      · cases hapart
      · cases hapart
    | point hpoint _ =>
      -- and no mark begins with a word character
      subst hpoint
      cases hword
    | mark hstart hdigit _ =>
      rw [isIdentifierStart_of_isWordChar hword hdigit] at hstart
      cases hstart

/-- What has no loose underscore has none in a rest where no word goes on. -/
theorem hasLooseUnderscore_of_append {w : List Char} {afterWord : Bool} (hr : Ends r)
    (h : hasLooseUnderscore afterWord (w ++ r) = false) : hasLooseUnderscore false r = false := by
  induction w generalizing afterWord with
  | nil =>
    cases afterWord with
    | false => exact h
    | true => rwa [← hasLooseUnderscore_of_ends hr]
  | cons c w ih => exact ih ((Bool.or_eq_false_iff.1 h).2)

/-- The end of a source, or a null character and what it hides. -/
inductive Hidden : List Char → Prop
  | nil : Hidden []
  | null {c : Char} (hc : c.toNat = 0) (r : List Char) : Hidden (c :: r)

/-- Where a token is seen, it is the first token, and no break. -/
theorem Seen.exists_cons (h : Seen depth r ts) : ∃ t us, ts = t :: us ∧ t.isBreak = false := by
  cases h with
  | foreign ht => exact ⟨_, _, rfl, by cases ht <;> rfl⟩
  | mark => exact ⟨_, _, rfl, rfl⟩
  | name => exact ⟨_, _, rfl, rfl⟩
  | int => exact ⟨_, _, rfl, rfl⟩
  | float => exact ⟨_, _, rfl, rfl⟩
  | ratio => exact ⟨_, _, rfl, rfl⟩

/-- The name of the call is not that of a variable, since it begins with an underscore. -/
theorem referenceOf_ratio (e : Expr) : referenceOf "__ratio__" ≠ .ok e := by
  intro h
  cases h

/-- The tokens of a ratio that was called are those of its two parts. -/
theorem parts_of_lexemes {n d : Digits} {before after : Gap White} {sign : Option Sign} {x y : Phrase}
    {us vs ts' : List Token} (hx : Part x us) (hy : Part y vs) {comma : List Token}
    (hcomma : comma = [] ∨ comma = [.mark .comma])
    (h : .name "__ratio__" :: .mark .openParen ::
        (us ++ .mark .comma :: (vs ++ (comma ++ [.mark .closeParen]))) ++ ts =
      (Numeral.ratio n before after sign d).lexemes.map (·.token) ++ ts') :
    x = n.phrase ∧ y = Sign.phrase sign d.phrase ∧ ts = ts' := by
  -- both parts are compared with what the call was written with, sign by sign; it has no comma at its
  -- end
  cases hx with
  | signed s raw v => cases h
  | bare raw v =>
    cases sign with
    | none =>
      cases hy with
      | signed s raw' v' => cases h
      | bare raw' v' =>
        rcases hcomma with rfl | rfl
        · cases h
          exact ⟨rfl, rfl, rfl⟩
        · cases h
    | some s =>
      cases hy with
      | bare raw' v' => cases h
      | signed s' raw' v' =>
        rcases hcomma with rfl | rfl
        · cases s <;> cases s' <;> cases h <;> exact ⟨rfl, rfl, rfl⟩
        · cases s <;> cases s' <;> cases h

namespace Yields

/-- Behind a gap nothing is left that could be seen, or a token begins. -/
theorem seen_of_stops (h : Yields depth fresh r ts) (hstop : Stops r) :
    (Hidden r ∧ ts = []) ∨ Seen depth r ts := by
  obtain ⟨hloose, hscanned, _⟩ := h
  cases r with
  | nil =>
    -- nothing is left
    rw [prepared_nil] at hscanned
    exact Or.inl ⟨.nil, hscanned.nil⟩
  | cons c r =>
    rcases hstop c rfl with hnull | ⟨hbegin, hreturn⟩
    · -- a null character, which hides the rest
      have hword : isWordChar c = false ∧ c ≠ '.' ∧ c ≠ '\r' := by
        have hc : c = '\x00' := Char.toNat_inj.1 hnull
        subst hc
        decide
      rw [prepared_cons hword.1 hword.2.1 hword.2.2] at hscanned
      exact Or.inl ⟨.null hnull r, hscanned.null hnull⟩
    · refine Or.inr (seen_of_front (front_prepared hloose hreturn) ?_ hscanned)
      rintro d ⟨⟩
      exact hbegin

/-- The breaks in front of a token come from a gap. -/
theorem skip {bs : List Token} (hbs : ∀ b ∈ bs, b.isBreak = true) (ht : t.isBreak = false)
    (h : Yields depth fresh r (bs ++ t :: ts)) :
    ∃ (g : Gap Wide) (r' : List Char) (fresh' : Bool), r = g.val ++ r' ∧
      Yields depth fresh' r' (t :: ts) ∧
      Seen depth r' (t :: ts) := by
  obtain ⟨g, r', bs', ts', fresh', rfl, hg, hts, hbs', hyields, hstop⟩ := h.exists_gap
  -- what is left behind the gap begins with no break
  have hseen : (∀ b ∈ ts'.head?, b.isBreak = false) ∧ (ts' ≠ [] → Seen depth r' ts') := by
    rcases hyields.seen_of_stops hstop with ⟨_, rfl⟩ | hseen
    · exact ⟨fun _ h => (nomatch h), fun h => absurd rfl h⟩
    · obtain ⟨t', us, rfl, ht'⟩ := hseen.exists_cons
      refine ⟨?_, fun _ => hseen⟩
      rintro b ⟨⟩
      exact ht'
  -- on both sides the breaks end at the first token that is none
  have htokens : t :: ts = ts' := by
    have hdrop := congrArg (List.dropWhile Token.isBreak) hts
    rw [List.dropWhile_append_of_pos hbs, List.dropWhile_append_of_pos hbs',
      List.dropWhile_cons_of_neg (by simp [ht])] at hdrop
    cases ts' with
    | nil => exact hdrop
    | cons t' us =>
      rwa [List.dropWhile_cons_of_neg (by simp [hseen.1 t' rfl])] at hdrop
  subst htokens
  exact ⟨⟨g, hg⟩, r', fresh', rfl, hyields, hseen.2 (List.cons_ne_nil t ts)⟩

/-- The piece of the source that a token was made of, behind a gap. -/
theorem seen (h : Yields depth fresh r (t :: ts)) (ht : t.isBreak = false) :
    ∃ (g : Gap Wide) (r' : List Char), r = g.val ++ r' ∧ hasLooseUnderscore false r' = false ∧
      Seen depth r' (t :: ts) := by
  obtain ⟨g, r', _, rfl, hyields, hseen⟩ := skip (List.forall_mem_nil _) ht h
  exact ⟨g, r', rfl, hyields.loose, hseen⟩

/-- The three kinds of tokens that expressions have: marks, names and numerals. -/
theorem mark {m : Mark} {d : Char} (hm : m.char? = some d) (h : Yields depth fresh r (.mark m :: ts)) :
    ∃ (g : Gap Wide) (r' : List Char) (depth' : Nat), r = g.val ++ d :: r' ∧
      depthAfter? depth (.mark m) = some depth' ∧ Yields depth' false r' ts := by
  obtain ⟨g, r', rfl, hloose, hseen⟩ := h.seen rfl
  have hindent : Token.indent ∉ ts := fun hmem => h.indent (List.mem_cons_of_mem _ hmem)
  cases hseen with
  | foreign ht =>
    -- a mark of an expression is not foreign
    cases ht with
    | mark hnone =>
      rw [hm] at hnone
      cases hnone
  | @mark _ _ hm' depth' hdepth r' _ hscanned =>
    cases hm.symm.trans hm'
    have hword : isWordChar d = false := by cases m <;> cases hm <;> rfl
    rw [hasLooseUnderscore_cons false hword] at hloose
    exact ⟨g, r', depth', rfl, hdepth, hloose, hscanned, hindent⟩

/-- A token that becomes a reference was a name of the source, marked or not. -/
theorem name {s : String} {e : Expr} (he : referenceOf s = .ok e)
    (h : Yields depth fresh r (.name s :: ts)) :
    ∃ (g : Gap Wide) (x : Name) (r' : List Char), r = g.val ++ (x.val ++ r') ∧
      e = .reference (String.ofList x) ∧
      Yields depth false r' ts := by
  obtain ⟨g, r', rfl, hloose, hseen⟩ := h.seen rfl
  have hindent : Token.indent ∉ ts := fun hmem => h.indent (List.mem_cons_of_mem _ hmem)
  cases hseen with
  | foreign ht =>
    cases ht with
    | name _ hbad => exact absurd he (hbad e)
  | name x hs hr hscanned =>
    rw [he] at hs
    exact ⟨g, x, _, rfl, Except.ok.inj hs, hasLooseUnderscore_of_append hr hloose, hscanned, hindent⟩
  | ratio => exact absurd he (referenceOf_ratio e)

/-- The tokens of a numeral were a numeral of the source, with gaps around the colon if it was a
    ratio. -/
theorem numeral {x : Phrase} {us : List Token} (hx : Literal x us) {sign : Sign} {e : Expr}
    (he : literalOf (sign = .minus) x = .ok e) (hts : ∀ t ∈ ts.head?, t.isApart = true)
    (h : Yields depth fresh r (us ++ ts)) :
    ∃ (g : Gap Wide) (n : Numeral Wide) (r' : List Char), r = g.val ++ (n.text ++ r') ∧ n.tree sign = e ∧
      Yields depth false r' ts := by
  have hindent : Token.indent ∉ ts := fun hmem => h.indent (List.mem_append_right us hmem)
  have hsign : ∀ v : Nat, signedBy (sign = .minus) v = sign.apply v := by
    intro v
    cases sign <;> rfl
  cases hx with
  | int raw v =>
    -- one token, and no word goes on behind its digits
    obtain ⟨g, r', rfl, hloose, hseen⟩ := h.seen rfl
    obtain ⟨w, hw, rfl⟩ := exists_of_map_ok he
    cases hseen with
    | foreign ht =>
      cases ht with
      | int hbad => exact absurd hw (hbad w)
    | int ds hv hscanned =>
      have hends := ends_of_scanned hscanned hts
      rw [hw] at hv
      cases hv
      rw [carried_of_ends hends] at hscanned
      refine ⟨g, .whole ds, _, rfl, ?_, hasLooseUnderscore_of_append hends hloose, hscanned, hindent⟩
      rw [Numeral.tree, hsign]
  | float raw =>
    obtain ⟨g, r', rfl, hloose, hseen⟩ := h.seen rfl
    obtain ⟨p, hp, rfl⟩ := exists_of_map_ok he
    cases hseen with
    | foreign ht =>
      cases ht with
      | float hbad => exact absurd hp (hbad p)
    | float front places hp' hscanned =>
      have hends := ends_of_scanned hscanned hts
      rw [hp] at hp'
      cases hp'
      rw [carried_of_ends hends] at hscanned
      refine ⟨g, .decimal front places, _, rfl, ?_, hasLooseUnderscore_of_append hends hloose,
        hscanned, hindent⟩
      rw [Numeral.tree, hsign, Int.natCast_pow]
      rfl
  | ratio oneLine hx hy hcomma =>
    -- many tokens, and all are those of the call that the ratio became
    obtain ⟨g, r', rfl, hloose, hseen⟩ := h.seen rfl
    obtain ⟨num, den, n, d, _, hargs, hn, hd, rfl⟩ := exists_of_literalOf_call he
    cases hargs
    cases hseen with
    | foreign ht =>
      cases ht with
      | name hratio _ => exact absurd rfl hratio
    | name x hs _ _ => exact absurd hs (referenceOf_ratio _)
    | ratio n' d' before after s hr hscanned hus =>
      obtain ⟨rfl, rfl, rfl⟩ := parts_of_lexemes hx hy hcomma hus
      rw [ratioPart_sign] at hd
      cases (integerOf_digits n'.stripped).symm.trans hn
      cases hd
      refine ⟨g, .ratio n' ⟨before, wide_of_white before.property⟩
        ⟨after, wide_of_white after.property⟩ s d', _, rfl, ?_, hasLooseUnderscore_of_append hr hloose,
        hscanned, hindent⟩
      rw [Numeral.tree, hsign, n'.value_stripped, d'.value_stripped]

end Yields

/-- A mark is no part of the word before it. -/
theorem isApart_mark (m : Mark) (ts : List Token) :
    ∀ t ∈ (Token.mark m :: ts).head?, t.isApart = true := by
  rintro t ⟨⟩
  rfl

/-- Signs and operations are written with one character, and leave the depth of brackets. -/
theorem Sign.char?_mark (sign : Sign) : sign.mark.char? = some sign.char := by
  cases sign <;> rfl

theorem Operation.char?_mark {outer inner : Level} (op : Operation outer inner) :
    op.mark.char? = some op.char := by
  cases op <;> rfl

theorem Sign.depthAfter?_mark (sign : Sign) (depth : Nat) :
    depthAfter? depth (.mark sign.mark) = some depth := by
  cases sign <;> rfl

theorem Operation.depthAfter?_mark {outer inner : Level} (op : Operation outer inner) (depth : Nat) :
    depthAfter? depth (.mark op.mark) = some depth := by
  cases op <;> rfl

/-- **From tokens to sentences.**  The tokens of a phrase that becomes an expression come from a
    sentence, and the expression is its tree. -/
theorem exists_sentence {k : Level} {x : Phrase} {us : List Token} (hx : Spelled k x us) {e : Expr}
    (he : exprOf x = .ok e) (hts : ∀ t ∈ ts.head?, t.isApart = true)
    (h : Yields depth fresh r (us ++ ts)) :
    ∃ (g : Gap Wide) (s : Sentence Wide k) (r' : List Char), r = g.val ++ (s.source ++ r') ∧ s.tree = e ∧
      Yields depth false r' ts := by
  induction hx generalizing e depth fresh r ts with
  | name s =>
    obtain ⟨g, x, r', rfl, rfl, hrest⟩ := Yields.name he h
    exact ⟨g, .atom (.name x), r', rfl, rfl, hrest⟩
  | @literal x us hx =>
    have he : literalOf (Sign.plus = .minus) x = .ok e := by cases hx <;> exact he
    obtain ⟨g, n, r', rfl, rfl, hrest⟩ := h.numeral hx he hts
    exact ⟨g, .atom (.numeral n), r', rfl, rfl, hrest⟩
  | signed sign hx =>
    -- the sign is a mark of its own, with a gap behind it
    rw [exprOf_signed] at he
    rw [List.cons_append] at h
    obtain ⟨g, r₁, _, rfl, hdepth, hrest⟩ := Yields.mark sign.char?_mark h
    rw [sign.depthAfter?_mark] at hdepth
    cases hdepth
    obtain ⟨g', n, r', rfl, rfl, hrest⟩ := hrest.numeral hx he hts
    exact ⟨g, .signed sign g' n, r', by simp [Sentence.source, Sentence.write, Atom.text], rfl, hrest⟩
  | group hx ih =>
    -- the brackets are traced, and what stands between them by the induction
    rw [List.cons_append, List.append_assoc] at h
    obtain ⟨g, r₁, _, rfl, hdepth, hrest⟩ := Yields.mark rfl h
    cases hdepth
    obtain ⟨before, s, r₂, rfl, rfl, hrest⟩ := ih he (isApart_mark _ _) hrest
    obtain ⟨after, r', _, rfl, hdepth, hrest⟩ := Yields.mark rfl hrest
    cases hdepth
    exact ⟨g, .group before s after, r', by simp [Sentence.source, Sentence.write], rfl, hrest⟩
  | ofFactor hx ih =>
    obtain ⟨g, s, r', rfl, rfl, hrest⟩ := ih he hts h
    exact ⟨g, .ofFactor s, r', rfl, rfl, hrest⟩
  | ofTerm hx ih =>
    obtain ⟨g, s, r', rfl, rfl, hrest⟩ := ih he hts h
    exact ⟨g, .ofTerm s, r', rfl, rfl, hrest⟩
  | operation op broken hx hy ihx ihy =>
    -- the left operand ends at the mark of the operation, the right one where the whole does
    obtain ⟨o, el, er, ho, hl, hr, rfl⟩ := exists_of_exprOf_binary he
    have ho : o = op.operator := by cases op <;> exact (Option.some.inj ho).symm
    rw [List.append_assoc] at h
    obtain ⟨g, l, r₁, rfl, rfl, hrest⟩ := ihx hl (isApart_mark _ _) h
    obtain ⟨before, r₂, _, rfl, hdepth, hrest⟩ := Yields.mark op.char?_mark hrest
    rw [op.depthAfter?_mark] at hdepth
    cases hdepth
    obtain ⟨after, right, r', rfl, rfl, hrest⟩ := ihy hr hts hrest
    refine ⟨g, .operation op l before after right, r', by simp [Sentence.source, Sentence.write],
      ?_, hrest⟩
    rw [Sentence.tree, ho]

/-! ## Behind the sentence

  The tokens behind an expression are breaks, or a semicolon and breaks; so this much may stand behind a
  sentence. -/

/-- What may stand behind a sentence: a gap, and perhaps a semicolon with another one. -/
inductive Tail : List Char → Prop
  | gap {g r : List Char} (hg : Wide g) (hr : Hidden r) : Tail (g ++ r)
  | semicolon {g g' r : List Char} (hg : Wide g) (hg' : Wide g') (hr : Hidden r) :
      Tail (g ++ ';' :: (g' ++ r))

/-- Where only breaks follow there is a gap, and nothing that is seen behind it. -/
theorem hidden_of_breaks (h : Yields depth fresh r ts) (hts : ∀ t ∈ ts, t.isBreak = true) :
    ∃ g r', r = g ++ r' ∧ Wide g ∧ Hidden r' := by
  obtain ⟨g, r', bs, ts', fresh', rfl, hg, rfl, _, hyields, hstop⟩ := h.exists_gap
  refine ⟨g, r', rfl, hg, ?_⟩
  rcases hyields.seen_of_stops hstop with ⟨hhidden, _⟩ | hseen
  · exact hhidden
  · -- a token that is seen is no break, and there are only breaks
    obtain ⟨t, us, rfl, ht⟩ := hseen.exists_cons
    have hbreak := hts t (List.mem_append_right bs List.mem_cons_self)
    rw [ht] at hbreak
    cases hbreak

/-- **What is left behind the sentence.** -/
theorem tail_of_yields (h : Yields depth fresh r ts) (hts : Trailing ts) : Tail r := by
  cases hts with
  | breaks hbreaks =>
    obtain ⟨g, r', rfl, hg, hr⟩ := hidden_of_breaks h hbreaks
    exact .gap hg hr
  | semicolon hbreaks =>
    obtain ⟨g, r₁, _, rfl, _, hrest⟩ := Yields.mark rfl h
    obtain ⟨g', r', rfl, hg', hr⟩ := hidden_of_breaks hrest hbreaks
    exact .semicolon g.property hg' hr

end Reckoner.Source
