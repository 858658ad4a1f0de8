/-
  What a token says about the text it was taken from.  The first character decides which kind of token
  there is (`lexed_of_lexeme`); a single mark is its character (`mark?_char`), and a numeral that the
  calculator takes is the run of digits there, with a point and a second run or without
  (`integer_of_numeral`, `decimal_of_numeral`).
-/
import Reckoner.Proofs.Phrasing

namespace Reckoner.Source

variable {c : Char} {cs rest : List Char} {t : Token}

/-! ## Kinds of tokens

  What begins a token is told from its first character: a letter, a digit, a point with a digit behind
  it, a quote, or the first character of a mark.  A letter before a quote may belong to a text, so for a
  text the first character is not said. -/

/-- The token at the front of a text, by its first character. -/
inductive Lexed (c : Char) (cs : List Char) : Token → List Char → Prop
  | text (raw value : String) (rest : List Char) : Lexed c cs (.text raw value) rest
  | bytes (raw : String) (rest : List Char) : Lexed c cs (.bytes raw) rest
  | word {t : Token} {rest : List Char} (hc : isIdentifierStart c = true)
      (h : identifier c cs = (t, rest)) :
      Lexed c cs t rest
  | numeral {t : Token} {rest : List Char} (hc : c.isDigit = true) (h : numeral c cs = .ok (t, rest)) :
      Lexed c cs t rest
  | point {t : Token} {rest : List Char} (hc : c = '.') (h : pointNumeral cs = .ok (t, rest)) :
      Lexed c cs t rest
  | mark {m : Mark} {rest : List Char} (hc : isIdentifierStart c = false) (hdigit : c.isDigit = false)
      (h : mark? c cs = some (m, rest)) : Lexed c cs (.mark m) rest

/-- Whatever is read between quotes is a text, or a sequence of bytes. -/
theorem lexed_of_readText {opening : List Char} {quote : Char} {ds : List Char}
    (h : readText opening quote ds = .ok (t, rest)) : Lexed c cs t rest := by
  -- the body has been found; by its opening it is one or the other
  have hbody : ∀ {quotes : Nat} {body rest' : List Char},
      (textToken opening quotes quote body).map (fun t => (t, rest')) = .ok (t, rest) →
      Lexed c cs t rest := by
    intro quotes body rest' h
    obtain ⟨u, hu, heq⟩ := exists_of_map_ok h
    cases heq
    unfold textToken at hu
    simp only at hu
    -- three quotes open a long text, if they are not an empty short one
    split at hu
    · cases hu
    · split at hu
      · cases hu
        exact .bytes _ _
      · cases hu
        exact .text _ _ _
  unfold readText at h
  simp only at h
  split at h
  · split at h
    · split at h
      · cases h
      · exact hbody h
    · split at h
      · cases h
      · exact hbody h
  · split at h
    · cases h
    · exact hbody h

/-- **The kinds of tokens.** -/
theorem lexed_of_lexeme (h : lexeme c cs = .ok (t, rest)) : Lexed c cs t rest := by
  unfold lexeme at h
  split at h
  · exact lexed_of_readText h
  · split at h
    · -- a letter: quotes may follow it, or one more letter and quotes
      rename_i hc
      split at h
      · split at h
        · exact lexed_of_readText h
        · split at h
          · split at h
            · exact lexed_of_readText h
            · exact .word hc (Except.ok.inj h)
          · exact .word hc (Except.ok.inj h)
      · exact .word hc (Except.ok.inj h)
    · rename_i hc
      split at h
      · -- a digit begins a numeral
        rename_i hdigit
        exact .numeral hdigit h
      · rename_i hdigit
        split at h
        · -- so does a point before a digit
          rename_i hpoint
          have hpoint : c = '.' ∧ startsDigit cs = true := by simpa using hpoint
          exact .point hpoint.1 h
        · split at h
          · -- all that is left begins a mark
            rename_i hm
            cases h
            exact .mark (by simpa using hc) (by simpa using hdigit) hm
          · cases h

/-- An identifier is a reserved word or a name, and takes all it can. -/
theorem token_of_identifier (h : identifier c cs = (t, rest)) :
    rest = cs.dropWhile isIdentifierChar ∧
      ((∃ k, t = .word k) ∨ t = .name (String.ofList (c :: cs.takeWhile isIdentifierChar))) := by
  unfold identifier at h
  simp only at h
  split at h
  · cases h
    exact ⟨rfl, Or.inl ⟨_, rfl⟩⟩
  · cases h
    exact ⟨rfl, Or.inr rfl⟩

/-! ## Marks

  Longer marks are tried before shorter ones, so a mark of one character says that no longer one was
  there; what matters below is only that nothing behind the character was taken. -/

/-- The marks of one character that an expression can have, and a semicolon. -/
def Mark.char? : Mark → Option Char
  | plus => some '+'
  | minus => some '-'
  | star => some '*'
  | slash => some '/'
  | openParen => some '('
  | closeParen => some ')'
  | comma => some ','
  | semicolon => some ';'
  | _ => none

/-- Such a mark was its character, and took nothing else. -/
theorem mark?_char {m : Mark} {d : Char} (hm : m.char? = some d) (h : mark? c cs = some (m, rest)) :
    c = d ∧ rest = cs := by
  unfold mark? at h
  split at h
  all_goals cases h <;> simp [Mark.char?] at hm
  all_goals exact ⟨hm, rfl⟩

/-! ## Numerals

  The scanner has more numerals than the calculator takes: those of other bases, those with an exponent,
  and those that begin or end with a point.  Each of the others is refused later, by `integerOf` or
  `decimalOf`, so that a numeral which is taken is known digit by digit. -/

/-- A float is what stood before the exponent, or it goes on with the letter of one. -/
theorem exists_float_of_finishFloat {raw digits : List Char} {places : Nat}
    (h : finishFloat raw digits places cs = .ok (t, rest)) :
    ∃ more, t = .float (String.ofList (raw ++ more)) ∧
      (more = [] ∧ rest = cs ∨ ∃ d ds, more = d :: ds ∧ (d = 'e' ∨ d = 'E')) := by
  -- a float is closed with what has been written so far
  have hclose : ∀ {raw digits cs : List Char} {exponent : Int}, closeFloat raw digits exponent cs =
      .ok (t, rest) →
      t = .float (String.ofList raw) ∧ rest = cs := by
    intro raw digits cs exponent h
    unfold closeFloat at h
    split at h
    · cases h
    · cases h
      exact ⟨rfl, rfl⟩
  unfold finishFloat at h
  split at h
  · obtain ⟨ht, hrest⟩ := hclose h
    exact ⟨[], by rw [List.append_nil]; exact ht, Or.inl ⟨rfl, hrest⟩⟩
  · rename_i d r
    split at h
    · -- an exponent, whose letter is the first of what was added
      rename_i he
      simp only at h
      split at h
      · cases h
      · obtain ⟨ht, _⟩ := hclose h
        exact ⟨_, ht, Or.inr ⟨d, _, rfl, by simpa using he⟩⟩
    · obtain ⟨ht, hrest⟩ := hclose h
      exact ⟨[], by rw [List.append_nil]; exact ht, Or.inl ⟨rfl, hrest⟩⟩

/-- A decimal that is taken has digits on both sides of a point, and nothing else. -/
theorem exists_of_decimalOf {ds more : List Char} (hds : ∀ d ∈ ds, d.isDigit = true)
    (hmore : ∀ d ∈ more.head?, d.isDigit = false) {p : Int × Int}
    (h : decimalOf (String.ofList (ds ++ more)) = .ok p) :
    ds ≠ [] ∧ ∃ places : Digits, more = '.' :: places.val ∧
      p = ((Text.natOfDigits (ds ++ places.val) : Int), ((10 ^ places.val.length : Nat) : Int)) := by
  unfold decimalOf at h
  simp only [String.toList_ofList, takeWhile_run hds hmore, dropWhile_run hds hmore] at h
  split at h
  · -- a point, behind which digits have to stand
    rename_i places
    split at h
    · cases h
    · rename_i hparts
      have hparts : (ds ≠ [] ∧ places ≠ []) ∧ ∀ d ∈ places, d.isDigit = true := by simpa using hparts
      obtain ⟨⟨hne, hne'⟩, hplaces⟩ := hparts
      cases h
      exact ⟨hne, ⟨places, hne', hplaces⟩, rfl, rfl⟩
  · cases h

/-- An integer that is taken is written with digits alone, and has the value that the scanner gave
    it. -/
theorem integerOf_of_mem {raw : List Char} {n : Nat} {v : Int}
    (h : integerOf (String.ofList raw) n = .ok v) :
    v = n ∧ ∀ d ∈ raw, d.isDigit = true := by
  unfold integerOf at h
  rw [String.toList_ofList] at h
  split at h
  · rename_i hall
    cases h
    exact ⟨rfl, List.all_eq_true.1 hall⟩
  · cases h

/-- A numeral in another base is not taken. -/
theorem not_taken_of_radixNumeral {base : Nat} {fault : LexicalFault} {limit : Option Nat} {letter : Char}
    (hletter : letter.isDigit = false) (h : radixNumeral base fault limit letter cs = .ok (t, rest)) :
    ∃ raw n, t = .int raw n ∧ ∀ v, integerOf raw n ≠ .ok v := by
  unfold radixNumeral at h
  simp only at h
  split at h
  · cases h
  · split at h
    · cases h
    · cases h
      -- the letter of the base stands among the characters, and is no digit
      refine ⟨_, _, rfl, fun v hv => ?_⟩
      have hdigit := (integerOf_of_mem hv).2 letter (List.mem_cons_of_mem _ List.mem_cons_self)
      rw [hletter] at hdigit
      cases hdigit

/-- A numeral is one of another base, which is not taken, or a decimal one. -/
theorem decimalNumeral_of_numeral (h : numeral c cs = .ok (t, rest)) :
    (∃ raw n, t = .int raw n ∧ ∀ v, integerOf raw n ≠ .ok v) ∨ decimalNumeral c cs = .ok (t, rest) := by
  have hletter : ∀ {d : Char} {p : Bool} {x y : Char}, (p && (d = x || d = y)) = true →
      x.isDigit = false →
      y.isDigit = false → d.isDigit = false := by
    intro d p x y hd hx hy
    have hd : p = true ∧ (d = x ∨ d = y) := by simpa using hd
    rcases hd.2 with rfl | rfl
    · exact hx
    · exact hy
  -- three letters for a base are tried; without one the numeral is decimal
  unfold numeral at h
  split at h
  · exact Or.inr h
  · split at h
    · rename_i hd
      exact Or.inl (not_taken_of_radixNumeral (hletter hd rfl rfl) h)
    · split at h
      · rename_i hd
        exact Or.inl (not_taken_of_radixNumeral (hletter hd rfl rfl) h)
      · split at h
        · rename_i hd
          exact Or.inl (not_taken_of_radixNumeral (hletter hd rfl rfl) h)
        · exact Or.inr h

/-- The decimal numerals: a run of digits, or one that goes on with a point or an exponent. -/
theorem exists_of_decimalNumeral {ds y : List Char} (hds : ∀ d ∈ ds, d.isDigit = true)
    (hy : ∀ d ∈ y.head?, d.isDigit = false) (h : decimalNumeral c (ds ++ y) = .ok (t, rest)) :
    (t = .int (String.ofList (c :: ds)) (Text.natOfDigits (c :: ds)) ∧ rest = y ∧
      ∀ d ∈ y.head?, d ≠ '.') ∨
      (∃ y', y = '.' :: y' ∧ finishFloat (c :: (ds ++ '.' :: y'.takeWhile Char.isDigit))
        (c :: (ds ++ y'.takeWhile Char.isDigit)) (y'.takeWhile Char.isDigit).length
        (y'.dropWhile Char.isDigit) =
          .ok (t, rest)) ∨
      ∃ d ds', t = .float (String.ofList (c :: ds ++ d :: ds')) ∧ (d = 'e' ∨ d = 'E') := by
  -- the text ends behind the digits, or what follows them is a point, an exponent or anything else
  unfold decimalNumeral at h
  simp only [takeWhile_run hds hy, dropWhile_run hds hy] at h
  split at h
  · split at h
    · cases h
    · split at h
      · cases h
      · cases h
        exact Or.inl ⟨rfl, rfl, by rintro _ ⟨⟩⟩
  · rename_i p y'
    split at h
    · rename_i hp
      cases hp
      exact Or.inr (Or.inl ⟨y', rfl, h⟩)
    · rename_i hp
      split at h
      · -- an exponent behind the digits
        rename_i he
        obtain ⟨more, ht, hmore⟩ := exists_float_of_finishFloat h
        rcases hmore with ⟨rfl, rfl⟩ | ⟨d, ds', rfl, hd⟩
        · -- an exponent without digits is a fault
          unfold finishFloat at h
          simp only [he, if_true] at h
          split at h
          · cases h
          · have hlen := congrArg List.length (eq_of_closeFloat h)
            have h1 := length_dropWhile_le Char.isDigit (splitSign y').2
            have h2 := length_splitSign_le y'
            rw [List.length_cons] at hlen
            omega
        · exact Or.inr (Or.inr ⟨d, ds', ht, hd⟩)
      · split at h
        · cases h
        · split at h
          · cases h
          · cases h
            refine Or.inl ⟨rfl, rfl, ?_⟩
            rintro d ⟨⟩
            exact hp

/-- The tokens of numerals. -/
theorem token_of_numeral (h : numeral c cs = .ok (t, rest)) :
    (∃ raw n, t = .int raw n) ∨ ∃ raw, t = .float raw := by
  rcases decimalNumeral_of_numeral h with ⟨raw, n, rfl, _⟩ | h
  · exact Or.inl ⟨raw, n, rfl⟩
  · have hds : ∀ d ∈ cs.takeWhile Char.isDigit, d.isDigit = true := List.all_eq_true.1 List.all_takeWhile
    -- whatever follows is a run of digits and a rest
    rw [← List.takeWhile_append_dropWhile (p := Char.isDigit) (l := cs)] at h
    rcases exists_of_decimalNumeral hds (head_dropWhile _ cs) h with
      ⟨rfl, _⟩ | ⟨y', _, hfloat⟩ | ⟨d, ds', rfl, _⟩
    · exact Or.inl ⟨_, _, rfl⟩
    · obtain ⟨more, rfl, _⟩ := exists_float_of_finishFloat hfloat
      exact Or.inr ⟨_, rfl⟩
    · exact Or.inr ⟨_, rfl⟩

/-- The letters of an exponent are neither digits nor points. -/
theorem not_isDigit_of_exponent {d : Char} (h : d = 'e' ∨ d = 'E') : d.isDigit = false ∧ d ≠ '.' := by
  rcases h with rfl | rfl <;> decide

/-- **Integers.**  An integer that is taken is the run of digits at the front. -/
theorem integer_of_numeral {ds y : List Char} (hds : ∀ d ∈ ds, d.isDigit = true)
    (hy : ∀ d ∈ y.head?, d.isDigit = false) {raw : String} {n : Nat} {v : Int}
    (h : numeral c (ds ++ y) = .ok (.int raw n, rest)) (hv : integerOf raw n = .ok v) :
    v = Text.natOfDigits (c :: ds) ∧ rest = y ∧ ∀ d ∈ y.head?, d ≠ '.' := by
  rcases decimalNumeral_of_numeral h with ⟨raw', n', heq, hbad⟩ | h
  · cases heq
    exact absurd hv (hbad v)
  · rcases exists_of_decimalNumeral hds hy h with
      ⟨ht, hrest, hpoint⟩ | ⟨y', rfl, hfloat⟩ | ⟨d, ds', ht, _⟩
    · cases ht
      exact ⟨(integerOf_of_mem hv).1, hrest, hpoint⟩
    · -- the other two are floats, and no integers
      obtain ⟨more, ht, _⟩ := exists_float_of_finishFloat hfloat
      cases ht
    · cases ht

/-- **Decimals.**  A decimal that is taken is two runs of digits with a point between them. -/
theorem decimal_of_numeral {ds y : List Char} (hc : c.isDigit = true) (hds : ∀ d ∈ ds, d.isDigit = true)
    (hy : ∀ d ∈ y.head?, d.isDigit = false) {raw : String} {p : Int × Int}
    (h : numeral c (ds ++ y) = .ok (.float raw, rest)) (hp : decimalOf raw = .ok p) :
    ∃ places : Digits, y = '.' :: (places.val ++ rest) ∧ (∀ d ∈ rest.head?, d.isDigit = false) ∧
      p = ((Text.natOfDigits (c :: (ds ++ places.val)) : Int),
        ((10 ^ places.val.length : Nat) : Int)) := by
  have hcds : ∀ d ∈ c :: ds, d.isDigit = true := List.forall_mem_cons.2 ⟨hc, hds⟩
  rcases decimalNumeral_of_numeral h with ⟨raw', n', heq, _⟩ | h
  · cases heq
  · rcases exists_of_decimalNumeral hds hy h with ⟨ht, _⟩ | ⟨y', rfl, hfloat⟩ | ⟨d, ds', ht, hd⟩
    · cases ht
    · -- a point: the float is the two runs of digits, and perhaps an exponent
      obtain ⟨more, ht, hmore⟩ := exists_float_of_finishFloat hfloat
      cases ht
      have hpoint : ∀ t : List Char, ∀ d ∈ ('.' :: t).head?, d.isDigit = false := by
        rintro t d ⟨⟩
        rfl
      have hraw : c :: (ds ++ '.' :: y'.takeWhile Char.isDigit) ++ more =
          (c :: ds) ++ '.' :: (y'.takeWhile Char.isDigit ++ more) := by
        simp only [List.cons_append, List.append_assoc]
      rw [hraw] at hp
      obtain ⟨_, places, hplaces, hvalue⟩ := exists_of_decimalOf hcds (hpoint _) hp
      obtain ⟨_, hplaces⟩ := List.cons.inj hplaces
      rcases hmore with ⟨rfl, rfl⟩ | ⟨d, ds', rfl, hd⟩
      · rw [List.append_nil] at hplaces
        refine ⟨places, ?_, head_dropWhile _ y', hvalue⟩
        rw [← hplaces, List.takeWhile_append_dropWhile]
      · -- an exponent is no digit behind the point
        have hmem : d ∈ places.val := by
          rw [← hplaces]
          exact List.mem_append_right _ List.mem_cons_self
        have hdigit := places.property.2 d hmem
        rw [(not_isDigit_of_exponent hd).1] at hdigit
        cases hdigit
    · -- an exponent without a point, which is refused
      cases ht
      have hstop : ∀ e ∈ (d :: ds').head?, e.isDigit = false := by
        rintro e ⟨⟩
        exact (not_isDigit_of_exponent hd).1
      obtain ⟨_, places, hplaces, _⟩ := exists_of_decimalOf hcds hstop hp
      exact absurd (List.cons.inj hplaces).1 (not_isDigit_of_exponent hd).2

/-- A numeral that begins with a point is not taken. -/
theorem not_taken_of_pointNumeral (h : pointNumeral cs = .ok (t, rest)) :
    ∃ raw, t = .float raw ∧ ∀ p, decimalOf raw ≠ .ok p := by
  obtain ⟨more, ht, _⟩ := exists_float_of_finishFloat h
  refine ⟨_, ht, fun p hp => ?_⟩
  have hpoint : ∀ d ∈ ('.' :: cs.takeWhile Char.isDigit ++ more).head?, d.isDigit = false := by
    rintro d ⟨⟩
    rfl
  -- there are no digits in front of the point
  have hp : decimalOf (String.ofList ([] ++ ('.' :: cs.takeWhile Char.isDigit ++ more))) = .ok p := hp
  exact (exists_of_decimalOf (List.forall_mem_nil _) hpoint hp).1 rfl

end Reckoner.Source
