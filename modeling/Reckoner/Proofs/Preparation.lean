/-
  A sentence on its way to the scanner.  The comment and the blanks at the ends go first, and no
  underscore begins an identifier of a sentence.  Then three steps rewrite the numerals and names, each
  where it stands: leading zeros are dropped, ratios become calls, reserved words are marked.

  Every step looks at most at the next word or ratio, and begins afresh behind a plain character.  So it
  is enough to see what it makes of one numeral or name in front of a text that can follow one
  (`Loose`); `write_rel` does the rest.  Together: the scanner gets the sentence written with
  `Atom.marked`, its numerals without zeros in front (`prepare?_commented`).
-/
import Reckoner.Proofs.Sentence

namespace Reckoner.Source

/-! ## Characters

  Three classes matter to all the steps: word characters, which go on with a word, plain characters,
  which are copied and end one, and stops, the plain characters that can follow a numeral without a gap.
  All are of ASCII, so what is needed of them is decided there. -/

/-- Word characters are of ASCII, so that a fact about all of them is checked on 128 characters. -/
theorem toNat_lt_of_isWordChar {c : Char} (hc : isWordChar c = true) : c.toNat < 128 := by
  have hc : c.isAlphanum = true ∨ c = '_' := by simpa [isWordChar] using hc
  rcases hc with hc | rfl
  · -- the letters and the digits are three ranges of code points
    have hranges : (decide ('A'.val ≤ c.val ∧ c.val ≤ 'Z'.val) ||
        (decide ('a'.val ≤ c.val) && decide (c.val ≤ 'z'.val)) ||
        (decide ('0'.val ≤ c.val) && decide (c.val ≤ '9'.val))) = true := hc
    have hval : c.val.toNat = c.toNat := rfl
    simp only [Bool.or_eq_true, Bool.and_eq_true, decide_eq_true_eq, UInt32.le_iff_toNat_le,
      Char.reduceVal, UInt32.reduceToNat, hval] at hranges
    omega
  · decide

/-- What holds of the word characters of ASCII holds of all word characters. -/
theorem of_isWordChar {p : Char → Bool}
    (h : ∀ n < 128, (!isWordChar (Char.ofNat n) || p (Char.ofNat n)) = true) {c : Char}
    (hc : isWordChar c = true) : p c = true := by
  have hn := h c.toNat (toNat_lt_of_isWordChar hc)
  rw [Char.ofNat_toNat, hc] at hn
  exact hn

/-- What holds of the eight plain characters. -/
theorem of_isPlain {p : Char → Bool} (h : [' ', '\t', '(', ')', '+', '-', '*', '/'].all p = true)
    {c : Char} (hc : isPlain c = true) : p c = true :=
  List.all_eq_true.1 h c (of_decide_eq_true hc)

/-- Digits, letters and the characters of names are word characters. -/
theorem isWordChar_of_isDigit {c : Char} (h : c.isDigit = true) : isWordChar c = true := by
  simp [isWordChar, Char.isAlphanum, h]

theorem isWordChar_of_isAlpha {c : Char} (h : c.isAlpha = true) : isWordChar c = true := by
  simp [isWordChar, Char.isAlphanum, h]

theorem isWordChar_of_isNameChar {c : Char} (h : isNameChar c = true) : isWordChar c = true := by
  have h : c.isAlpha = true ∨ c = '_' := by simpa [isNameChar] using h
  rcases h with h | rfl
  · exact isWordChar_of_isAlpha h
  · rfl

/-- A plain character ends a word: this is why every step can begin afresh behind one. -/
theorem not_isWordChar_of_isPlain {c : Char} (h : isPlain c = true) : isWordChar c = false := by
  simpa using of_isPlain (p := fun c => !isWordChar c) (by decide) h

/-- What is no word character is neither a digit nor a letter. -/
theorem not_isDigit_of_not_isWordChar {c : Char} (h : isWordChar c = false) : c.isDigit = false := by
  cases hd : c.isDigit with
  | false => rfl
  | true => rw [isWordChar_of_isDigit hd] at h; exact h

theorem not_isAlpha_of_not_isWordChar {c : Char} (h : isWordChar c = false) : c.isAlpha = false := by
  cases hd : c.isAlpha with
  | false => rfl
  | true => rw [isWordChar_of_isAlpha hd] at h; exact h

/-- A name is not taken for a numeral: no letter is a digit. -/
theorem not_isDigit_of_isAlpha {c : Char} (h : c.isAlpha = true) : c.isDigit = false := by
  -- both classes are decided on the word characters of ASCII
  have h' := of_isWordChar (p := fun c => !c.isAlpha || !c.isDigit) (by decide) (isWordChar_of_isAlpha h)
  simpa [h] using h'

/-- The characters that may follow a numeral directly are plain ones. -/
theorem isPlain_of_isStop {c : Char} (h : isStop c = true) : isPlain c = true := by
  have hall : [')', '+', '-', '*', '/'].all isPlain = true := by decide
  exact List.all_eq_true.1 hall c (of_decide_eq_true h)

/-- The head of a loose text is plain. -/
theorem Loose.cons {c : Char} {r : List Char} (h : Loose (c :: r)) : isPlain c = true := by
  cases h with
  | stop hc => exact isPlain_of_isStop hc
  | blank hc => rcases hc with rfl | rfl <;> rfl

/-- Neither a word nor a point goes on in a loose text. -/
theorem Loose.head_ends {r : List Char} (h : Loose r) :
    ∀ c ∈ r.head?, isWordChar c = false ∧ c ≠ '.' := by
  cases r with
  | nil => exact fun _ hc => nomatch hc
  | cons c r =>
    rintro _ ⟨⟩
    refine ⟨not_isWordChar_of_isPlain h.cons, ?_⟩
    -- a point is not plain
    rintro rfl
    cases h.cons

/-- The first half of `head_ends`, which most steps need alone. -/
theorem Loose.head_not_isWordChar {r : List Char} (h : Loose r) : ∀ c ∈ r.head?, isWordChar c = false :=
  fun c hc => (h.head_ends c hc).1

/-- In particular no numeral goes on in a loose text. -/
theorem Loose.head_not_isDigit {r : List Char} (h : Loose r) : ∀ c ∈ r.head?, c.isDigit = false :=
  fun c hc => not_isDigit_of_not_isWordChar (h.head_not_isWordChar c hc)

/-- A run of digits begins with one. -/
theorem Digits.exists_cons (ds : Digits) : ∃ d cs, ds.val = d :: cs ∧ d.isDigit = true := by
  obtain ⟨ds, hne, hds⟩ := ds
  cases ds with
  | nil => exact absurd rfl hne
  | cons d cs => exact ⟨d, cs, rfl, hds d List.mem_cons_self⟩

/-- A name begins with a letter, and goes on with letters and underscores. -/
theorem Name.exists_cons (x : Name) :
    ∃ c cs, x.val = c :: cs ∧ c.isAlpha = true ∧ ∀ d ∈ cs, isNameChar d = true := by
  obtain ⟨x, hx⟩ := x
  cases x with
  | nil => cases hx
  | cons c cs =>
    obtain ⟨hc, hcs⟩ := (Bool.and_eq_true _ _).mp hx
    exact ⟨c, cs, rfl, hc, List.all_eq_true.1 hcs⟩

theorem Name.ne_nil (x : Name) : x.val ≠ [] := by
  obtain ⟨c, cs, hx, _, _⟩ := x.exists_cons
  rw [hx]
  exact List.cons_ne_nil c cs

/-- A run of digits consists of word characters. -/
theorem isWordChar_of_mem_digits (ds : Digits) : ∀ c ∈ ds.val, isWordChar c = true :=
  fun c hc => isWordChar_of_isDigit (ds.property.2 c hc)

/-- A name consists of word characters. -/
theorem isWordChar_of_mem_name (x : Name) : ∀ c ∈ x.val, isWordChar c = true := by
  obtain ⟨c, cs, hx, hc, hcs⟩ := x.exists_cons
  rw [hx]
  intro d hd
  rcases List.mem_cons.1 hd with rfl | hd
  · exact isWordChar_of_isAlpha hc
  · exact isWordChar_of_isNameChar (hcs d hd)

/-! ## A run of characters and what follows it

  Words, digits and gaps are all found as the longest run of a class of characters.  Here is what such a
  search finds in a text that is written as a run and a rest. -/

section Runs

variable {p : Char → Bool} {w r : List Char}

/-- A run that ends where it says is taken whole, and nothing behind it. -/
theorem takeWhile_run (hw : ∀ c ∈ w, p c = true) (hr : ∀ c ∈ r.head?, p c = false) :
    (w ++ r).takeWhile p = w := by
  rw [List.takeWhile_append_of_pos hw]
  cases r with
  | nil => simp
  | cons c r => simp [hr c rfl]

/-- What is left behind the same run is all that follows it. -/
theorem dropWhile_run (hw : ∀ c ∈ w, p c = true) (hr : ∀ c ∈ r.head?, p c = false) :
    (w ++ r).dropWhile p = r := by
  rw [List.dropWhile_append_of_pos hw]
  cases r with
  | nil => rfl
  | cons c r => simp [hr c rfl]

/-- What is left begins with a character that ends the run, if it does not end the text. -/
theorem head_dropWhile (p : Char → Bool) (l : List Char) : ∀ c ∈ (l.dropWhile p).head?, p c = false := by
  intro c hc
  have hstop := List.head?_dropWhile_not p l
  rw [hc] at hstop
  exact hstop

end Runs

/-- What holds of the head of a text, and of spaces and tabs, holds of its head behind a gap. -/
theorem head_gap {p : Char → Prop} (hspace : p ' ') (htab : p '\t') {g r : List Char} (hg : Spaced g)
    (hr : ∀ c ∈ r.head?, p c) : ∀ c ∈ (g ++ r).head?, p c := by
  cases g with
  | nil => exact hr
  | cons d g =>
    -- the first character of the gap, a space or a tab
    intro c hc
    cases hc
    rcases hg d List.mem_cons_self with rfl | rfl
    · exact hspace
    · exact htab

/-- Neither a word nor a point goes on where a colon stands, or a gap before one. -/
theorem head_colon {g : List Char} (hg : Spaced g) (t : List Char) :
    ∀ c ∈ (g ++ ':' :: t).head?, isWordChar c = false ∧ c ≠ '.' :=
  head_gap (by decide) (by decide) hg (by rintro c ⟨⟩; decide)

/-! ## Leading zeros

  The flag of `dropZeros` says that a numeral can begin.  It is on in front of a numeral or name and
  again behind it if the rest is loose, so the lemmas below say how it is lost within a word and comes
  back. -/

/-- Digits without the zeros in front, all but a last one. -/
def stripZeros : List Char → List Char
  | c :: d :: ds => if c = '0' then stripZeros (d :: ds) else c :: d :: ds
  | ds => ds

/-- A numeral of nothing but zeros keeps the last of them. -/
theorem stripZeros_ne_nil {ds : List Char} (h : ds ≠ []) : stripZeros ds ≠ [] := by
  fun_induction stripZeros ds with
  | case1 d ds ih => exact ih (List.cons_ne_nil d ds)
  | case2 c d ds _ => exact h
  | case3 ds _ => exact h

/-- Digits without zeros in front are digits of the numeral. -/
theorem mem_of_mem_stripZeros {ds : List Char} {c : Char} (h : c ∈ stripZeros ds) : c ∈ ds := by
  fun_induction stripZeros ds with
  | case1 d ds ih => exact List.mem_cons_of_mem _ (ih h)
  | case2 => exact h
  | case3 => exact h

/-- The same number without leading zeros. -/
def Digits.stripped (ds : Digits) : Digits :=
  ⟨stripZeros ds, stripZeros_ne_nil ds.property.1, fun d hd => ds.property.2 d (mem_of_mem_stripZeros hd)⟩

/-- A leading zero is there only if it is all. -/
theorem tail_eq_nil_of_stripZeros {ds cs : List Char} (h : stripZeros ds = '0' :: cs) : cs = [] := by
  fun_induction stripZeros ds with
  | case1 d ds ih => exact ih h
  | case2 c d ds hc =>
    cases h
    exact absurd rfl hc
  | case3 ds hds =>
    -- fewer than two digits: a second one would have given the other case
    cases cs with
    | nil => rfl
    | cons d cs => exact absurd h (hds '0' d cs)

/-- Zeros in front do not count. -/
theorem natOfDigits_stripZeros_append (ds ps : List Char) :
    Text.natOfDigits (stripZeros ds ++ ps) = Text.natOfDigits (ds ++ ps) := by
  fun_induction stripZeros ds with
  | case1 d ds ih =>
    -- one zero less in front, which counts nothing
    rw [ih]
    simp only [Text.natOfDigits, List.cons_append, Nat.ofDigitChars_cons]
    rfl
  | case2 => rfl
  | case3 => rfl

/-- The number is the same, by the last fact with nothing behind the digits. -/
theorem Digits.value_stripped (ds : Digits) : ds.stripped.value = ds.value := by
  have h := natOfDigits_stripZeros_append ds []
  rw [List.append_nil, List.append_nil] at h
  exact h

/-- The same numeral without leading zeros.  Those behind a point are no leading ones. -/
def Numeral.stripped : Numeral Blank → Numeral Blank
  | whole ds => whole ds.stripped
  | ratio num before after sign den => ratio num.stripped before after sign den.stripped
  | decimal front places => decimal front.stripped places

/-- A name has no zeros to lose. -/
def Atom.stripped : Atom Blank → Atom Blank
  | numeral n => numeral n.stripped
  | name x => name x

/-- Dropping zeros leaves the number. -/
theorem Numeral.tree_stripped (sign : Sign) (n : Numeral Blank) : n.stripped.tree sign = n.tree sign := by
  cases n with
  | whole ds => rw [stripped, tree, tree, ds.value_stripped]
  | ratio num before after s den =>
    rw [stripped, tree, tree, num.value_stripped, den.value_stripped]
  | decimal front places =>
    -- the digits on both sides of the point are read as one numeral
    rw [stripped, tree, tree]
    exact congrArg (fun n : Nat => Expr.rational (sign.apply n) _)
      (natOfDigits_stripZeros_append front places)

/-- Behind a character that is no word character and no point a numeral can begin. -/
theorem dropZeros_cons (edge : Bool) {c : Char} (hc : isWordChar c = false) (hp : c ≠ '.')
    (r : List Char) :
    dropZeros edge (c :: r) = c :: dropZeros true r := by
  have hzero : c ≠ '0' := by
    rintro rfl
    cases hc
  simp [dropZeros, hc, hp, hzero]

/-- Within a word zeros stay: a numeral begins at the edge of a word only. -/
theorem dropZeros_word {w : List Char} (hw : ∀ c ∈ w, isWordChar c = true) (r : List Char) :
    dropZeros false (w ++ r) = w ++ dropZeros false r := by
  refine run_rel (R := fun r r' => dropZeros false r = r') (fun c r r' hc h => ?_) rfl hw
  simp only [dropZeros, Bool.false_and, hc, Bool.not_true, ← h]
  rfl

/-- A plain character is copied, and a numeral can begin behind it. -/
theorem dropZeros_plain {c : Char} (hc : isPlain c = true) (r : List Char) :
    dropZeros true (c :: r) = c :: dropZeros true r := by
  refine dropZeros_cons true (not_isWordChar_of_isPlain hc) ?_ r
  rintro rfl
  cases hc

/-- In front of a text that begins with no word and no point it does not matter what was before. -/
theorem dropZeros_restart {r : List Char} (hr : ∀ c ∈ r.head?, isWordChar c = false ∧ c ≠ '.') :
    dropZeros false r = dropZeros true r := by
  cases r with
  | nil => rfl
  | cons c r =>
    obtain ⟨hc, hp⟩ := hr c rfl
    rw [dropZeros_cons false hc hp, dropZeros_cons true hc hp]

/-- This is so in front of a loose text, where the next step begins. -/
theorem dropZeros_loose {r : List Char} (hr : Loose r) : dropZeros false r = dropZeros true r :=
  dropZeros_restart hr.head_ends

/-- The zeros in front of a numeral are dropped. -/
theorem dropZeros_digits {ds r : List Char} (hne : ds ≠ []) (hds : ∀ d ∈ ds, d.isDigit = true)
    (hr : ∀ c ∈ r.head?, c.isDigit = false) :
    dropZeros true (ds ++ r) = stripZeros ds ++ dropZeros false r := by
  fun_induction stripZeros ds with
  | case1 d ds ih =>
    -- a zero with a digit behind it is dropped, and the numeral begins behind it
    have hd : d.isDigit = true := hds d (by simp)
    rw [← ih (List.cons_ne_nil d ds) fun e he => hds e (List.mem_cons_of_mem _ he)]
    simp [dropZeros, startsDigit, hd]
  | case2 c d ds hc =>
    -- no zero in front: the rest is copied as a word
    have hword : ∀ e ∈ d :: ds, isWordChar e = true := fun e he =>
      isWordChar_of_isDigit (hds e (List.mem_cons_of_mem _ he))
    have hcw : isWordChar c = true := isWordChar_of_isDigit (hds c List.mem_cons_self)
    rw [List.cons_append, dropZeros, if_neg (by simp [hc]), hcw]
    exact congrArg (c :: ·) (dropZeros_word hword r)
  | case3 ds hshort =>
    -- a single digit stays, even a zero, since no digit follows it
    cases ds with
    | nil => exact absurd rfl hne
    | cons c ds =>
      cases ds with
      | nil =>
        have hcw : isWordChar c = true := isWordChar_of_isDigit (hds c List.mem_cons_self)
        have hstart : startsDigit r = false := by
          cases r with
          | nil => rfl
          | cons e r => exact hr e rfl
        simp [dropZeros, hstart, hcw]
      | cons d ds => exact absurd rfl (hshort c d ds)

/-- A gap is copied, by the same law for each of its characters. -/
theorem dropZeros_gap {g : List Char} (hg : Spaced g) (r : List Char) :
    dropZeros true (g ++ r) = g ++ dropZeros true r :=
  gap_rel (R := fun r r' => dropZeros true r = r') (fun _ r _ hc h => h ▸ dropZeros_plain hc r) rfl hg

/-- A sign is a plain character, where there is one. -/
theorem dropZeros_sign (sign : Option Sign) (r : List Char) :
    dropZeros true (Sign.text sign ++ r) = Sign.text sign ++ dropZeros true r := by
  cases sign with
  | none => rfl
  | some s => exact dropZeros_plain s.isPlain_char r

/-- **Dropping zeros**, at one numeral or name. -/
theorem dropZeros_atom (a : Atom Spaced) {r : List Char} (hr : Loose r) :
    dropZeros true (a.text ++ r) = a.stripped.text ++ dropZeros true r := by
  have hdigits : ∀ (ds : Digits) {r : List Char}, (∀ c ∈ r.head?, c.isDigit = false) →
      dropZeros true (ds ++ r) = ds.stripped ++ dropZeros false r :=
    fun ds _ hr => dropZeros_digits ds.property.1 ds.property.2 hr
  cases a with
  | numeral n =>
    cases n with
    | whole ds => exact (hdigits ds hr.head_not_isDigit).trans (congrArg _ (dropZeros_loose hr))
    | ratio num before after sign den =>
      -- behind the colon the second part is a numeral of its own
      have hcolon := head_colon before.property
      simp only [Atom.text, Atom.stripped, Numeral.text, Numeral.stripped, List.append_assoc,
        List.cons_append]
      rw [hdigits num fun c hc => not_isDigit_of_not_isWordChar (hcolon _ c hc).1,
        dropZeros_restart (hcolon _), dropZeros_gap before.property, dropZeros_cons true rfl (by decide),
        dropZeros_gap after.property, dropZeros_sign, hdigits den hr.head_not_isDigit, dropZeros_loose hr]
    | decimal front places =>
      -- the digits behind the point keep their zeros
      simp only [Atom.text, Atom.stripped, Numeral.text, Numeral.stripped, List.append_assoc,
        List.cons_append]
      have hpoint : ∀ t : List Char, dropZeros false ('.' :: t) = '.' :: dropZeros false t := fun _ => rfl
      rw [hdigits front (by rintro c ⟨⟩; decide), hpoint,
        dropZeros_word (isWordChar_of_mem_digits places), dropZeros_loose hr]
  | name x =>
    -- a letter in front, so that what follows is copied as a word
    obtain ⟨c, cs, hx, hc, hcs⟩ := x.exists_cons
    have hzero : c ≠ '0' := by
      rintro rfl
      cases hc
    simp only [Atom.text, Atom.stripped, hx, List.cons_append]
    rw [dropZeros, if_neg (by simp [hzero]), isWordChar_of_isAlpha hc, ← dropZeros_loose hr]
    exact congrArg (c :: ·) (dropZeros_word (fun d hd => isWordChar_of_isNameChar (hcs d hd)) r)

/-! ## Ratios

  The flag of `callRatios` says that a word has just been left.  A ratio is looked for only where it is
  off; the gaps around the colon may be any spaces, so they are lost in the call. -/

/-- A numeral as the scanner gets it: a ratio is a call. -/
def Numeral.called : Numeral Blank → List Char
  | ratio num _ _ sign den =>
    "__ratio__(".toList ++ num ++ ", ".toList ++ (Sign.text sign ++ den) ++ ")".toList
  | n => n.text

/-- A name is no ratio, and stays. -/
def Atom.called : Atom Blank → List Char
  | numeral n => n.called
  | name x => x

/-- A ratio begins with a digit. -/
theorem ratio?_of_not_isDigit {cs : List Char} (h : ∀ c ∈ cs.head?, c.isDigit = false) :
    ratio? cs = none := by
  -- there are no digits for a numerator
  have hnum : cs.takeWhile Char.isDigit = [] := by
    cases cs with
    | nil => rfl
    | cons c cs => simp [h c rfl]
  unfold ratio?
  simp only [hnum, List.isEmpty_nil, Bool.true_or, if_true]
  split <;> rfl

/-- Digits that no colon follows, spaces apart, are no ratio. -/
theorem ratio?_digits {ds r : List Char} (hds : ∀ d ∈ ds, d.isDigit = true)
    (hr : ∀ c ∈ r.head?, c.isDigit = false) (hcolon : ∀ c ∈ (r.dropWhile Text.isSpace).head?, c ≠ ':') :
    ratio? (ds ++ r) = none := by
  unfold ratio?
  simp only [dropWhile_run hds hr]
  -- the colon is looked for behind the digits and the spaces
  split
  · rename_i t ht
    rw [ht] at hcolon
    exact absurd rfl (hcolon ':' rfl)
  · rfl

/-- The gaps of a sentence are such that a ratio may have them around its colon. -/
theorem isSpace_of_spaced {g : List Char} (hg : Spaced g) : ∀ c ∈ g, Text.isSpace c = true := by
  intro c hc
  rcases hg c hc with rfl | rfl <;> rfl

/-- Behind the spaces of a loose text stands a stop, so no colon, and what stands in front of them is no
    numerator. -/
theorem dropWhile_isSpace_loose {r : List Char} (hr : Loose r) :
    ∀ c ∈ (r.dropWhile Text.isSpace).head?, isStop c = true := by
  induction hr with
  | nil => exact fun _ hc => nomatch hc
  | @stop c hc r =>
    -- a stop is no space, so nothing is dropped
    have hall : [')', '+', '-', '*', '/'].all (fun c => !Text.isSpace c) = true := by decide
    have hspace : Text.isSpace c = false := by
      simpa using List.all_eq_true.1 hall c (of_decide_eq_true hc)
    rw [List.dropWhile_cons, hspace]
    rintro d ⟨⟩
    exact hc
  | @blank c hc r hr ih =>
    have hspace : Text.isSpace c = true := by rcases hc with rfl | rfl <;> rfl
    rw [List.dropWhile_cons, hspace]
    exact ih

/-- The sign of a second part is split off again.  Without one, the digits begin at once. -/
theorem splitSign_text (sign : Option Sign) {ds : List Char} (hds : ∀ c ∈ ds.head?, c.isDigit = true) :
    splitSign (Sign.text sign ++ ds) = (Sign.text sign, ds) := by
  cases sign with
  | some s => cases s <;> rfl
  | none =>
    cases ds with
    | nil => rfl
    | cons d ds =>
      have hd : d.isDigit = true := hds d rfl
      show splitSign (d :: ds) = ([], d :: ds)
      unfold splitSign
      split
      · rename_i heq; cases heq; cases hd
      · rename_i heq; cases heq; cases hd
      · rfl

/-- A ratio is found with both its parts. -/
theorem ratio?_text (num den : Digits) (before after : Gap Spaced) (sign : Option Sign) {r : List Char}
    (hr : Loose r) :
    ratio? (num ++ (before ++ ':' :: (after ++ (Sign.text sign ++ (den ++ r))))) =
      some (num.val, Sign.text sign ++ den, r) := by
  obtain ⟨hne, hnum⟩ := num.property
  obtain ⟨hne', hden⟩ := den.property
  -- each run ends where the text says: the numerator before the gap or the colon
  have hcolon : ∀ t : List Char, ∀ c ∈ (before.val ++ ':' :: t).head?, c.isDigit = false :=
    fun t c hc => not_isDigit_of_not_isWordChar (head_colon before.property t c hc).1
  have hhead : ∀ c ∈ (den.val ++ r).head?, c.isDigit = true := by
    obtain ⟨d, ds, hcons, hd⟩ := den.exists_cons
    rw [hcons]
    rintro c ⟨⟩
    exact hd
  -- the second part, at its sign or its first digit, ends the second gap
  have hsigned : ∀ c ∈ (Sign.text sign ++ (den.val ++ r)).head?, Text.isSpace c = false := by
    cases sign with
    | some s => cases s <;> (rintro c ⟨⟩; rfl)
    | none =>
      intro c hc
      have h :=
        of_isWordChar (p := fun c => !Text.isSpace c) (by decide) (isWordChar_of_isDigit (hhead c hc))
      simpa using h
  -- and no word goes on behind it, or it would be no ratio
  have hstart : startsWordChar r = false := by
    cases r with
    | nil => rfl
    | cons c r => exact hr.head_not_isWordChar c rfl
  have hbefore : ∀ t : List Char, (before.val ++ ':' :: t).dropWhile Text.isSpace = ':' :: t :=
    fun t => dropWhile_run (isSpace_of_spaced before.property) (by rintro c ⟨⟩; rfl)
  unfold ratio?
  simp only [takeWhile_run hnum (hcolon _), dropWhile_run hnum (hcolon _), hbefore,
    dropWhile_run (isSpace_of_spaced after.property) hsigned, splitSign_text sign hhead,
    takeWhile_run hden hr.head_not_isDigit, dropWhile_run hden hr.head_not_isDigit, hstart]
  rw [if_neg]
  simp [hne, hne']

/-- Behind a word character no ratio begins: the next character is copied. -/
theorem callRatios_afterWord (c : Char) (r : List Char) :
    callRatios true (c :: r) = c :: callRatios (isWordChar c) r := by
  rw [callRatios, if_pos rfl]

/-- Nor is a character changed where no ratio is found. -/
theorem callRatios_none {c : Char} {r : List Char} (h : ratio? (c :: r) = none) :
    callRatios false (c :: r) = c :: callRatios (isWordChar c) r := by
  rw [callRatios, if_neg Bool.false_ne_true]
  split
  · rename_i hs
    rw [h] at hs
    cases hs
  · rfl

/-- A ratio that is found becomes a call, and what follows its last digit is behind a word. -/
theorem callRatios_some {cs num den rest : List Char} (h : ratio? cs = some (num, den, rest)) :
    callRatios false cs =
      "__ratio__(".toList ++ num ++ ", ".toList ++ den ++ ")".toList ++ callRatios true rest := by
  cases cs with
  | nil => cases h
  | cons c cs =>
    rw [callRatios, if_neg Bool.false_ne_true]
    split
    · rename_i hs
      rw [h] at hs
      cases hs
      rfl
    · rename_i hs
      rw [h] at hs
      cases hs

/-- Within a word everything is copied. -/
theorem callRatios_word {w : List Char} (hw : ∀ c ∈ w, isWordChar c = true) (r : List Char) :
    callRatios true (w ++ r) = w ++ callRatios true r :=
  run_rel (R := fun r r' => callRatios true r = r')
    (fun c r _ hc h => by rw [callRatios_afterWord, hc, h]) rfl hw

/-- A word that is no ratio is copied. -/
theorem callRatios_run {w r : List Char} (hw : ∀ c ∈ w, isWordChar c = true) (hne : w ≠ [])
    (hnone : ratio? (w ++ r) = none) : callRatios false (w ++ r) = w ++ callRatios true r := by
  cases w with
  | nil => exact absurd rfl hne
  | cons c w =>
    rw [List.cons_append] at hnone ⊢
    rw [callRatios_none hnone, hw c List.mem_cons_self,
      callRatios_word fun d hd => hw d (List.mem_cons_of_mem c hd)]
    rfl

/-- A plain character begins no ratio. -/
theorem callRatios_plain {c : Char} (hc : isPlain c = true) (r : List Char) :
    callRatios false (c :: r) = c :: callRatios false r := by
  have hword := not_isWordChar_of_isPlain hc
  rw [callRatios_none (ratio?_of_not_isDigit ?_), hword]
  rintro d ⟨⟩
  exact not_isDigit_of_not_isWordChar hword

/-- In front of a loose text it does not matter whether a word has just ended. -/
theorem callRatios_loose {r : List Char} (hr : Loose r) : callRatios true r = callRatios false r := by
  cases r with
  | nil => rw [callRatios, callRatios]
  | cons c r => rw [callRatios_afterWord, callRatios_plain hr.cons, not_isWordChar_of_isPlain hr.cons]

/-- No stop is a colon. -/
theorem ne_colon_of_isStop {c : Char} (hc : isStop c = true) : c ≠ ':' := by
  rintro rfl
  cases hc

/-- **Calling ratios**, at one numeral or name. -/
theorem callRatios_atom (a : Atom Spaced) {r : List Char} (hr : Loose r) :
    callRatios false (a.text ++ r) = a.called ++ callRatios false r := by
  have hdigits : ∀ ds : Digits, callRatios false (ds ++ r) = ds ++ callRatios false r := by
    intro ds
    obtain ⟨hne, hds⟩ := ds.property
    have hnone : ratio? (ds ++ r) = none := ratio?_digits hds hr.head_not_isDigit fun c hc =>
      ne_colon_of_isStop (dropWhile_isSpace_loose hr c hc)
    rw [callRatios_run (isWordChar_of_mem_digits ds) hne hnone, callRatios_loose hr]
  cases a with
  | numeral n =>
    cases n with
    | whole ds => exact hdigits ds
    | ratio num before after sign den =>
      -- the gaps around the colon are lost
      simp only [Atom.text, Numeral.text, List.append_assoc, List.cons_append]
      rw [callRatios_some (ratio?_text num den before after sign hr), callRatios_loose hr]
      rfl
    | decimal front places =>
      -- the digits in front of the point are no numerator, and those behind it begin afresh
      obtain ⟨hne, hfront⟩ := front.property
      have hnone : ratio? (front ++ '.' :: (places.val ++ r)) = none := by
        refine ratio?_digits hfront (by rintro c ⟨⟩; rfl) fun c hc => ?_
        have hc : '.' = c := by simpa [Text.isSpace] using hc
        rw [← hc]
        decide
      have hpoint : isWordChar '.' = false := rfl
      show callRatios false ((front.val ++ '.' :: places.val) ++ r) =
        (front.val ++ '.' :: places.val) ++ callRatios false r
      rw [List.append_assoc, List.cons_append, callRatios_run (isWordChar_of_mem_digits front) hne hnone,
        callRatios_afterWord, hpoint, hdigits places, List.append_assoc, List.cons_append]
  | name x =>
    -- no ratio begins at a letter
    obtain ⟨c, cs, hx, hc, _⟩ := x.exists_cons
    have hnone : ratio? (x ++ r) = none := by
      refine ratio?_of_not_isDigit ?_
      rw [hx]
      rintro d ⟨⟩
      exact not_isDigit_of_isAlpha hc
    show callRatios false (x ++ r) = x ++ callRatios false r
    rw [callRatios_run (isWordChar_of_mem_name x) x.ne_nil hnone, callRatios_loose hr]

/-! ## Reserved words

  The flag of `markWords` is that of `callRatios`.  The step comes after it, so the calls that were put
  in are met by it; their name begins with an underscore and is no word to be marked. -/

/-- A numeral or name as the scanner gets it. -/
def Atom.marked : Atom Blank → List Char
  | numeral n => n.called
  | name x => markWord x

/-- Behind a word character no word begins: the next character is copied. -/
theorem markWords_afterWord (c : Char) (r : List Char) :
    markWords true (c :: r) = c :: markWords (isWordChar c) r := by
  rw [markWords]
  rfl

/-- Nor does a word begin with anything but a letter. -/
theorem markWords_notAlpha {c : Char} (h : c.isAlpha = false) (r : List Char) :
    markWords false (c :: r) = c :: markWords (isWordChar c) r := by
  rw [markWords, h]
  rfl

/-- Within a word everything is copied. -/
theorem markWords_word {w : List Char} (hw : ∀ c ∈ w, isWordChar c = true) (r : List Char) :
    markWords true (w ++ r) = w ++ markWords true r :=
  run_rel (R := fun r r' => markWords true r = r')
    (fun c r _ hc h => by rw [markWords_afterWord, hc, h]) rfl hw

/-- A plain character is copied, and a word can begin behind it. -/
theorem markWords_plain {c : Char} (hc : isPlain c = true) (r : List Char) :
    markWords false (c :: r) = c :: markWords false r := by
  have hword := not_isWordChar_of_isPlain hc
  rw [markWords_notAlpha (not_isAlpha_of_not_isWordChar hword), hword]

/-- In front of a loose text it does not matter whether a word has just ended. -/
theorem markWords_loose {r : List Char} (hr : Loose r) : markWords true r = markWords false r := by
  cases r with
  | nil => rw [markWords, markWords]
  | cons c r => rw [markWords_afterWord, markWords_plain hr.cons, not_isWordChar_of_isPlain hr.cons]

/-- Digits are copied, and make a word of what follows them directly. -/
theorem markWords_digits (ds : Digits) (r : List Char) :
    markWords false (ds ++ r) = ds ++ markWords true r := by
  have hword := isWordChar_of_mem_digits ds
  obtain ⟨d, cs, hcons, hd⟩ := ds.exists_cons
  -- a digit is no letter, so no word begins at it
  have halpha : d.isAlpha = false := by
    cases h : d.isAlpha with
    | false => rfl
    | true => rw [not_isDigit_of_isAlpha h] at hd; cases hd
  rw [hcons] at hword ⊢
  rw [List.cons_append, markWords_notAlpha halpha, hword d List.mem_cons_self,
    markWords_word fun c hc => hword c (List.mem_cons_of_mem d hc)]
  rfl

/-- A name is marked if it is reserved.  The text behind it is loose, so the name ends there and no
    digit follows, which would save a reserved word from its mark. -/
theorem markWords_name (x : Name) {r : List Char} (hr : Loose r) :
    markWords false (x ++ r) = markWord x ++ markWords false r := by
  obtain ⟨c, cs, hx, hc, hcs⟩ := x.exists_cons
  have hstop : ∀ d ∈ r.head?, isNameChar d = false := by
    intro d hd
    cases h : isNameChar d with
    | false => rfl
    | true =>
      have := hr.head_not_isWordChar d hd
      rw [isWordChar_of_isNameChar h] at this
      cases this
  have hstart : startsDigit r = false := by
    cases r with
    | nil => rfl
    | cons d r => exact hr.head_not_isDigit d rfl
  rw [hx, List.cons_append, markWords, hc]
  simp only [Bool.not_false, Bool.true_and, if_true, takeWhile_run hcs hstop,
    dropWhile_run hcs hstop, hstart]
  rw [markWords_loose hr]
  rfl

/-- The call of a ratio is copied, whatever follows: the name of the call is a word that begins with no
    letter. -/
theorem markWords_called (num den : Digits) (before after : Gap Blank) (sign : Option Sign)
    (r : List Char) :
    markWords false ((Numeral.ratio num before after sign den).called ++ r) =
      (Numeral.ratio num before after sign den).called ++ markWords false r := by
  -- the underscore in front keeps the name of the call from being a word of its own
  have hhead : ∀ t : List Char, markWords false ("__ratio__(".toList ++ t) =
      "__ratio__(".toList ++ markWords false t := by
    intro t
    have hword : ∀ c ∈ "_ratio__".toList, isWordChar c = true := List.all_eq_true.1 rfl
    show markWords false ('_' :: ("_ratio__".toList ++ '(' :: t)) =
      '_' :: ("_ratio__".toList ++ '(' :: markWords false t)
    rw [markWords_notAlpha rfl]
    exact congrArg ('_' :: ·) ((markWords_word hword _).trans (congrArg _ (markWords_afterWord '(' t)))
  have hcomma : ∀ t : List Char, markWords true (", ".toList ++ t) =
      ", ".toList ++ markWords false t := by
    intro t
    show markWords true (',' :: ' ' :: t) = ',' :: ' ' :: markWords false t
    rw [markWords_afterWord]
    exact congrArg (',' :: ·) (markWords_plain rfl t)
  have hsign : ∀ t : List Char, markWords false (Sign.text sign ++ t) =
      Sign.text sign ++ markWords false t := by
    intro t
    cases sign with
    | none => rfl
    | some s => exact markWords_plain s.isPlain_char t
  -- behind the bracket a word can begin again
  have hclose : markWords true (")".toList ++ r) = ")".toList ++ markWords false r :=
    markWords_afterWord ')' r
  show markWords false
    (("__ratio__(".toList ++ num ++ ", ".toList ++ (Sign.text sign ++ den) ++ ")".toList) ++ r) =
      ("__ratio__(".toList ++ num ++ ", ".toList ++ (Sign.text sign ++ den) ++ ")".toList) ++
        markWords false r
  simp only [List.append_assoc]
  rw [hhead, markWords_digits num, hcomma, hsign, markWords_digits den, hclose]

/-- **Marking words**, at one numeral or name. -/
theorem markWords_atom (a : Atom Spaced) {r : List Char} (hr : Loose r) :
    markWords false (a.called ++ r) = a.marked ++ markWords false r := by
  have hdigits : ∀ ds : Digits, markWords false (ds ++ r) = ds ++ markWords false r := fun ds => by
    rw [markWords_digits, markWords_loose hr]
  cases a with
  | numeral n =>
    cases n with
    | whole ds => exact hdigits ds
    | ratio num before after sign den => exact markWords_called num den before after sign r
    | decimal front places =>
      have hpoint : ∀ t : List Char, markWords true ('.' :: t) = '.' :: markWords false t :=
        fun t => markWords_afterWord '.' t
      show markWords false ((front.val ++ '.' :: places.val) ++ r) =
        (front.val ++ '.' :: places.val) ++ markWords false r
      rw [List.append_assoc, List.cons_append, markWords_digits front, hpoint, hdigits places,
        List.append_assoc, List.cons_append]
  | name x => exact markWords_name x hr

/-! ## Underscores

  A source in which an underscore begins an identifier is refused, because the names of calls and the
  marks begin with one.  No sentence is refused: names begin with a letter. -/

/-- Within a word no underscore is loose. -/
theorem hasLooseUnderscore_word {w : List Char} (hw : ∀ c ∈ w, isWordChar c = true) (r : List Char) :
    hasLooseUnderscore true (w ++ r) = hasLooseUnderscore true r := by
  induction w with
  | nil => rfl
  | cons c w ih =>
    rw [List.cons_append, hasLooseUnderscore, hw c List.mem_cons_self,
      ih fun d hd => hw d (List.mem_cons_of_mem c hd)]
    simp

/-- Behind a character that is no word character an identifier can begin. -/
theorem hasLooseUnderscore_cons (afterWord : Bool) {c : Char} (hc : isWordChar c = false)
    (r : List Char) :
    hasLooseUnderscore afterWord (c :: r) = hasLooseUnderscore false r := by
  have hne : c ≠ '_' := by
    rintro rfl
    cases hc
  simp [hasLooseUnderscore, hc, hne]

/-- A word that begins with no underscore has none where an identifier could begin. -/
theorem hasLooseUnderscore_run {w r : List Char} (hw : ∀ c ∈ w, isWordChar c = true) (hne : w ≠ [])
    (hhead : ∀ c ∈ w.head?, c ≠ '_') (hr : ∀ c ∈ r.head?, isWordChar c = false) :
    hasLooseUnderscore false (w ++ r) = hasLooseUnderscore false r := by
  -- where a word ends, it does not matter that there was one
  have hrest : hasLooseUnderscore true r = hasLooseUnderscore false r := by
    cases r with
    | nil => rfl
    | cons c r => rw [hasLooseUnderscore_cons true (hr c rfl), hasLooseUnderscore_cons false (hr c rfl)]
  cases w with
  | nil => exact absurd rfl hne
  | cons c w =>
    have hc : c ≠ '_' := hhead c rfl
    rw [List.cons_append, hasLooseUnderscore, hw c List.mem_cons_self,
      hasLooseUnderscore_word (fun d hd => hw d (List.mem_cons_of_mem c hd)), hrest]
    simp [hc]

/-- A numeral begins with a digit, and so has no loose underscore. -/
theorem hasLooseUnderscore_digits (ds : Digits) {r : List Char}
    (hr : ∀ c ∈ r.head?, isWordChar c = false) :
    hasLooseUnderscore false (ds ++ r) = hasLooseUnderscore false r := by
  refine hasLooseUnderscore_run (isWordChar_of_mem_digits ds) ds.property.1 ?_ hr
  obtain ⟨d, cs, hcons, hd⟩ := ds.exists_cons
  rw [hcons]
  rintro c ⟨⟩ rfl
  cases hd

/-- A gap has none either. -/
theorem hasLooseUnderscore_gap {g : List Char} (hg : Spaced g) (r : List Char) :
    hasLooseUnderscore false (g ++ r) = hasLooseUnderscore false r := by
  induction g with
  | nil => rfl
  | cons c g ih =>
    have hplain := isPlain_of_spaced hg List.mem_cons_self
    rw [List.cons_append, hasLooseUnderscore_cons false (not_isWordChar_of_isPlain hplain),
      ih (spaced_of_cons hg)]

/-- **No underscore is loose** in a numeral or a name. -/
theorem hasLooseUnderscore_atom (a : Atom Spaced) {r : List Char} (hr : Loose r) :
    hasLooseUnderscore false (a.text ++ r) = hasLooseUnderscore false r := by
  cases a with
  | numeral n =>
    cases n with
    | whole ds => exact hasLooseUnderscore_digits ds hr.head_not_isWordChar
    | ratio num before after sign den =>
      -- the colon, the gaps and the sign are passed one by one; each is no word character
      have hcolon : ∀ t : List Char, ∀ c ∈ (before.val ++ ':' :: t).head?, isWordChar c = false :=
        fun t c hc => (head_colon before.property t c hc).1
      have hsign : ∀ t : List Char,
          hasLooseUnderscore false (Sign.text sign ++ t) = hasLooseUnderscore false t := by
        intro t
        cases sign with
        | none => rfl
        | some s => exact hasLooseUnderscore_cons false (not_isWordChar_of_isPlain s.isPlain_char) t
      simp only [Atom.text, Numeral.text, List.append_assoc, List.cons_append]
      rw [hasLooseUnderscore_digits num (hcolon _), hasLooseUnderscore_gap before.property,
        hasLooseUnderscore_cons false rfl, hasLooseUnderscore_gap after.property, hsign,
        hasLooseUnderscore_digits den hr.head_not_isWordChar]
    | decimal front places =>
      simp only [Atom.text, Numeral.text, List.append_assoc, List.cons_append]
      rw [hasLooseUnderscore_digits front (by rintro c ⟨⟩; rfl), hasLooseUnderscore_cons false rfl,
        hasLooseUnderscore_digits places hr.head_not_isWordChar]
  | name x =>
    obtain ⟨c, cs, hx, hc, _⟩ := x.exists_cons
    show hasLooseUnderscore false (x.val ++ r) = hasLooseUnderscore false r
    refine hasLooseUnderscore_run (isWordChar_of_mem_name x) x.ne_nil ?_ hr.head_not_isWordChar
    rw [hx]
    rintro d ⟨⟩ rfl
    cases hc

/-! ## The ends of a sentence

  What is cut off and trimmed is not part of the sentence: it holds no number sign, and begins and ends
  with characters that are no blanks. -/

/-- The characters of a prepared or unprepared sentence. -/
def isSourceChar (c : Char) : Bool := isWordChar c || isPlain c || c ∈ [':', '.', ',']

theorem isSourceChar_of_isWordChar {c : Char} (h : isWordChar c = true) : isSourceChar c = true := by
  simp [isSourceChar, h]

theorem isSourceChar_of_isPlain {c : Char} (h : isPlain c = true) : isSourceChar c = true := by
  simp [isSourceChar, h]

/-- The characters of digits and of signs are of them. -/
theorem isSourceChar_of_mem_digits {ds : Digits} {c : Char} (h : c ∈ ds.val) : isSourceChar c = true :=
  isSourceChar_of_isWordChar (isWordChar_of_mem_digits ds c h)

theorem isPlain_of_mem_sign {sign : Option Sign} {c : Char} (h : c ∈ Sign.text sign) :
    isPlain c = true := by
  cases sign with
  | none => cases h
  | some s =>
    rw [List.mem_singleton.1 h]
    exact s.isPlain_char

/-- What holds of the characters of a source and of gaps holds of a numeral and of a name. -/
theorem forall_mem_text {p : Char → Prop} (hsource : ∀ c, isSourceChar c = true → p c)
    (hgap : ∀ g : Gap Blank, ∀ c ∈ g.val, p c) (a : Atom Blank) : ∀ c ∈ a.text, p c := by
  have hdigits : ∀ ds : Digits, ∀ c ∈ ds.val, p c :=
    fun ds c hc => hsource c (isSourceChar_of_mem_digits hc)
  cases a with
  | numeral n =>
    cases n with
    | whole ds => exact hdigits ds
    | ratio num before after sign den =>
      have hsign : ∀ c ∈ Sign.text sign, p c :=
        fun c hc => hsource c (isSourceChar_of_isPlain (isPlain_of_mem_sign hc))
      simp only [Atom.text, Numeral.text, List.forall_mem_cons, List.forall_mem_append]
      exact ⟨hdigits num, hgap before, hsource _ rfl, hgap after, hsign, hdigits den⟩
    | decimal front places =>
      simp only [Atom.text, Numeral.text, List.forall_mem_cons, List.forall_mem_append]
      exact ⟨hdigits front, hsource _ rfl, hdigits places⟩
  | name x => exact fun c hc => hsource c (isSourceChar_of_isWordChar (isWordChar_of_mem_name x c hc))

/-- So a sentence with spaces and tabs for its gaps consists of such characters. -/
theorem isSourceChar_of_mem_text {a : Atom Spaced} {c : Char} (h : c ∈ a.text) :
    isSourceChar c = true := by
  refine forall_mem_text (p := fun c => isSourceChar c = true) (fun c hc => hc) ?_ a c h
  exact fun g c hc => isSourceChar_of_isPlain (isPlain_of_spaced g.property hc)

/-- Marking a word adds the characters of the mark. -/
theorem mem_markWord {w : List Char} {c : Char} (h : c ∈ markWord w) : c ∈ wordMark ∨ c ∈ w := by
  unfold markWord at h
  split at h
  · exact List.mem_append.1 h
  · exact Or.inr h

/-- What the scanner gets consists of such characters as well: the calls and marks that were
    put in do. -/
theorem isSourceChar_of_mem_marked {a : Atom Spaced} {c : Char} (h : c ∈ a.marked) :
    isSourceChar c = true := by
  have hfixed : ∀ {cs : List Char}, cs.all isSourceChar = true → c ∈ cs → isSourceChar c = true :=
    fun hall hc => List.all_eq_true.1 hall c hc
  cases a with
  | numeral n =>
    cases n with
    | whole ds => exact isSourceChar_of_mem_digits h
    | ratio num before after sign den =>
      have h : c ∈ "__ratio__(".toList ++ num ++ ", ".toList ++ (Sign.text sign ++ den) ++ ")".toList := h
      rw [List.mem_append, List.mem_append, List.mem_append, List.mem_append, List.mem_append] at h
      -- the name of the call, the two parts, and what stands around them
      rcases h with (((h | h) | h) | h | h) | h
      · exact hfixed (by decide) h
      · exact isSourceChar_of_mem_digits h
      · exact hfixed (by decide) h
      · exact isSourceChar_of_isPlain (isPlain_of_mem_sign h)
      · exact isSourceChar_of_mem_digits h
      · exact hfixed (by decide) h
    | decimal front places => exact isSourceChar_of_mem_text (a := .numeral (.decimal front places)) h
  | name x =>
    rcases mem_markWord h with h | h
    · exact hfixed (by decide) h
    · exact isSourceChar_of_isWordChar (isWordChar_of_mem_name x c h)

/-- Word characters are not trimmed. -/
theorem not_isBlank_of_isWordChar {c : Char} (h : isWordChar c = true) : Text.isBlank c = false := by
  simpa using of_isWordChar (p := fun c => !Text.isBlank c) (by decide) h

/-- A numeral begins with a digit and a name with a letter. -/
theorem Atom.exists_cons_text (a : Atom Blank) : ∃ c cs, a.text = c :: cs ∧ isWordChar c = true := by
  have hdigits : ∀ (ds : Digits) (r : List Char), ∃ c cs, ds.val ++ r = c :: cs ∧
      isWordChar c = true := by
    intro ds r
    obtain ⟨d, cs, hcons, hd⟩ := ds.exists_cons
    exact ⟨d, cs ++ r, by rw [hcons]; rfl, isWordChar_of_isDigit hd⟩
  cases a with
  | numeral n =>
    cases n with
    | whole ds =>
      obtain ⟨d, cs, hcons, hd⟩ := ds.exists_cons
      exact ⟨d, cs, hcons, isWordChar_of_isDigit hd⟩
    | ratio num before after sign den => exact hdigits num _
    | decimal front places => exact hdigits front _
  | name x =>
    obtain ⟨c, cs, hx, hc, _⟩ := x.exists_cons
    exact ⟨c, cs, hx, isWordChar_of_isAlpha hc⟩

/-- Both end with a word character, too: in all three kinds of numeral the last part is a run
    of digits. -/
theorem Atom.exists_concat_text (a : Atom Blank) : ∃ cs c, a.text = cs ++ [c] ∧ isWordChar c = true := by
  -- whatever stands in front, the last character is that of a run which is not empty
  have hlast : ∀ {w : List Char}, w ≠ [] → (∀ c ∈ w, isWordChar c = true) → ∀ front : List Char,
      ∃ cs c, front ++ w = cs ++ [c] ∧ isWordChar c = true := by
    intro w hne hw front
    refine ⟨front ++ w.dropLast, w.getLast hne, ?_, hw _ (List.getLast_mem hne)⟩
    rw [List.append_assoc, List.dropLast_concat_getLast]
  cases a with
  | numeral n =>
    cases n with
    | whole ds => exact hlast ds.property.1 (isWordChar_of_mem_digits ds) []
    | ratio num before after sign den =>
      obtain ⟨cs, c, h, hc⟩ := hlast den.property.1 (isWordChar_of_mem_digits den)
        (num.val ++ (before.val ++ ':' :: (after.val ++ Sign.text sign)))
      exact ⟨cs, c, by rw [← h]; simp [Atom.text, Numeral.text], hc⟩
    | decimal front places =>
      obtain ⟨cs, c, h, hc⟩ :=
        hlast places.property.1 (isWordChar_of_mem_digits places) (front.val ++ ['.'])
      exact ⟨cs, c, by rw [← h]; simp [Atom.text, Numeral.text], hc⟩
  | name x => exact hlast x.ne_nil (isWordChar_of_mem_name x) []

/-! ## The whole preparation

  The three steps, each at one numeral or name, are put together by `write_rel`, with the sentence
  between the leading and the trailing gap. -/

/-- A source with a comment behind it, or without one. -/
def commented (src : List Char) : Option (List Char) → List Char
  | none => src
  | some comment => src ++ '#' :: comment

/-- A comment is cut off, since the first number sign is the one in front of it. -/
theorem cutComment_commented {src : List Char} (h : '#' ∉ src) (comment : Option (List Char)) :
    cutComment (commented src comment) = src := by
  have hsrc : ∀ c ∈ src, decide (c ≠ '#') = true := fun c hc =>
    decide_eq_true fun heq => h (heq ▸ hc)
  cases comment with
  | none =>
    have h := takeWhile_run (r := []) hsrc fun _ hc => nomatch hc
    rw [List.append_nil] at h
    exact h
  | some comment => exact takeWhile_run hsrc (by rintro c ⟨⟩; rfl)

/-- Spaces and tabs are trimmed. -/
theorem isBlank_of_spaced {g : List Char} (hg : Spaced g) : ∀ c ∈ g, Text.isBlank c = true := by
  intro c hc
  rcases hg c hc with rfl | rfl <;> rfl

/-- Spaces and tabs at the ends are trimmed, and nothing else if no blank stands there. -/
theorem trim_spaced {lead trail body : List Char} (hlead : Spaced lead) (htrail : Spaced trail)
    (hhead : ∃ c cs, body = c :: cs ∧ Text.isBlank c = false)
    (hlast : ∃ cs c, body = cs ++ [c] ∧ Text.isBlank c = false) :
    Text.trim (lead ++ (body ++ trail)) = body := by
  -- the leading blanks end at the first character, and the trailing ones, seen from behind, at the last
  have hfront : Text.trimFront (lead ++ (body ++ trail)) = body ++ trail := by
    obtain ⟨c, cs, rfl, hc⟩ := hhead
    exact dropWhile_run (isBlank_of_spaced hlead) (by rintro d ⟨⟩; exact hc)
  have hback : Text.trimBack (body ++ trail) = body := by
    obtain ⟨cs, c, rfl, hc⟩ := hlast
    have htrail' : ∀ d ∈ trail.reverse, Text.isBlank d = true := fun d hd =>
      isBlank_of_spaced htrail d (List.mem_reverse.1 hd)
    rw [Text.trimBack, List.reverse_append,
      dropWhile_run htrail' (by rw [List.reverse_append]; rintro d ⟨⟩; exact hc), List.reverse_reverse]
  rw [Text.trim, hfront, hback]

/-- A sentence begins with a bracket, a sign or a word character, none of which is trimmed. -/
theorem exists_cons_source (s : Sentence Spaced k) :
    ∃ c cs, s.source = c :: cs ∧ Text.isBlank c = false := by
  refine exists_cons_write (p := fun c => Text.isBlank c = false) rfl
    (fun sign => by cases sign <;> rfl) ?_ s
  intro a
  obtain ⟨c, cs, ha, hc⟩ := a.exists_cons_text
  exact ⟨c, cs, ha, not_isBlank_of_isWordChar hc⟩

/-- It ends with a bracket or a word character. -/
theorem exists_concat_source (s : Sentence Spaced k) :
    ∃ cs c, s.source = cs ++ [c] ∧ Text.isBlank c = false := by
  refine exists_concat_write (p := fun c => Text.isBlank c = false) rfl ?_ s
  intro a
  obtain ⟨cs, c, ha, hc⟩ := a.exists_concat_text
  exact ⟨cs, c, ha, not_isBlank_of_isWordChar hc⟩

/-- A sentence holds no number sign, among others. -/
theorem isSourceChar_of_mem_source {s : Sentence Spaced k} {c : Char} (h : c ∈ s.source) :
    isSourceChar c = true := by
  rcases mem_write h with h | ⟨a, h⟩
  · exact isSourceChar_of_isPlain h
  · exact isSourceChar_of_mem_text h

/-- **A sentence is prepared numeral by numeral and name by name.** -/
theorem prepare?_commented (lead trail : Gap Spaced) (comment : Option (List Char))
    (s : Sentence Spaced k) :
    prepare? (commented (lead ++ (s.source ++ trail)) comment) =
      some (s.write fun a => a.stripped.marked) := by
  have hchars : '#' ∉ lead.val ++ (s.source ++ trail.val) := by
    intro h
    rcases List.mem_append.1 h with h | h
    · cases isPlain_of_spaced lead.property h
    · rcases List.mem_append.1 h with h | h
      · cases isSourceChar_of_mem_source h
      · cases isPlain_of_spaced trail.property h
  have htrim : Text.trim (lead ++ (s.source ++ trail)) = s.source :=
    trim_spaced lead.property trail.property (exists_cons_source s) (exists_concat_source s)
  -- each of the four steps goes along the sentence: over plain characters, and over a numeral or name
  -- in front of a loose rest
  have hunderscore : hasLooseUnderscore false (s.source ++ []) = false :=
    @write_rel _ Atom.text Atom.text (fun r _ => hasLooseUnderscore false r = false)
      (fun c r _ hc h => (hasLooseUnderscore_cons false (not_isWordChar_of_isPlain hc) r).trans h)
      (fun a r _ hr h => (hasLooseUnderscore_atom a hr).trans h) s [] [] .nil rfl
  have hzeros : dropZeros true (s.source ++ []) = s.write (fun a => a.stripped.text) ++ [] :=
    write_rel (R := fun r r' => dropZeros true r = r')
      (fun c r _ hc h => h ▸ dropZeros_plain hc r) (fun a r _ hr h => h ▸ dropZeros_atom a hr) s .nil rfl
  have hratios : callRatios false (s.write (fun a => a.stripped.text) ++ []) =
      s.write (fun a => a.stripped.called) ++ [] :=
    write_rel (R := fun r r' => callRatios false r = r')
      (fun c r _ hc h => h ▸ callRatios_plain hc r)
      (fun a r _ hr h => h ▸ callRatios_atom a.stripped hr) s .nil
      (by rw [callRatios])
  have hwords : markWords false (s.write (fun a => a.stripped.called) ++ []) =
      s.write (fun a => a.stripped.marked) ++ [] :=
    write_rel (R := fun r r' => markWords false r = r')
      (fun c r _ hc h => h ▸ markWords_plain hc r)
      (fun a r _ hr h => h ▸ markWords_atom a.stripped hr) s .nil
      (by rw [markWords])
  -- the steps were stated with a rest behind the sentence; here there is none
  simp only [List.append_nil] at hunderscore hzeros hratios hwords
  simp only [prepare?, cutComment_commented hchars, htrim, hunderscore, hzeros, hratios, hwords]
  rfl

end Reckoner.Source
