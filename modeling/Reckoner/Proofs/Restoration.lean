/-
  What the scanner gets, and what it was made of.  A text that stands where a word can begin is
  `prepared`; behind a word character it is `carried`.  Where no word goes on the two are the same
  (`carried_of_ends`), so the steps of the preparation can be followed from one token of a text to the
  next, whatever the text is.

  Zeros that were dropped can be put back (`exists_of_dropZeros`), and a ratio that was called had its
  two parts and its colon in the text (`exists_of_ratio?`).
-/
import Reckoner.Proofs.Scanning

namespace Reckoner.Source

/-- White space: the gaps of a ratio, and of every sentence. -/
def White (g : List Char) : Prop := ∀ c ∈ g, Text.isSpace c = true

/-- No word goes on. -/
def Ends (r : List Char) : Prop := ∀ c ∈ r.head?, isWordChar c = false

/-- What the scanner gets of a text that stands where a word can begin. -/
def prepared (r : List Char) : List Char :=
  unifyLineEnds (markWords false (callRatios false (dropZeros true r)))

/-- What the scanner gets of a text behind a word character. -/
def carried (r : List Char) : List Char :=
  unifyLineEnds (markWords true (callRatios true (dropZeros false r)))

variable {r : List Char} {c : Char}

/-! ## Behind a word

  Behind a word character all three steps copy the next character, whatever it is.  So the first
  character of a text is seen through them, and if it is no word character the steps go on as where a
  word can begin. -/

/-- Each of the three steps keeps the first character. -/
theorem head?_dropZeros (r : List Char) : (dropZeros false r).head? = r.head? := by
  cases r with
  | nil => rfl
  | cons c r => simp [dropZeros]

theorem head?_callRatios (r : List Char) : (callRatios true r).head? = r.head? := by
  cases r with
  | nil => rw [callRatios]
  | cons c r => rw [callRatios_afterWord, List.head?_cons, List.head?_cons]

theorem head?_markWords (r : List Char) : (markWords true r).head? = r.head? := by
  cases r with
  | nil => rw [markWords]
  | cons c r => rw [markWords_afterWord, List.head?_cons, List.head?_cons]

/-- Where no word goes on, each of the steps does the same in both of its modes. -/
theorem dropZeros_of_ends (h : Ends r) : dropZeros false r = dropZeros true r := by
  cases r with
  | nil => rfl
  | cons c r =>
    have hzero : c ≠ '0' := by
      rintro rfl
      exact absurd (h '0' rfl) (by decide)
    simp [dropZeros, hzero]

theorem callRatios_of_ends (h : Ends r) : callRatios true r = callRatios false r := by
  cases r with
  | nil => rw [callRatios, callRatios]
  | cons c r =>
    have hdigit : ∀ d ∈ (c :: r).head?, d.isDigit = false :=
      fun d hd => not_isDigit_of_not_isWordChar (h d hd)
    rw [callRatios_afterWord, callRatios_none (ratio?_of_not_isDigit hdigit)]

theorem markWords_of_ends (h : Ends r) : markWords true r = markWords false r := by
  cases r with
  | nil => rw [markWords, markWords]
  | cons c r => rw [markWords_afterWord, markWords_notAlpha (not_isAlpha_of_not_isWordChar (h c rfl))]

/-- So does the search for loose underscores. -/
theorem hasLooseUnderscore_of_ends (h : Ends r) :
    hasLooseUnderscore true r = hasLooseUnderscore false r := by
  cases r with
  | nil => rfl
  | cons c r => rw [hasLooseUnderscore_cons true (h c rfl), hasLooseUnderscore_cons false (h c rfl)]

/-- Where no word goes on it does not matter what was before. -/
theorem carried_of_ends (h : Ends r) : carried r = prepared r := by
  have hzeros : Ends (dropZeros false r) := by rwa [Ends, head?_dropZeros]
  have hratios : Ends (callRatios true (dropZeros false r)) := by rwa [Ends, head?_callRatios]
  rw [carried, markWords_of_ends hratios, callRatios_of_ends hzeros, dropZeros_of_ends h, prepared]

/-- Only carriage returns are changed when line ends are unified. -/
theorem unifyLineEnds_cons (hc : c ≠ '\r') (r : List Char) :
    unifyLineEnds (c :: r) = c :: unifyLineEnds r := by
  rw [unifyLineEnds]
  · rintro _ rfl
    exact absurd rfl hc
  · rintro rfl
    exact absurd rfl hc

/-- A text without them is left as it is. -/
theorem unifyLineEnds_append {w : List Char} (hw : '\r' ∉ w) (r : List Char) :
    unifyLineEnds (w ++ r) = w ++ unifyLineEnds r := by
  induction w with
  | nil => rfl
  | cons c w ih =>
    have hc : c ≠ '\r' := fun h => hw (h ▸ List.mem_cons_self)
    rw [List.cons_append, unifyLineEnds_cons hc, ih fun h => hw (List.mem_cons_of_mem c h),
      List.cons_append]

/-- The first character is left, or is a line end. -/
theorem head?_unifyLineEnds (r : List Char) :
    ∀ c ∈ (unifyLineEnds r).head?, c = '\n' ∨ r.head? = some c := by
  fun_cases unifyLineEnds r with
  | case1 => exact fun _ h => nomatch h
  | case2 r => exact fun c hc => Or.inl (Option.some.inj hc).symm
  | case3 r => exact fun c hc => Or.inl (Option.some.inj hc).symm
  | case4 c r => exact fun d hd => Or.inr hd

/-- The same of all steps together. -/
theorem head?_carried (r : List Char) : ∀ c ∈ (carried r).head?, c = '\n' ∨ r.head? = some c := by
  intro c hc
  rcases head?_unifyLineEnds _ c hc with h | h
  · exact Or.inl h
  · rw [head?_markWords, head?_callRatios, head?_dropZeros] at h
    exact Or.inr h

/-- What holds of the first character, and of a line end, holds of the first that the scanner gets. -/
theorem head_carried {p : Char → Prop} (hline : p '\n') (h : ∀ c ∈ r.head?, p c) :
    ∀ c ∈ (carried r).head?, p c := by
  intro c hc
  rcases head?_carried r c hc with rfl | hc
  · exact hline
  · exact h c hc

/-- Any character but a carriage return is what the scanner gets, behind a word. -/
theorem carried_cons (hc : c ≠ '\r') (r : List Char) : ∃ t, carried (c :: r) = c :: t := by
  have hhead : (markWords true (callRatios true (dropZeros false (c :: r)))).head? = some c := by
    rw [head?_markWords, head?_callRatios, head?_dropZeros, List.head?_cons]
  obtain ⟨t, ht⟩ := List.head?_eq_some_iff.1 hhead
  exact ⟨unifyLineEnds t, by rw [carried, ht, unifyLineEnds_cons hc]⟩

/-! ## Where a word can begin

  Here a character that belongs to no word is copied as well, a point apart, behind which zeros stay.
  What is put in by a call or a mark begins with an underscore.  So a line end that the scanner gets was
  one in the text. -/

/-- The preparation before line ends are unified copies what belongs to no word. -/
theorem markWords_cons (hc : isWordChar c = false) (hpoint : c ≠ '.') (r : List Char) :
    markWords false (callRatios false (dropZeros true (c :: r))) =
      c :: markWords false (callRatios false (dropZeros true r)) := by
  have hdigit : ∀ t : List Char, ∀ d ∈ (c :: t).head?, d.isDigit = false := by
    rintro t d ⟨⟩
    exact not_isDigit_of_not_isWordChar hc
  rw [dropZeros_cons true hc hpoint, callRatios_none (ratio?_of_not_isDigit (hdigit _)), hc,
    markWords_notAlpha (not_isAlpha_of_not_isWordChar hc), hc]

/-- Nothing comes of nothing. -/
theorem prepared_nil : prepared [] = [] := by
  rw [prepared, dropZeros, callRatios, markWords, unifyLineEnds]

/-- What belongs to no word, is no point and no carriage return is copied. -/
theorem prepared_cons (hc : isWordChar c = false) (hpoint : c ≠ '.') (hreturn : c ≠ '\r')
    (r : List Char) :
    prepared (c :: r) = c :: prepared r := by
  rw [prepared, markWords_cons hc hpoint, unifyLineEnds_cons hreturn, prepared]

/-- Where zeros are dropped a digit is left. -/
theorem head?_dropZeros_edge (edge : Bool) (r : List Char) :
    ∀ c ∈ (dropZeros edge r).head?, isWordChar c = true ∨ r.head? = some c := by
  fun_induction dropZeros edge r with
  | case1 edge => exact fun _ h => nomatch h
  | case2 edge c r hzero ih =>
    intro d hd
    rcases ih d hd with hd | hd
    · exact Or.inl hd
    · -- what follows a dropped zero is a digit
      obtain ⟨_, hstart⟩ := (Bool.and_eq_true _ _).mp hzero
      rw [startsDigit, hd] at hstart
      exact Or.inl (isWordChar_of_isDigit hstart)
  | case3 edge c r hzero ih => exact fun d hd => Or.inr hd

/-- Calls and marks begin with an underscore. -/
theorem head?_callRatios_false (r : List Char) :
    ∀ c ∈ (callRatios false r).head?, c = '_' ∨ r.head? = some c := by
  cases r with
  | nil =>
    rw [callRatios]
    rintro _ ⟨⟩
  | cons c r =>
    intro d hd
    cases h : ratio? (c :: r) with
    | none =>
      rw [callRatios_none h] at hd
      exact Or.inr hd
    | some p =>
      -- the name of the call
      rw [callRatios_some h] at hd
      exact Or.inl (Option.some.inj hd).symm

/-- A word keeps its first letter, or gets a mark in front. -/
theorem head?_markWords_false (r : List Char) :
    ∀ c ∈ (markWords false r).head?, c = '_' ∨ r.head? = some c := by
  cases r with
  | nil =>
    rw [markWords]
    rintro _ ⟨⟩
  | cons c r =>
    intro d hd
    cases h : c.isAlpha with
    | false =>
      rw [markWords_notAlpha h] at hd
      exact Or.inr hd
    | true =>
      rw [markWords, h] at hd
      simp only [Bool.not_false, Bool.true_and, if_true] at hd
      split at hd
      · exact Or.inr hd
      · unfold markWord at hd
        split at hd
        · exact Or.inl (Option.some.inj hd).symm
        · exact Or.inr hd

/-- The first character before line ends are unified is that of the text, or belongs to a word. -/
theorem head?_markWords_prepared (r : List Char) :
    ∀ c ∈ (markWords false (callRatios false (dropZeros true r))).head?, isWordChar c = true ∨
      r.head? = some c := by
  intro c hc
  rcases head?_markWords_false _ c hc with rfl | h
  · exact Or.inl rfl
  · rcases head?_callRatios_false _ c h with rfl | h
    · exact Or.inl rfl
    · exact head?_dropZeros_edge true r c h

/-- A line end of the text is one line feed for the scanner. -/
theorem exists_of_lineEnd (hc : c = '\n' ∨ c = '\r') (r : List Char) :
    ∃ e r', c :: r = e ++ r' ∧ (e = [c] ∨ e = [c, '\n']) ∧ prepared (c :: r) = '\n' :: prepared r' := by
  rcases hc with rfl | rfl
  · exact ⟨['\n'], r, rfl, Or.inl rfl, prepared_cons rfl (by decide) (by decide) r⟩
  · -- a carriage return, with a line feed behind it or without one
    have hreturn : markWords false (callRatios false (dropZeros true ('\r' :: r))) =
        '\r' :: markWords false (callRatios false (dropZeros true r)) := markWords_cons rfl (by decide) r
    by_cases hr : r.head? = some '\n'
    · obtain ⟨r', rfl⟩ := List.head?_eq_some_iff.1 hr
      refine ⟨['\r', '\n'], r', rfl, Or.inr rfl, ?_⟩
      rw [prepared, hreturn, markWords_cons rfl (by decide), unifyLineEnds, prepared]
    · refine ⟨['\r'], r, rfl, Or.inl rfl, ?_⟩
      rw [prepared, hreturn, unifyLineEnds, prepared]
      -- what follows the carriage return is no line feed for the scanner either
      intro t ht
      rcases head?_markWords_prepared r '\n' (by rw [ht]; rfl) with h | h
      · cases h
      · exact hr h

/-- A line feed that the scanner gets was a line end. -/
theorem exists_of_prepared_lineEnd {p : List Char} (h : prepared r = '\n' :: p) :
    ∃ c r', r = c :: r' ∧ (c = '\n' ∨ c = '\r') := by
  -- before line ends were unified there was a line end
  have hhead : ∀ q : List Char, (unifyLineEnds q).head? = some '\n' →
      q.head? = some '\n' ∨ q.head? = some '\r' := by
    intro q hq
    fun_cases unifyLineEnds q with
    | case1 => cases hq
    | case2 r => exact Or.inr rfl
    | case3 r => exact Or.inr rfl
    | case4 c r _ _ =>
      rw [unifyLineEnds] at hq
      · exact Or.inl hq
      · assumption
      · assumption
  -- and it was not put in, since it belongs to no word
  have hline : r.head? = some '\n' ∨ r.head? = some '\r' := by
    rcases hhead _ (by rw [← prepared, h]; rfl) with hq | hq
    · rcases head?_markWords_prepared r _ hq with hword | hr
      · cases hword
      · exact Or.inl hr
    · rcases head?_markWords_prepared r _ hq with hword | hr
      · cases hword
      · exact Or.inr hr
  rcases hline with hline | hline
  · obtain ⟨r', rfl⟩ := List.head?_eq_some_iff.1 hline
    exact ⟨_, r', rfl, Or.inl rfl⟩
  · obtain ⟨r', rfl⟩ := List.head?_eq_some_iff.1 hline
    exact ⟨_, r', rfl, Or.inr rfl⟩

/-! ## Zeros that were dropped

  The digits that are left are those of the text behind some zeros.  Read backwards: from the front of
  what is left the front of the text is told, up to zeros, and the rest of the one comes from the rest
  of the other. -/

/-- In front of the first character that is left only zeros were dropped, and only at the edge of a
    numeral. -/
theorem exists_of_dropZeros {edge : Bool} {v : List Char} (h : dropZeros edge r = c :: v) :
    ∃ zs r', r = zs ++ c :: r' ∧ (∀ z ∈ zs, z = '0') ∧ (zs = [] ∨ edge = true ∧ c.isDigit = true) ∧
      dropZeros (!isWordChar c && c ≠ '.') r' = v := by
  fun_induction dropZeros edge r with
  | case1 edge => cases h
  | case2 edge d r hzero ih =>
    -- one more zero in front of those that follow
    obtain ⟨hedge, hstart⟩ := (Bool.and_eq_true _ _).mp hzero
    obtain ⟨hedge, hd⟩ := (Bool.and_eq_true _ _).mp hedge
    obtain ⟨zs, r', rfl, hzs, hdigit, hv⟩ := ih h
    refine ⟨d :: zs, r', rfl, List.forall_mem_cons.2 ⟨of_decide_eq_true hd, hzs⟩, Or.inr ⟨hedge, ?_⟩, hv⟩
    rcases hdigit with rfl | ⟨_, hdigit⟩
    · exact hstart
    · exact hdigit
  | case3 edge d r hzero ih =>
    obtain ⟨rfl, hv⟩ := List.cons.inj h
    exact ⟨[], r, rfl, List.forall_mem_nil _, Or.inl rfl, hv⟩

/-- Behind a word character a word is left as it was. -/
theorem exists_of_dropZeros_word {w v : List Char} (hw : ∀ c ∈ w, isWordChar c = true)
    (h : dropZeros false r = w ++ v) : ∃ r', r = w ++ r' ∧ dropZeros false r' = v := by
  induction w generalizing r with
  | nil => exact ⟨r, rfl, h⟩
  | cons c w ih =>
    obtain ⟨zs, r', rfl, _, hzs, hrest⟩ := exists_of_dropZeros h
    rcases hzs with rfl | ⟨hedge, _⟩
    · rw [hw c List.mem_cons_self] at hrest
      obtain ⟨r'', rfl, hr⟩ := ih (fun d hd => hw d (List.mem_cons_of_mem c hd)) hrest
      exact ⟨r'', rfl, hr⟩
    · cases hedge

/-- A run of digits may have had zeros in front. -/
theorem exists_of_dropZeros_digits (ds : Digits) {v : List Char} (hv : ∀ c ∈ v.head?, c.isDigit = false)
    (h : dropZeros true r = ds ++ v) :
    ∃ (ds' : Digits) (r' : List Char), r = ds' ++ r' ∧ ds = ds'.stripped ∧ dropZeros false r' = v := by
  obtain ⟨d, cs, hcons, hd⟩ := ds.exists_cons
  have hword : ∀ c ∈ cs, isWordChar c = true := fun c hc =>
    isWordChar_of_mem_digits ds c (by rw [hcons]; exact List.mem_cons_of_mem d hc)
  have hfront : dropZeros true r = d :: (cs ++ v) := by rw [h, hcons, List.cons_append]
  obtain ⟨zs, r₁, rfl, hzs, _, hrest⟩ := exists_of_dropZeros hfront
  rw [isWordChar_of_isDigit hd] at hrest
  obtain ⟨r', rfl, hr⟩ := exists_of_dropZeros_word hword hrest
  -- the zeros and the digits behind them are a numeral of the text
  have hdigits : ∀ c ∈ zs ++ ds.val, c.isDigit = true := by
    intro c hc
    rcases List.mem_append.1 hc with hc | hc
    · rw [hzs c hc]
      rfl
    · exact ds.property.2 c hc
  have hne : zs ++ ds.val ≠ [] := by
    rw [hcons]
    simp
  have hsource : zs ++ d :: (cs ++ r') = (zs ++ ds.val) ++ r' := by
    rw [hcons, List.append_assoc, List.cons_append]
  refine ⟨⟨zs ++ ds.val, hne, hdigits⟩, r', hsource, ?_, hr⟩
  -- dropping the zeros again gives the same digits
  rw [hsource, dropZeros_digits hne hdigits (by rwa [← head?_dropZeros, hr]), hr] at h
  exact Subtype.ext (List.append_cancel_right h).symm

/-- What belongs to no numeral is left as it was. -/
theorem exists_of_dropZeros_run {edge : Bool} {w v : List Char} (hne : w ≠ [])
    (hw : ∀ c ∈ w, isWordChar c = false ∧ c ≠ '.') (h : dropZeros edge r = w ++ v) :
    ∃ r', r = w ++ r' ∧ dropZeros true r' = v := by
  induction w generalizing r edge with
  | nil => exact absurd rfl hne
  | cons c w ih =>
    obtain ⟨hc, hpoint⟩ := hw c List.mem_cons_self
    obtain ⟨zs, r', rfl, _, hzs, hrest⟩ := exists_of_dropZeros h
    rw [hc, decide_eq_true hpoint] at hrest
    -- no zeros were in front, as no digit follows
    have hzs : zs = [] := by
      rcases hzs with hzs | ⟨_, hdigit⟩
      · exact hzs
      · rw [not_isDigit_of_not_isWordChar hc] at hdigit
        cases hdigit
    subst hzs
    cases w with
    | nil => exact ⟨r', rfl, hrest⟩
    | cons d w =>
      obtain ⟨r'', rfl, hr⟩ :=
        ih (List.cons_ne_nil d w) (fun e he => hw e (List.mem_cons_of_mem c he)) hrest
      exact ⟨r'', rfl, hr⟩

/-! ## Ratios that were called

  A ratio is looked for when the zeros have been dropped already.  Its parts are found in the text with
  the zeros put back; what stands between them holds no digits and is as it was. -/

/-- A sign that is split off was there. -/
theorem exists_of_splitSign (cs : List Char) :
    ∃ sign : Option Sign, (splitSign cs).1 = Sign.text sign ∧
      cs = Sign.text sign ++ (splitSign cs).2 := by
  unfold splitSign
  split
  · exact ⟨some .plus, rfl, rfl⟩
  · exact ⟨some .minus, rfl, rfl⟩
  · exact ⟨none, rfl, rfl⟩

/-- A ratio is two runs of digits and a colon between them. -/
theorem exists_of_ratio? {cs num den rest : List Char} (h : ratio? cs = some (num, den, rest)) :
    ∃ (n d : Digits) (before after : Gap White) (sign : Option Sign), num = n ∧
      den = Sign.text sign ++ d ∧
      cs = n ++ (before ++ ':' :: (after ++ (Sign.text sign ++ (d ++ rest)))) ∧ Ends rest := by
  unfold ratio? at h
  simp only at h
  split at h
  · rename_i behind hcolon
    split at h
    · cases h
    · rename_i hparts
      -- both parts have digits, and no word goes on behind the second
      have hparts : ((¬ cs.takeWhile Char.isDigit = []) ∧
          ¬ (splitSign (behind.dropWhile Text.isSpace)).2.takeWhile Char.isDigit = []) ∧
          startsWordChar ((splitSign (behind.dropWhile Text.isSpace)).2.dropWhile Char.isDigit) =
            false := by
        simpa using hparts
      obtain ⟨⟨hnum, hden⟩, hrest⟩ := hparts
      have hdigits : ∀ l : List Char, ∀ d ∈ l.takeWhile Char.isDigit, d.isDigit = true :=
        fun _ => List.all_eq_true.1 List.all_takeWhile
      have hspaces : ∀ l : List Char, White (l.takeWhile Text.isSpace) :=
        fun _ => List.all_eq_true.1 List.all_takeWhile
      obtain ⟨sign, hsign, hsplit⟩ := exists_of_splitSign (behind.dropWhile Text.isSpace)
      cases h
      refine ⟨⟨_, hnum, hdigits _⟩, ⟨_, hden, hdigits _⟩, ⟨_, hspaces (cs.dropWhile Char.isDigit)⟩,
        ⟨_, hspaces behind⟩, sign, rfl, by rw [hsign], ?_, ?_⟩
      · -- the pieces together are the text again
        rw [List.takeWhile_append_dropWhile, ← hsplit, List.takeWhile_append_dropWhile, ← hcolon,
          List.takeWhile_append_dropWhile, List.takeWhile_append_dropWhile]
      · intro c hc
        rw [startsWordChar, hc] at hrest
        exact hrest
  · cases h

/-- White space belongs to no word. -/
theorem isWordChar_of_isSpace (h : Text.isSpace c = true) : isWordChar c = false ∧ c ≠ '.' := by
  have h : (((c = '\t' ∨ c = '\n') ∨ c = '\x0c') ∨ c = '\r') ∨ c = ' ' := by simpa [Text.isSpace] using h
  rcases h with (((rfl | rfl) | rfl) | rfl) | rfl <;> decide

/-- **A ratio and its source.**  The ratio that is called at the front of a text stands there, with
    zeros in front of its parts perhaps. -/
theorem exists_of_ratio?_dropZeros {num den rest : List Char}
    (h : ratio? (dropZeros true r) = some (num, den, rest)) :
    ∃ (n d : Digits) (before after : Gap White) (sign : Option Sign) (r' : List Char),
      num = n.stripped ∧ den = Sign.text sign ++ d.stripped ∧ rest = dropZeros true r' ∧
      r = (Numeral.ratio n before after sign d).text ++ r' ∧ Ends r' := by
  obtain ⟨n, d, before, after, sign, rfl, rfl, hcs, hends⟩ := exists_of_ratio? h
  -- the gaps, the colon and the sign form one run, which is not touched
  have hrun : ∀ c ∈ before.val ++ ':' :: (after.val ++ Sign.text sign), isWordChar c = false ∧
      c ≠ '.' := by
    intro c hc
    simp only [List.mem_append, List.mem_cons] at hc
    rcases hc with hc | rfl | hc | hc
    · exact isWordChar_of_isSpace (before.property c hc)
    · decide
    · exact isWordChar_of_isSpace (after.property c hc)
    · refine ⟨not_isWordChar_of_isPlain (isPlain_of_mem_sign hc), ?_⟩
      rintro rfl
      cases isPlain_of_mem_sign hc
  have hcs : dropZeros true r =
      n.val ++ ((before.val ++ ':' :: (after.val ++ Sign.text sign)) ++ (d.val ++ rest)) := by
    simpa only [List.append_assoc, List.cons_append] using hcs
  have hcolon : ∀ c ∈ ((before.val ++ ':' :: (after.val ++ Sign.text sign)) ++ (d.val ++ rest)).head?,
      c.isDigit = false := by
    intro c hc
    cases hw : before.val ++ ':' :: (after.val ++ Sign.text sign) with
    | nil => simp at hw
    | cons e w =>
      rw [hw] at hc hrun
      cases hc
      exact not_isDigit_of_not_isWordChar (hrun c List.mem_cons_self).1
  -- one piece after the other is traced: the first part, the run, the second part
  obtain ⟨n', r₁, rfl, hn, hrest⟩ := exists_of_dropZeros_digits n hcolon hcs
  obtain ⟨r₂, rfl, hrest₂⟩ := exists_of_dropZeros_run (by simp) hrun hrest
  obtain ⟨d', r', rfl, hd, hrest'⟩ := exists_of_dropZeros_digits d
    (fun c hc => not_isDigit_of_not_isWordChar (hends c hc)) hrest₂
  have hends' : Ends r' := by rwa [Ends, ← head?_dropZeros, hrest']
  refine ⟨n', d', before, after, sign, r', by rw [hn], by rw [hd], ?_, ?_, hends'⟩
  · rw [← hrest', dropZeros_of_ends hends']
  · simp only [Numeral.text, List.append_assoc, List.cons_append]

/-! ## The front of a text

  With this the front of any text is known: whatever character it begins with, there is a piece of it
  that the preparation has changed in a known way, and a rest that is prepared, or carried, on its
  own. -/

/-- No word has a carriage return in it. -/
theorem return_not_mem {w : List Char} (hw : ∀ c ∈ w, isWordChar c = true) : '\r' ∉ w := by
  intro h
  cases hw _ h

/-- A marked word is a word. -/
theorem isWordChar_of_mem_markWord (x : Name) : ∀ c ∈ markWord x.val, isWordChar c = true := by
  intro c hc
  rcases mem_markWord hc with hc | hc
  · have hall : wordMark.all isWordChar = true := by decide
    exact List.all_eq_true.1 hall c hc
  · exact isWordChar_of_mem_name x c hc

/-- A name is marked if it is reserved, unless a digit follows. -/
theorem prepared_name (x : Name) (hr : ∀ c ∈ r.head?, isNameChar c = false) :
    prepared (x.val ++ r) = (if startsDigit r then x.val else markWord x) ++ carried r := by
  obtain ⟨c, cs, hx, hc, hcs⟩ := x.exists_cons
  -- the letter in front makes it a word for all that follows
  have hzeros : dropZeros true (x.val ++ r) = x.val ++ dropZeros false r := by
    have hzero : c ≠ '0' := by
      rintro rfl
      cases hc
    rw [hx, List.cons_append, dropZeros, if_neg (by simp [hzero]), isWordChar_of_isAlpha hc]
    exact congrArg (c :: ·) (dropZeros_word (fun d hd => isWordChar_of_isNameChar (hcs d hd)) r)
  have hnone : ratio? (x.val ++ dropZeros false r) = none := by
    refine ratio?_of_not_isDigit ?_
    rw [hx]
    rintro d ⟨⟩
    exact not_isDigit_of_isAlpha hc
  -- the characters behind the name are still there, so the name ends where it did
  have hhead : (callRatios true (dropZeros false r)).head? = r.head? := by
    rw [head?_callRatios, head?_dropZeros]
  have hstop : ∀ d ∈ (callRatios true (dropZeros false r)).head?, isNameChar d = false := by rwa [hhead]
  have hdigit : startsDigit (callRatios true (dropZeros false r)) = startsDigit r := by
    rw [startsDigit, hhead, startsDigit]
  have hwords : markWords false (x.val ++ callRatios true (dropZeros false r)) =
      (if startsDigit r then x.val else markWord x) ++
        markWords true (callRatios true (dropZeros false r)) := by
    rw [hx, List.cons_append, markWords, hc]
    simp only [Bool.not_false, Bool.true_and, if_true, takeWhile_run hcs hstop,
      dropWhile_run hcs hstop, hdigit]
  rw [prepared, hzeros, callRatios_run (isWordChar_of_mem_name x) x.ne_nil hnone, hwords,
    unifyLineEnds_append, carried]
  split
  · exact return_not_mem (isWordChar_of_mem_name x)
  · exact return_not_mem (isWordChar_of_mem_markWord x)

/-- Digits that are no ratio lose the zeros in front. -/
theorem prepared_digits (ds : Digits) (hr : ∀ c ∈ r.head?, c.isDigit = false)
    (hnone : ratio? (dropZeros true (ds.val ++ r)) = none) :
    prepared (ds.val ++ r) = ds.stripped.val ++ carried r := by
  have hzeros : dropZeros true (ds.val ++ r) = ds.stripped.val ++ dropZeros false r :=
    dropZeros_digits ds.property.1 ds.property.2 hr
  have hword := isWordChar_of_mem_digits ds.stripped
  rw [hzeros] at hnone
  rw [prepared, hzeros, callRatios_run hword ds.stripped.property.1 hnone, markWords_digits,
    unifyLineEnds_append (return_not_mem hword), carried]

/-- A ratio is called, without the zeros in front of its parts. -/
theorem prepared_ratio {n d : Digits} {before after : Gap White} {sign : Option Sign} (hr : Ends r)
    (h : ratio? (dropZeros true ((Numeral.ratio n before after sign d).text ++ r)) =
      some (n.stripped.val, Sign.text sign ++ d.stripped.val, dropZeros true r)) :
    prepared ((Numeral.ratio n before after sign d).text ++ r) =
      (Numeral.ratio n before after sign d).stripped.called ++ prepared r := by
  have hends : Ends (dropZeros true r) := by rwa [← dropZeros_of_ends hr, Ends, head?_dropZeros]
  have hcall : callRatios false (dropZeros true ((Numeral.ratio n before after sign d).text ++ r)) =
      (Numeral.ratio n before after sign d).stripped.called ++ callRatios false (dropZeros true r) := by
    rw [callRatios_some h, callRatios_of_ends hends]
    rfl
  -- no part of the call is a line end
  have hreturn : '\r' ∉ (Numeral.ratio n before after sign d).stripped.called := by
    intro hmem
    have hmem : '\r' ∈ "__ratio__(".toList ++ n.stripped.val ++ ", ".toList ++
        (Sign.text sign ++ d.stripped.val) ++
        ")".toList := hmem
    simp only [List.mem_append] at hmem
    rcases hmem with (((hmem | hmem) | hmem) | hmem | hmem) | hmem
    · exact absurd hmem (by decide)
    · exact return_not_mem (isWordChar_of_mem_digits _) hmem
    · exact absurd hmem (by decide)
    · cases isPlain_of_mem_sign hmem
    · exact return_not_mem (isWordChar_of_mem_digits _) hmem
    · exact absurd hmem (by decide)
  have hwords :=
    markWords_called n.stripped d.stripped before after sign (callRatios false (dropZeros true r))
  rw [prepared, hcall]
  exact (congrArg unifyLineEnds hwords).trans (unifyLineEnds_append hreturn _)

/-- What stands at the front of a text, and what the scanner gets of it. -/
inductive Front : List Char → List Char → Prop
  | other {c : Char} (hc : isWordChar c = false) (hpoint : c ≠ '.') (r : List Char) :
      Front (c :: r) (c :: prepared r)
  | point (r t : List Char) : Front ('.' :: r) ('.' :: t)
  | name (x : Name) {r : List Char} (hr : ∀ c ∈ r.head?, isNameChar c = false) :
      Front (x.val ++ r) ((if startsDigit r then x.val else markWord x) ++ carried r)
  | digits (ds : Digits) {r : List Char} (hr : ∀ c ∈ r.head?, c.isDigit = false) :
      Front (ds.val ++ r) (ds.stripped.val ++ carried r)
  | ratio (n d : Digits) (before after : Gap White) (sign : Option Sign) {r : List Char} (hr : Ends r) :
      Front ((Numeral.ratio n before after sign d).text ++ r)
        ((Numeral.ratio n before after sign d).stripped.called ++ prepared r)

/-- **The front of a text.**  Where a word can begin there is a name, a numeral, a ratio, a point or a
    character that the preparation does not touch. -/
theorem front_prepared (hloose : hasLooseUnderscore false (c :: r) = false) (hreturn : c ≠ '\r') :
    Front (c :: r) (prepared (c :: r)) := by
  by_cases hdigit : c.isDigit = true
  · -- the whole run of digits, and whether a ratio begins there
    have hds : ∀ d ∈ c :: r.takeWhile Char.isDigit, d.isDigit = true :=
      List.forall_mem_cons.2 ⟨hdigit, List.all_eq_true.1 List.all_takeWhile⟩
    have hcons : c :: r = c :: r.takeWhile Char.isDigit ++ r.dropWhile Char.isDigit := by
      rw [List.cons_append, List.takeWhile_append_dropWhile]
    cases hratio : ratio? (dropZeros true (c :: r)) with
    | none =>
      have hstop := head_dropWhile Char.isDigit r
      have hfront := Front.digits ⟨_, List.cons_ne_nil _ _, hds⟩ hstop
      rw [hcons] at hratio ⊢
      rwa [prepared_digits ⟨_, List.cons_ne_nil _ _, hds⟩ hstop hratio]
    | some p =>
      obtain ⟨num, den, rest⟩ := p
      obtain ⟨n, d, before, after, sign, r', rfl, rfl, rfl, hsource, hends⟩ :=
        exists_of_ratio?_dropZeros hratio
      rw [hsource] at hratio ⊢
      rw [prepared_ratio hends hratio]
      exact .ratio n d before after sign hends
  · by_cases halpha : c.isAlpha = true
    · -- a letter: the name is as long as it can be
      have hname : isName (c :: r.takeWhile isNameChar) = true :=
        (Bool.and_eq_true _ _).mpr ⟨halpha, List.all_takeWhile⟩
      have hcons : c :: r = c :: r.takeWhile isNameChar ++ r.dropWhile isNameChar := by
        rw [List.cons_append, List.takeWhile_append_dropWhile]
      have hstop := head_dropWhile isNameChar r
      rw [hcons, prepared_name ⟨_, hname⟩ hstop]
      exact .name ⟨_, hname⟩ hstop
    · -- an underscore would be loose
      have hunderscore : c ≠ '_' := by
        rintro rfl
        cases hloose
      have hword : isWordChar c = false := by
        simp [isWordChar, Char.isAlphanum, hdigit, halpha, hunderscore]
      by_cases hpoint : c = '.'
      · -- a point is copied, and what comes of the rest does not matter
        subst hpoint
        obtain ⟨t, ht⟩ := carried_cons (c := '.') (by decide) r
        rw [carried_of_ends (by rintro d ⟨⟩; rfl)] at ht
        rw [ht]
        exact .point r t
      · rw [prepared_cons hword hpoint hreturn]
        exact .other hword hpoint r

/-! ## Behind a point

  The digits behind a point are no numeral of their own for the first step, but the other two begin
  afresh there. -/

/-- What the scanner gets of a text behind a point. -/
def pointed (r : List Char) : List Char :=
  unifyLineEnds (markWords false (callRatios false (dropZeros false r)))

/-- A point behind a word is copied, and what follows it is behind no word any more, though no numeral
    begins there. -/
theorem carried_point (r : List Char) : carried ('.' :: r) = '.' :: pointed r := by
  have hzeros : dropZeros false ('.' :: r) = '.' :: dropZeros false r := rfl
  have hword : isWordChar '.' = false := rfl
  rw [carried, hzeros, callRatios_afterWord, hword, markWords_afterWord, hword,
    unifyLineEnds_cons (by decide), pointed]

/-- The digits that the scanner gets behind a point stand there. -/
theorem exists_of_pointed (places : Digits) {rest : List Char}
    (hrest : ∀ c ∈ rest.head?, c.isDigit = false) (h : pointed r = places.val ++ rest) :
    ∃ r', r = places.val ++ r' ∧ rest = carried r' ∧ ∀ c ∈ r'.head?, c.isDigit = false := by
  obtain ⟨d, cs, hplaces, hd⟩ := places.exists_cons
  have hhead : (pointed r).head? = some d := by
    rw [h, hplaces]
    rfl
  -- the first digit is no mark and no call, so the text begins with it
  have hmarked : (markWords false (callRatios false (dropZeros false r))).head? = some d := by
    rcases head?_unifyLineEnds _ d hhead with rfl | hhead
    · cases hd
    · exact hhead
  have hcalled : (callRatios false (dropZeros false r)).head? = some d := by
    rcases head?_markWords_false _ d hmarked with rfl | hhead
    · cases hd
    · exact hhead
  have hsource : r.head? = some d := by
    rcases head?_callRatios_false _ d hcalled with rfl | hhead
    · cases hd
    · rwa [head?_dropZeros] at hhead
  have hstop := head_dropWhile Char.isDigit r
  have hds : ∀ e ∈ r.takeWhile Char.isDigit, e.isDigit = true := List.all_eq_true.1 List.all_takeWhile
  -- so there is a run of digits in the text
  have hne : r.takeWhile Char.isDigit ≠ [] := by
    obtain ⟨t, rfl⟩ := List.head?_eq_some_iff.1 hsource
    rw [List.takeWhile_cons, hd]
    exact List.cons_ne_nil _ _
  have hword : ∀ e ∈ r.takeWhile Char.isDigit, isWordChar e = true :=
    fun e he => isWordChar_of_isDigit (hds e he)
  have hzeros : dropZeros false r = r.takeWhile Char.isDigit ++
      dropZeros false (r.dropWhile Char.isDigit) := by
    rw [← dropZeros_word hword, List.takeWhile_append_dropWhile]
  -- a ratio would have been called, and have begun with an underscore
  have hnone : ratio? (dropZeros false r) = none := by
    cases hratio : ratio? (dropZeros false r) with
    | none => rfl
    | some p =>
      rw [callRatios_some hratio] at hcalled
      cases hcalled
      cases hd
  have hpointed : pointed r = r.takeWhile Char.isDigit ++ carried (r.dropWhile Char.isDigit) := by
    rw [hzeros] at hnone
    rw [pointed, hzeros, callRatios_run hword hne hnone, markWords_digits ⟨_, hne, hds⟩,
      unifyLineEnds_append (return_not_mem hword), carried]
  rw [h] at hpointed
  have hstop' : ∀ c ∈ (carried (r.dropWhile Char.isDigit)).head?, c.isDigit = false :=
    head_carried rfl hstop
  -- both sides are a run of digits and a rest that begins with none
  have htake : places.val = r.takeWhile Char.isDigit := by
    rw [← takeWhile_run places.property.2 hrest, hpointed, takeWhile_run hds hstop']
  have hdrop : rest = carried (r.dropWhile Char.isDigit) := by
    rw [← dropWhile_run places.property.2 hrest, hpointed, dropWhile_run hds hstop']
  refine ⟨r.dropWhile Char.isDigit, ?_, hdrop, hstop⟩
  rw [htake, List.takeWhile_append_dropWhile]

end Reckoner.Source
