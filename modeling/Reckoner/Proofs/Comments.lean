/-
  Comments change nothing.  A comment behind a line stays with the line for a while: the line is trimmed
  and told apart with the comment at its end, and the source of an assignment or an evaluation still has
  it.  Only when an expression is prepared for the scanner is the comment cut off and the rest trimmed
  again.

  A `Remark` is what a comment leaves at the end of a text: blanks, the number sign and whatever follows
  it.  Trimming a line with a comment leaves the trimmed line and a remark behind it (`trim_comment`); a
  remark changes neither what kind of instruction a text is, nor its name, and its source gets a remark
  at its own end (`instruction?_remark`); and with a remark behind it a source is prepared as without it
  (`readExpr_remark`).
-/
import Reckoner.Proofs.Chain

namespace Reckoner.Source

/-! ## Remarks

  Only the first character of a remark is ever looked at from outside: it is a blank or the number sign,
  so a run of other characters ends before it. -/

/-- What a comment leaves behind a text: blanks, a number sign, and a text, in one line. -/
structure Remark (tail : List Char) : Prop where
  shape : ∃ gap c, tail = gap ++ '#' :: c ∧ ∀ g ∈ gap, Text.isBlank g = true
  oneLine : '\n' ∉ tail

section Runs

variable {r : List Char} {p : Char → Bool}

/-- A run of characters ends before a text that does not go on with it. -/
theorem takeWhile_before (hr : ∀ c ∈ r.head?, p c = false) (l : List Char) :
    (l ++ r).takeWhile p = l.takeWhile p := by
  induction l with
  | nil => exact takeWhile_run (List.forall_mem_nil _) hr
  | cons c l ih => rw [List.cons_append, List.takeWhile_cons, List.takeWhile_cons, ih]

theorem dropWhile_before (hr : ∀ c ∈ r.head?, p c = false) (l : List Char) :
    (l ++ r).dropWhile p = l.dropWhile p ++ r := by
  induction l with
  | nil => exact dropWhile_run (List.forall_mem_nil _) hr
  | cons c l ih =>
    rw [List.cons_append, List.dropWhile_cons, List.dropWhile_cons, ih]
    split <;> rfl

end Runs

section Remark

variable {tail : List Char} {p : Char → Bool}

/-- A remark begins with a blank or the number sign. -/
theorem Remark.exists_cons (h : Remark tail) :
    ∃ d rest, tail = d :: rest ∧ (Text.isBlank d = true ∨ d = '#') := by
  obtain ⟨gap, c, rfl, hgap⟩ := h.shape
  cases gap with
  | nil => exact ⟨'#', c, rfl, Or.inr rfl⟩
  | cons d gap => exact ⟨d, gap ++ '#' :: c, rfl, Or.inl (hgap d List.mem_cons_self)⟩

/-- A remark begins with no character that is neither. -/
theorem Remark.ne_cons (h : Remark tail) {d : Char} (hblank : Text.isBlank d = false) (hsign : d ≠ '#')
    (rest : List Char) : tail ≠ d :: rest := by
  rintro rfl
  obtain ⟨_, _, heq, hd | hd⟩ := h.exists_cons
  · cases heq
    rw [hblank] at hd
    cases hd
  · cases heq
    exact hsign hd

/-- The characters of a name do not go on into a remark. -/
theorem Remark.head_not_name (h : Remark tail) : ∀ d ∈ tail.head?, isNameChar d = false := by
  obtain ⟨d, rest, rfl, hd⟩ := h.exists_cons
  rintro _ ⟨⟩
  cases hname : isNameChar d with
  | false => rfl
  | true =>
    rcases hd with hd | rfl
    · rw [not_isBlank_of_isWordChar (isWordChar_of_isNameChar hname)] at hd
      cases hd
    · cases hname

/-- White space in front of a remark is dropped, and a remark is left. -/
theorem Remark.dropWhile (h : Remark tail) : Remark (tail.dropWhile Text.isSpace) := by
  obtain ⟨gap, c, rfl, hgap⟩ := h.shape
  have hdrop : (gap ++ '#' :: c).dropWhile Text.isSpace = gap.dropWhile Text.isSpace ++ '#' :: c :=
    dropWhile_before (by rintro _ ⟨⟩; rfl) gap
  -- the blanks that are left are some of those that there were
  have hsub : ∀ g ∈ gap.dropWhile Text.isSpace, g ∈ gap :=
    fun g hg => (List.dropWhile_sublist _).subset hg
  refine ⟨⟨_, c, hdrop, fun g hg => hgap g (hsub g hg)⟩, fun hmem => h.oneLine ?_⟩
  exact (List.dropWhile_sublist _).subset hmem

/-- White space in front of a text with a remark: the text is left, or what is left is a remark. -/
theorem Remark.dropWhile_append (h : Remark tail) (l : List Char) :
    ∃ tail', (l ++ tail).dropWhile Text.isSpace = l.dropWhile Text.isSpace ++ tail' ∧ Remark tail' := by
  rw [List.dropWhile_append]
  split
  · -- nothing but white space in the text: more of it may be dropped from the remark
    rename_i hnil
    exact ⟨_, by rw [List.isEmpty_iff.1 hnil, List.nil_append], h.dropWhile⟩
  · exact ⟨tail, rfl, h⟩

end Remark

/-! ## Sources -/

section Sources

variable {tail : List Char}

/-- Blanks behind a text are trimmed. -/
theorem trim_append_blank {gap : List Char} (h : ∀ g ∈ gap, Text.isBlank g = true) (cs : List Char) :
    Text.trim (cs ++ gap) = Text.trim cs := by
  induction gap generalizing cs with
  | nil => rw [List.append_nil]
  | cons g gap ih =>
    obtain ⟨hg, hgap⟩ := List.forall_mem_cons.1 h
    rw [List.append_cons, ih hgap, trim_concat cs hg]

/-- With a remark behind it, a source is cut and trimmed as without it. -/
theorem trim_cutComment_remark (h : Remark tail) (src : List Char) :
    Text.trim (cutComment (src ++ tail)) = Text.trim (cutComment src) := by
  obtain ⟨gap, c, rfl, hgap⟩ := h.shape
  have hsign : ∀ d ∈ ('#' :: c).head?, decide (d ≠ '#') = false := by rintro _ ⟨⟩; rfl
  have hcut : cutComment (src ++ (gap ++ '#' :: c)) = cutComment (src ++ gap) := by
    rw [← List.append_assoc]
    exact takeWhile_before hsign (src ++ gap)
  rw [hcut, cutComment, cutComment, List.takeWhile_append]
  split
  · -- no comment in the source: the blanks of the remark are left, and trimmed
    rename_i hall
    have hsrc : src.takeWhile (· ≠ '#') = src := (List.takeWhile_prefix _).eq_of_length hall
    rw [hsrc]
    exact trim_append_blank (fun g hg => hgap g ((List.takeWhile_sublist _).subset hg)) src
  · rfl

/-- With a remark behind it a source has the same expression, or is refused for the same reason. -/
theorem readExpr_remark (h : Remark tail) (src : List Char) : readExpr (src ++ tail) = readExpr src := by
  rw [readExpr, readExpr, readPhrase, readPhrase, prepare?, prepare?, trim_cutComment_remark h]

end Sources

/-! ## Instructions

  What kind of instruction a text is depends on its first characters: three for a prompt, a name and two
  more for an assignment.  If they are not in the text a remark cannot supply them. -/

/-- An instruction, and the same with a remark at the end of its source. -/
inductive Remarked : Option (Instruction (List Char)) → Option (Instruction (List Char)) → Prop
  | none : Remarked none none
  | assign {x : String} {src tail : List Char} (h : Remark tail) :
      Remarked (some (.assign x src)) (some (.assign x (src ++ tail)))
  | evaluate {src tail : List Char} (h : Remark tail) :
      Remarked (some (.evaluate src)) (some (.evaluate (src ++ tail)))

section Instructions

variable {cs line line' tail : List Char}

/-- What stands in the place of the sign of an assignment, and behind it. -/
def afterName (cs : List Char) : List Char := (cs.dropWhile isNameChar).dropWhile Text.isSpace

/-- A text is an assignment by the sign behind its first word, or it is none. -/
theorem assignment?_of_sign {r : List Char} (h : afterName cs = ':' :: '=' :: r) :
    assignment? cs =
      if isName (cs.takeWhile isNameChar) && !(r.dropWhile Text.isSpace).contains '\n' then
        some (.assign (String.ofList (cs.takeWhile isNameChar)) (r.dropWhile Text.isSpace))
      else none := by
  rw [afterName] at h
  simp only [assignment?, h]

theorem assignment?_of_no_sign (h : ∀ r, afterName cs ≠ ':' :: '=' :: r) : assignment? cs = none := by
  unfold assignment?
  simp only
  split
  · rename_i r hr
    exact absurd hr (h r)
  · rfl

/-- Whether a text is an assignment is decided before a remark. -/
theorem assignment?_remark (h : Remark tail) (cs : List Char) :
    Remarked (assignment? cs) (assignment? (cs ++ tail)) := by
  -- the name ends before the remark, so it is the same
  have hname := takeWhile_before h.head_not_name cs
  obtain ⟨tail', hafter, h'⟩ : ∃ tail', afterName (cs ++ tail) = afterName cs ++ tail' ∧
      Remark tail' := by
    rw [afterName, dropWhile_before h.head_not_name]
    exact h.dropWhile_append _
  by_cases hsign : ∃ r, afterName cs = ':' :: '=' :: r
  · -- the sign is in the text: the source behind it gets the remark
    obtain ⟨r, hr⟩ := hsign
    obtain ⟨rest, hrest, hremark⟩ := h'.dropWhile_append r
    have hline : (r.dropWhile Text.isSpace ++ rest).contains '\n' =
        (r.dropWhile Text.isSpace).contains '\n' := by
      simp [hremark.oneLine]
    rw [hr, List.cons_append, List.cons_append] at hafter
    rw [assignment?_of_sign hr, assignment?_of_sign hafter, hname, hrest, hline]
    split
    · exact .assign hremark
    · exact .none
  · have hno : ∀ r, afterName cs ≠ ':' :: '=' :: r := fun r hr => hsign ⟨r, hr⟩
    have hno' : ∀ r, afterName (cs ++ tail) ≠ ':' :: '=' :: r := by
      intro r
      rw [hafter]
      -- of the two characters of a sign the remark would have to supply at least one
      match hcs : afterName cs with
      | [] => exact h'.ne_cons (by decide) (by decide) _
      | [a] => exact fun heq => h'.ne_cons (by decide) (by decide) r (List.cons.inj heq).2
      | a :: b :: l =>
        intro heq
        obtain ⟨rfl, hb⟩ := List.cons.inj heq
        obtain ⟨rfl, _⟩ := List.cons.inj hb
        exact hno l hcs
    rw [assignment?_of_no_sign hno, assignment?_of_no_sign hno']
    exact .none

/-- A trimmed line is an evaluation by its prompt; without one it may be an assignment. -/
theorem instruction?_of_prompt {r : List Char} (h : Text.trim line = '>' :: '>' :: '>' :: r) :
    instruction? line = some (.evaluate r) := by
  simp only [instruction?, h]

theorem instruction?_of_no_prompt (h : ∀ r, Text.trim line ≠ '>' :: '>' :: '>' :: r) :
    instruction? line = assignment? (Text.trim line) := by
  unfold instruction?
  split
  · rename_i r hr
    exact absurd hr (h r)
  · rfl

/-- With a remark behind it a trimmed line is the same instruction, and its source has the remark. -/
theorem instruction?_remark (h : Remark tail) (htrim : Text.trim line' = Text.trim line ++ tail) :
    Remarked (instruction? line) (instruction? line') := by
  by_cases hprompt : ∃ r, Text.trim line = '>' :: '>' :: '>' :: r
  · obtain ⟨r, hr⟩ := hprompt
    rw [hr, List.cons_append, List.cons_append, List.cons_append] at htrim
    rw [instruction?_of_prompt hr, instruction?_of_prompt htrim]
    exact .evaluate h
  · have hno : ∀ r, Text.trim line ≠ '>' :: '>' :: '>' :: r := fun r hr => hprompt ⟨r, hr⟩
    have hno' : ∀ r, Text.trim line' ≠ '>' :: '>' :: '>' :: r := by
      intro r
      rw [htrim]
      -- likewise for the three characters of a prompt
      match hline : Text.trim line with
      | [] => exact h.ne_cons (by decide) (by decide) _
      | [a] => exact fun heq => h.ne_cons (by decide) (by decide) _ (List.cons.inj heq).2
      | [a, b] =>
        exact fun heq => h.ne_cons (by decide) (by decide) _ (List.cons.inj (List.cons.inj heq).2).2
      | a :: b :: c :: l =>
        intro heq
        obtain ⟨rfl, hb⟩ := List.cons.inj heq
        obtain ⟨rfl, hc⟩ := List.cons.inj hb
        obtain ⟨rfl, _⟩ := List.cons.inj hc
        exact hno l hline
    rw [instruction?_of_no_prompt hno, instruction?_of_no_prompt hno', htrim]
    exact assignment?_remark h _

end Instructions

/-! ## Lines

  A line is trimmed with its comment, so blanks that stood before the number sign stay, as part of the
  remark. -/

section Lines

variable {line c : List Char}

/-- In front of the blanks behind it, a text without the blanks before it is the trimmed text. -/
theorem exists_trimFront (cs : List Char) :
    ∃ gap, Text.trimFront cs = Text.trim cs ++ gap ∧ ∀ g ∈ gap, Text.isBlank g = true := by
  refine ⟨((Text.trimFront cs).reverse.takeWhile Text.isBlank).reverse, ?_, fun g hg => ?_⟩
  · rw [Text.trim, Text.trimBack, ← List.reverse_append, List.takeWhile_append_dropWhile,
      List.reverse_reverse]
  · exact List.all_eq_true.1 List.all_takeWhile g (List.mem_reverse.1 hg)

/-- Trimming stops at the number sign, from in front and from behind. -/
theorem trim_at_sign (line c : List Char) :
    Text.trim (line ++ '#' :: c) = Text.trimFront line ++ '#' :: Text.trimBack c := by
  have hsign : ∀ r, ∀ d ∈ (('#' : Char) :: r).head?, Text.isBlank d = false := by rintro r _ ⟨⟩; rfl
  rw [Text.trim, Text.trimFront, dropWhile_before (hsign c), Text.trimBack, List.reverse_append,
    List.reverse_cons, List.append_assoc, List.singleton_append, dropWhile_before (hsign _)]
  rw [List.reverse_append, List.reverse_cons, List.reverse_reverse, List.append_assoc,
    List.singleton_append]
  rfl

/-- A line with a comment is trimmed to the trimmed line and a remark, which begins with the number sign
    if nothing is left of the line. -/
theorem trim_comment (hline : '\n' ∉ line) (hc : '\n' ∉ c) :
    ∃ tail, Text.trim (line ++ '#' :: c) = Text.trim line ++ tail ∧ Remark tail ∧
      (Text.trim line = [] → ∃ r, tail = '#' :: r) := by
  obtain ⟨gap, hfront, hgap⟩ := exists_trimFront line
  refine ⟨gap ++ '#' :: Text.trimBack c, ?_, ⟨⟨gap, _, rfl, hgap⟩, fun hmem => ?_⟩, fun hnil => ?_⟩
  · rw [trim_at_sign, hfront, List.append_assoc]
  · -- a line end in the remark would have been one of the line or of the comment
    rcases List.mem_append.1 hmem with hmem | hmem
    · have hfrontmem : '\n' ∈ Text.trimFront line := hfront ▸ List.mem_append_right _ hmem
      exact hline ((List.dropWhile_sublist _).subset hfrontmem)
    · rcases List.mem_cons.1 hmem with hsign | hmem
      · cases hsign
      · have hback := (List.dropWhile_sublist _).subset (List.mem_reverse.1 hmem)
        exact hc (List.mem_reverse.1 hback)
  · -- the first character that is left would be no blank
    cases gap with
    | nil => exact ⟨_, rfl⟩
    | cons g gap =>
      rw [hnil, List.nil_append] at hfront
      have hhead := head_dropWhile Text.isBlank line g (by rw [← Text.trimFront, hfront]; rfl)
      rw [hgap g List.mem_cons_self] at hhead
      cases hhead

/-- A line that says nothing says nothing with a comment, either. -/
theorem skippable_append_comment (hline : '\n' ∉ line) (hc : '\n' ∉ c) :
    skippable (line ++ '#' :: c) = skippable line := by
  obtain ⟨tail, htrim, _, hnil⟩ := trim_comment hline hc
  rw [skippable, skippable, htrim]
  cases hline : Text.trim line with
  | nil =>
    obtain ⟨r, rfl⟩ := hnil hline
    rfl
  | cons a l => rfl

/-- A line is read with a comment as without it. -/
theorem readLine_append_comment (hline : '\n' ∉ line) (hc : '\n' ∉ c) :
    readLine (line ++ '#' :: c) = readLine line := by
  obtain ⟨tail, htrim, hremark, _⟩ := trim_comment hline hc
  have h := instruction?_remark hremark htrim
  rw [readLine, readLine]
  -- the two instructions are compared by how they are `Remarked`, not by their texts
  revert h
  generalize instruction? line = i
  generalize instruction? (line ++ '#' :: c) = i'
  intro h
  cases h with
  | none => rfl
  | assign h => simp only [readExpr_remark h]
  | evaluate h => simp only [readExpr_remark h]

end Lines

/-! ## Documents

  Comments add no lines and take none away, so each line keeps its number; the induction is along the
  lines of both documents together. -/

/-- `Commented l l'` — the line `l'` is the line `l`, or has a comment behind it. -/
inductive Commented (l : List Char) : List Char → Prop
  | plain : Commented l l
  | comment {c : List Char} (hc : '\n' ∉ c) : Commented l (l ++ '#' :: c)

/-- `d.Annotated d'` — the document `d'` is the document `d` with comments behind some of its lines. -/
structure Document.Annotated (d d' : Document) : Prop where
  name : d'.name = d.name
  lines : List.Forall₂ Commented d.lines d'.lines

/-- Where a line stands, and what is read from it. -/
def Entry.placed (e : Entry) : String × Int × Reading := (e.file, e.line, e.read)

section Documents

variable {lines lines' : List (List Char)} {l l' : List Char}

theorem Commented.skippable (h : Commented l l') (hl : '\n' ∉ l) : skippable l' = skippable l := by
  cases h with
  | plain => rfl
  | comment hc => exact skippable_append_comment hl hc

theorem Commented.placed (h : Commented l l') (hl : '\n' ∉ l) (file : String) (n : Int) :
    (Entry.mk file n l').placed = (Entry.mk file n l).placed := by
  cases h with
  | plain => rfl
  | comment hc => rw [Entry.placed, Entry.placed, Entry.read, Entry.read, readLine_append_comment hl hc]

/-- Comments move no line and change none. -/
theorem statements_commented (h : List.Forall₂ Commented lines lines') (hlines : ∀ l ∈ lines, '\n' ∉ l)
    (file : String) (n : Nat) :
    (statements file n lines').map Entry.placed = (statements file n lines).map Entry.placed := by
  induction h generalizing n with
  | nil => rfl
  | @cons l l' rest rest' hl _ ih =>
    obtain ⟨hline, hrest⟩ := List.forall_mem_cons.1 hlines
    rw [statements_cons, statements_cons, hl.skippable hline]
    -- a line that is skipped counts all the same
    split
    · exact ih hrest (n + 1)
    · rw [List.map_cons, List.map_cons, hl.placed hline, ih hrest (n + 1)]

/-- No line has a line end in it. -/
theorem LinesOf.oneLine {cs : List Char} (h : LinesOf cs lines) : ∀ l ∈ lines, '\n' ∉ l := by
  induction h with
  | nil => exact List.forall_mem_nil _
  | last hl _ => exact List.forall_mem_singleton.2 hl
  | line hl _ ih => exact List.forall_mem_cons.2 ⟨hl, ih⟩

theorem Document.oneLine (d : Document) : ∀ l ∈ d.lines, '\n' ∉ l := by
  intro l hl hmem
  obtain ⟨raw, hraw, rfl⟩ := List.mem_map.1 hl
  refine (linesOf_splitLines d.text.toList).oneLine raw hraw ?_
  unfold dropReturn at hmem
  split at hmem
  · exact (List.dropLast_sublist raw).subset hmem
  · exact hmem

/-- The lines of one document, and those of many. -/
theorem Document.Annotated.statements {d d' : Document} (h : d.Annotated d') :
    d'.statements.map Entry.placed = d.statements.map Entry.placed := by
  rw [Document.statements, Document.statements, h.name]
  exact statements_commented h.lines d.oneLine d.name 1

theorem statements_annotated {ds ds' : List Document} (h : List.Forall₂ Document.Annotated ds ds') :
    (ds'.flatMap Document.statements).map Entry.placed =
      (ds.flatMap Document.statements).map Entry.placed := by
  induction h with
  | nil => rfl
  | cons hd _ ih =>
    rw [List.flatMap_cons, List.flatMap_cons, List.map_append, List.map_append, hd.statements, ih]

end Documents

/-- **Comments change nothing.**  With a comment behind it a line holds an instruction if and only if it
    does without, and is read as the same instruction or refused for the same reason.  Hence comments
    behind any lines of documents leave every instruction, every error and every line number as it is,
    for a run and for the calls of a chain, as long as no line is too long. -/
theorem comments_transparent :
    (∀ line c : List Char, '\n' ∉ line → '\n' ∉ c →
        skippable (line ++ '#' :: c) = skippable line ∧ readLine (line ++ '#' :: c) = readLine line) ∧
      ∀ ds ds' : List Document, List.Forall₂ Document.Annotated ds ds' → (∀ d ∈ ds, d.Fits) →
        (∀ d ∈ ds', d.Fits) →
        (ds'.flatMap Document.statements).map Entry.placed =
          (ds.flatMap Document.statements).map Entry.placed ∧
          readings ds' = readings ds ∧ ∀ n, (Chain.of ds').call n = (Chain.of ds).call n := by
  refine ⟨fun line c hline hc => ?_, fun ds ds' h hfits hfits' => ?_⟩
  · exact ⟨skippable_append_comment hline hc, readLine_append_comment hline hc⟩
  · have hplaced := statements_annotated h
    -- the readings are part of what is placed
    have hread : (ds'.flatMap Document.statements).map Entry.read =
        (ds.flatMap Document.statements).map Entry.read := by
      have hreadings := congrArg (List.map fun p => p.2.2) hplaced
      rwa [List.map_map, List.map_map] at hreadings
    refine ⟨hplaced, ?_, fun n => ?_⟩
    · rw [readings_of_fits hfits', readings_of_fits hfits, hread]
    · rw [call_of_fits hfits', call_of_fits hfits, hread]

/-- An assignment without a source, an empty line and an evaluation; and the same with comments that
    look like instructions. -/
theorem comments_transparent_margin :
    readLine "x :=\u00a0# := >>> 2".toList = readLine "x :=\u00a0".toList ∧
      ∀ n, (Chain.of [⟨"p", "x := # 1\n#\r\n>>> x"⟩]).call n =
        (Chain.of [⟨"p", "x := \n\r\n>>> x"⟩]).call n := by
  have hannotated : (Document.mk "p" "x := \n\r\n>>> x").Annotated ⟨"p", "x := # 1\n#\r\n>>> x"⟩ :=
    ⟨rfl, .cons (.comment (c := " 1".toList) (by decide))
      (.cons (.comment (c := []) (by decide)) (.cons .plain .nil))⟩
  refine ⟨?_, ?_⟩
  · exact (comments_transparent.1 "x :=\u00a0".toList " := >>> 2".toList (by decide) (by decide)).2
  · exact (comments_transparent.2 _ _ (.cons hannotated .nil) (by decide) (by decide)).2.2

end Reckoner.Source
