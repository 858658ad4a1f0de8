/-
  Conversations and documents.  A conversation answers the lines that it is handed, and goes on behind a
  line that cannot be read; the run of a document stops there.  Without such lines the two agree: they
  give the same results in the same order, and come to the same bindings.

  Of a line nothing counts but what trimming leaves (`hear_congr`), and the loop executes a line as a
  session does (`execute_eq`), so every line does to the bindings what it does in a document
  (`line_cases`).  By induction along the lines follows `tells_converse`.  What is typed reaches the
  loop through a buffer: lines that fit are handed over as they are (`inputLines_textOf`), and a longer
  one is not.
-/
import Reckoner.Proofs.Channels
import Reckoner.Proofs.Printing

namespace Reckoner

open Source

/-! ## Lines of a program

  The loop is handed lines as they are typed, a document has them split at line feeds, and each drops
  what it takes for a line end.  The two may differ by blanks at the end of a line, which trimming takes
  away. -/

namespace Source

/-- A line that holds something other than a comment, and cannot be read. -/
def isMalformed (line : List Char) : Bool := !skippable line && !(readLine line).isOk

/-- Lines without those that cannot be read. -/
def wellFormed (lines : List (List Char)) : List (List Char) := lines.filter fun l => !isMalformed l

/-- The text of lines, each of them ended. -/
def textOf (lines : List (List Char)) : String := unlines (lines.map String.ofList)

/-- A line that the loop takes for a command. -/
def isCommand (line : List Char) : Bool :=
  decide (Text.trim line = ":quit".toList) || decide (Text.trim line = ":names".toList)

/-- A line that a document can hold, and that is no command to the loop. -/
structure IsStatement (line : List Char) : Prop where
  oneLine : '\n' ∉ line
  fits : byteLength line ≤ longestLine
  statement : isCommand line = false

instance : DecidablePred IsStatement := fun line =>
  decidable_of_iff ('\n' ∉ line ∧ byteLength line ≤ longestLine ∧ isCommand line = false)
    ⟨fun h => ⟨h.1, h.2.1, h.2.2⟩, fun h => ⟨h.oneLine, h.fits, h.statement⟩⟩

/-- Why the phrase of a line has no layout. -/
def lineFault? (line : List Char) : Option LayoutFault := entryFault? (.ok ⟨"", 0, line⟩)

variable {l l' : List Char}

/-- Whether a line is passed over, is a command or holds an instruction is told by what trimming
    leaves. -/
theorem skippable_congr (h : Text.trim l' = Text.trim l) : skippable l' = skippable l := by
  simp only [skippable, h]

theorem isCommand_congr (h : Text.trim l' = Text.trim l) : isCommand l' = isCommand l := by
  simp only [isCommand, h]

theorem instruction?_congr (h : Text.trim l' = Text.trim l) : instruction? l' = instruction? l := by
  simp only [instruction?, h]

/-- A blank behind a line is trimmed. -/
theorem trim_concat (cs : List Char) {c : Char} (hc : Text.isBlank c = true) :
    Text.trim (cs ++ [c]) = Text.trim cs := by
  rw [Text.trim, Text.trim, Text.trimFront, Text.trimFront, List.dropWhile_append]
  split
  · rename_i hempty
    rw [List.isEmpty_iff.1 hempty, List.dropWhile_cons_of_pos hc, List.dropWhile_nil]
  · rw [Text.trimBack, Text.trimBack, List.reverse_append, List.reverse_singleton, List.singleton_append,
      List.dropWhile_cons_of_pos hc]

/-- So the return before a line end does not matter. -/
theorem trim_dropReturn (l : List Char) : Text.trim (dropReturn l) = Text.trim l := by
  unfold dropReturn
  split
  · rename_i hlast
    obtain ⟨front, rfl⟩ := List.getLast?_eq_some_iff.1 hlast
    rw [List.dropLast_concat, trim_concat front rfl]
  · rfl

end Source

section Hear

variable {cs : List Channel} {l l' : List Char}

/-- Of a line is heard what trimming leaves. -/
theorem hear_congr (h : Text.trim l' = Text.trim l) (file : String) (n : Int) :
    hear cs (.ok ⟨file, n, l'⟩) = hear cs (.ok ⟨file, n, l⟩) := by
  simp only [hear, hearLine, instruction?_congr h]

/-- What is heard of a line: its instruction, why it cannot be read, or why the note on it cannot be
    written. -/
theorem heard_cases (cs : List Channel) (l : List Char) :
    (∃ i, readLine l = .ok i ∧ ∀ file n, hear cs (.ok ⟨file, n, l⟩) = .ok i) ∨
      (∃ m, readLine l = .error m ∧
        ∀ file n, hear cs (.ok ⟨file, n, l⟩) = .error (.unread (.malformed file n m))) ∨
      .parsing ∈ cs ∧ ∃ f, lineFault? l = some f ∧
        ∀ file n, hear cs (.ok ⟨file, n, l⟩) = .error (.unwritable f) := by
  by_cases hclear : .parsing ∈ cs → lineFault? l = none
  · have hread : ∀ file n, hear cs (.ok ⟨file, n, l⟩) = ((Entry.mk file n l).read).mapError .unread :=
      fun file n => hear_of_clear hclear
    cases hl : readLine l with
    | ok i =>
      refine Or.inl ⟨i, rfl, fun file n => ?_⟩
      rw [hread, Entry.read, hl]
      rfl
    | error m =>
      refine Or.inr (Or.inl ⟨m, rfl, fun file n => ?_⟩)
      rw [hread, Entry.read, hl]
      rfl
  · obtain ⟨hcs, hfault⟩ := Classical.not_imp.1 hclear
    obtain ⟨f, hf⟩ := Option.ne_none_iff_exists'.1 hfault
    exact Or.inr (Or.inr ⟨hcs, f, hf, fun file n => hear_of_fault hcs hf⟩)

end Hear

/-! ## Answering a line -/

/-- How the loop answers what has come of a line. -/
def Reply.of : Except (Stop Trouble) (Option Result) → Reply
  | .ok none => silence
  | .ok (some r) => result r
  | .error (.fatal f) => fatal f
  | .error (.unread (.unread e)) => complaint e
  | .error (.unread (.unwritable f)) => broken f

namespace Shell

variable {sh : Shell} {ns : Namespace Expr} {cs : List Channel} {l : List Char}

/-- The loop executes a line as a session does. -/
theorem execute_eq (sh : Shell) (l : List Char) :
    sh.execute l =
      (Reply.of (sh.session.act Engine.fetch (.ok ⟨"<stdin>", sh.lines, l⟩)).1,
        { sh with session := (sh.session.act Engine.fetch (.ok ⟨"<stdin>", sh.lines, l⟩)).2 }) := by
  unfold execute Session.act
  simp only [Engine.fetch]
  -- a line that cannot be read, or whose note cannot be written, goes no further
  cases (sh.session.engine.readEntry ⟨"<stdin>", sh.lines, l⟩).1 with
  | error t =>
    cases t with
    | unread e => rfl
    | unwritable f => rfl
  | ok i =>
    simp only
    cases (Session.step ⟨(sh.session.engine.readEntry ⟨"<stdin>", sh.lines, l⟩).2,
      sh.session.bindings⟩ i).1 with
    | error f => rfl
    | ok r =>
      cases r with
      | none => rfl
      | some r => rfl

/-- A line that is no command is passed over if it is blank or a comment, and executed otherwise. -/
theorem feed_eq (sh : Shell) (hl : isCommand l = false) :
    sh.feed l =
      if skippable l then (.silence, { sh with lines := sh.lines + 1 })
      else execute ⟨sh.session, remember sh.history (String.ofList l), sh.lines + 1⟩ l := by
  obtain ⟨hquit, hnames⟩ := Bool.or_eq_false_iff.1 hl
  simp only [feed, if_neg (of_decide_eq_false hquit), if_neg (of_decide_eq_false hnames)]

/-- **One line.**  The loop answers a line with what comes of it for a plain program, and goes on beside
    that. -/
theorem feed_mirrors (hm : sh.session.Mirrors cs ns) (hl : isCommand l = false)
    (hskip : skippable l = false) :
    (sh.feed l).1 = Reply.of (perform ns (hear cs (.ok ⟨"<stdin>", ↑(sh.lines + 1), l⟩))).1 ∧
      (sh.feed l).2.session.Mirrors cs
        (perform ns (hear cs (.ok ⟨"<stdin>", ↑(sh.lines + 1), l⟩))).2 := by
  obtain ⟨hgiven, hnext⟩ := Session.act_mirrors hm (.ok ⟨"<stdin>", ↑(sh.lines + 1), l⟩)
  rw [feed_eq sh hl, hskip, if_neg Bool.false_ne_true, execute_eq]
  exact ⟨congrArg Reply.of hgiven, hnext⟩

/-- Notes that are handed out are of no account. -/
theorem mirrors_takeNotes (hm : sh.session.Mirrors cs ns) : sh.takeNotes.2.session.Mirrors cs ns :=
  ⟨hm.bindings, hm.channels, hm.stored⟩

end Shell

/-! ## A line on both sides

  A line that cannot be read counts for nothing in a conversation, so the run that is compared with it
  leaves such lines out.  The numbers of lines and the counts of readings differ then, and are left
  open. -/

/-- The course of a run, from the namespace `ns`, over those of `lines` that can be read. -/
def lineCourse (cs : List Channel) (name : String) (ns : Namespace Expr) (n reads : Nat)
    (lines : List (List Char)) :
    Course (Namespace Expr) Trouble :=
  Results.course id
    ((Results.mk ns ((entriesFrom name n (wellFormed lines)).map (hear cs)) reads .running).drain perform)

/-- A course begins with the result `r`, if it is one, and goes on as `c'`. -/
structure Course.Begins {τ ε : Type} (c : Course τ ε) (r : Option Result) (c' : Course τ ε) : Prop where
  results : c.results.map (·.1) = r.toList ++ c'.results.map (·.1)
  state : c.state = c'.state
  status : c.status = c'.status

/-- An answer that shows the result `r`, if it is one, and does not end the conversation. -/
structure Reply.Shows (a : Reply) (r : Option Result) : Prop where
  out : a.out = r.toList.map Result.text
  goesOn : a.exit? = none

section Line

variable {cs : List Channel} {l l' : List Char} {rest : List (List Char)} {ns ns' : Namespace Expr}

/-- Lines that cannot be read are left out, and no others. -/
theorem wellFormed_of_malformed (h : isMalformed l = true) : wellFormed (l :: rest) = wellFormed rest :=
  List.filter_cons_of_neg (by rw [h]; exact Bool.false_ne_true)

theorem wellFormed_of_not_malformed (h : isMalformed l = false) :
    wellFormed (l :: rest) = l :: wellFormed rest :=
  List.filter_cons_of_pos (by rw [h]; rfl)

/-- What is written for an instruction can be read. -/
theorem isMalformed_text {i : Instruction Expr} (hi : i.isWritable = true) :
    isMalformed i.text.toList = false := by
  rw [isMalformed, readLine_text hi]
  exact Bool.and_false _

/-- A run passes over a comment. -/
theorem lineCourse_skippable (hl : byteLength l ≤ longestLine) (hskip : skippable l = true)
    (name : String) (n reads : Nat) :
    lineCourse cs name ns n reads (l :: rest) = lineCourse cs name ns (n + 1) reads rest := by
  have hgood : isMalformed l = false := by rw [isMalformed, hskip]; rfl
  rw [lineCourse, wellFormed_of_not_malformed hgood, entriesFrom, if_neg (Nat.not_lt.2 hl), if_pos hskip,
    lineCourse]

/-- A run meets a line that can be read as it is heard. -/
theorem lineCourse_readable (hl : byteLength l ≤ longestLine) (hskip : skippable l = false)
    (hgood : isMalformed l = false) (name : String) (n reads : Nat) :
    lineCourse cs name ns n reads (l :: rest) =
      Results.course id
        ((Results.mk ns
          (hear cs (.ok ⟨name, n, l⟩) :: (entriesFrom name (n + 1) (wellFormed rest)).map (hear cs)) reads
          .running).drain perform) := by
  rw [lineCourse, wellFormed_of_not_malformed hgood, entriesFrom, if_neg (Nat.not_lt.2 hl), hskip,
    if_neg Bool.false_ne_true, List.map_cons, hear_congr (trim_dropReturn l)]

/-- An instruction that can be executed begins the course. -/
theorem begins_of_perform {i : Instruction Expr} {r : Option Result} (hl : byteLength l ≤ longestLine)
    (hskip : skippable l = false) (hgood : isMalformed l = false)
    (hheard : ∀ file n, hear cs (.ok ⟨file, n, l⟩) = .ok i)
    (hi : perform (ε := Trouble) ns (.ok i) = (.ok r, ns')) (name : String) (n reads : Nat) :
    (lineCourse cs name ns n reads (l :: rest)).Begins r
      (lineCourse cs name ns' (n + 1) (reads + 1) rest) := by
  rw [lineCourse_readable hl hskip hgood, hheard]
  -- an assignment has no result to begin with
  cases r with
  | none =>
    rw [drain_silent (congrArg Prod.fst hi), hi]
    exact ⟨rfl, rfl, rfl⟩
  | some v =>
    rw [drain_result (congrArg Prod.fst hi), hi]
    exact ⟨rfl, rfl, rfl⟩

/-- **What a line does.**  The loop shows the result that the line has in a run, and goes on beside the
    run; or the note on the line cannot be written, and both end.  The loop may be handed the line with
    other blanks at its ends. -/
theorem line_cases {sh : Shell} (htrim : Text.trim l' = Text.trim l) (hl : IsStatement l)
    (hclear : .parsing ∈ cs → isMalformed l = true → lineFault? l = none) (hm : sh.session.Mirrors cs ns)
    (hns : ns.Regular) (name : String) (n reads : Nat) (rest : List (List Char)) :
    (∃ r ns' n' reads', (sh.feed l').1.Shows r ∧ (sh.feed l').2.session.Mirrors cs ns' ∧ ns'.Regular ∧
        (lineCourse cs name ns n reads (l :: rest)).Begins r (lineCourse cs name ns' n' reads' rest)) ∨
      ∃ f, .parsing ∈ cs ∧ (sh.feed l').1 = .broken f ∧ (sh.feed l').2.session.Mirrors cs ns ∧
        lineCourse cs name ns n reads (l :: rest) =
          ⟨[], ns, reads + 1, .stopped (.unread (.unwritable f))⟩ := by
  have hcommand : isCommand l' = false := (isCommand_congr htrim).trans hl.statement
  cases hskip : skippable l with
  | true =>
    -- a comment: neither side does anything
    have hfeed := Shell.feed_eq sh hcommand
    rw [skippable_congr htrim, hskip, if_pos rfl] at hfeed
    rw [hfeed, lineCourse_skippable hl.fits hskip]
    exact Or.inl ⟨none, ns, n + 1, reads, ⟨rfl, rfl⟩, hm, hns, ⟨rfl, rfl, rfl⟩⟩
  | false =>
    obtain ⟨hreply, hnext⟩ := Shell.feed_mirrors hm hcommand ((skippable_congr htrim).trans hskip)
    rw [hear_congr htrim] at hreply hnext
    rcases heard_cases cs l with ⟨i, hread, hheard⟩ | ⟨m, hread, hheard⟩ | ⟨hcs, f, hfault, hheard⟩
    · -- an instruction, which is executed on both sides
      have hgood : isMalformed l = false := by rw [isMalformed, hread, hskip]; rfl
      rw [hheard] at hreply hnext
      rcases step_cases hns (isWritable_of_readLine hread) with
        ⟨x, e, e', -, -, hns', hstep⟩ | ⟨e, -, -, hstep⟩
      · rw [perform_of_step hstep] at hreply hnext
        rw [hreply]
        exact Or.inl ⟨none, _, _, _, ⟨rfl, rfl⟩, hnext, hns',
          begins_of_perform hl.fits hskip hgood hheard (perform_of_step hstep) name n reads⟩
      · rw [perform_of_step hstep] at hreply hnext
        rw [hreply]
        exact Or.inl ⟨some _, _, _, _, ⟨rfl, rfl⟩, hnext, hns,
          begins_of_perform hl.fits hskip hgood hheard (perform_of_step hstep) name n reads⟩
    · -- a complaint, which leaves no trace
      have hbad : isMalformed l = true := by rw [isMalformed, hread, hskip]; rfl
      rw [hheard] at hreply hnext
      rw [hreply, lineCourse, wellFormed_of_malformed hbad]
      exact Or.inl ⟨none, ns, n, reads, ⟨rfl, rfl⟩, hnext, hns, ⟨rfl, rfl, rfl⟩⟩
    · -- a note that cannot be written
      have hgood : isMalformed l = false := by
        cases hbad : isMalformed l with
        | false => rfl
        | true => cases (hclear hcs hbad).symm.trans hfault
      rw [hheard] at hreply hnext
      rw [lineCourse_readable hl.fits hskip hgood, hheard, drain_error rfl]
      exact Or.inr ⟨f, hcs, hreply, hnext, rfl⟩

end Line

/-! ## Whole conversations -/

/-- What the loop prints for the answers to its lines: before each of them it asks. -/
def answersText (answers : List (Option Result)) : String :=
  String.join (answers.map fun r => prompt ++ unlines (r.toList.map Result.text))

/-- The exit code of a run. -/
def exitOf : Status Trouble → Nat
  | .stopped c => (stopReport c).2
  | _ => 0

/-- A conversation, with the channels `cs` on, tells the course of a run. -/
structure Transcript.Tells (t : Transcript) (cs : List Channel) (c : Course (Namespace Expr) Trouble) :
    Prop where
  /-- It prints the results and nothing else, prompts and the last line end aside. -/
  printed : ∃ answers, answers.reduceOption = c.results.map (·.1) ∧
    t.out = answersText answers ++ if t.exit = 0 then prompt ++ "\n" else ""
  exit : t.exit = exitOf c.status
  bindings : t.shell.session.bindings.exprs = c.state
  /-- Both come to the end of their lines, unless somebody listens to the parsing. -/
  whole : .parsing ∉ cs → c.status = .ended

/-- A line is answered, and then the lines behind it. -/
theorem Shell.tells_cons {sh : Shell} {l : List Char} {rest : List (List Char)} {cs : List Channel}
    {c c' : Course (Namespace Expr) Trouble} {r : Option Result} (hshows : (sh.feed l).1.Shows r)
    (hlater : ((sh.feed l).2.takeNotes.2.converse rest).Tells cs c') (hc : c.Begins r c') :
    (sh.converse (l :: rest)).Tells cs c := by
  obtain ⟨answers, hanswers, hout⟩ := hlater.printed
  simp only [converse, hshows.goesOn, hshows.out]
  refine ⟨⟨r :: answers, ?_, ?_⟩, hc.status ▸ hlater.exit, hc.state ▸ hlater.bindings,
    hc.status ▸ hlater.whole⟩
  · rw [hc.results, ← hanswers]
    cases r <;> rfl
  · simp only [hout, answersText, List.map_cons, String.join_cons, String.append_assoc]

/-- **Conversations tell runs.**  What the loop makes of `lines` is what a run makes of those that can
    be read. -/
theorem tells_converse {cs : List Channel} {f : List Char → List Char}
    (hf : ∀ l, Text.trim (f l) = Text.trim l) {lines : List (List Char)}
    (hlines : ∀ l ∈ lines, IsStatement l)
    (hclear : .parsing ∈ cs → ∀ l ∈ lines, isMalformed l = true → lineFault? l = none) {sh : Shell}
    {ns : Namespace Expr} (hm : sh.session.Mirrors cs ns) (hns : ns.Regular) (name : String)
    (n reads : Nat) :
    (sh.converse (lines.map f)).Tells cs (lineCourse cs name ns n reads lines) := by
  induction lines generalizing sh ns n reads with
  | nil =>
    -- the end of the input is the end of the lines
    show Transcript.Tells _ cs (Results.course id ((Results.mk ns [] reads .running).drain perform))
    rw [drain_nil]
    exact ⟨⟨[], rfl, rfl⟩, rfl, hm.bindings, fun _ => rfl⟩
  | cons l rest ih =>
    obtain ⟨hl, hrest⟩ := List.forall_mem_cons.1 hlines
    rw [List.map_cons]
    rcases line_cases (hf l) hl (fun hcs => hclear hcs l List.mem_cons_self) hm hns name n reads rest with
      ⟨r, ns', n', reads', hshows, hnext, hns', hbegins⟩ | ⟨fault, hcs, hbroken, hnext, hcourse⟩
    · -- the line is answered, and the rest from where it has led
      have hlater :=
        ih hrest (fun hcs => (List.forall_mem_cons.1 (hclear hcs)).2) (Shell.mirrors_takeNotes hnext) hns'
      exact Shell.tells_cons hshows (hlater n' reads') hbegins
    · -- the conversation ends without an answer
      rw [hcourse]
      simp only [Shell.converse, hbroken, Reply.exit?]
      exact ⟨⟨[none], rfl, rfl⟩, rfl, hnext.bindings, fun h => absurd hcs h⟩

/-! ## Input

  The buffer holds one byte more than the longest line that passes, for the line feed behind it. -/

section Input

variable {l : List Char}

/-- A line that fits into the buffer comes out of it whole. -/
theorem cutInput_line (hl : '\n' ∉ l) {room : Nat} (hroom : byteLength l < room) (held rest : List Char) :
    cutInput room held (l ++ '\n' :: rest) = ⟨dropReturn (held.reverse ++ l), true⟩ ::
      cutInput bufferSize [] rest := by
  induction l generalizing room held with
  | nil => rw [List.nil_append, cutInput, if_pos rfl, List.append_nil]
  | cons c l ih =>
    have hc : c ≠ '\n' := fun h => hl (h ▸ List.mem_cons_self)
    rw [byteLength] at hroom
    -- there is room for the character and at least one byte more
    have hsize : c.utf8Size < room := by omega
    rw [List.cons_append, cutInput, if_neg hc, if_pos hsize,
      ih (fun h => hl (List.mem_cons_of_mem c h)) (by omega)]
    rw [List.reverse_cons, List.append_assoc, List.singleton_append]

/-- Lines that fit into the buffer are handed over as they are, up to returns at their ends. -/
theorem inputLines_textOf {lines : List (List Char)}
    (h : ∀ l ∈ lines, '\n' ∉ l ∧ byteLength l < bufferSize) :
    inputLines (textOf lines).toList = lines.map dropReturn := by
  induction lines with
  | nil => rfl
  | cons l rest ih =>
    obtain ⟨hl, hroom⟩ := h l List.mem_cons_self
    have hrest := ih fun m hm => h m (List.mem_cons_of_mem l hm)
    rw [inputLines, textOf] at hrest ⊢
    rw [List.map_cons, toList_unlines_cons, String.toList_ofList, cutInput_line hl hroom,
      List.map_cons, hrest]
    rfl

end Input

/-! ## Agreement -/

/-- Lines that are written out are split again. -/
theorem Source.splitLines_textOf {lines : List (List Char)} (h : ∀ l ∈ lines, '\n' ∉ l) :
    splitLines (textOf lines).toList = lines := by
  rw [textOf, splitLines_unlines (by simpa using h), List.map_map]
  simp [Function.comp_def]

/-- So the entries of their text are theirs. -/
theorem Source.entries_textOf {lines : List (List Char)} (h : ∀ l ∈ lines, '\n' ∉ l) (name : String) :
    (Document.mk name (textOf lines)).entries = entriesFrom name 1 lines := by
  rw [Document.entries, splitLines_textOf h]

/-- What a run prints, and its exit code, are those of its course. -/
theorem runBatch_eq (en : Engine) (ds : List Document) :
    (runBatch en ds).out = unlines ((en.ranOn ds).results.map (·.1.text)) ∧
      (runBatch en ds).exit = exitOf (en.ranOn ds).status := by
  unfold runBatch
  simp only [Engine.ranOn, Results.course, List.map_map, Function.comp_def]
  cases (en.run Engine.fetch (ds.flatMap Document.entries)).2.status <;> exact ⟨rfl, rfl⟩

/-- A conversation agrees with the run of a document. -/
structure Transcript.Agrees (t : Transcript) (en : Engine) (d : Document) : Prop
    extends t.Tells en.channels (en.ranOn [d]) where
  /-- The run prints the same results, one to a line. -/
  batch_out : (runBatch en [d]).out = unlines ((en.ranOn [d]).results.map (·.1.text))
  batch_exit : (runBatch en [d]).exit = t.exit

/-- **Conversations agree with documents.**  Whatever lines the loop is handed, it prints the results of
    the document that holds those of them that can be read, and comes to the same bindings.  The lines
    of an input that fit into the buffer are handed over so. -/
theorem converse_agrees (en : Engine) (history name : String) (lines : List (List Char))
    (hlines : ∀ l ∈ lines, IsStatement l)
    (hclear : .parsing ∈ en.channels → ∀ l ∈ lines, isMalformed l = true → lineFault? l = none) :
    ((openShell en history).converse lines).Agrees en ⟨name, textOf (wellFormed lines)⟩ ∧
      ((∀ l ∈ lines, byteLength l < bufferSize) →
        ∃ t : Transcript, t.Agrees en ⟨name, textOf (wellFormed lines)⟩ ∧
          converse en (textOf lines) history =
            { out := unlines banner ++ t.out, err := t.err, exit := t.exit,
              history := some t.shell.history }) := by
  have hkept : ∀ l ∈ wellFormed lines, '\n' ∉ l :=
    fun l hl => (hlines l (List.mem_filter.1 hl |>.1)).oneLine
  -- what the loop is handed may differ from the lines by what trimming takes away
  have hagrees : ∀ f : List Char → List Char, (∀ l, Text.trim (f l) = Text.trim l) →
      ((openShell en history).converse (lines.map f)).Agrees en ⟨name, textOf (wellFormed lines)⟩ := by
    intro f hf
    have hopened : (openShell en history).session.Mirrors en.channels ∅ := Session.mirrors_empty en
    have htells := tells_converse hf hlines hclear hopened writable_empty.regular name 1 0
    -- the document holds the lines that can be read, numbered from one
    have hran : en.ranOn [⟨name, textOf (wellFormed lines)⟩] =
        lineCourse en.channels name ∅ 1 0 lines := by
      rw [Engine.ranOn, Engine.course_run, List.flatMap_singleton, entries_textOf hkept, lineCourse,
        Results.start]
    obtain ⟨hout, hexit⟩ := runBatch_eq en [⟨name, textOf (wellFormed lines)⟩]
    exact ⟨hran ▸ htells, hout, hexit.trans (hran ▸ htells.exit.symm)⟩
  refine ⟨?_, fun hfit => ⟨_, hagrees dropReturn trim_dropReturn, ?_⟩⟩
  · have hsame := hagrees id fun _ => rfl
    rwa [List.map_id] at hsame
  · rw [converse, inputLines_textOf fun l hl => ⟨(hlines l hl).oneLine, hfit l hl⟩]

/-- An assignment, a line that cannot be read, and an evaluation. -/
def chat : List (List Char) := ["a := 2".toList, ">>>".toList, ">>> a".toList]

/-- The loop complains about the second line, and otherwise answers as if it were not there. -/
theorem converse_agrees_chat :
    (∀ l ∈ chat, IsStatement l) ∧ (∀ l ∈ chat, byteLength l < bufferSize) ∧
      isMalformed ">>>".toList = true ∧
      ∃ t : Transcript, t.Agrees {} ⟨"p", "a := 2\n>>> a\n"⟩ ∧
        converse {} "a := 2\n>>>\n>>> a\n" "" =
          { out := unlines banner ++ t.out, err := t.err, exit := t.exit,
            history := some t.shell.history } := by
  have hlines : ∀ l ∈ chat, IsStatement l := by decide
  have hfit : ∀ l ∈ chat, byteLength l < bufferSize := by decide
  have hassign : isMalformed "a := 2".toList = false :=
    isMalformed_text (i := .assign "a" (.integer 2)) (by decide)
  have hbad : isMalformed ">>>".toList = true := by decide +kernel
  have hevaluate : isMalformed ">>> a".toList = false :=
    isMalformed_text (i := .evaluate (.reference "a")) (by decide)
  have hkept : wellFormed chat = ["a := 2".toList, ">>> a".toList] := by
    rw [chat, wellFormed_of_not_malformed hassign, wellFormed_of_malformed hbad,
      wellFormed_of_not_malformed hevaluate]
    rfl
  obtain ⟨t, hagrees, hanswer⟩ := (converse_agrees {} "" "p" chat hlines (by rintro ⟨⟩)).2 hfit
  rw [hkept] at hagrees
  exact ⟨hlines, hfit, hbad, t, hagrees, hanswer⟩

/-! ## Lines that do not fit

  The bound on the lines of an input is needed: of a line that fills the buffer the rest is a line of
  its own for the loop, while in a document it belongs to the comment. -/

namespace Source

variable (cs : List Char)

/-- A comment stays one when it is trimmed. -/
theorem exists_trim_comment : ∃ r, Text.trim ('#' :: cs) = '#' :: r := by
  have hfront : Text.trimFront ('#' :: cs) = '#' :: cs := rfl
  rw [Text.trim, hfront, Text.trimBack, List.reverse_cons, List.dropWhile_append]
  split
  · exact ⟨[], rfl⟩
  · exact ⟨_, by rw [List.reverse_append, List.reverse_singleton, List.singleton_append]⟩

theorem skippable_comment : skippable ('#' :: cs) = true := by
  obtain ⟨r, hr⟩ := exists_trim_comment cs
  rw [skippable, hr]
  rfl

theorem isCommand_comment : isCommand ('#' :: cs) = false := by
  obtain ⟨r, hr⟩ := exists_trim_comment cs
  rw [isCommand, hr]
  rfl

end Source

/-- Number signs that fill the buffer are handed over as a line, although the line goes on. -/
theorem cutInput_full (n : Nat) (held rest : List Char) :
    cutInput (n + 1) held (List.replicate (n + 1) '#' ++ rest) =
      ⟨held.reverse ++ List.replicate (n + 1) '#', false⟩ :: cutInput bufferSize [] rest := by
  induction n generalizing held with
  | zero =>
    rw [List.replicate_one, List.singleton_append, cutInput, if_neg (by decide), if_neg (by decide),
      if_neg (by decide), if_pos (by decide), List.reverse_cons]
  | succ n ih =>
    have hsize : '#'.utf8Size = 1 := rfl
    rw [List.replicate_succ, List.cons_append, cutInput, if_neg (by decide), hsize, if_pos (by omega),
      Nat.add_sub_cancel, ih, List.reverse_cons, List.append_assoc, List.singleton_append,
      ← List.replicate_succ]

/-- A comment, with what would be an evaluation behind its `n` number signs. -/
def comment (n : Nat) : List Char := List.replicate n '#' ++ ">>> 5".toList

theorem byteLength_comment (n : Nat) : byteLength (comment n) = n + 5 := by
  induction n with
  | zero => rfl
  | succ n ih =>
    have hsize : '#'.utf8Size = 1 := rfl
    rw [comment, List.replicate_succ, List.cons_append, byteLength, ← comment, ih, hsize]
    omega

theorem oneLine_comment (n : Nat) : '\n' ∉ comment n := by simp [comment]

/-- A comment that is not too long can stand in a document. -/
theorem isStatement_comment {n : Nat} (hn : n + 1 + 5 ≤ longestLine) : IsStatement (comment (n + 1)) :=
  ⟨oneLine_comment (n + 1), byteLength_comment (n + 1) ▸ hn, isCommand_comment _⟩

/-- The loop is silent about a comment. -/
theorem Shell.out_comment (sh : Shell) (cs : List Char) (rest : List (List Char)) :
    (sh.converse (('#' :: cs) :: rest)).out =
      prompt ++ (({ sh with lines := sh.lines + 1 } : Shell).takeNotes.2.converse rest).out := by
  have hfeed := feed_eq sh (isCommand_comment cs)
  rw [skippable_comment, if_pos rfl] at hfeed
  simp only [converse, hfeed, Reply.exit?, Reply.out]
  rfl

/-- The loop evaluates a literal. -/
theorem Shell.out_five {sh : Shell} (hm : sh.session.Mirrors [] ∅) :
    (sh.converse [">>> 5".toList]).out = "ratline> 5\nratline> \n" := by
  have hheard : hear [] (.ok ⟨"<stdin>", ↑(sh.lines + 1), ">>> 5".toList⟩) =
      .ok (.evaluate (.integer 5)) := by
    have hread : readLine ">>> 5".toList = .ok (.evaluate (.integer 5)) :=
      readLine_text (i := .evaluate (.integer 5)) (by decide)
    rw [hear_of_clear (by rintro ⟨⟩), show (Except.ok _ >>= Entry.read) = Entry.read _ from rfl,
      Entry.read]
    simp only [hread]
    rfl
  have hreply := (feed_mirrors hm (by decide : isCommand ">>> 5".toList = false) (by decide)).1
  rw [hheard] at hreply
  have hfive : (sh.feed ">>> 5".toList).1 = .result (.value (.int 5)) := hreply.trans (by cbv)
  simp only [converse, hfive, Reply.exit?, Reply.out]
  decide

/-- A document with this line has no results, and the loop evaluates what did not fit into the buffer. -/
theorem converse_longComment :
    IsStatement (comment bufferSize) ∧ isMalformed (comment bufferSize) = false ∧
      (runBatch {} [⟨"p", textOf [comment bufferSize]⟩]).out = "" ∧
      (converse {} (textOf [comment bufferSize]) "").out =
        unlines banner ++ "ratline> ratline> 5\nratline> \n" := by
  have hsize : bufferSize = 4095 + 1 := rfl
  have hskip : skippable (comment bufferSize) = true := skippable_comment (comment 4095)
  have hline : IsStatement (comment bufferSize) := isStatement_comment (n := 4095) (by decide)
  refine ⟨hline, by rw [isMalformed, hskip]; rfl, ?_, ?_⟩
  · -- in a document the line is a comment, and is passed over
    have hentries : ([⟨"p", textOf [comment bufferSize]⟩] : List Document).flatMap Document.entries =
        [] := by
      rw [List.flatMap_singleton, entries_textOf (by simpa using hline.oneLine), entriesFrom,
        if_neg (Nat.not_lt.2 hline.fits), if_pos hskip, entriesFrom]
    rw [(runBatch_eq _ _).1, Engine.ranOn, Engine.course_run, hentries, List.map_nil, Results.start,
      drain_nil]
    rfl
  · -- in a conversation it is two lines, a comment and an evaluation
    have hpieces : inputLines (textOf [comment bufferSize]).toList =
        ['#' :: List.replicate 4095 '#', ">>> 5".toList] := by
      rw [inputLines, textOf, List.map_singleton, toList_unlines_cons, String.toList_ofList, comment,
        List.append_assoc, hsize, cutInput_full, ← List.replicate_succ]
      rfl
    rw [converse, hpieces, Shell.out_comment, Shell.out_five (Session.mirrors_empty {})]
    rfl

end Reckoner
