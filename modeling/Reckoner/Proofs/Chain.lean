/-
  No line is lost.  A chain of readers is asked again and again; what its calls give, one after the
  other, is held against the lines of its documents, numbered from one in each document: every line that
  holds an instruction is read once, in its place and under its own number, and after the last one every
  call finds the end.

  A chain goes through documents by itself, so what is left of it is told from its readers alone:
  `pending` lists the lines that they still have to read.  `Chain.next_cases` says once what a call does
  to that list.  By induction along the calls, a call gives what stands in its place in the list
  (`call_of_pending`), and a line that is too long is as far as any call comes (`call_of_overlong`).
-/
import Mathlib.Data.List.Basic
import Reckoner.Proofs.Conversation
import Reckoner.Source.Chain

namespace Reckoner.Source

/-! ## Lines and their places

  `splitLines` is said once more without its recursion, by `LinesOf`, and `entriesFrom`, which counts as
  it goes, by `statements`, in which a line has its number from its place. -/

/-- `LinesOf cs ls` — the text `cs` consists of the lines `ls`: a line feed stands behind each of them
    and nowhere else, but may be missing behind the last one if that is not empty. -/
inductive LinesOf : List Char → List (List Char) → Prop
  | nil : LinesOf [] []
  | last {l : List Char} (hl : '\n' ∉ l) (hne : l ≠ []) : LinesOf l [l]
  | line {l r : List Char} {ls : List (List Char)} (hl : '\n' ∉ l) (hr : LinesOf r ls) :
      LinesOf (l ++ '\n' :: r) (l :: ls)

/-- One more character in front of the first line. -/
theorem LinesOf.cons {c : Char} {l r : List Char} {ls : List (List Char)} (hc : c ≠ '\n')
    (h : LinesOf r (l :: ls)) :
    LinesOf (c :: r) ((c :: l) :: ls) := by
  have hmem : ∀ {l : List Char}, '\n' ∉ l → '\n' ∉ c :: l := by
    intro l hl hcl
    rcases List.mem_cons.1 hcl with heq | hmem
    · exact hc heq.symm
    · exact hl hmem
  cases h with
  | last hl hne => exact .last (hmem hl) (List.cons_ne_nil _ _)
  | line hl hr => exact .line (hmem hl) hr

/-- A text consists of the lines that it is split into. -/
theorem linesOf_splitLines (cs : List Char) : LinesOf cs (splitLines cs) := by
  induction cs with
  | nil => exact .nil
  | cons c r ih =>
    rw [splitLines]
    split
    · rename_i hc
      subst hc
      exact .line (l := []) List.not_mem_nil ih
    · rename_i hc
      -- the character joins the first line of the rest, or is the last line by itself
      cases hr : splitLines r with
      | nil =>
        rw [hr] at ih
        cases ih
        exact .last (fun h => hc (List.mem_singleton.1 h).symm) (List.cons_ne_nil _ _)
      | cons l ls =>
        rw [hr] at ih
        exact ih.cons hc

/-- The lines of a document, without their ends. -/
def Document.lines (d : Document) : List (List Char) := (splitLines d.text.toList).map dropReturn

/-- Whether no line of a document is too long. -/
def Document.Fits (d : Document) : Prop := ∀ l ∈ splitLines d.text.toList, byteLength l ≤ longestLine

instance : DecidablePred Document.Fits := fun _ => List.decidableBAll _ _

/-- The lines that hold instructions, each in its place; the first of `lines` has the number `n`. -/
def statements (file : String) (n : Nat) (lines : List (List Char)) : List Entry :=
  ((lines.zipIdx n).filter fun p => !skippable p.1).map fun p => ⟨file, p.2, p.1⟩

/-- The lines of a document that hold instructions, numbered from one. -/
def Document.statements (d : Document) : List Entry := Source.statements d.name 1 d.lines

section Lines

variable {file : String} {n : Nat} {l : List Char} {lines : List (List Char)}

/-- Each line is looked at in turn, and counted whether it holds an instruction or not. -/
theorem statements_cons : statements file n (l :: lines) =
    if skippable l then statements file (n + 1) lines
      else ⟨file, n, l⟩ :: statements file (n + 1) lines := by
  unfold statements
  rw [List.zipIdx_cons, List.filter_cons]
  cases skippable l <;> rfl

/-- A line stands among them exactly if it holds an instruction, under its own number. -/
theorem mem_statements {e : Entry} :
    e ∈ statements file n lines ↔
      ∃ k line, lines[k]? = some line ∧ skippable line = false ∧ e = ⟨file, (n + k : Nat), line⟩ := by
  unfold statements
  constructor
  · intro he
    obtain ⟨⟨line, i⟩, hp, rfl⟩ := List.mem_map.1 he
    obtain ⟨hmem, hline⟩ := List.mem_filter.1 hp
    obtain ⟨hle, hget⟩ := List.mk_mem_zipIdx_iff_le_and_getElem?_sub.1 hmem
    exact ⟨i - n, line, hget, by simpa using hline, by rw [Nat.add_sub_cancel' hle]⟩
  · rintro ⟨k, line, hget, hline, rfl⟩
    refine List.mem_map.2 ⟨(line, n + k), List.mem_filter.2 ⟨?_, by simpa using hline⟩, rfl⟩
    exact List.mk_mem_zipIdx_iff_le_and_getElem?_sub.2
      ⟨Nat.le_add_right n k, by rwa [Nat.add_sub_cancel_left]⟩

/-- What is read from a line is its instruction, or a complaint that begins with the name and the
    number. -/
theorem Entry.read_labelled (e : Entry) :
    (∃ i, readLine e.text = .ok i ∧ e.read = .ok i) ∨
      ∃ m c, readLine e.text = .error m ∧ e.read = .error c ∧
        c.message = e.file ++ ":" ++ Text.ofInt e.line ++ ": " ++ m.message := by
  unfold Entry.read
  cases readLine e.text with
  | ok i => exact Or.inl ⟨i, rfl, rfl⟩
  | error m => exact Or.inr ⟨m, _, rfl, rfl, rfl⟩

/-- Lines that are not too long are all gone through, before what follows them. -/
theorem entriesFrom_append (h : ∀ l ∈ lines, byteLength l ≤ longestLine) (later : List (List Char)) :
    entriesFrom file n (lines ++ later) =
      (statements file n (lines.map dropReturn)).map .ok ++
        entriesFrom file (n + lines.length) later := by
  induction lines generalizing n with
  | nil => rfl
  | cons l rest ih =>
    obtain ⟨hl, hrest⟩ := List.forall_mem_cons.1 h
    -- the rest is counted on from the next number
    have hnumber : n + 1 + rest.length = n + (l :: rest).length := by rw [List.length_cons]; omega
    rw [List.cons_append, entriesFrom, if_neg (Nat.not_lt.2 hl), ih hrest, List.map_cons, statements_cons,
      skippable_congr (trim_dropReturn l), hnumber]
    cases skippable l <;> rfl

/-- Up to its first line feed a text is a line, and what follows is split in turn. -/
theorem splitLines_eq {cs : List Char} (h : cs ≠ []) :
    splitLines cs = cs.takeWhile (· ≠ '\n') :: splitLines ((cs.dropWhile (· ≠ '\n')).drop 1) := by
  induction cs with
  | nil => exact absurd rfl h
  | cons c r ih =>
    rw [splitLines]
    by_cases hc : c = '\n'
    · simp [hc]
    · rw [if_neg hc, List.takeWhile_cons_of_pos (by simpa using hc),
        List.dropWhile_cons_of_pos (by simpa using hc)]
      cases r with
      | nil => rfl
      | cons c' r' => rw [ih (List.cons_ne_nil c' r')]

end Lines

/-! ## One call

  A feed hands out lines, a reader skips those that hold nothing, and a chain goes on to the next
  reader.  For each of them one lemma says all that a call can do. -/

/-- What a feed does when it is asked for a line: it has none left, the next one is too long, or it
    hands it out. -/
theorem Feed.next_cases {f : Feed} (h : f.stopped = false) :
    (splitLines f.rest = [] ∧ f.next = (none, f)) ∨
      (∃ l later, splitLines f.rest = l :: later ∧ longestLine < byteLength l ∧
        f.next = (none, { f with stopped := true })) ∨
      ∃ l f', splitLines f.rest = l :: splitLines f'.rest ∧ byteLength l ≤ longestLine ∧
        f'.stopped = false ∧
        f.next = (some (dropReturn l), f') := by
  by_cases hrest : f.rest = []
  · exact Or.inl ⟨by rw [hrest, splitLines], by rw [next, hrest]; simp⟩
  · have hnext : (f.stopped || f.rest.isEmpty) = false := by
      rw [h, Bool.false_or, List.isEmpty_eq_false_iff]
      exact hrest
    rw [next, hnext, if_neg Bool.false_ne_true]
    by_cases hlong : longestLine < byteLength (f.rest.takeWhile (· ≠ '\n'))
    · exact Or.inr (Or.inl ⟨_, _, splitLines_eq hrest, hlong, if_pos hlong⟩)
    · -- the line is handed out, and the feed goes on behind its line feed
      refine Or.inr
        (Or.inr ⟨_, ⟨(f.rest.dropWhile (· ≠ '\n')).drop 1, f.stopped⟩, splitLines_eq hrest, ?_, h, ?_⟩)
      · exact Nat.not_lt.1 hlong
      · exact if_neg hlong

/-- A line that is handed out is the first that the feed has left, without its end, and is not too
    long. -/
theorem Feed.exists_of_next {f f' : Feed} {line : List Char} (h : f.stopped = false)
    (hnext : f.next = (some line, f')) :
    ∃ l, splitLines f.rest = l :: splitLines f'.rest ∧ byteLength l ≤ longestLine ∧ f'.stopped = false ∧
      line = dropReturn l := by
  rcases Feed.next_cases h with ⟨_, hf⟩ | ⟨_, _, _, _, hf⟩ | ⟨l, f', hlines, hl, hf', hf⟩
  · cases hnext.symm.trans hf
  · cases hnext.symm.trans hf
  · obtain ⟨hline, rfl⟩ := Prod.mk.inj (hnext.symm.trans hf)
    exact ⟨l, hlines, hl, hf', Option.some.inj hline⟩

namespace LineReader

/-- What a reader has still to read. -/
def pending (r : LineReader) : List (Except ReadError Entry) :=
  entriesFrom r.file (r.line + 1) (splitLines r.feed.rest)

/-- What a reader does when it is called: it is exhausted, reads the first of the lines it has to read,
    or finds it too long. -/
theorem next_cases (r : LineReader) (h : r.feed.stopped = false) :
    (r.pending = [] ∧ r.next.1 = none) ∨
      (∃ e, r.pending = .ok e :: r.next.2.pending ∧ r.next.1 = some e.read ∧
        r.next.2.feed.stopped = false) ∨
      r.pending = [.error .tooLong] ∧ r.next.1 = some (.error .tooLong) ∧
        r.next.2.feed.stopped = true := by
  fun_induction next r with
  | case1 r feed hnext =>
    -- no line is handed out: there is none, or it is too long
    rcases Feed.next_cases h with ⟨hlines, hf⟩ | ⟨l, later, hlines, hlong, hf⟩ | ⟨l, f', _, _, _, hf⟩
    · obtain rfl := (Prod.mk.inj (hnext.symm.trans hf)).2
      refine Or.inl ⟨by rw [pending, hlines]; rfl, ?_⟩
      rw [h, if_neg Bool.false_ne_true]
    · obtain rfl := (Prod.mk.inj (hnext.symm.trans hf)).2
      exact Or.inr (Or.inr ⟨by rw [pending, hlines, entriesFrom, if_pos hlong], rfl, rfl⟩)
    · cases hnext.symm.trans hf
  | case2 r line feed hnext r' hskip ih =>
    -- a line without an instruction is not among what is to be read
    obtain ⟨l, hlines, hl, hopen, rfl⟩ := Feed.exists_of_next h hnext
    rw [skippable_congr (trim_dropReturn l)] at hskip
    have hsame : r.pending = r'.pending := by
      rw [pending, hlines, entriesFrom, if_neg (Nat.not_lt.2 hl), if_pos hskip]
      rfl
    rw [hsame]
    exact ih hopen
  | case3 r line feed hnext r' hskip =>
    -- the first line that is to be read is read
    obtain ⟨l, hlines, hl, hopen, rfl⟩ := Feed.exists_of_next h hnext
    rw [skippable_congr (trim_dropReturn l)] at hskip
    refine Or.inr (Or.inl ⟨_, ?_, rfl, hopen⟩)
    rw [pending, hlines, entriesFrom, if_neg (Nat.not_lt.2 hl), if_neg hskip]
    rfl

/-- A reader that has found a line too long finds it so at every call. -/
theorem next_of_stopped {r : LineReader} (h : r.feed.stopped = true) :
    r.next = (some (.error .tooLong), r) := by
  have hfeed : r.feed.next = (none, r.feed) := by rw [Feed.next, h, Bool.true_or, if_pos rfl]
  unfold next
  split
  · rename_i feed hnext
    obtain rfl := (Prod.mk.inj (hnext.symm.trans hfeed)).2
    rw [if_pos h]
  · rename_i line feed hnext
    cases hnext.symm.trans hfeed

end LineReader

namespace Chain

variable {c : Chain}

/-- What a chain has still to read. -/
def pending (c : Chain) : List (Except ReadError Entry) := c.readers.flatMap LineReader.pending

/-- No reader of a chain has found a line too long. -/
def Open (c : Chain) : Prop := ∀ r ∈ c.readers, r.feed.stopped = false

/-- The first reader of a chain has found a line too long. -/
def Stuck (c : Chain) : Prop := ∃ r later, c.readers = r :: later ∧ r.feed.stopped = true

section Next

variable {r : LineReader} {later : List LineReader}

/-- A reader with nothing left is passed over; otherwise its answer is that of the chain. -/
theorem next_of_exhausted (h : r.next.1 = none) :
    (Chain.mk (r :: later)).next = (Chain.mk later).next := by
  show next.go (r :: later) = next.go later
  rw [next.go]
  split
  · rfl
  · rename_i heq
    rw [heq] at h
    cases h

theorem next_of_reading {reading : Reading} (h : r.next.1 = some reading) :
    (Chain.mk (r :: later)).next = (some reading, ⟨r.next.2 :: later⟩) := by
  show next.go (r :: later) = _
  rw [next.go]
  split
  · rename_i heq
    rw [heq] at h
    cases h
  · rename_i heq
    rw [heq] at h ⊢
    cases h
    rfl

end Next

/-- **One call**: there is nothing more to read, the first of what is to be read is read, or it is a
    line that is too long, and the chain is stuck. -/
theorem next_cases (h : c.Open) :
    (c.pending = [] ∧ c.next.1 = none ∧ c.next.2.Open ∧ c.next.2.pending = []) ∨
      (∃ e, c.pending = .ok e :: c.next.2.pending ∧ c.next.1 = some e.read ∧ c.next.2.Open) ∨
      (∃ later, c.pending = .error .tooLong :: later) ∧ c.next.1 = some (.error .tooLong) ∧
        c.next.2.Stuck := by
  obtain ⟨readers⟩ := c
  induction readers with
  | nil => exact Or.inl ⟨rfl, rfl, h, rfl⟩
  | cons r later ih =>
    obtain ⟨hr, hlater⟩ := List.forall_mem_cons.1 h
    rw [pending, List.flatMap_cons]
    rcases r.next_cases hr with ⟨hnone, hnext⟩ | ⟨e, hline, hnext, hopen⟩ | ⟨hlong, hnext, hstopped⟩
    · -- an exhausted reader has nothing to read, and is dropped
      rw [next_of_exhausted hnext, hnone]
      exact ih hlater
    · rw [next_of_reading hnext, hline]
      exact Or.inr (Or.inl ⟨e, rfl, rfl, List.forall_mem_cons.2 ⟨hopen, hlater⟩⟩)
    · rw [next_of_reading hnext, hlong]
      exact Or.inr (Or.inr ⟨⟨_, rfl⟩, rfl, _, _, rfl, hstopped⟩)

/-- A chain that is stuck stays so. -/
theorem next_of_stuck (h : c.Stuck) : c.next = (some (.error .tooLong), c) := by
  obtain ⟨r, later, hreaders, hstopped⟩ := h
  obtain ⟨readers⟩ := c
  cases hreaders
  have hnext := LineReader.next_of_stopped hstopped
  rw [next_of_reading (congrArg Prod.fst hnext), hnext]

/-! ## Call after call

  By the step lemma a call takes the first item from what is to be read.  The induction is on the number
  of calls, or on the lines before the one that is too long. -/

/-- The chain after `n` calls. -/
def after (c : Chain) : Nat → Chain
  | 0 => c
  | n + 1 => c.next.2.after n

/-- What the next call gives after `n` calls. -/
def call (c : Chain) (n : Nat) : Option Reading := (c.after n).next.1

/-- Every call says that the line is too long. -/
theorem call_of_stuck (h : c.Stuck) (n : Nat) : c.call n = some (.error .tooLong) := by
  have hnext := next_of_stuck h
  induction n with
  | zero => exact congrArg Prod.fst hnext
  | succ n ih =>
    show c.next.2.call n = _
    rw [hnext]
    exact ih

/-- The calls give what is to be read, one line after the other, and the end ever after. -/
theorem call_of_pending {es : List Entry} (ho : c.Open) (h : c.pending = es.map .ok) (n : Nat) :
    c.call n = (es.map Entry.read)[n]? := by
  induction n generalizing c es with
  | zero =>
    show c.next.1 = _
    rcases next_cases ho with ⟨hnone, hnext, _⟩ | ⟨e, hline, hnext, _⟩ | ⟨⟨later, hlong⟩, _⟩
    · rw [hnext, List.map_eq_nil_iff.1 (h.symm.trans hnone)]
      rfl
    · obtain ⟨e', es', rfl, he, _⟩ := List.map_eq_cons_iff.1 (h.symm.trans hline)
      rw [hnext, ← Except.ok.inj he]
      rfl
    · obtain ⟨_, _, _, he, _⟩ := List.map_eq_cons_iff.1 (h.symm.trans hlong)
      cases he
  | succ n ih =>
    show c.next.2.call n = _
    rcases next_cases ho with ⟨hnone, _, hopen, hdone⟩ | ⟨e, hline, _, hopen⟩ | ⟨⟨later, hlong⟩, _⟩
    · -- nothing is left, now and after every further call
      have hmap : c.next.2.pending = ([] : List Entry).map .ok := hdone
      rw [List.map_eq_nil_iff.1 (h.symm.trans hnone)]
      exact ih hopen hmap
    · -- the first line is taken from the list, so the count goes down on both sides
      obtain ⟨e', es', rfl, _, hes⟩ := List.map_eq_cons_iff.1 (h.symm.trans hline)
      exact ih hopen hes.symm
    · obtain ⟨_, _, _, he, _⟩ := List.map_eq_cons_iff.1 (h.symm.trans hlong)
      cases he

/-- Calls come as far as a line that is too long, and no further. -/
theorem call_of_overlong {es : List Entry} {later : List (Except ReadError Entry)} (ho : c.Open)
    (h : c.pending = es.map .ok ++ .error .tooLong :: later) (n : Nat) :
    c.call n = some ((es.map Entry.read)[n]?.getD (.error .tooLong)) := by
  induction es generalizing c n with
  | nil =>
    rcases next_cases ho with ⟨hnone, _⟩ | ⟨e, hline, _⟩ | ⟨_, hnext, hstuck⟩
    · cases h.symm.trans hnone
    · cases h.symm.trans hline
    · -- the first call finds it, and all later ones find it again
      cases n with
      | zero => exact hnext
      | succ n => exact call_of_stuck hstuck n
  | cons e es ih =>
    rcases next_cases ho with ⟨hnone, _⟩ | ⟨e', hline, hnext, hopen⟩ | ⟨⟨_, hlong⟩, _⟩
    · cases h.symm.trans hnone
    · obtain ⟨he, hes⟩ := List.cons.inj (h.symm.trans hline)
      cases n with
      | zero =>
        rw [Except.ok.inj he]
        exact hnext
      | succ n => exact ih hopen hes.symm n
    · cases h.symm.trans hlong

/-- At the beginning no line has been looked at, and all entries are to be read. -/
theorem open_of (ds : List Document) : (Chain.of ds).Open := by
  intro r hr
  obtain ⟨d, _, rfl⟩ := List.mem_map.1 hr
  rfl

theorem pending_of (ds : List Document) : (Chain.of ds).pending = ds.flatMap Document.entries := by
  rw [pending, of, List.flatMap_map]
  rfl

end Chain

/-! ## Documents

  What a chain has to read at the beginning are the entries of its documents.  They are given by the
  lines alone, up to the first that is too long. -/

section Documents

variable {ds before : List Document} {name : String} {lines : List (List Char)} {long : List Char}

/-- If no line is too long, the entries are the lines that hold instructions. -/
theorem Document.entries_of_fits {d : Document} (h : d.Fits) : d.entries = d.statements.map .ok := by
  rw [Document.entries, ← List.append_nil (splitLines d.text.toList), entriesFrom_append h]
  exact List.append_nil _

theorem entries_of_fits (h : ∀ d ∈ ds, d.Fits) :
    ds.flatMap Document.entries = (ds.flatMap Document.statements).map .ok := by
  rw [List.map_flatMap]
  exact List.flatMap_congr fun d hd => Document.entries_of_fits (h d hd)

/-- Then the calls give their readings one by one, and a run is given all of them. -/
theorem call_of_fits (h : ∀ d ∈ ds, d.Fits) (n : Nat) :
    (Chain.of ds).call n = ((ds.flatMap Document.statements).map Entry.read)[n]? :=
  Chain.call_of_pending (Chain.open_of ds) ((Chain.pending_of ds).trans (entries_of_fits h)) n

theorem readings_of_fits (h : ∀ d ∈ ds, d.Fits) :
    readings ds = (ds.flatMap Document.statements).map Entry.read := by
  rw [readings_eq, entries_of_fits h, List.map_map]
  rfl

/-- In a list not all of which is right, something is the first that is wrong. -/
theorem exists_first {α : Type} {p : α → Prop} {l : List α} (h : ¬∀ a ∈ l, p a) :
    ∃ front a back, l = front ++ a :: back ∧ (∀ b ∈ front, p b) ∧ ¬p a := by
  classical
  obtain ⟨a, ha⟩ : ∃ a, l.find? (fun a => ¬p a) = some a := by
    rw [← Option.isSome_iff_exists, List.find?_isSome]
    simpa using h
  obtain ⟨hwrong, front, back, hl, hfront⟩ := List.find?_eq_some_iff_append.1 ha
  exact ⟨front, a, back, hl, by simpa using hfront, by simpa using hwrong⟩

/-- `StopsAt ds before name lines long` — the first line of the documents `ds` that is too long is
    `long`: it stands in the document `name`, which follows the documents `before`, right behind
    `lines`. -/
structure StopsAt (ds before : List Document) (name : String) (lines : List (List Char))
    (long : List Char) : Prop where
  place : ∃ d after later, ds = before ++ d :: after ∧ d.name = name ∧
    splitLines d.text.toList = lines ++ long :: later
  before_fits : ∀ d ∈ before, d.Fits
  lines_fit : ∀ l ∈ lines, byteLength l ≤ longestLine
  too_long : longestLine < byteLength long

/-- The lines that hold instructions and stand before the line that is too long. -/
def readable (before : List Document) (name : String) (lines : List (List Char)) : List Entry :=
  before.flatMap Document.statements ++ statements name 1 (lines.map dropReturn)

/-- If some line is too long, the entries before it are as if it were not there. -/
theorem StopsAt.entries (h : StopsAt ds before name lines long) :
    ∃ later, ds.flatMap Document.entries =
      (readable before name lines).map .ok ++ .error .tooLong :: later := by
  obtain ⟨d, after, rest, rfl, rfl, hlines⟩ := h.place
  have hd : d.entries = (statements d.name 1 (lines.map dropReturn)).map .ok ++ [.error .tooLong] := by
    rw [Document.entries, hlines, entriesFrom_append h.lines_fit, entriesFrom, if_pos h.too_long]
  refine ⟨after.flatMap Document.entries, ?_⟩
  rw [List.flatMap_append, List.flatMap_cons, entries_of_fits h.before_fits, hd, readable,
    List.map_append, List.append_assoc, List.append_assoc]
  rfl

/-- Unless all documents fit, some line is the first that is too long. -/
theorem fits_or_stopsAt (ds : List Document) :
    (∀ d ∈ ds, d.Fits) ∨ ∃ before name lines long, StopsAt ds before name lines long := by
  by_cases hfits : ∀ d ∈ ds, d.Fits
  · exact Or.inl hfits
  · right
    -- the first document that does not fit, and its first line that is too long
    obtain ⟨before, d, after, rfl, hbefore, hd⟩ := exists_first hfits
    obtain ⟨lines, long, later, hlines, hfit, hlong⟩ := exists_first hd
    exact ⟨before, d.name, lines, long, ⟨d, after, later, rfl, rfl, hlines⟩, hbefore, hfit,
      Nat.not_le.1 hlong⟩

end Documents

/-- **Every line is read once, in its place.**  Documents consist of their lines.  The lines that hold
    instructions have their numbers, counted from one, and what is read from one of them is its
    instruction, or a complaint with the name and the number in front.

    If no line is too long, the calls of a chain give, document by document and line by line, what is
    read from each line that holds an instruction, under the name of its document and its number there,
    and from then on nothing; a run is given the same to read.  If some line is too long, the calls give
    the same up to the first such line and then say that it is too long; and no call ever depends on
    what stands behind that line. -/
theorem call_reads (ds : List Document) :
    (∀ d ∈ ds, LinesOf d.text.toList (splitLines d.text.toList)) ∧
      (∀ name lines (e : Entry), e ∈ statements name 1 lines ↔
        ∃ k line, lines[k]? = some line ∧ skippable line = false ∧ e = ⟨name, (1 + k : Nat), line⟩) ∧
      (∀ name (k : Nat) line,
        (∃ i, readLine line = .ok i ∧ Entry.read ⟨name, k, line⟩ = .ok i) ∨
          ∃ m c, readLine line = .error m ∧ Entry.read ⟨name, k, line⟩ = .error c ∧
            c.message = name ++ ":" ++ Text.ofInt k ++ ": " ++ m.message) ∧
      ((∀ d ∈ ds, d.Fits) ∨ ∃ before name lines long, StopsAt ds before name lines long) ∧
      ((∀ d ∈ ds, d.Fits) →
        (∀ n, (Chain.of ds).call n = ((ds.flatMap Document.statements).map Entry.read)[n]?) ∧
          readings ds = (ds.flatMap Document.statements).map Entry.read) ∧
      ∀ before name lines long, StopsAt ds before name lines long →
        (∀ n < (readable before name lines).length,
            (Chain.of ds).call n = ((readable before name lines).map Entry.read)[n]?) ∧
          (Chain.of ds).call (readable before name lines).length = some (.error .tooLong) ∧
          ∀ ds', StopsAt ds' before name lines long →
            ∀ n, (Chain.of ds').call n = (Chain.of ds).call n := by
  refine ⟨fun d _ => linesOf_splitLines _, fun name lines e => mem_statements,
    fun name k line => Entry.read_labelled ⟨name, k, line⟩, fits_or_stopsAt ds, fun hfits => ?_,
    fun before name lines long hstops => ?_⟩
  · exact ⟨call_of_fits hfits, readings_of_fits hfits⟩
  · -- what the calls give is told by what stands before the long line
    have hcall : ∀ ds', StopsAt ds' before name lines long → ∀ n, (Chain.of ds').call n =
        some (((readable before name lines).map Entry.read)[n]?.getD (.error .tooLong)) := by
      intro ds' hstops'
      obtain ⟨later, hentries⟩ := hstops'.entries
      exact Chain.call_of_overlong (Chain.open_of ds') ((Chain.pending_of ds').trans hentries)
    refine ⟨fun n hn => ?_, ?_, fun ds' hstops' n => ?_⟩
    · have hsome : n < ((readable before name lines).map Entry.read).length := by rwa [List.length_map]
      rw [hcall ds hstops, List.getElem?_eq_getElem hsome]
      rfl
    · rw [hcall ds hstops, List.getElem?_eq_none (Nat.le_of_eq (List.length_map ..))]
      rfl
    · rw [hcall ds' hstops', hcall ds hstops]

/-- Three documents: one without a line feed at its end, one of nothing but a comment, and one whose
    first line cannot be read. -/
def pages : List Document := [⟨"a", "x := 1\n\n# two\n>>> x"⟩, ⟨"b", "#"⟩, ⟨"c", "oops\r\n>>> 2\n"⟩]

/-- A document whose second line is too long. -/
def torn : Document := ⟨"p", textOf ["x := 1".toList, comment 65536, ">>> x".toList]⟩

/-- The pages are read under the numbers that their lines have, and the complaint about the last page
    begins with its name and a one; the document that is torn is read up to its second line. -/
theorem call_reads_pages :
    (LinesOf "#".toList ["#".toList] ∧ (∀ d ∈ pages, d.Fits) ∧
        ∀ n, (Chain.of pages).call n =
          (([⟨"a", 1, "x := 1".toList⟩, ⟨"a", 4, ">>> x".toList⟩, ⟨"c", 1, "oops".toList⟩,
            ⟨"c", 2, ">>> 2".toList⟩] : List Entry).map Entry.read)[n]?) ∧
      (∃ m c, (Chain.of pages).call 2 = some (.error c) ∧ readLine "oops".toList = .error m ∧
        c.message = "c:1: " ++ m.message) ∧
      StopsAt [torn] [] "p" ["x := 1".toList] (comment 65536) ∧
        (Chain.of [torn]).call 0 = some (Entry.read ⟨"p", 1, "x := 1".toList⟩) ∧
        (Chain.of [torn]).call 1 = some (.error .tooLong) := by
  have hfits : ∀ d ∈ pages, d.Fits := by decide
  have hpages : pages.flatMap Document.statements =
      [⟨"a", 1, "x := 1".toList⟩, ⟨"a", 4, ">>> x".toList⟩, ⟨"c", 1, "oops".toList⟩,
        ⟨"c", 2, ">>> 2".toList⟩] := by
    decide
  have hlines : splitLines torn.text.toList = ["x := 1".toList] ++ comment 65536 :: [">>> x".toList] :=
    splitLines_textOf
      (List.forall_mem_cons.2 ⟨by decide, List.forall_mem_cons.2 ⟨oneLine_comment 65536, by decide⟩⟩)
  have hlong : longestLine < byteLength (comment 65536) := by rw [byteLength_comment]; decide
  have hstops : StopsAt [torn] [] "p" ["x := 1".toList] (comment 65536) :=
    ⟨⟨torn, [], _, rfl, rfl, hlines⟩, by decide, by decide, hlong⟩
  obtain ⟨hsplit, _, hlabel, _, hcalls, _⟩ := call_reads pages
  obtain ⟨_, _, _, _, _, hstopped⟩ := call_reads [torn]
  obtain ⟨hbefore, hat, _⟩ := hstopped _ _ _ _ hstops
  have hoops : (readLine "oops".toList).toOption = none := by decide +kernel
  have hcall := (hcalls hfits).1
  rw [hpages] at hcall
  refine ⟨⟨hsplit ⟨"b", "#"⟩ (by decide), hfits, hcall⟩, ?_, hstops, ?_, ?_⟩
  · obtain ⟨i, hread, _⟩ | ⟨m, c, hread, hc, hmessage⟩ := hlabel "c" 1 "oops".toList
    · rw [hread] at hoops
      cases hoops
    · exact ⟨m, c, (hcall 2).trans (congrArg some hc), hread, hmessage⟩
  · exact hbefore 0 (by decide)
  · exact hat

end Reckoner.Source
