/-
  No source leads to a fault.  Faults are breaches of the calculator's own rules: an operator without
  arithmetic, a constant bound as a name, a place without an instruction.  The definitions can meet
  them, but nothing that has been read can: lines give writable instructions only
  (`isWritable_of_readLine`), and a regular namespace stays regular by all of them (`step_cases`).

  So a run gives ordinary results and goes on to the first error of its source, or to the end
  (`drain_ordinary`); specializing the same source fails at the same place with the same error
  (`specializeAll_error_iff`).  What is left is to say which errors documents have: lines that cannot be
  read, and lines that are too long (`Complaint`).
-/
import Reckoner.Proofs.Session

namespace Reckoner

open Source

/-- A value, or one of the three diagnostics that a program can give. -/
inductive Result.Ordinary : Result → Prop
  | value (x : Number) : Ordinary (.value x)
  | unbound (x : String) : Ordinary (.diagnostic (.unbound x))
  | recursive (x : String) : Ordinary (.diagnostic (.recursive x))
  | divisionByZero : Ordinary (.diagnostic .divisionByZero)

/-- How the reading of a source ends: with its first error, if it has one. -/
def ending {ε α : Type} : Readings ε α → Status ε
  | [] => .ended
  | .error c :: _ => .stopped (.unread c)
  | .ok _ :: rest => ending rest

/-- A reading comes to its end, or is stopped by an error of the source. -/
theorem ending_cases {ε α : Type} (source : Readings ε α) :
    ending source = .ended ∨ ∃ u, ending source = .stopped (.unread u) ∧ .error u ∈ source := by
  induction source with
  | nil => exact Or.inl rfl
  | cons item rest ih =>
    cases item with
    | error u => exact Or.inr ⟨u, rfl, List.mem_cons_self⟩
    | ok i =>
      rcases ih with hend | ⟨u, hu, hmem⟩
      · exact Or.inl hend
      · exact Or.inr ⟨u, hu, List.mem_cons_of_mem _ hmem⟩

/-! ## Runs over writable instructions -/

section Writable

variable {ε : Type} {ns : Namespace Expr} {source : Readings ε Expr}

/-- An evaluation in a regular namespace gives an ordinary result. -/
theorem ordinary_evaluate (hns : ns.Regular) {e : Expr} (he : e.isArithmetic = true) :
    (Result.of (evaluate ns e)).Ordinary := by
  cases hv : evaluate ns e with
  | ok x => exact .value x
  | error f =>
    rw [evaluate_eq hns.unreserved] at hv
    have hf := recoverable_of_evaluateIn hns.unreserved hns.arithmetic he hv
    cases f with
    | unbound x => exact .unbound x
    | recursive x => exact .recursive x
    | divisionByZero => exact .divisionByZero
    | fault c => cases hf

/-- **A run meets no fault**: its results are ordinary, and it ends as its source does. -/
theorem drain_ordinary (hns : ns.Regular) (hsource : ∀ i, .ok i ∈ source → i.isWritable = true)
    (reads : Nat) :
    (∀ p ∈ ((Results.mk ns source reads .running).drain perform).1, p.1.Ordinary) ∧
      ((Results.mk ns source reads .running).drain perform).2.status = ending source := by
  induction source generalizing ns reads with
  | nil =>
    rw [drain_nil]
    exact ⟨by rintro _ ⟨⟩, rfl⟩
  | cons item rest ih =>
    have hrest : ∀ i, .ok i ∈ rest → i.isWritable = true :=
      fun i hi => hsource i (List.mem_cons_of_mem _ hi)
    cases item with
    | error c =>
      have hact : (perform ns (.error c)).1 = .error (.unread c) := rfl
      rw [drain_error hact]
      exact ⟨by rintro _ ⟨⟩, rfl⟩
    | ok i =>
      rcases step_cases hns (hsource i List.mem_cons_self) with
        ⟨x, e, e', rfl, _, hns', hstep⟩ | ⟨e, rfl, he, hstep⟩
      · have hact := perform_of_step (ε := ε) hstep
        rw [drain_silent (congrArg Prod.fst hact), hact]
        exact ih hns' hrest (reads + 1)
      · have hact := perform_of_step (ε := ε) hstep
        obtain ⟨hresults, hstatus⟩ := ih hns hrest (reads + 1)
        rw [drain_result (congrArg Prod.fst hact), hact]
        exact ⟨List.forall_mem_cons.2 ⟨ordinary_evaluate hns he, hresults⟩, hstatus⟩

/-- **Specializing meets no fault**: it fails exactly if the source does, and with its error. -/
theorem specializeAll_error_iff (hns : ns.Arithmetic)
    (hsource : ∀ i, .ok i ∈ source → i.isWritable = true) {c : Stop ε} :
    specializeAll ns source = .error c ↔ ending source = .stopped c := by
  induction source generalizing ns with
  | nil => exact ⟨by rintro ⟨⟩, by rintro ⟨⟩⟩
  | cons item rest ih =>
    have hrest : ∀ i, .ok i ∈ rest → i.isWritable = true :=
      fun i hi => hsource i (List.mem_cons_of_mem _ hi)
    cases item with
    | error u => rw [specializeAll, ending, Except.error.injEq, Status.stopped.injEq]
    | ok i =>
      have hi := hsource i List.mem_cons_self
      rw [ending]
      cases i with
      | assign x e =>
        have he := Expr.isArithmetic_of_isWritable ((Bool.and_eq_true _ _).mp hi).2
        obtain ⟨e', hs⟩ := exists_specialize hns he
        simp only [specializeAll, hs, map_eq_error_iff]
        exact ih (hns.bind x (isArithmetic_specialize hns hs he)) hrest
      | evaluate e =>
        obtain ⟨e', hs⟩ := exists_specialize hns (Expr.isArithmetic_of_isWritable hi)
        simp only [specializeAll, hs, map_eq_error_iff]
        exact ih hns hrest
      | missing => cases hi

/-- `Faultless source Fails ran program` — a run of `source` and the residual program of it meet no
    fault: the run gives ordinary results and ends where the reading does, which is at the end or at an
    error for which `Fails` holds; and there is no residual program exactly if the run is stopped, for
    the same reason. -/
structure Faultless {τ ε α π : Type} (source : Readings ε α) (Fails : ε → Prop) (ran : Course τ ε)
    (program : Except (Stop ε) π) : Prop where
  results : ∀ r ∈ ran.results, r.1.Ordinary
  ends : ran.status = ending source
  status : ran.status = .ended ∨ ∃ u, ran.status = .stopped (.unread u) ∧ Fails u
  residual : ∀ c, program = .error c ↔ ran.status = .stopped c

/-- **Whatever has been read is run without a fault.** -/
theorem faultless_of_writable {Fails : ε → Prop}
    (h : ∀ item ∈ source, (∃ i, item = .ok i ∧ i.isWritable = true) ∨ ∃ u, item = .error u ∧ Fails u) :
    Faultless source Fails (Results.course id ((Results.start ∅ source).drain perform))
      (residual source) := by
  have hok : ∀ i, .ok i ∈ source → i.isWritable = true := by
    intro i hi
    rcases h _ hi with ⟨j, hj, hw⟩ | ⟨u, hu, _⟩
    · cases hj
      exact hw
    · cases hu
  obtain ⟨hresults, hstatus⟩ := drain_ordinary writable_empty.regular hok 0
  refine ⟨?_, hstatus, ?_, ?_⟩
  · intro r hr
    obtain ⟨p, hp, rfl⟩ := List.mem_map.1 hr
    exact hresults p hp
  · rcases ending_cases source with hend | ⟨u, hstop, hu⟩
    · exact Or.inl (hstatus.trans hend)
    · refine Or.inr ⟨u, hstatus.trans hstop, ?_⟩
      rcases h _ hu with ⟨i, hi, _⟩ | ⟨u', hu', hfails⟩
      · cases hi
      · cases hu'
        exact hfails
  · intro c
    rw [residual, map_eq_error_iff, specializeAll_error_iff arithmetic_empty hok]
    exact (Eq.congr_left hstatus).symm

end Writable

/-! ## What documents give -/

/-- An entry is a line of the document, and has the number of that line. -/
theorem mem_entriesFrom_ok {file : String} {n : Nat} {lines : List (List Char)} {e : Entry}
    (h : .ok e ∈ entriesFrom file n lines) :
    ∃ k line, lines[k]? = some line ∧ e = ⟨file, (n + k : Nat), dropReturn line⟩ := by
  induction lines generalizing n with
  | nil => cases h
  | cons l rest ih =>
    -- an entry behind the first line has a number that is larger by one
    have hlater (hmem : .ok e ∈ entriesFrom file (n + 1) rest) :
        ∃ k line, (l :: rest)[k]? = some line ∧ e = ⟨file, (n + k : Nat), dropReturn line⟩ := by
      obtain ⟨k, line, hline, he⟩ := ih hmem
      exact ⟨k + 1, line, hline, by rw [he, Nat.add_right_comm, Nat.add_assoc]⟩
    rw [entriesFrom] at h
    split at h
    · rw [List.mem_singleton] at h
      cases h
    · split at h
      · exact hlater h
      · rcases List.mem_cons.1 h with hhead | hmem
        · exact ⟨0, l, rfl, Except.ok.inj hhead⟩
        · exact hlater hmem

/-- The only thing in the way of an entry is a line that is too long. -/
theorem mem_entriesFrom_error {file : String} {n : Nat} {lines : List (List Char)} {c : ReadError}
    (h : .error c ∈ entriesFrom file n lines) :
    c = .tooLong ∧ ∃ line ∈ lines, longestLine < byteLength line := by
  induction lines generalizing n with
  | nil => cases h
  | cons l rest ih =>
    have hlater (hmem : .error c ∈ entriesFrom file (n + 1) rest) :
        c = .tooLong ∧ ∃ line ∈ l :: rest, longestLine < byteLength line := by
      obtain ⟨hc, line, hline, hlong⟩ := ih hmem
      exact ⟨hc, line, List.mem_cons_of_mem _ hline, hlong⟩
    rw [entriesFrom] at h
    split at h
    · rename_i hlong
      rw [List.mem_singleton] at h
      exact ⟨Except.error.inj h, l, List.mem_cons_self, hlong⟩
    · split at h
      · exact hlater h
      · rcases List.mem_cons.1 h with hhead | hmem
        · cases hhead
        · exact hlater hmem

/-- What there is to complain about in documents: a line that cannot be read, by the name of its
    document and its number there, counted from one; or a line that is too long. -/
inductive Complaint (ds : List Document) : ReadError → Prop
  | malformed {d : Document} {k : Nat} {line : List Char} {m : Malformed} (hd : d ∈ ds)
      (hline : (splitLines d.text.toList)[k]? = some line) (hm : readLine (dropReturn line) = .error m) :
      Complaint ds (.malformed d.name (1 + k : Nat) m)
  | tooLong {d : Document} {line : List Char} (hd : d ∈ ds) (hline : line ∈ splitLines d.text.toList)
      (hlong : longestLine < byteLength line) : Complaint ds .tooLong

/-- The two wordings of a complaint. -/
theorem Complaint.message {ds : List Document} {c : ReadError} (h : Complaint ds c) :
    (∃ d ∈ ds, ∃ (k : Nat) (m : Malformed),
        c.message = d.name ++ ":" ++ Text.ofInt (1 + k : Nat) ++ ": " ++
          ("malformed source: " ++ m.reason)) ∨
      c.message = "bufio.Scanner: token too long" := by
  cases h with
  | malformed hd hline hm => exact Or.inl ⟨_, hd, _, _, rfl⟩
  | tooLong => exact Or.inr rfl

section Documents

variable {ds : List Document} {item : Except ReadError Entry}

/-- What a line of a document says is writable, and what it fails with is a complaint. -/
theorem read_cases (h : item ∈ ds.flatMap Document.entries) :
    (∃ i, (item >>= Entry.read) = .ok i ∧ i.isWritable = true) ∨
      ∃ c, (item >>= Entry.read) = .error c ∧ Complaint ds c := by
  obtain ⟨d, hd, hmem⟩ := List.mem_flatMap.1 h
  cases item with
  | error c =>
    obtain ⟨rfl, line, hline, hlong⟩ := mem_entriesFrom_error hmem
    exact Or.inr ⟨_, rfl, .tooLong hd hline hlong⟩
  | ok e =>
    obtain ⟨k, line, hline, rfl⟩ := mem_entriesFrom_ok hmem
    simp only [bind, Except.bind, Entry.read]
    cases hread : readLine (dropReturn line) with
    | ok i => exact Or.inl ⟨i, rfl, isWritable_of_readLine hread⟩
    | error m => exact Or.inr ⟨_, rfl, .malformed hd hline hread⟩

/-- The readings of documents are their entries, each read. -/
theorem readings_eq (ds : List Document) :
    readings ds = (ds.flatMap Document.entries).map (· >>= Entry.read) := by
  refine List.map_congr_left fun item _ => ?_
  cases item <;> rfl

/-- What stops a session that listens to the channels `cs`: a complaint, or a phrase without a layout
    where it listens to the parsing. -/
def Troubles (cs : List Channel) (ds : List Document) : Trouble → Prop
  | .unread c => Complaint ds c
  | .unwritable _ => .parsing ∈ cs

/-- The same for what is heard of a line. -/
theorem hear_cases (cs : List Channel) (h : item ∈ ds.flatMap Document.entries) :
    (∃ i, hear cs item = .ok i ∧ i.isWritable = true) ∨ ∃ t, hear cs item = .error t ∧
      Troubles cs ds t := by
  obtain heq | ⟨hcs, f, hf⟩ := hear_eq_or cs item
  · rw [heq]
    rcases read_cases h with ⟨i, hread, hi⟩ | ⟨c, hread, hc⟩
    · exact Or.inl ⟨i, by rw [hread]; rfl, hi⟩
    · exact Or.inr ⟨.unread c, by rw [hread]; rfl, hc⟩
  · exact Or.inr ⟨.unwritable f, hf, hcs⟩

/-- What is heard of documents is run without a fault. -/
theorem faultless_heard (cs : List Channel) (ds : List Document) :
    Faultless ((ds.flatMap Document.entries).map (hear cs)) (Troubles cs ds)
      (Results.course id ((Results.start ∅ ((ds.flatMap Document.entries).map (hear cs))).drain perform))
      (residual ((ds.flatMap Document.entries).map (hear cs))) :=
  faultless_of_writable (List.forall_mem_map.2 fun _ hitem => hear_cases cs hitem)

end Documents

/-- **No source leads to a fault.**  Documents of any text are run, and specialized, without a fault:
    every result is a value or one of the three diagnostics, and what stops the run is the first
    complaint about a line, worded with the place of the line, or as too long; there is a residual
    program unless the run is stopped, and it fails as the run does.  A session does so as well,
    whatever it remembers; only listening to the parsing can stop it elsewhere. -/
theorem documents_faultless (ds : List Document) :
    Faultless (readings ds)
        (fun c => Complaint ds c ∧
          ((∃ d ∈ ds, ∃ (k : Nat) (m : Malformed),
              c.message = d.name ++ ":" ++ Text.ofInt (1 + k : Nat) ++ ": " ++
                ("malformed source: " ++ m.reason)) ∨
            c.message = "bufio.Scanner: token too long"))
        (Results.course id ((Results.start ∅ (readings ds)).drain perform)) (residual (readings ds)) ∧
      ∀ en : Engine,
        Faultless ((ds.flatMap Document.entries).map (hear en.channels)) (Troubles en.channels ds)
          (Results.course (fun s => s.bindings.exprs) (en.run Engine.fetch (ds.flatMap Document.entries)))
          (en.residual Engine.fetch (ds.flatMap Document.entries)).1 := by
  constructor
  · rw [readings_eq]
    refine faultless_of_writable (List.forall_mem_map.2 fun item hitem => ?_)
    exact (read_cases hitem).imp_right fun ⟨c, hread, hc⟩ => ⟨c, hread, hc, hc.message⟩
  · intro en
    have hheard := faultless_heard en.channels ds
    rw [en.course_run]
    refine ⟨hheard.results, hheard.ends, hheard.status, fun c => ?_⟩
    rw [← hheard.residual c, ← en.residual_eq, map_eq_error_iff]

end Reckoner
