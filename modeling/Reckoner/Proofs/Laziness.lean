/-
  Results on demand.  A run hands out one result at a call of `next`, and reads no further for it than
  it has to.  What it hands out is held against an execution that knows of no calls: `Interpreter.eager`
  reads and executes one instruction after the other, and notes what each has given, until the source
  ends or something stops it.

  `item_cases` says once what one item of a source does to both, to the execution and to the call that
  meets it.  By induction along the source, every call gives the next result of the execution
  (`call_eager`), and leaves the source right behind the evaluation that gave it (`after_evaluation`);
  and the first call that gives nothing leaves the run as it will stay (`after_end`).
-/
import Reckoner.Engine.Session
import Reckoner.Proofs.Run

namespace Reckoner

/-! ## Working through a source at once

  The execution is said for any way of reading and executing, so that what is proved of it holds for
  plain programs and for sessions alike. -/

/-- Whether an instruction asks for a result. -/
def Instruction.isEvaluation {α : Type} : Instruction α → Bool
  | evaluate _ => true
  | _ => false

/-- What a run is made of: how the next instruction is read, and how an instruction is executed. -/
structure Interpreter (σ ι α ε : Type) where
  read : σ → ι → Except ε (Instruction α) × σ
  execute : σ → Instruction α → Except Failure (Option Result) × σ

/-- What has come of a source when it has been worked through. -/
structure Eager (σ α ε : Type) where
  /-- The instructions that were executed, each with what it gave. -/
  executed : List (Instruction α × Option Result)
  state : σ
  status : Status ε

/-- The results, in order. -/
def Eager.results {σ α ε : Type} (d : Eager σ α ε) : List Result := d.executed.filterMap (·.2)

namespace Interpreter

variable {σ ι α ε : Type} (m : Interpreter σ ι α ε)

/-- Read an instruction and execute it. -/
def act (s : σ) (item : ι) : Except (Stop ε) (Option Result) × σ :=
  let read := m.read s item
  match read.1 with
  | .error e => (.error (.unread e), read.2)
  | .ok i =>
    let done := m.execute read.2 i
    match done.1 with
    | .error f => (.error (.fatal f), done.2)
    | .ok r => (.ok r, done.2)

/-- Read and execute one instruction after the other, until the source ends or something stops it. -/
def eager (s : σ) : List ι → Eager σ α ε
  | [] => ⟨[], s, .ended⟩
  | item :: rest =>
    let read := m.read s item
    match read.1 with
    | .error e => ⟨[], read.2, .stopped (.unread e)⟩
    | .ok i =>
      let done := m.execute read.2 i
      match done.1 with
      | .error f => ⟨[], done.2, .stopped (.fatal f)⟩
      | .ok r =>
        let later := eager done.2 rest
        { later with executed := (i, r) :: later.executed }

/-- How a source that has been executed up to the state `s` comes to an end: there is nothing more to
    read, what is to be read next cannot be read, or it is read and cannot be executed. -/
inductive Halts (s : σ) : Option ι → Status ε → Prop
  | ended : Halts s none .ended
  | unread {item : ι} {e : ε} (h : (m.read s item).1 = .error e) :
      Halts s (some item) (.stopped (.unread e))
  | fatal {item : ι} {i : Instruction α} {f : Failure} (hread : (m.read s item).1 = .ok i)
      (h : (m.execute (m.read s item).2 i).1 = .error f) : Halts s (some item) (.stopped (.fatal f))

/-- Evaluations give results, and no other instructions do. -/
def Answers : Prop := ∀ s i r, (m.execute s i).1 = .ok r → r.isSome = i.isEvaluation

end Interpreter

/-! ## One call after the other

  A call reads as many items as it takes to come to a result.  The inductions are along the source, with
  the number of calls, the state and the count of readings left open. -/

namespace Results

variable {σ ι ε : Type} (act : σ → ι → Except (Stop ε) (Option Result) × σ)

/-- The run after `k` calls of `next`. -/
def after (rs : Results σ ι ε) : Nat → Results σ ι ε
  | 0 => rs
  | k + 1 => after (rs.next act).2 k

/-- What the next call gives after `k` calls. -/
def call (rs : Results σ ι ε) (k : Nat) : Option Result := ((rs.after act k).next act).1

variable {act} {rs rs' : Results σ ι ε}

/-- Two runs that the next call does not tell apart are not told apart by any call. -/
theorem after_congr (h : rs.next act = rs'.next act) (k : Nat) :
    rs.after act (k + 1) = rs'.after act (k + 1) := by
  rw [after, after, h]

/-- So they give the same from there on. -/
theorem call_congr (h : rs.next act = rs'.next act) (k : Nat) : rs.call act k = rs'.call act k := by
  cases k with
  | zero => rw [call, call, after, after, h]
  | succ k => rw [call, call, after_congr h]

/-- A run that has come to an end stays as it is. -/
theorem after_of_done (h : rs.status ≠ .running) (k : Nat) :
    rs.next act = (none, rs) ∧ rs.after act k = rs := by
  have hnext : rs.next act = (none, rs) := by
    unfold next
    split
    · exact absurd ‹_› h
    · rfl
  refine ⟨hnext, ?_⟩
  induction k with
  | zero => rfl
  | succ k ih => rw [after, hnext, ih]

/-- A call that finds the run at its end is the last to change it. -/
theorem call_of_done (hnext : rs.next act = (none, rs')) (h : rs'.status ≠ .running) (k : Nat) :
    rs.call act k = none ∧ rs.after act (k + 1) = rs' := by
  have hafter : ∀ k, rs.after act (k + 1) = rs' := fun k => by rw [after, hnext, (after_of_done h k).2]
  refine ⟨?_, hafter k⟩
  cases k with
  | zero => rw [call, after, hnext]
  | succ k => rw [call, hafter, (after_of_done h k).1]

/-- The calls behind one that gives a result are the calls of the run that it leaves. -/
theorem call_succ {r : Option Result} (hnext : rs.next act = (r, rs')) (k : Nat) :
    rs.call act (k + 1) = rs'.call act k ∧ rs.after act (k + 1) = rs'.after act k := by
  rw [call, call, after, hnext]
  exact ⟨rfl, rfl⟩

end Results

namespace Interpreter

variable {σ ι α ε : Type} {m : Interpreter σ ι α ε}

/-- **What one item does**, to the execution and to the call that meets it.  It ends both, it gives
    nothing to either, or it is an evaluation and gives both one result. -/
theorem item_cases (hm : m.Answers) (s : σ) (item : ι) :
    (∃ c s', m.Halts s (some item) (.stopped c) ∧ ∀ rest,
        m.eager s (item :: rest) = ⟨[], s', .stopped c⟩ ∧
        ∀ reads, (Results.mk s (item :: rest) reads .running).next m.act =
          (none, ⟨s', rest, reads + 1, .stopped c⟩)) ∨
      (∃ i s', i.isEvaluation = false ∧ ∀ rest,
        m.eager s (item :: rest) =
          { m.eager s' rest with executed := (i, none) :: (m.eager s' rest).executed } ∧
        ∀ reads, (Results.mk s (item :: rest) reads .running).next m.act =
          (Results.mk s' rest (reads + 1) .running).next m.act) ∨
      ∃ a v s', ∀ rest,
        m.eager s (item :: rest) =
          { m.eager s' rest with executed := (.evaluate a, some v) :: (m.eager s' rest).executed } ∧
        ∀ reads, (Results.mk s (item :: rest) reads .running).next m.act =
          (some v, ⟨s', rest, reads + 1, .running⟩) := by
  cases hread : (m.read s item).1 with
  | error e =>
    -- the item cannot be read
    have hact : m.act s item = (.error (.unread e), (m.read s item).2) := by simp only [act, hread]
    refine Or.inl ⟨.unread e, (m.read s item).2, .unread hread, fun rest => ⟨?_, fun reads => ?_⟩⟩
    · simp only [eager, hread]
    · rw [next_error (congrArg Prod.fst hact), hact]
  | ok i =>
    cases hdone : (m.execute (m.read s item).2 i).1 with
    | error f =>
      -- it is read, and cannot be executed
      have hact : m.act s item = (.error (.fatal f), (m.execute (m.read s item).2 i).2) := by
        simp only [act, hread, hdone]
      refine Or.inl ⟨.fatal f, (m.execute (m.read s item).2 i).2, .fatal hread hdone,
        fun rest => ⟨?_, fun reads => ?_⟩⟩
      · simp only [eager, hread, hdone]
      · rw [next_error (congrArg Prod.fst hact), hact]
    | ok r =>
      have hact : m.act s item = (.ok r, (m.execute (m.read s item).2 i).2) := by
        simp only [act, hread, hdone]
      -- whether there is a result tells whether it was an evaluation
      have hr := hm _ _ _ hdone
      cases r with
      | none =>
        refine Or.inr
          (Or.inl ⟨i, (m.execute (m.read s item).2 i).2, hr.symm, fun rest => ⟨?_, fun reads => ?_⟩⟩)
        · simp only [eager, hread, hdone]
        · rw [next_silent (congrArg Prod.fst hact), hact]
      | some v =>
        cases i with
        | evaluate a =>
          refine Or.inr (Or.inr ⟨a, v, (m.execute (m.read s item).2 (.evaluate a)).2, fun rest => ?_⟩)
          refine ⟨?_, fun reads => ?_⟩
          · simp only [eager, hread, hdone]
          · rw [next_result (congrArg Prod.fst hact), hact]
        | assign x a => cases hr
        | missing => cases hr

/-- Exactly the evaluations that were executed have given results. -/
theorem isSome_of_mem_executed (hm : m.Answers) {s : σ} {source : List ι}
    {p : Instruction α × Option Result} (hp : p ∈ (m.eager s source).executed) :
    p.2.isSome = p.1.isEvaluation := by
  induction source generalizing s with
  | nil => cases hp
  | cons item rest ih =>
    rcases item_cases hm s item with ⟨c, s', _, hitem⟩ | ⟨i, s', hi, hitem⟩ | ⟨a, v, s', hitem⟩
    · rw [(hitem rest).1] at hp
      cases hp
    · rw [(hitem rest).1] at hp
      rcases List.mem_cons.1 hp with rfl | hp
      · exact hi.symm
      · exact ih hp
    · rw [(hitem rest).1] at hp
      rcases List.mem_cons.1 hp with rfl | hp
      · rfl
      · exact ih hp

/-- What ends the execution stands right behind what was executed. -/
theorem halts_eager (hm : m.Answers) (s : σ) (source : List ι) :
    m.Halts (m.eager s (source.take (m.eager s source).executed.length)).state
      source[(m.eager s source).executed.length]? (m.eager s source).status := by
  induction source generalizing s with
  | nil => exact .ended
  | cons item rest ih =>
    rcases item_cases hm s item with ⟨c, s', hhalts, hitem⟩ | ⟨i, s', _, hitem⟩ | ⟨a, v, s', hitem⟩
    · rw [(hitem rest).1]
      exact hhalts
    · rw [(hitem rest).1, List.length_cons, List.take_succ_cons, (hitem _).1, List.getElem?_cons_succ]
      exact ih s'
    · rw [(hitem rest).1, List.length_cons, List.take_succ_cons, (hitem _).1, List.getElem?_cons_succ]
      exact ih s'

/-- The calls give the results of the execution, one after the other, and nothing behind the last of
    them. -/
theorem call_eager (hm : m.Answers) (s : σ) (source : List ι) (reads k : Nat) :
    (Results.mk s source reads .running).call m.act k = (m.eager s source).results[k]? := by
  induction source generalizing s reads k with
  | nil => exact (Results.call_of_done (next_nil s reads) (by rintro ⟨⟩) k).1
  | cons item rest ih =>
    rcases item_cases hm s item with ⟨c, s', _, hitem⟩ | ⟨i, s', _, hitem⟩ | ⟨a, v, s', hitem⟩
    · -- the end: all calls find it
      obtain ⟨heager, hnext⟩ := hitem rest
      rw [heager]
      exact (Results.call_of_done (hnext reads) (by rintro ⟨⟩) k).1
    · -- no result: the call goes on into the rest
      obtain ⟨heager, hnext⟩ := hitem rest
      rw [heager, Results.call_congr (hnext reads), ih]
      rfl
    · -- a result: it is for the first call, and the others belong to the rest
      obtain ⟨heager, hnext⟩ := hitem rest
      rw [heager]
      cases k with
      | zero =>
        rw [Results.call, Results.after, hnext]
        rfl
      | succ k =>
        rw [(Results.call_succ (hnext reads) k).1, ih]
        rfl

/-- **Exact reading.**  With the `k`-th result the source has been read up to the evaluation that is the
    `k`-th to be executed, and no further. -/
theorem after_evaluation (hm : m.Answers) (s : σ) (source : List ι) (reads : Nat) {k : Nat}
    (hk : k < (m.eager s source).results.length) :
    ∃ j a r, (m.eager s source).executed[j]? = some (.evaluate a, some r) ∧
      ((m.eager s source).executed.take j).countP (·.1.isEvaluation) = k ∧
      (m.eager s source).results[k]? = some r ∧
      (Results.mk s source reads .running).after m.act (k + 1) =
        ⟨(m.eager s (source.take (j + 1))).state, source.drop (j + 1), reads + (j + 1), .running⟩ := by
  induction source generalizing s reads k with
  | nil => cases hk
  | cons item rest ih =>
    rcases item_cases hm s item with ⟨c, s', _, hitem⟩ | ⟨i, s', hi, hitem⟩ | ⟨a, v, s', hitem⟩
    · rw [(hitem rest).1] at hk
      cases hk
    · -- the evaluation stands one place further on than in the rest
      obtain ⟨heager, hnext⟩ := hitem rest
      rw [heager] at hk ⊢
      obtain ⟨j, a, v, hj, hcount, hv, hafter⟩ := ih s' (reads + 1) hk
      refine ⟨j + 1, a, v, hj, ?_, hv, ?_⟩
      · rw [List.take_succ_cons, List.countP_cons_of_neg (by simp [hi]), hcount]
      · rw [Results.after_congr (hnext reads), hafter, List.take_succ_cons, (hitem _).1,
          List.drop_succ_cons, Nat.add_right_comm, Nat.add_assoc]
    · obtain ⟨heager, hnext⟩ := hitem rest
      rw [heager] at hk ⊢
      cases k with
      | zero =>
        -- the evaluation is the item itself
        refine ⟨0, a, v, rfl, rfl, rfl, ?_⟩
        rw [(Results.call_succ (hnext reads) 0).2, Results.after, List.take_succ_cons, (hitem _).1]
        rfl
      | succ k =>
        -- the evaluation is one of the rest, with one evaluation less before it
        obtain ⟨j, a', w, hj, hcount, hw, hafter⟩ := ih s' (reads + 1) (Nat.lt_of_succ_lt_succ hk)
        refine ⟨j + 1, a', w, hj, ?_, hw, ?_⟩
        · rw [List.take_succ_cons, List.countP_cons_of_pos rfl, hcount]
        · rw [(Results.call_succ (hnext reads) _).2, hafter, List.take_succ_cons, (hitem _).1,
            List.drop_succ_cons, Nat.add_right_comm, Nat.add_assoc]

/-- Behind the last result, a call reads up to what ends the execution, and leaves the run as it will
    stay. -/
theorem after_end (hm : m.Answers) (s : σ) (source : List ι) (reads : Nat) {k : Nat}
    (hk : (m.eager s source).results.length ≤ k) :
    (Results.mk s source reads .running).after m.act (k + 1) =
      ⟨(m.eager s source).state, source.drop ((m.eager s source).executed.length + 1),
        reads + ((m.eager s source).executed.length + 1), (m.eager s source).status⟩ := by
  induction source generalizing s reads k with
  | nil => exact (Results.call_of_done (next_nil s reads) (by rintro ⟨⟩) k).2
  | cons item rest ih =>
    rcases item_cases hm s item with ⟨c, s', _, hitem⟩ | ⟨i, s', _, hitem⟩ | ⟨a, v, s', hitem⟩
    · obtain ⟨heager, hnext⟩ := hitem rest
      rw [heager]
      exact (Results.call_of_done (hnext reads) (by rintro ⟨⟩) k).2
    · obtain ⟨heager, hnext⟩ := hitem rest
      rw [heager] at hk ⊢
      rw [Results.after_congr (hnext reads), ih s' (reads + 1) hk, List.length_cons, List.drop_succ_cons,
        Nat.add_right_comm, Nat.add_assoc]
    · obtain ⟨heager, hnext⟩ := hitem rest
      rw [heager] at hk ⊢
      cases k with
      | zero => cases hk
      | succ k =>
        rw [(Results.call_succ (hnext reads) _).2, ih s' (reads + 1) (Nat.le_of_succ_le_succ hk),
          List.length_cons, List.drop_succ_cons, Nat.add_right_comm, Nat.add_assoc]

end Interpreter

/-! ## Runs refine executions

  What is left for a particular run is that it acts as its interpreter does, and that just its
  evaluations give results. -/

namespace Interpreter

variable {σ ι α ε : Type}

/-- A run that gives its results on demand refines the execution of its source.  The run is `rs`, and
    `act` is what it does with the items of its source. -/
structure Refines (m : Interpreter σ ι α ε) (act : σ → ι → Except (Stop ε) (Option Result) × σ)
    (rs : Results σ ι ε) : Prop where
  /-- The calls give the results of the execution in order, and nothing when there are no more. -/
  results (k : Nat) : rs.call act k = (m.eager rs.state rs.source).results[k]?
  /-- The results of the execution are those of its evaluations. -/
  complete : ∀ p ∈ (m.eager rs.state rs.source).executed, p.2.isSome = p.1.isEvaluation
  /-- With the `k`-th result just as much has been read as ends with the `k`-th evaluation. -/
  reading (k : Nat) (hk : k < (m.eager rs.state rs.source).results.length) :
    ∃ j a r, (m.eager rs.state rs.source).executed[j]? = some (.evaluate a, some r) ∧
      ((m.eager rs.state rs.source).executed.take j).countP (·.1.isEvaluation) = k ∧
      (m.eager rs.state rs.source).results[k]? = some r ∧
      rs.after act (k + 1) =
        ⟨(m.eager rs.state (rs.source.take (j + 1))).state, rs.source.drop (j + 1),
          rs.reads + (j + 1), .running⟩
  /-- The execution ends where nothing is left, where reading fails or where an instruction fails. -/
  halts : m.Halts (m.eager rs.state (rs.source.take (m.eager rs.state rs.source).executed.length)).state
    rs.source[(m.eager rs.state rs.source).executed.length]? (m.eager rs.state rs.source).status
  /-- When there are no more results, that last reading has been made too, and every later call leaves
      all as it is. -/
  ended (k : Nat) (hk : (m.eager rs.state rs.source).results.length ≤ k) :
    rs.after act (k + 1) =
      ⟨(m.eager rs.state rs.source).state,
        rs.source.drop ((m.eager rs.state rs.source).executed.length + 1),
        rs.reads + ((m.eager rs.state rs.source).executed.length + 1),
        (m.eager rs.state rs.source).status⟩

/-- Every interpreter whose evaluations give results is refined by its own run. -/
theorem refines_of_answers {m : Interpreter σ ι α ε} (hm : m.Answers) (s : σ) (source : List ι) :
    m.Refines m.act (Results.start s source) where
  results := call_eager hm s source 0
  complete _ := isSome_of_mem_executed hm
  reading _ hk := after_evaluation hm s source 0 hk
  halts := halts_eager hm s source
  ended _ hk := after_end hm s source 0 hk

/-- Instructions that have been read already, executed on a namespace.  One that fails leaves the
    namespace alone. -/
def plain : Interpreter (Namespace Expr) (Except ε (Instruction Expr)) Expr ε where
  read ns reading := (reading, ns)
  execute ns i :=
    match step ns i with
    | .error f => (.error f, ns)
    | .ok (ns', r) => (.ok r, ns')

/-- Instructions that a session fetches and executes. -/
def ofSession (fetch : Engine → ι → Except ε (Instruction Node) × Engine) :
    Interpreter Session ι Node ε where
  read s item := ((fetch s.engine item).1, { s with engine := (fetch s.engine item).2 })
  execute := Session.step

/-- Plain programs are run by the interpreter of instructions that have been read. -/
theorem plain_act : (plain : Interpreter _ _ _ ε).act = perform := by
  funext ns reading
  cases reading with
  | error e => rfl
  | ok i =>
    cases hi : step ns i with
    | error f => simp only [act, plain, perform, hi]
    | ok p => simp only [act, plain, perform, hi]

/-- Sessions are run by the interpreter that fetches. -/
theorem ofSession_act (fetch : Engine → ι → Except ε (Instruction Node) × Engine) :
    (ofSession fetch).act = Session.act fetch := by
  funext s item
  cases hfetch : (fetch s.engine item).1 with
  | error e => simp only [act, ofSession, Session.act, hfetch]
  | ok i =>
    cases hdone : (Session.step { s with engine := (fetch s.engine item).2 } i).1 with
    | error f => simp only [act, ofSession, Session.act, hfetch, hdone]
    | ok r => simp only [act, ofSession, Session.act, hfetch, hdone]

/-- A plain step gives a result for an evaluation, and for nothing else. -/
theorem plain_answers : (plain : Interpreter _ _ _ ε).Answers := by
  intro ns i r h
  cases hstep : step ns i with
  | error f =>
    simp only [plain, hstep] at h
    cases h
  | ok p =>
    simp only [plain, hstep] at h
    cases h
    cases i with
    | assign x e =>
      obtain ⟨e', _, hp⟩ := exists_of_bind_ok hstep
      cases hp
      rfl
    | evaluate e =>
      obtain ⟨v, _, hp⟩ := exists_of_bind_ok hstep
      cases hp
      rfl
    | missing => cases hstep

/-- So does a step of a session. -/
theorem ofSession_answers (fetch : Engine → ι → Except ε (Instruction Node) × Engine) :
    (ofSession fetch).Answers := by
  intro s i r h
  cases i with
  | assign x n =>
    simp only [ofSession, Session.step] at h
    split at h
    · cases h
    · cases h
      rfl
  | evaluate n =>
    simp only [ofSession, Session.step] at h
    split at h
    · cases h
    · cases h
      rfl
  | missing => cases h

end Interpreter

/-- **Results on demand.**  Every run, of instructions that have been read or of a session that fetches
    its instructions, refines the execution of its source with exact reading. -/
theorem next_refines_eager :
    (∀ {ε : Type} (ns : Namespace Expr) (source : Readings ε Expr),
        Interpreter.plain.Refines perform (Results.start ns source)) ∧
      ∀ {ι ε : Type} (fetch : Engine → ι → Except ε (Instruction Node) × Engine) (s : Session)
        (source : List ι),
        (Interpreter.ofSession fetch).Refines (Session.act fetch) (Results.start s source) := by
  constructor
  · intro ε ns source
    have h := Interpreter.refines_of_answers Interpreter.plain_answers ns source
    rwa [Interpreter.plain_act] at h
  · intro ι ε fetch s source
    have h := Interpreter.refines_of_answers (Interpreter.ofSession_answers fetch) s source
    rwa [Interpreter.ofSession_act] at h

/-- A program with an empty place in it, and an evaluation that is never read. -/
def halting : Readings Empty Expr :=
  [.ok (.assign "a" (.integer 1)), .ok (.evaluate (.reference "a")), .ok .missing,
    .ok (.evaluate (.integer 2))]

/-- The first call reads two instructions and gives 1.  The next one meets the empty place, and those
    behind it find the run stopped there. -/
theorem next_refines_eager_halting :
    (Results.start ∅ halting).call perform 0 = some (.value (.int 1)) ∧
      ((Results.start ∅ halting).after perform 1).reads = 2 ∧
      ∀ k, (Results.start ∅ halting).call perform (k + 1) = none ∧
        (Results.start ∅ halting).after perform (k + 2) =
          ⟨(∅ : Namespace Expr).bind "a" (.integer 1), [.ok (.evaluate (.integer 2))], 3,
            .stopped (.fatal (.fault .noInstruction))⟩ := by
  have heager : Interpreter.plain.eager ∅ halting =
      ⟨[(.assign "a" (.integer 1), none), (.evaluate (.reference "a"), some (.value (.int 1)))],
        (∅ : Namespace Expr).bind "a" (.integer 1), .stopped (.fatal (.fault .noInstruction))⟩ := by
    have hassign : step ∅ (.assign "a" (.integer 1)) =
        .ok ((∅ : Namespace Expr).bind "a" (.integer 1), none) := by
      cbv
    have hevaluate : step ((∅ : Namespace Expr).bind "a" (.integer 1)) (.evaluate (.reference "a")) =
        .ok ((∅ : Namespace Expr).bind "a" (.integer 1), some (.value (.int 1))) := by
      cbv
    have hmissing : ∀ ns, step ns .missing = .error (.fault .noInstruction) := fun _ => rfl
    simp only [halting, Interpreter.eager, Interpreter.plain, hassign, hevaluate, hmissing]
  have h := next_refines_eager.1 ∅ halting
  refine ⟨?_, ?_, fun k => ⟨?_, ?_⟩⟩
  · rw [h.results]
    exact congrArg (·.results[0]?) heager
  · obtain ⟨j, a, r, hj, _, _, hafter⟩ := h.reading 0 (by rw [Results.start, heager]; decide)
    rw [Results.start, heager] at hj
    rcases j with _ | _ | j
    · cases hj
    · rw [hafter]
      rfl
    · cases hj
  · rw [h.results]
    exact congrArg (·.results[k + 1]?) heager
  · have hended := h.ended (k + 1) (by rw [Results.start, heager]; exact Nat.le_add_left 1 k)
    rw [Results.start, heager] at hended
    exact hended

end Reckoner
