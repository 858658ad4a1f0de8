/-
  Running a program that has been read.  No instruction of such a program causes a fault, so its run
  reaches the end, and its results are the outcomes of its evaluations, each in the namespace that the
  assignments before it have built (`results_eq`).  `evaluations` lists these, and is what programs are
  compared by.

  What one instruction does is said once, in `step_cases`, for namespaces that are `Regular`.  Runs of
  different kinds are compared by their `Course`, which is what can be seen of them: two ways to act
  that give the same, one item after the other, have one course (`course_drain`).
-/
import Reckoner.Proofs.Writable
import Reckoner.Run

namespace Reckoner

/-- The result that an outcome is, where faults do not occur. -/
def Result.of : Except Failure Number → Result
  | .ok x => value x
  | .error f => diagnostic f

/-- What a program gives when it is run from the empty namespace. -/
def results (p : List (Instruction Expr)) : List Result :=
  ((Results.start ∅ (p.map Except.ok)).drain (perform (ε := Empty))).1.map (·.1)

/-- The evaluations of a program, each with the namespace in which it is made. -/
def evaluations (ns : Namespace Expr) : List (Instruction Expr) → List (Namespace Expr × Expr)
  | [] => []
  | .assign x e :: rest =>
    match specialize ns e with
    | .ok e' => evaluations (ns.bind x e') rest
    | .error _ => []
  | .evaluate e :: rest => (ns, e) :: evaluations ns rest
  | .missing :: _ => []

variable {ns : Namespace Expr}

/-- Behind an assignment the evaluations are made with the name bound to what is left. -/
theorem evaluations_assign {x : String} {e e' : Expr} (hs : specialize ns e = .ok e')
    (p : List (Instruction Expr)) :
    evaluations ns (.assign x e :: p) = evaluations (ns.bind x e') p := by
  simp only [evaluations, hs]

/-! ## Namespaces without faults -/

/-- A namespace in which nothing leads to a fault: no constant is bound as a name, and all operators have
    arithmetic. -/
structure Namespace.Regular (ns : Namespace Expr) : Prop where
  unreserved : ns.Unreserved
  arithmetic : ns.Arithmetic

/-- A namespace that lines can build is regular. -/
theorem Namespace.Writable.regular (h : ns.Writable) : ns.Regular := ⟨h.unreserved, h.arithmetic⟩

/-- Binding a name that is no constant to an expression with arithmetic keeps a namespace regular. -/
theorem Namespace.Regular.bind (h : ns.Regular) {x : String} (hx : ∀ c : Constructor, c.key ≠ x)
    {e : Expr} (he : e.isArithmetic = true) : (ns.bind x e).Regular :=
  ⟨h.unreserved.bind hx e, h.arithmetic.bind x he⟩

/-- In a regular namespace every outcome of an evaluation is a result. -/
theorem ofOutcome_evaluate (hns : ns.Regular) {e : Expr} (he : e.isArithmetic = true) :
    Result.ofOutcome (evaluate ns e) = .ok (Result.of (evaluate ns e)) := by
  cases hv : evaluate ns e with
  | ok x => rfl
  | error f =>
    rw [evaluate_eq hns.unreserved] at hv
    have hf := recoverable_of_evaluateIn hns.unreserved hns.arithmetic he hv
    simp only [Result.ofOutcome, hf, if_true, Result.of]

/-! ## One instruction -/

/-- Performing an assignment binds the name to what is left of the expression. -/
theorem perform_assign {ε : Type} {x : String} {e e' : Expr} (hs : specialize ns e = .ok e') :
    perform (ε := ε) ns (.ok (.assign x e)) = (.ok none, ns.bind x e') := by
  simp only [perform, step, hs]
  rfl

/-- Performing an assignment whose expression cannot be specialized stops the run and binds nothing. -/
theorem perform_assign_error {ε : Type} {x : String} {e : Expr} {f : Failure}
    (hs : specialize ns e = .error f) :
    perform (ε := ε) ns (.ok (.assign x e)) = (.error (.fatal f), ns) := by
  simp only [perform, step, hs]
  rfl

/-- Performing an evaluation gives a result and keeps the namespace. -/
theorem perform_evaluate {ε : Type} (hns : ns.Writable) {e : Expr} (he : e.isWritable = true) :
    perform (ε := ε) ns (.ok (.evaluate e)) = (.ok (some (Result.of (evaluate ns e))), ns) := by
  simp only [perform, step, ofOutcome_evaluate hns.regular (Expr.isArithmetic_of_isWritable he)]
  rfl

/-- An instruction that can be executed is performed so. -/
theorem perform_of_step {ε : Type} {ns' : Namespace Expr} {i : Instruction Expr} {r : Option Result}
    (h : step ns i = .ok (ns', r)) : perform (ε := ε) ns (.ok i) = (.ok r, ns') := by
  rw [perform, h]

/-- **What one instruction does** that can be written down.  An assignment binds its name to what is
    left of its expression, and an evaluation gives the outcome of it; neither fails, and the namespace
    stays regular. -/
theorem step_cases (hns : ns.Regular) {i : Instruction Expr} (hi : i.isWritable = true) :
    (∃ x e e', i = .assign x e ∧ specialize ns e = .ok e' ∧ (ns.bind x e').Regular ∧
        step ns i = .ok (ns.bind x e', none)) ∨
      ∃ e, i = .evaluate e ∧ e.isArithmetic = true ∧
        step ns i = .ok (ns, some (Result.of (evaluate ns e))) := by
  cases i with
  | assign x e =>
    -- a name that can be written is none of the constants, so binding it keeps the namespace regular
    obtain ⟨hx, hw⟩ := (Bool.and_eq_true _ _).mp hi
    have he := Expr.isArithmetic_of_isWritable hw
    obtain ⟨e', hs⟩ := exists_specialize hns.arithmetic he
    refine Or.inl ⟨x, e, e', rfl, hs, ?_, ?_⟩
    · exact hns.bind (key_ne_of_isName hx) (isArithmetic_specialize hns.arithmetic hs he)
    · rw [step, hs]
      rfl
  | evaluate e =>
    have he : e.isArithmetic = true := Expr.isArithmetic_of_isWritable hi
    refine Or.inr ⟨e, rfl, he, ?_⟩
    rw [step, ofOutcome_evaluate hns he]
    rfl
  | missing => cases hi

/-! ## All instructions

  `next` goes on until there is a result or an end, and `drain` calls it until there is an end.  The
  equations say what comes of the first item of the source, by what acting on it gives: an error stops
  the run, no result is passed over, and a result is handed out. -/

section Drain

variable {σ ι ε : Type} {act : σ → ι → Except (Stop ε) (Option Result) × σ}

/-- Where nothing comes next, there is nothing to drain. -/
theorem drain_none {rs rs' : Results σ ι ε} (h : rs.next act = (none, rs')) :
    rs.drain act = ([], rs') := by
  rw [Results.drain]
  split
  · rename_i _ hn
    rw [h] at hn
    cases hn
    rfl
  · rename_i _ _ hn
    rw [h] at hn
    cases hn

/-- Where a result comes next, the others come behind it. -/
theorem drain_some {rs rs' : Results σ ι ε} {r : Result} (h : rs.next act = (some r, rs')) :
    rs.drain act = ((r, rs') :: (rs'.drain act).1, (rs'.drain act).2) := by
  rw [Results.drain]
  split
  · rename_i _ hn
    rw [h] at hn
    cases hn
  · rename_i _ _ hn
    rw [h] at hn
    cases hn
    rfl

/-- Two runs with the same next result, and the same run behind it, have the same results. -/
theorem drain_congr {rs rs' : Results σ ι ε} (h : rs.next act = rs'.next act) :
    rs.drain act = rs'.drain act := by
  cases hn : rs'.next act with
  | mk r? behind =>
    rw [hn] at h
    cases r? with
    | none => rw [drain_none h, drain_none hn]
    | some r => rw [drain_some h, drain_some hn]

variable {s : σ} {i : ι}

/-- At the end of its source a run ends. -/
theorem next_nil (s : σ) (reads : Nat) :
    (Results.mk s [] reads .running).next act = (none, ⟨s, [], reads + 1, .ended⟩) := rfl

/-- What is read next stops the run. -/
theorem next_error {c : Stop ε} (h : (act s i).1 = .error c) (rest : List ι) (reads : Nat) :
    (Results.mk s (i :: rest) reads .running).next act =
      (none, ⟨(act s i).2, rest, reads + 1, .stopped c⟩) := by
  rw [Results.next, Results.advance, show act s i = (.error c, (act s i).2) from Prod.ext h rfl]

/-- What is read next gives no result. -/
theorem next_silent (h : (act s i).1 = .ok none) (rest : List ι) (reads : Nat) :
    (Results.mk s (i :: rest) reads .running).next act =
      (Results.mk (act s i).2 rest (reads + 1) .running).next act := by
  rw [Results.next, Results.advance, show act s i = (.ok none, (act s i).2) from Prod.ext h rfl]
  rfl

/-- What is read next gives a result. -/
theorem next_result {r : Result} (h : (act s i).1 = .ok (some r)) (rest : List ι) (reads : Nat) :
    (Results.mk s (i :: rest) reads .running).next act =
      (some r, ⟨(act s i).2, rest, reads + 1, .running⟩) := by
  rw [Results.next, Results.advance, show act s i = (.ok (some r), (act s i).2) from Prod.ext h rfl]

/-- An empty source gives no result. -/
theorem drain_nil (s : σ) (reads : Nat) :
    (Results.mk s [] reads .running).drain act = ([], ⟨s, [], reads + 1, .ended⟩) :=
  drain_none (next_nil s reads)

/-- An item that stops the run is the last that is read. -/
theorem drain_error {c : Stop ε} (h : (act s i).1 = .error c) (rest : List ι) (reads : Nat) :
    (Results.mk s (i :: rest) reads .running).drain act =
      ([], ⟨(act s i).2, rest, reads + 1, .stopped c⟩) :=
  drain_none (next_error h rest reads)

/-- An item without a result only changes the state. -/
theorem drain_silent (h : (act s i).1 = .ok none) (rest : List ι) (reads : Nat) :
    (Results.mk s (i :: rest) reads .running).drain act =
      (Results.mk (act s i).2 rest (reads + 1) .running).drain act :=
  drain_congr (next_silent h rest reads)

/-- An item with a result gives it first, with the run as it stands right after it. -/
theorem drain_result {r : Result} (h : (act s i).1 = .ok (some r)) (rest : List ι) (reads : Nat) :
    (Results.mk s (i :: rest) reads .running).drain act =
      ((r, ⟨(act s i).2, rest, reads + 1, .running⟩) ::
          ((Results.mk (act s i).2 rest (reads + 1) .running).drain act).1,
        ((Results.mk (act s i).2 rest (reads + 1) .running).drain act).2) :=
  drain_some (next_result h rest reads)

end Drain

/-! ## Courses -/

/-- What can be seen of a run: its results, each with the state and the number of readings right after
    it, the state and the number of readings at the end, and how it came to an end. -/
structure Course (τ ε : Type) where
  results : List (Result × τ × Nat)
  state : τ
  reads : Nat
  status : Status ε

/-- The course of a run, of whose states `view` is seen. -/
def Results.course {σ τ ι ε : Type} (view : σ → τ) (ran : List (Result × Results σ ι ε) × Results σ ι ε) :
    Course τ ε where
  results := ran.1.map fun p => (p.1, view p.2.state, p.2.reads)
  state := view ran.2.state
  reads := ran.2.reads
  status := ran.2.status

/-- A result in front of a course. -/
theorem Results.course_cons {σ τ ι ε : Type} (view : σ → τ) (p : Result × Results σ ι ε)
    (ran : List (Result × Results σ ι ε) × Results σ ι ε) :
    course view (p :: ran.1, ran.2) =
      { course view ran with results := (p.1, view p.2.state, p.2.reads) :: (course view ran).results } :=
      rfl

section Simulation

variable {σ τ ι κ ε : Type} {act : σ → ι → Except (Stop ε) (Option Result) × σ}
  {act' : τ → κ → Except (Stop ε) (Option Result) × τ}

/-- **Runs beside each other.**  If two ways to act give the same on states that belong together, and
    leave states that belong together, then two runs from such states have one course. -/
theorem course_drain {R : σ → τ → Prop} {view : σ → τ} {hears : ι → κ}
    (hview : ∀ s t, R s t → view s = t)
    (hact : ∀ s t i, R s t →
      (act s i).1 = (act' t (hears i)).1 ∧ R (act s i).2 (act' t (hears i)).2)
    {s : σ} {t : τ} (h : R s t) (source : List ι) (reads : Nat) :
    Results.course view ((Results.mk s source reads .running).drain act) =
      Results.course id ((Results.mk t (source.map hears) reads .running).drain act') := by
  induction source generalizing s t reads with
  | nil =>
    rw [List.map_nil, drain_nil, drain_nil, Results.course, Results.course, hview s t h]
    rfl
  | cons i rest ih =>
    obtain ⟨hsame, hnext⟩ := hact s t i h
    have hstate := hview _ _ hnext
    rw [List.map_cons]
    cases ho : (act s i).1 with
    | error c =>
      rw [drain_error ho, drain_error (hsame ▸ ho), Results.course, Results.course, hstate]
      rfl
    | ok r? =>
      have hrest := ih hnext (reads + 1)
      cases r? with
      | none => rw [drain_silent ho, drain_silent (hsame ▸ ho), hrest]
      | some r =>
        rw [drain_result ho, drain_result (hsame ▸ ho), Results.course_cons, Results.course_cons,
          hrest, hstate]
        rfl

end Simulation

/-! ## The results of a program -/

/-- What is left to give of a run that stands at a namespace, before the instructions `p`. -/
theorem drain_eq (hns : ns.Writable) {p : List (Instruction Expr)} (hp : ∀ i ∈ p, i.isWritable = true)
    (reads : Nat) :
    ((Results.mk ns (p.map Except.ok) reads .running).drain (perform (ε := Empty))).1.map (·.1) =
      (evaluations ns p).map fun q => Result.of (evaluate q.1 q.2) := by
  induction p generalizing ns reads with
  | nil =>
    rw [List.map_nil, drain_nil]
    rfl
  | cons i rest ih =>
    obtain ⟨hi, hrest⟩ := List.forall_mem_cons.1 hp
    cases i with
    | assign x e =>
      -- an assignment gives no result: the next one is found behind it
      obtain ⟨hx, he⟩ := (Bool.and_eq_true _ _).mp hi
      obtain ⟨e', hs⟩ := exists_specialize hns.arithmetic (Expr.isArithmetic_of_isWritable he)
      have hact := perform_assign (ε := Empty) (x := x) hs
      rw [List.map_cons, drain_silent (congrArg Prod.fst hact), hact,
        ih (hns.bind hx (hns.specialize hs he)) hrest, evaluations_assign hs]
    | evaluate e =>
      have hact := perform_evaluate (ε := Empty) hns hi
      rw [List.map_cons, drain_result (congrArg Prod.fst hact), hact, List.map_cons, ih hns hrest]
      rfl
    | missing => cases hi

/-- **The results of a program** are the outcomes of its evaluations. -/
theorem results_eq {p : List (Instruction Expr)} (hp : ∀ i ∈ p, i.isWritable = true) :
    results p = (evaluations ∅ p).map fun q => Result.of (evaluate q.1 q.2) :=
  drain_eq writable_empty hp 0

end Reckoner
