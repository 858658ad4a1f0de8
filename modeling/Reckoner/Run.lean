/-
  Running a program.  A source is described by what its successive readings bring, and the end ever
  after.  `Results` walks along a source on demand: each `next` reads just as far as the next result, so
  a program can be run while it is still being written.  `reads` counts the readings, the one that finds
  the end included.

  What a reading brings and what is done with it is a parameter, `act`: it turns the state and may give a
  result or stop the run.  For instructions that have been read the state is the namespace, and `perform`
  executes them.
-/
import Reckoner.Instruction
import Reckoner.Specialization

namespace Reckoner

/-- Execute one instruction: the namespace after it, and the result if it evaluates. -/
def step (ns : Namespace Expr) : Instruction Expr → Except Failure (Namespace Expr × Option Result)
  | .assign x e => do
    let e' ← specialize ns e
    return (ns.bind x e', none)
  | .evaluate e => do
    let r ← Result.ofOutcome (evaluate ns e)
    return (ns, some r)
  | .missing => .error (.fault .noInstruction)

/-- What the readings of a source give, one after the other, before its end. -/
abbrev Readings (ε α : Type) := List (Except ε (Instruction α))

/-- Why a run stopped short. -/
inductive Stop (ε : Type)
  /-- A reading gave an error. -/
  | unread (cause : ε)
  /-- An instruction met a fault. -/
  | fatal (cause : Failure)
  deriving DecidableEq, Repr

/-- Where a run stands. -/
inductive Status (ε : Type)
  | running
  | ended
  | stopped (cause : Stop ε)
  deriving DecidableEq, Repr

/-- A run that gives its results one at a time. -/
structure Results (σ ι ε : Type) where
  state : σ
  source : List ι
  reads : Nat
  status : Status ε

namespace Results

variable {σ ι ε : Type}

/-- The run of a source before anything is read. -/
def start (state : σ) (source : List ι) : Results σ ι ε := ⟨state, source, 0, .running⟩

variable (act : σ → ι → Except (Stop ε) (Option Result) × σ)

/-- Read and act up to the next result. -/
def advance (state : σ) (reads : Nat) : List ι → Option Result × Results σ ι ε
  | [] => (none, ⟨state, [], reads + 1, .ended⟩)
  | i :: rest =>
    match act state i with
    | (.error c, state') => (none, ⟨state', rest, reads + 1, .stopped c⟩)
    | (.ok (some r), state') => (some r, ⟨state', rest, reads + 1, .running⟩)
    | (.ok none, state') => advance state' (reads + 1) rest

/-- The next result, if there is one.  A run that has ended or stopped reads nothing more. -/
def next (rs : Results σ ι ε) : Option Result × Results σ ι ε :=
  match rs.status with
  | .running => advance act rs.state rs.reads rs.source
  | _ => (none, rs)

variable {act}

theorem advance_source_lt {state : σ} {reads : Nat} {source : List ι} {r : Result} {rs : Results σ ι ε}
    (h : advance act state reads source = (some r, rs)) : rs.source.length < source.length := by
  fun_induction advance act state reads source with
  | case1 => simp at h
  | case2 => simp at h
  | case3 =>
    simp only [Prod.mk.injEq] at h
    rw [← h.2]
    simp
  | case4 _ _ _ _ _ _ ih => exact Nat.lt_succ_of_lt (ih h)

theorem next_source_lt {rs rs' : Results σ ι ε} {r : Result} (h : rs.next act = (some r, rs')) :
    rs'.source.length < rs.source.length := by
  unfold next at h
  split at h
  · exact advance_source_lt h
  · simp at h

variable (act)

/-- All results that are left, each with the run right after it, and the run at its end. -/
def drain (rs : Results σ ι ε) : List (Result × Results σ ι ε) × Results σ ι ε :=
  match _h : rs.next act with
  | (none, rs') => ([], rs')
  | (some r, rs') =>
    let more := drain rs'
    ((r, rs') :: more.1, more.2)
termination_by rs.source.length
decreasing_by exact next_source_lt _h

end Results

/-- Execute what a reading has given. -/
def perform {ε : Type} (ns : Namespace Expr) (reading : Except ε (Instruction Expr)) :
    Except (Stop ε) (Option Result) × Namespace Expr :=
  match reading with
  | .error e => (.error (.unread e), ns)
  | .ok i =>
    match step ns i with
    | .error f => (.error (.fatal f), ns)
    | .ok (ns', r) => (.ok r, ns')

end Reckoner
