/-
  Executing code.  `Execution` is what all nested executions share: the engine, and the set of names
  whose bindings are being evaluated.  A look-up puts its name into the set, evaluates the binding, and
  takes the name out again whatever came of it.

  `depth` bounds how many bindings are open inside each other.  Every open binding has a name of its own
  in the set, so the number of bound names is bound enough, and `evaluate` starts from it.
-/
import Reckoner.Engine.State

namespace Reckoner

/-- What nested executions share. -/
structure Execution where
  engine : Engine
  /-- The names whose bindings are being evaluated. -/
  active : List String

namespace Execution

/-- A binding is entered. -/
def enter (st : Execution) (x : String) : Execution := { st with active := x :: st.active }

/-- A binding is left: its name is not in the set any more. -/
def leave (st : Execution) (x : String) : Execution := { st with active := st.active.filter (· ≠ x) }

/-- Leaving undoes entering, for a name that was not in the set before. -/
theorem active_leave {st : Execution} {x : String} {active : List String} (hx : x ∉ active)
    (h : st.active = x :: active) : (st.leave x).active = active := by
  have hkeep : ∀ y ∈ active, decide (y ≠ x) = true := by
    intro y hy
    exact decide_eq_true fun heq => hx (heq ▸ hy)
  show st.active.filter (· ≠ x) = active
  rw [h, List.filter_cons_of_neg (by simp), List.filter_eq_self.2 hkeep]

end Execution

namespace Engine

/-- Execute code in a namespace with some constants at hand. -/
def execute (ns : Namespace Node) (depth : Nat) (atHand : List String) (code : Code) (st : Execution) :
    Except Failure Number × Execution :=
  match code with
  | .literal c args => (Code.build atHand c args, st)
  | .lookup x =>
    if x ∈ st.active then (.error (.recursive x), st)
    else match ns.find? x with
      | none => (.error (.unbound x), st)
      | some b =>
        match depth with
        | 0 => (.error (.recursive x), st)
        | d + 1 =>
          let opened := st.enter x
          -- whatever happens from here on, `x` is taken out again
          match ns.clash? b.expr with
          | some c => (.error (.fault (.collision c.key)), opened.leave x)
          | none =>
            let outcome :=
              execute ns d b.constants b.code { opened with engine := opened.engine.compile b }
            (outcome.1, outcome.2.leave x)
  | .operation op l r =>
    let left := execute ns depth atHand l st
    match left.1 with
    | .error f => (.error f, left.2)
    | .ok x =>
      let right := execute ns depth atHand r left.2
      match right.1 with
      | .error f => (.error f, right.2)
      | .ok y => (Number.apply op x y, right.2)
termination_by (depth, code)

/-- The number that a node stands for in a namespace. -/
def evaluate (en : Engine) (ns : Namespace Node) (n : Node) : Except Failure Number × Engine :=
  match ns.clash? n.expr with
  | some c => (.error (.fault (.collision c.key)), en)
  | none =>
    let outcome := execute ns ns.size n.constants n.code ⟨en.compile n, []⟩
    (outcome.1, outcome.2.engine)

end Engine

end Reckoner
