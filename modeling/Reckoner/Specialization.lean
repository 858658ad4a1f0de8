/-
  Specialization: what can be done with an expression before it is evaluated.  A bound name is replaced
  by its binding, which is specialized in turn; an operation on two literals is replaced by the literal
  of its number.  A name on a cycle stays, so that evaluating it reports the cycle, and an operation
  that fails stays, so that evaluating it reports the failure.

  Replacing names ends because a name on no cycle is bound to something of smaller rank.
-/
import Reckoner.Evaluation

namespace Reckoner

/-- The literal of `op` applied to two known operands, or `none` if they cannot be evaluated on their own
    or the operation fails.  Faults are passed on. -/
def fold (op : Operator) (l r : Expr) : Except Failure (Option Expr) :=
  let outcome := do
    let x ← evaluate ∅ l
    let y ← evaluate ∅ r
    Number.apply op x y
  match outcome with
  | .ok z => .ok (some (.ofNumber z))
  | .error f => if f.recoverable then .ok none else .error f

/-- Combine two specialized operands: fold them if both are literals. -/
def combine (op : Operator) (l r : Expr) : Except Failure Expr :=
  if l.isLiteral && r.isLiteral then
    match fold op l r with
    | .ok (some e) => .ok e
    | .ok none => .ok (.binary op l r)
    | .error f => .error f
  else .ok (.binary op l r)

/-- The expression that is left of `e` when all that `ns` says has been worked in. -/
def specialize (ns : Namespace Expr) : Expr → Except Failure Expr
  | .integer n => .ok (.integer n)
  | .rational n d => .ok (.rational n d)
  | .reference x =>
    match _hb : ns.find? x with
    | none => .ok (.reference x)
    -- a name on a cycle stays: evaluating it reports the cycle
    | some b => if ns.onCycle x then .ok (.reference x) else specialize ns b
  | .binary op l r => do
    let l' ← specialize ns l
    let r' ← specialize ns r
    combine op l' r'
termination_by e => (ns.rank e.free, sizeOf e)
decreasing_by
  · rename_i hc
    exact Prod.Lex.left _ _ (Namespace.rank_reads_lt _hb (by simpa using hc))
  · refine Prod.Lex.right' _ ?_ ?_
    · exact Namespace.rank_mono fun x hx => List.mem_append_left _ hx
    · simp only [Expr.binary.sizeOf_spec]; omega
  · refine Prod.Lex.right' _ ?_ ?_
    · exact Namespace.rank_mono fun x hx => List.mem_append_right _ hx
    · simp only [Expr.binary.sizeOf_spec]; omega

end Reckoner
