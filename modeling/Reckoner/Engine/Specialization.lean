/-
  Specializing nodes.  A node that nothing applies to comes back as itself, with its number; every other
  result is a node of the namespace or a new one.
-/
import Reckoner.Engine.Execution

namespace Reckoner.Engine

/-- The literal of `op` applied to two known operands, as a new node; `none` if they cannot be evaluated
    on their own or the operation fails.  Faults are passed on. -/
def fold (en : Engine) (op : Operator) (l r : Node) : Except Failure (Option Node) × Engine :=
  let refuse (f : Failure) : Except Failure (Option Node) := if f.recoverable then .ok none else .error f
  let left := en.evaluate ∅ l
  match left.1 with
  | .error f => (refuse f, left.2)
  | .ok x =>
    let right := left.2.evaluate ∅ r
    match right.1 with
    | .error f => (refuse f, right.2)
    | .ok y =>
      match Number.apply op x y with
      | .error f => (refuse f, right.2)
      | .ok z =>
        let placed := right.2.place (.ofNumber z)
        (.ok (some placed.1), placed.2)

/-- Combine two specialized operands of the operation `n`: a new node if one of them is new, and the
    literal of their number if both are literals. -/
def combine (en : Engine) (n : Node) (op : Operator) (changed : Bool) (l r : Node) :
    Except Failure Node × Engine :=
  let joined := if changed then en.join op l r else (n, en)
  if l.isLiteral && r.isLiteral then
    let folded := joined.2.fold op l r
    match folded.1 with
    | .ok (some e) => (.ok e, folded.2)
    | .ok none => (.ok joined.1, folded.2)
    | .error f => (.error f, folded.2)
  else (.ok joined.1, joined.2)

/-- The node that is left of `n` when all that `ns` says has been worked in. -/
def specialize (en : Engine) (ns : Namespace Node) (n : Node) : Except Failure Node × Engine :=
  match n with
  | .integer i k => (.ok (.integer i k), en)
  | .rational i k d => (.ok (.rational i k d), en)
  | .reference i x =>
    match _hb : ns.find? x with
    | none => (.ok (.reference i x), en)
    | some b => if ns.onCycle x then (.ok (.reference i x), en) else specialize en ns b
  | .binary i op l r =>
    let left := specialize en ns l
    match left.1 with
    | .error f => (.error f, left.2)
    | .ok l' =>
      let right := specialize left.2 ns r
      match right.1 with
      | .error f => (.error f, right.2)
      -- an operand has changed when another node came back for it
      | .ok r' => right.2.combine (.binary i op l r) op (l'.id ≠ l.id || r'.id ≠ r.id) l' r'
termination_by (ns.rank n.free, sizeOf n)
decreasing_by
  · rename_i hc
    exact Prod.Lex.left _ _ (Namespace.rank_reads_lt _hb (by simpa using hc))
  · refine Prod.Lex.right' _ ?_ ?_
    · exact Namespace.rank_mono fun x hx => List.mem_append_left _ hx
    · simp only [Node.binary.sizeOf_spec]; omega
  · refine Prod.Lex.right' _ ?_ ?_
    · exact Namespace.rank_mono fun x hx => List.mem_append_right _ hx
    · simp only [Node.binary.sizeOf_spec]; omega

end Reckoner.Engine
