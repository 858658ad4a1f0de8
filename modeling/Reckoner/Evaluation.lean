/-
  What an expression is worth in a namespace.  Names are looked up when the evaluation meets them, in the
  namespace of that moment, and what they are bound to is evaluated there and then; operands are evaluated
  from left to right and the first failure ends the evaluation.

  `active` holds the names whose bindings are being evaluated.  Meeting one of them again would never come
  to an end, and is the failure `recursive`.  The recursion itself ends because every binding that is
  entered adds a bound name to `active` that was not in it.
-/
import Reckoner.Cycle
import Reckoner.Expr

namespace Reckoner

instance : Mentions Expr := ⟨Expr.free⟩

/-- A constant that `e` is built through and that is bound as a name, if there is one. -/
def Namespace.clash? {α : Type} (ns : Namespace α) (e : Expr) : Option Constructor :=
  e.constants.find? fun c => ns.contains c.key

/-- The number that `e` stands for in `ns`, while the bindings of `active` are being evaluated. -/
def evaluateIn (ns : Namespace Expr) (active : List String) : Expr → Except Failure Number
  | .integer n => Constructor.int.apply [n]
  | .rational n d => Constructor.fraction.apply [n, d]
  | .reference x =>
    if x ∈ active then .error (.recursive x)
    else match _hb : ns.find? x with
      | none => .error (.unbound x)
      | some b =>
        match ns.clash? b with
        | some c => .error (.fault (.collision c.key))
        | none => evaluateIn ns (x :: active) b
  | .binary op l r => do
    let x ← evaluateIn ns active l
    let y ← evaluateIn ns active r
    Number.apply op x y
termination_by e => (ns.unseen active, sizeOf e)
decreasing_by
  · rename_i hs
    exact Prod.Lex.left _ _ (Namespace.unseen_cons_lt (Namespace.mem_names_of_find? _hb) hs)
  · exact Prod.Lex.right _ (by simp only [Expr.binary.sizeOf_spec]; omega)
  · exact Prod.Lex.right _ (by simp only [Expr.binary.sizeOf_spec]; omega)

/-- The number that `e` stands for in `ns`. -/
def evaluate (ns : Namespace Expr) (e : Expr) : Except Failure Number :=
  match ns.clash? e with
  | some c => .error (.fault (.collision c.key))
  | none => evaluateIn ns [] e

end Reckoner
