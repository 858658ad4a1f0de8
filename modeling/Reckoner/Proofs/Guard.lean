/-
  The guard against cycles is exact.  An evaluation keeps one set of names for all that is evaluated
  inside it, and reports a recursion when it meets a name of the set.  A name comes into the set when
  its binding is entered and leaves it when the binding is done, whatever came of it, so the set holds
  the bindings that are open and no other name (`Engine.execute_code`): a name that stands in both
  operands is entered twice, one after the other.

  Without the guard an evaluation goes on into every binding (`Unfolds`).  `Guarded` compares the two
  outcome by outcome: what unfolding comes to is what comes out, and a recursion is reported exactly
  where unfolding comes to nothing.
-/
import Reckoner.Proofs.Engine
import Reckoner.Proofs.Unfolding

namespace Reckoner

/-- `Guarded ns e out` — the outcome `out` of a guarded evaluation of `e` is the one that unfolding
    comes to, and a recursion if there is none. -/
structure Guarded (ns : Namespace Expr) (e : Expr) (out : Except Failure Number) : Prop where
  value : ∀ v, out = .ok v ↔ Unfolds ns e (.ok v)
  unbound : ∀ x, out = .error (.unbound x) ↔ Unfolds ns e (.error (.unbound x))
  divisionByZero : out = .error .divisionByZero ↔ Unfolds ns e (.error .divisionByZero)
  recursive : (∃ x, out = .error (.recursive x)) ↔ ∀ o, ¬Unfolds ns e o
  fault : ∀ c, out ≠ .error (.fault c)

variable {ns : Namespace Expr} {e : Expr}

theorem guarded_evaluateIn (h : ns.Unreserved) (hns : ns.Arithmetic) (he : e.isArithmetic = true) :
    Guarded ns e (evaluateIn ns [] e) where
  value v := evaluateIn_eq_iff_unfolds h (by rintro _ ⟨⟩)
  unbound x := evaluateIn_eq_iff_unfolds h (by rintro _ ⟨⟩)
  divisionByZero := evaluateIn_eq_iff_unfolds h (by rintro _ ⟨⟩)
  recursive := by
    constructor
    · rintro ⟨x, hx⟩ o
      exact not_unfolds_of_recursive h hx
    · exact exists_recursive_of_not_unfolds h
  fault c hc := by cases recoverable_of_evaluateIn h hns he hc

/-- **The guard is exact.**  If no constant is bound as a name and all operators have arithmetic, an
    evaluation gives the number, the missing name or the division by zero that evaluating without a
    guard comes to, and no other; and it reports a recursion exactly if evaluating without a guard never
    comes to an end.  The engine, in which all evaluations that are open share one set of names, does so
    for any nodes of the same form. -/
theorem evaluate_guarded (h : ns.Unreserved) (hns : ns.Arithmetic) (he : e.isArithmetic = true) :
    Guarded ns e (evaluate ns e) ∧
      ∀ (en : Engine) (bindings : Namespace Node) (n : Node), bindings.exprs = ns → n.expr = e →
        Guarded ns e (en.evaluate bindings n).1 := by
  have hplain : Guarded ns e (evaluate ns e) := by
    rw [evaluate_eq h]
    exact guarded_evaluateIn h hns he
  refine ⟨hplain, ?_⟩
  rintro en bindings n rfl rfl
  rw [(en.evaluate_eq bindings n).1]
  exact hplain

/-- `x` is bound to `y * y`, `y` to `3`, and `z` to `x - z`. -/
def tangle : Namespace Node :=
  (((∅ : Namespace Node).bind "x" (.binary 2 .mul (.reference 0 "y") (.reference 1 "y"))).bind
    "y" (.integer 3 3)).bind "z" (.binary 6 .sub (.reference 4 "x") (.reference 5 "z"))

/-- In `tangle` a name may be met twice: `x + x` unfolds to `18`.  The name `z` unfolds to nothing,
    which the engine notices; and yet `w + z` unfolds to the missing name `w`, which is met first. -/
theorem evaluate_guarded_tangle :
    tangle.exprs.Unreserved ∧ tangle.exprs.Arithmetic ∧
      Unfolds tangle.exprs (.binary .add (.reference "x") (.reference "x")) (.ok (.int 18)) ∧
      (∀ o, ¬Unfolds tangle.exprs (.reference "z") o) ∧
      (∃ x, (({} : Engine).evaluate tangle (.reference 7 "z")).1 = .error (.recursive x)) ∧
      Unfolds tangle.exprs (.binary .add (.reference "w") (.reference "z")) (.error (.unbound "w")) := by
  have hunreserved : tangle.exprs.Unreserved := by
    intro c
    cases c <;> decide
  have harithmetic : tangle.exprs.Arithmetic :=
    ((arithmetic_empty.bind "x" rfl).bind "y" rfl).bind "z" rfl
  have hexprs : tangle.exprs =
      (((∅ : Namespace Expr).bind "x" (.binary .mul (.reference "y") (.reference "y"))).bind
        "y" (.integer 3)).bind "z" (.binary .sub (.reference "x") (.reference "z")) := rfl
  have hz : ∀ o, ¬Unfolds tangle.exprs (.reference "z") o :=
    (evaluate_guarded hunreserved harithmetic rfl).1.recursive.1 ⟨"z", by rw [hexprs]; cbv⟩
  refine ⟨hunreserved, harithmetic, ?_, hz, ?_, ?_⟩
  · exact ((evaluate_guarded hunreserved harithmetic rfl).1.value _).1 (by rw [hexprs]; cbv)
  · exact ((evaluate_guarded hunreserved harithmetic rfl).2 {} tangle
      (.reference 7 "z") rfl rfl).recursive.2 hz
  · exact ((evaluate_guarded hunreserved harithmetic rfl).1.unbound _).1 (by rw [hexprs]; cbv)

end Reckoner
