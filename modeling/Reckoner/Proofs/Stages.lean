/-
  Specialization in stages.  An expression may be specialized while only some of its names are bound,
  and be evaluated when more are.  A name on no cycle then may lie on one by the time of the evaluation,
  so the test that kept specialization from going round and the guard of the evaluation see different
  bindings.

  Unfolding is what both have in common: a name and its binding unfold alike, with the later bindings as
  with the earlier ones, and a literal unfolds to its number (`unfolds_specialize`).  So the outcome is
  the same where unfolding has an end.  Where it has none both evaluations report a recursion, but
  specialization has gone some of the way already, and the name that is met twice may be another one of
  the same round.
-/
import Reckoner.Proofs.Specialization
import Reckoner.Proofs.Unfolding

namespace Reckoner

/-- Every binding of the one namespace is a binding of the other. -/
def Namespace.Within {α : Type} (ns ns' : Namespace α) : Prop :=
  ∀ x a, ns.find? x = some a → ns'.find? x = some a

variable {ns ns' : Namespace Expr} {e e' : Expr} {o : Except Failure Number}

theorem Namespace.Within.arithmetic (hsub : ns.Within ns') (hns' : ns'.Arithmetic) : ns.Arithmetic :=
  fun x b hb => hns' x b (hsub x b hb)

/-- Expressions that unfold to one outcome unfold alike. -/
theorem Unfolds.congr {v : Except Failure Number} (h : Unfolds ns e v) (h' : Unfolds ns e' v) :
    Unfolds ns e' o ↔ Unfolds ns e o := by
  constructor
  · intro ho
    rwa [ho.unique h']
  · intro ho
    rwa [ho.unique h]

/-- Operands put together unfold as the operation on them does. -/
theorem unfolds_combine (h : ns.Unreserved) {op : Operator} {l r : Expr}
    (hcomb : combine op l r = .ok e') :
    Unfolds ns e' o ↔ Unfolds ns (.binary op l r) o := by
  rcases combine_cases hcomb with rfl | ⟨z, hl, hr, hz, rfl⟩
  · exact Iff.rfl
  · have hbefore : evaluateIn ns [] (.binary op l r) = .ok z := by
      rw [evaluateIn_operation_of_literals hl hr, hz]
    have hafter : evaluateIn ns [] (.ofNumber z) = .ok z := evaluateIn_ofNumber ns [] z
    have hne : ∀ x, (Except.ok z : Except Failure Number) ≠ .error (.recursive x) := by rintro _ ⟨⟩
    exact Unfolds.congr (unfolds_of_evaluateIn h hbefore hne) (unfolds_of_evaluateIn h hafter hne)

/-- **What is left unfolds as the expression does**, with all later bindings. -/
theorem unfolds_specialize (h : ns'.Unreserved) (hsub : ns.Within ns') (hs : specialize ns e = .ok e') :
    ∀ o, Unfolds ns' e' o ↔ Unfolds ns' e o := by
  refine specialize_induction (P := fun e e' => ∀ o, Unfolds ns' e' o ↔ Unfolds ns' e o)
    (fun _ _ _ => Iff.rfl) (fun _ _ _ => Iff.rfl) ?_ ?_ hs
  · intro x b b' hb _ ih o
    rw [Unfolds.reference_iff (hsub x b hb)]
    exact ih o
  · intro op l r l' r' e' ihl ihr hcomb o
    rw [unfolds_combine h hcomb]
    exact Unfolds.binary_congr ihl ihr

/-- Where what is left hangs, the expression comes as well: it has only passed more names on its way. -/
theorem hangs_specialize (h : ns'.Unreserved) (hsub : ns.Within ns') (hs : specialize ns e = .ok e')
    {z : String} (hz : Hangs ns' e' z) : ∃ y, Hangs ns' e y ∧ Relation.ReflTransGen (Passes ns') y z := by
  -- the unfolding of the parts is carried along, for a right operand is come to behind a number only
  refine (specialize_induction
    (P := fun e e' => (∀ o, Unfolds ns' e' o ↔ Unfolds ns' e o) ∧
      ∀ z, Hangs ns' e' z → ∃ y, Hangs ns' e y ∧ Relation.ReflTransGen (Passes ns') y z)
    ?_ ?_ ?_ ?_ hs).2 z hz
  · intro e _
    exact ⟨fun _ => Iff.rfl, fun z hz => ⟨z, hz, .refl⟩⟩
  · intro x _
    exact ⟨fun _ => Iff.rfl, fun z hz => ⟨z, hz, .refl⟩⟩
  · intro x b b' hb _ ih
    obtain ⟨hunfold, ih⟩ := ih
    have hx : ∀ o, Unfolds ns' b' o ↔ Unfolds ns' (.reference x) o := fun o => by
      rw [Unfolds.reference_iff (hsub x b hb)]
      exact hunfold o
    refine ⟨hx, fun z hz => ?_⟩
    obtain ⟨y, hy, hway⟩ := ih z hz
    have hend : ∀ o, ¬Unfolds ns' (.reference x) o := fun o ho => hz.not_unfolds ((hx o).2 ho)
    exact ⟨x, .here hend, hway.head ⟨b, hsub x b hb, hy⟩⟩
  · intro op l r l' r' e' ⟨hl, ihl⟩ ⟨hr, ihr⟩ hcomb
    have hunfold : ∀ o, Unfolds ns' e' o ↔ Unfolds ns' (.binary op l r) o := fun o => by
      rw [unfolds_combine h hcomb]
      exact Unfolds.binary_congr hl hr
    refine ⟨hunfold, fun z hz => ?_⟩
    rcases combine_cases hcomb with rfl | ⟨v, _, _, _, rfl⟩
    · cases hz with
      | left hz =>
        obtain ⟨y, hy, hway⟩ := ihl z hz
        exact ⟨y, .left hy, hway⟩
      | right hv hz =>
        obtain ⟨y, hy, hway⟩ := ihr z hz
        exact ⟨y, .right ((hl _).1 hv) hy, hway⟩
    · -- a literal asks for no name
      have hmem := hz.mem_free
      rw [Expr.free_of_isLiteral (Expr.isLiteral_ofNumber v)] at hmem
      cases hmem

/-- Two expressions of which the one hangs on the way of the other report names of one round. -/
theorem one_round_of_recursive (h : ns.Unreserved) {x x' : String}
    (hway : ∀ z, Hangs ns e' z → ∃ y, Hangs ns e y ∧ Relation.ReflTransGen (Passes ns) y z)
    (hx : evaluateIn ns [] e = .error (.recursive x))
    (hx' : evaluateIn ns [] e' = .error (.recursive x')) :
    x' ∈ ns.reach (ns.reads x) ∧ x ∈ ns.reach (ns.reads x') := by
  obtain ⟨y, hy, hyx, hround⟩ := Passes.of_recursive h Looping.nil hx
  obtain ⟨z, hz, hzx', hround'⟩ := Passes.of_recursive h Looping.nil hx'
  obtain ⟨y', hy', hyz⟩ := hway z hz
  cases hy.unique hy'
  have hround := hround.resolve_left List.not_mem_nil
  have hround' := hround'.resolve_left List.not_mem_nil
  obtain ⟨hxx', hx'x⟩ := Passes.one_round hround hround' hyx (hyz.trans hzx')
  exact ⟨Passes.mem_reach hxx', Passes.mem_reach hx'x⟩

/-- **Specialization in stages is sound.**  Specializing an expression with some of the bindings and
    evaluating what is left with all of them has the outcome of evaluating the expression; or both
    report a recursion, of names that lead to one another.  So the one has a number exactly if the other
    has it. -/
theorem evaluate_specialize_within (h : ns'.Unreserved) (hns' : ns'.Arithmetic) (hsub : ns.Within ns')
    (he : e.isArithmetic = true) :
    ∃ e', specialize ns e = .ok e' ∧
      (evaluate ns' e' = evaluate ns' e ∨
        ∃ x x', evaluate ns' e = .error (.recursive x) ∧ evaluate ns' e' = .error (.recursive x') ∧
          x' ∈ ns'.reach (ns'.reads x) ∧ x ∈ ns'.reach (ns'.reads x')) ∧
      ∀ v, evaluate ns' e' = .ok v ↔ evaluate ns' e = .ok v := by
  obtain ⟨e', hs⟩ := exists_specialize (hsub.arithmetic hns') he
  have hunfold := unfolds_specialize h hsub hs
  refine ⟨e', hs, ?_, ?_⟩
  · rw [evaluate_eq h, evaluate_eq h]
    by_cases hend : ∃ x, evaluateIn ns' [] e = .error (.recursive x)
    · obtain ⟨x, hx⟩ := hend
      right
      have hend' : ∀ o, ¬Unfolds ns' e' o := fun o ho => not_unfolds_of_recursive h hx ((hunfold o).1 ho)
      obtain ⟨x', hx'⟩ := exists_recursive_of_not_unfolds h hend'
      exact ⟨x, x', hx, hx', one_round_of_recursive h (fun z hz => hangs_specialize h hsub hs hz) hx hx'⟩
    · left
      have hne : ∀ x, evaluateIn ns' [] e ≠ .error (.recursive x) := fun x hx => hend ⟨x, hx⟩
      exact (evaluateIn_eq_iff_unfolds h hne).2 ((hunfold _).2 (unfolds_of_evaluateIn h rfl hne))
  · intro v
    have hne : ∀ x, (Except.ok v : Except Failure Number) ≠ .error (.recursive x) := by rintro _ ⟨⟩
    rw [evaluate_eq h, evaluate_eq h, evaluateIn_eq_iff_unfolds h hne, evaluateIn_eq_iff_unfolds h hne]
    exact hunfold (.ok v)

/-- `x` is bound to `y * z` and `y` to `x - 1`. -/
def pair : Namespace Expr :=
  ((∅ : Namespace Expr).bind "x" (.binary .mul (.reference "y") (.reference "z"))).bind "y"
    (.binary .sub (.reference "x") (.integer 1))

/-- With `x` bound alone, `2 + x` becomes `2 + y * z`.  Once `y` is bound as well both are recursions,
    the one of `x` and the other of `y`. -/
theorem evaluate_specialize_within_pair :
    pair.Unreserved ∧ pair.Arithmetic ∧
      ((∅ : Namespace Expr).bind "x" (.binary .mul (.reference "y") (.reference "z"))).Within pair ∧
      ∃ e', specialize ((∅ : Namespace Expr).bind "x" (.binary .mul (.reference "y") (.reference "z")))
          (.binary .add (.integer 2) (.reference "x")) = .ok e' ∧
        evaluate pair (.binary .add (.integer 2) (.reference "x")) = .error (.recursive "x") ∧
        evaluate pair e' = .error (.recursive "y") ∧ "y" ∈ pair.reach (pair.reads "x") ∧
        ∀ v, evaluate pair e' ≠ .ok v := by
  have hunreserved : pair.Unreserved := by
    intro c
    cases c <;> decide
  have harithmetic : pair.Arithmetic := (arithmetic_empty.bind "x" rfl).bind "y" rfl
  have hsub : ((∅ : Namespace Expr).bind "x" (.binary .mul (.reference "y") (.reference "z"))).Within
      pair := by
    intro x a ha
    have hx : x ≠ "y" := by
      rintro rfl
      cases ha
    rw [pair, Namespace.find?_bind_of_ne hx]
    exact ha
  have hx : evaluate pair (.binary .add (.integer 2) (.reference "x")) = .error (.recursive "x") := by cbv
  have hleft : specialize ((∅ : Namespace Expr).bind "x" (.binary .mul (.reference "y") (.reference "z")))
      (.binary .add (.integer 2) (.reference "x")) =
        .ok (.binary .add (.integer 2) (.binary .mul (.reference "y") (.reference "z"))) := by
    cbv
  have hy : evaluate pair (.binary .add (.integer 2) (.binary .mul (.reference "y") (.reference "z"))) =
      .error (.recursive "y") := by
    cbv
  obtain ⟨e', hs, hcases, hvalue⟩ := evaluate_specialize_within hunreserved harithmetic hsub
    (e := .binary .add (.integer 2) (.reference "x")) rfl
  cases Except.ok.inj (hs.symm.trans hleft)
  refine ⟨hunreserved, harithmetic, hsub, _, hs, hx, hy, ?_, ?_⟩
  · rcases hcases with hsame | ⟨x, y, hx', hy', hreach, _⟩
    · rw [hx, hy] at hsame
      exact absurd (Failure.recursive.inj (Except.error.inj hsame)) (by decide)
    · rw [hx] at hx'
      rw [hy] at hy'
      cases hx'
      cases hy'
      exact hreach
  · intro v hv
    have := (hvalue v).1 hv
    rw [hx] at this
    cases this

end Reckoner
