/-
  Specialization keeps the meaning.  Three things are done to an expression: a bound name on no cycle
  gives way to its binding, an operation on two literals gives way to the literal of its number, and the
  rest stays.

  The first is harmless because such a name is not met again inside its own binding, so it makes no
  difference that evaluation would have held it active meanwhile; the second because the literal of a
  number evaluates to that number.  The order of the operands is kept, so the first failure stays the
  first (`evaluateIn_specialize`).  What is left mentions only names that are unbound or on a cycle
  (`stuck_of_mem_free`).
-/
import Reckoner.Proofs.Evaluation
import Reckoner.Specialization

namespace Reckoner

variable {ns : Namespace Expr}

/-! ## What specialization can do -/

/-- Folding evaluates the operation where nothing is bound. -/
theorem fold_eq (op : Operator) (l r : Expr) :
    fold op l r = match evaluateIn ∅ [] (.binary op l r) with
      | .ok z => .ok (some (.ofNumber z))
      | .error f => if f.recoverable then .ok none else .error f := by
  rw [evaluateIn_binary]
  unfold fold
  rewrite [evaluate_eq unreserved_empty, evaluate_eq unreserved_empty]
  rfl

/-- Two operands are put together as they are, or both are literals and give way to the literal of their
    number. -/
theorem combine_cases {op : Operator} {l r e' : Expr} (h : combine op l r = .ok e') :
    e' = .binary op l r ∨
      ∃ z, l.isLiteral = true ∧ r.isLiteral = true ∧ evaluateIn ∅ [] (.binary op l r) = .ok z ∧
        e' = .ofNumber z := by
  unfold combine at h
  split at h
  · rename_i hlit
    obtain ⟨hl, hr⟩ := (Bool.and_eq_true _ _).mp hlit
    rw [fold_eq] at h
    cases hv : evaluateIn ∅ [] (.binary op l r) with
    | ok z =>
      rw [hv] at h
      exact Or.inr ⟨z, hl, hr, rfl, (Except.ok.inj h).symm⟩
    | error f =>
      rw [hv] at h
      by_cases hf : f.recoverable = true
      · -- a failure that would be a result leaves the operation as it is
        simp only [hf, if_true] at h
        exact Or.inl (Except.ok.inj h).symm
      · simp only [hf] at h
        cases h
  · exact Or.inl (Except.ok.inj h).symm

/-- Folding an operation that has arithmetic meets no fault. -/
theorem exists_fold {op : Operator} {l r : Expr} (he : (Expr.binary op l r).isArithmetic = true) :
    ∃ m, fold op l r = .ok m := by
  rw [fold_eq]
  cases hv : evaluateIn ∅ [] (.binary op l r) with
  | ok z => exact ⟨_, rfl⟩
  | error f =>
    have hf := recoverable_of_evaluateIn unreserved_empty arithmetic_empty he hv
    exact ⟨none, if_pos hf⟩

/-- Operands put together with an operator that has arithmetic cause no fault. -/
theorem exists_combine {op : Operator} {l r : Expr} (he : (Expr.binary op l r).isArithmetic = true) :
    ∃ e', combine op l r = .ok e' := by
  unfold combine
  split
  · obtain ⟨m, hm⟩ := exists_fold he
    rw [hm]
    cases m with
    | some e => exact ⟨e, rfl⟩
    | none => exact ⟨.binary op l r, rfl⟩
  · exact ⟨.binary op l r, rfl⟩

/-- A name that is not bound stays. -/
theorem specialize_unbound {x : String} (hb : ns.find? x = none) :
    specialize ns (.reference x) = .ok (.reference x) := by
  rw [specialize]
  split
  · rfl
  · rename_i b hb'
    rw [hb] at hb'
    cases hb'

/-- A bound name stays if it is on a cycle, and is specialized as its binding otherwise. -/
theorem specialize_bound {x : String} {b : Expr} (hb : ns.find? x = some b) :
    specialize ns (.reference x) = if ns.onCycle x then .ok (.reference x) else specialize ns b := by
  rw [specialize]
  split
  · rename_i hb'
    rw [hb] at hb'
    cases hb'
  · rename_i b' hb'
    rw [hb] at hb'
    cases hb'
    rfl

/-- A name on a cycle stays. -/
theorem specialize_onCycle {x : String} (hc : ns.onCycle x = true) :
    specialize ns (.reference x) = .ok (.reference x) := by
  cases hb : ns.find? x with
  | none => exact specialize_unbound hb
  | some b => rw [specialize_bound hb, if_pos hc]

/-- A literal stays. -/
theorem specialize_literal {e : Expr} (he : e.isLiteral = true) : specialize ns e = .ok e := by
  cases e with
  | integer n => rw [specialize]
  | rational n d => rw [specialize]
  | reference x => cases he
  | binary op l r => cases he

/-- An operation is put together of what is left of its operands, from left to right. -/
theorem specialize_binary (op : Operator) (l r : Expr) :
    specialize ns (.binary op l r) = (do
      let l' ← specialize ns l
      let r' ← specialize ns r
      combine op l' r') := by
  rw [specialize]

/-- **Induction along specialization.**  A relation between an expression and what is left of it holds
    if it holds for literals, for names that stay, across a binding, and across an operation whose
    operands are put together. -/
theorem specialize_induction {P : Expr → Expr → Prop}
    (literal : ∀ e, e.isLiteral = true → P e e)
    (stay : ∀ x, ns.find? x = none ∨ ns.onCycle x = true → P (.reference x) (.reference x))
    (enter : ∀ x b b', ns.find? x = some b → ns.onCycle x = false → P b b' → P (.reference x) b')
    (operation : ∀ op l r l' r' e', P l l' → P r r' → combine op l' r' = .ok e' → P (.binary op l r) e')
    {e e' : Expr} (h : specialize ns e = .ok e') : P e e' := by
  fun_induction specialize ns e generalizing e' with
  | case1 n => cases h; exact literal _ rfl
  | case2 n d => cases h; exact literal _ rfl
  | case3 x hb => cases h; exact stay x (Or.inl hb)
  | case4 x b hb hc => cases h; exact stay x (Or.inr hc)
  | case5 x b hb hc ih => exact enter x b e' hb (Bool.eq_false_iff.2 hc) (ih h)
  | case6 op l r ihl ihr =>
    obtain ⟨l', hl, h⟩ := exists_of_bind_ok h
    obtain ⟨r', hr, hcomb⟩ := exists_of_bind_ok h
    exact operation op l r l' r' e' (ihl hl) (ihr hr) hcomb

/-- What holds of the literals of numbers, and of an operation exactly if it holds of its parts, is kept
    by specialization if it holds of all bindings. -/
theorem specialize_preserves {Q : Expr → Prop} {R : Operator → Prop} (number : ∀ z, Q (.ofNumber z))
    (binary : ∀ op l r, Q (.binary op l r) ↔ R op ∧ Q l ∧ Q r) (hns : ∀ x b, ns.find? x = some b → Q b)
    {e e' : Expr} (hs : specialize ns e = .ok e') (he : Q e) : Q e' := by
  refine specialize_induction (P := fun e e' => Q e → Q e') (fun _ _ => id) (fun _ _ => id) ?_ ?_ hs he
  · intro x b b' hb _ ih _
    exact ih (hns x b hb)
  · intro op l r l' r' e' ihl ihr hcomb hop
    obtain ⟨hR, hl, hr⟩ := (binary op l r).1 hop
    rcases combine_cases hcomb with rfl | ⟨z, _, _, _, rfl⟩
    · exact (binary op l' r').2 ⟨hR, ihl hl, ihr hr⟩
    · exact number z

/-- Specialization brings in no operator without arithmetic, if the bindings have none. -/
theorem isArithmetic_specialize (hns : ns.Arithmetic) {e e' : Expr} (hs : specialize ns e = .ok e')
    (he : e.isArithmetic = true) : e'.isArithmetic = true := by
  refine specialize_preserves (Q := fun e => e.isArithmetic = true) (fun z => ?_)
    (fun _ _ _ => Expr.isArithmetic_binary) hns hs he
  cases z <;> rfl

/-- Specialization succeeds where all operators have arithmetic. -/
theorem exists_specialize (hns : ns.Arithmetic) {e : Expr} (he : e.isArithmetic = true) :
    ∃ e', specialize ns e = .ok e' := by
  fun_induction specialize ns e with
  | case1 n => exact ⟨_, rfl⟩
  | case2 n d => exact ⟨_, rfl⟩
  | case3 x hb => exact ⟨_, rfl⟩
  | case4 x b hb hc => exact ⟨_, rfl⟩
  | case5 x b hb hc ih => exact ih (hns x b hb)
  | case6 op l r ihl ihr =>
    obtain ⟨hop, hl, hr⟩ := Expr.isArithmetic_binary.1 he
    obtain ⟨l', hl'⟩ := ihl hl
    obtain ⟨r', hr'⟩ := ihr hr
    have hparts : (Expr.binary op l' r').isArithmetic = true := Expr.isArithmetic_binary.2
      ⟨hop, isArithmetic_specialize hns hl' hl, isArithmetic_specialize hns hr' hr⟩
    obtain ⟨e', he'⟩ := exists_combine hparts
    rw [hl', hr']
    exact ⟨e', he'⟩

/-! ## What is left has the same outcome -/

/-- A literal operation has the same outcome everywhere. -/
theorem evaluateIn_operation_of_literals {op : Operator} {l r : Expr} (hl : l.isLiteral = true)
    (hr : r.isLiteral = true) (active : List String) :
    evaluateIn ns active (.binary op l r) = evaluateIn ∅ [] (.binary op l r) := by
  rw [evaluateIn_binary, evaluateIn_binary, evaluateIn_literal hl, evaluateIn_literal hr]

/-- Putting two operands together gives the outcome of the operation on them. -/
theorem evaluateIn_combine {op : Operator} {l r e' : Expr} (h : combine op l r = .ok e')
    (active : List String) : evaluateIn ns active e' = evaluateIn ns active (.binary op l r) := by
  rcases combine_cases h with rfl | ⟨z, hl, hr, hz, rfl⟩
  · rfl
  · rw [evaluateIn_ofNumber, evaluateIn_operation_of_literals hl hr, hz]

/-- **Specialization keeps the outcome**, the number or the failure.  Outside of any binding nothing is
    active; a name that is replaced would only have been active while its own binding, which does not
    lead back to it, was evaluated. -/
theorem evaluateIn_specialize (h : ns.Unreserved) {e e' : Expr} (hs : specialize ns e = .ok e') :
    evaluateIn ns [] e' = evaluateIn ns [] e := by
  refine specialize_induction (P := fun e e' => evaluateIn ns [] e' = evaluateIn ns [] e)
    (fun _ _ => rfl) (fun _ _ => rfl) ?_ ?_ hs
  · -- a binding is entered: evaluation makes the name active, specialization does not
    intro x b b' hb hc ih
    rw [evaluateIn_bound h List.not_mem_nil hb, evaluateIn_enter h hb hc, ih]
  · -- left before right, in the operation as in what is left of it
    intro op l r l' r' e' ihl ihr hcomb
    rw [evaluateIn_combine hcomb, evaluateIn_binary, evaluateIn_binary, ihl, ihr]

/-! ## What is left is stuck -/

/-- A literal mentions no name. -/
theorem Expr.free_of_isLiteral {e : Expr} (he : e.isLiteral = true) : e.free = [] := by
  cases e with
  | integer n => rfl
  | rational n d => rfl
  | reference x => cases he
  | binary op l r => cases he

theorem Expr.isLiteral_ofNumber (z : Number) : (Expr.ofNumber z).isLiteral = true := by
  cases z <;> rfl

/-- Two literals of numbers give way to the literal of what the operation makes of the numbers, unless
    it fails. -/
theorem combine_number (op : Operator) (x y : Number) :
    combine op (.ofNumber x) (.ofNumber y) = match Number.apply op x y with
      | .ok z => .ok (.ofNumber z)
      | .error f => if f.recoverable then .ok (.binary op (.ofNumber x) (.ofNumber y)) else .error f := by
  have hout : evaluateIn ∅ [] (.binary op (.ofNumber x) (.ofNumber y)) = Number.apply op x y := by
    rw [evaluateIn_binary, evaluateIn_ofNumber, evaluateIn_ofNumber]
    rfl
  unfold combine
  rw [Expr.isLiteral_ofNumber, Expr.isLiteral_ofNumber, fold_eq, hout]
  cases Number.apply op x y with
  | ok z => rfl
  | error f => cases hf : f.recoverable <;> simp [hf]

/-- Putting two operands together keeps the names they mention. -/
theorem free_combine {op : Operator} {l r e' : Expr} (h : combine op l r = .ok e') :
    e'.free = l.free ++ r.free := by
  rcases combine_cases h with rfl | ⟨z, hl, hr, _, rfl⟩
  · rfl
  · rw [Expr.free_of_isLiteral (Expr.isLiteral_ofNumber z), Expr.free_of_isLiteral hl,
      Expr.free_of_isLiteral hr]
    rfl

/-- A name that is left is unbound or on a cycle. -/
theorem stuck_of_mem_free {e e' : Expr} (hs : specialize ns e = .ok e') {x : String} (hx : x ∈ e'.free) :
    ns.find? x = none ∨ ns.onCycle x = true := by
  refine specialize_induction
    (P := fun _ e' => ∀ x ∈ e'.free, ns.find? x = none ∨ ns.onCycle x = true) ?_ ?_ ?_ ?_ hs x hx
  · intro e he x hx
    rw [Expr.free_of_isLiteral he] at hx
    cases hx
  · intro y hy x hx
    rw [List.mem_singleton.1 hx]
    exact hy
  · intro _ _ _ _ _ ih
    exact ih
  · -- an operation mentions the names of its operands, which are stuck by induction
    intro op l r l' r' e' ihl ihr hcomb x hx
    rw [free_combine hcomb] at hx
    rcases List.mem_append.1 hx with hx | hx
    · exact ihl x hx
    · exact ihr x hx

/-- **What is left stays as it is**: there is nothing more to replace and nothing more to fold. -/
theorem specialize_idempotent {e e' : Expr} (hs : specialize ns e = .ok e') :
    specialize ns e' = .ok e' := by
  refine specialize_induction (P := fun _ e' => specialize ns e' = .ok e')
    (fun _ he => specialize_literal he) ?_ (fun _ _ _ _ _ ih => ih) ?_ hs
  · rintro x (hnone | hc)
    · exact specialize_unbound hnone
    · exact specialize_onCycle hc
  · intro op l r l' r' e' ihl ihr hcomb
    rcases combine_cases hcomb with rfl | ⟨z, _, _, _, rfl⟩
    · rw [specialize_binary, ihl, ihr]
      exact hcomb
    · exact specialize_literal (Expr.isLiteral_ofNumber z)

/-! ## Only what can be met matters -/

/-- **Locality of specialization.**  Two namespaces that agree on all names that can be met from `e`
    leave the same of `e`. -/
theorem specialize_congr {ns' : Namespace Expr} {e : Expr}
    (hfind : ∀ y ∈ ns.reach e.free, ns.find? y = ns'.find? y) : specialize ns e = specialize ns' e := by
  fun_induction specialize ns e with
  | case1 n => exact (specialize_literal rfl).symm
  | case2 n d => exact (specialize_literal rfl).symm
  | case3 x hb =>
    have hmet := ns.mem_reach_self x
    exact (specialize_unbound (hfind x hmet ▸ hb)).symm
  | case4 x b hb hc => exact (specialize_onCycle (Namespace.onCycle_congr hfind ▸ hc)).symm
  | case5 x b hb hc ih =>
    have hmet := ns.mem_reach_self x
    -- whether `x` is on a cycle is decided among the names that can be met from it
    have hc' : ¬ns'.onCycle x = true := Namespace.onCycle_congr hfind ▸ hc
    rw [specialize_bound (hfind x hmet ▸ hb), if_neg hc']
    exact ih fun y hy => hfind y (Namespace.reach_of_mem_reads hmet (Namespace.reads_eq_free hb ▸ hy))
  | case6 op l r ihl ihr =>
    rw [specialize_binary, ihl fun y hy => hfind y (Namespace.mem_reach_append.2 (Or.inl hy)),
      ihr fun y hy => hfind y (Namespace.mem_reach_append.2 (Or.inr hy))]

/-! ## Specialization and evaluation -/

/-- **Specialization preserves evaluation.**  In a namespace that binds none of the literals' constants,
    an expression whose operators have arithmetic, as have those of all bindings, can be specialized,
    and what is left of it evaluates to the same number or fails in the same way, with the same name. -/
theorem evaluate_specialize (h : ns.Unreserved) (hns : ns.Arithmetic) {e : Expr}
    (he : e.isArithmetic = true) :
    ∃ e', specialize ns e = .ok e' ∧ evaluate ns e' = evaluate ns e := by
  obtain ⟨e', hs⟩ := exists_specialize hns he
  refine ⟨e', hs, ?_⟩
  rw [evaluate_eq h, evaluate_eq h, evaluateIn_specialize h hs]

/-- `x` is bound to `x + 1`, `y` to `u * 3 - z`, `z` to `w` and `u` to `2`. -/
def knot : Namespace Expr :=
  ((((∅ : Namespace Expr).bind
    "x" (.binary .add (.reference "x") (.integer 1))).bind
    "y" (.binary .sub (.binary .mul (.reference "u") (.integer 3)) (.reference "z"))).bind
    "z" (.reference "w")).bind
    "u" (.integer 2)

/-- `u / x + y` becomes `2 / x + (6 - w)`: the `6` is folded, and both fail for the cycle through `x`.  Of
    `u * u + 1` there is left the literal of the number that it has. -/
theorem evaluate_specialize_knot :
    knot.Unreserved ∧ knot.Arithmetic ∧
      (∃ e', specialize knot
          (.binary .add (.binary .div (.reference "u") (.reference "x")) (.reference "y")) = .ok e' ∧
        e' = .binary .add (.binary .div (.integer 2) (.reference "x"))
          (.binary .sub (.integer 6) (.reference "w")) ∧
        evaluate knot e' = .error (.recursive "x")) ∧
      ∃ e', specialize knot
          (.binary .add (.binary .mul (.reference "u") (.reference "u")) (.integer 1)) = .ok e' ∧
        e' = .integer 5 ∧ evaluate knot e' = .ok (.int 5) := by
  have hunreserved : knot.Unreserved := by
    intro c
    cases c <;> decide
  have harithmetic : knot.Arithmetic :=
    (((arithmetic_empty.bind "x" rfl).bind "y" rfl).bind "z" rfl).bind "u" rfl
  obtain ⟨e, hs, hv⟩ := evaluate_specialize hunreserved harithmetic
    (e := .binary .add (.binary .div (.reference "u") (.reference "x")) (.reference "y")) rfl
  obtain ⟨e', hs', hv'⟩ := evaluate_specialize hunreserved harithmetic
    (e := .binary .add (.binary .mul (.reference "u") (.reference "u")) (.integer 1)) rfl
  have hleft : specialize knot
      (.binary .add (.binary .div (.reference "u") (.reference "x")) (.reference "y")) =
      .ok (.binary .add (.binary .div (.integer 2) (.reference "x"))
        (.binary .sub (.integer 6) (.reference "w"))) := by
    cbv
  have hcycle : evaluate knot
      (.binary .add (.binary .div (.reference "u") (.reference "x")) (.reference "y")) =
      .error (.recursive "x") := by
    cbv
  have hfolded : specialize knot
      (.binary .add (.binary .mul (.reference "u") (.reference "u")) (.integer 1)) =
      .ok (.integer 5) := by
    cbv
  have hnumber : evaluate knot
      (.binary .add (.binary .mul (.reference "u") (.reference "u")) (.integer 1)) =
      .ok (.int 5) := by
    cbv
  exact ⟨hunreserved, harithmetic, ⟨e, hs, Except.ok.inj (hs.symm.trans hleft), hv.trans hcycle⟩,
    e', hs', Except.ok.inj (hs'.symm.trans hfolded), hv'.trans hnumber⟩

end Reckoner
