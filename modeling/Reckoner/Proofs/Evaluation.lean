/-
  What an evaluation depends on, and what its outcome tells.

  An evaluation asks for names, the names' bindings ask for further names, and nothing else is ever
  looked at: two namespaces and two sets of active names that agree on the names that can be met give
  one outcome (`evaluateIn_congr`).  A number comes out only if every name that can be met is bound and
  is not active (`bound_of_evaluateIn`), so a name on a cycle never has a number.  And where every name
  fails, the evaluation fails as the first name it asks for does (`evaluateIn_of_failing`).

  Two conditions keep faults away and stand in most statements: no constant of the literals is bound as
  a name (`Unreserved`), and all operators have arithmetic.
-/
import Reckoner.Evaluation
import Reckoner.Proofs.Namespace
import Reckoner.Proofs.Number
import Reckoner.Proofs.Outcome

namespace Reckoner

/-- No constant that literals are built through is bound as a name. -/
def Namespace.Unreserved {α : Type} (ns : Namespace α) : Prop := ∀ c : Constructor, ns.find? c.key = none

/-- Every binding is built with operators that have arithmetic. -/
def Namespace.Arithmetic (ns : Namespace Expr) : Prop :=
  ∀ x b, ns.find? x = some b → b.isArithmetic = true

/-- An operation has arithmetic throughout if its operator and both operands have. -/
theorem Expr.isArithmetic_binary {op : Operator} {l r : Expr} :
    (Expr.binary op l r).isArithmetic = true ↔
      op.isArithmetic = true ∧ l.isArithmetic = true ∧ r.isArithmetic = true := by
  simp [Expr.isArithmetic, and_assoc]

/-- What a bound name reads are the names that its binding mentions. -/
theorem Namespace.reads_eq_free {ns : Namespace Expr} {x : String} {b : Expr} (h : ns.find? x = some b) :
    ns.reads x = b.free :=
  reads_of_find? h

theorem unreserved_empty {α : Type} : (∅ : Namespace α).Unreserved := fun _ => rfl

theorem arithmetic_empty : (∅ : Namespace Expr).Arithmetic := fun _ _ h => nomatch h

/-- Binding a name that is none of the constants keeps them free. -/
theorem Namespace.Unreserved.bind {α : Type} {ns : Namespace α} (h : ns.Unreserved) {x : String}
    (hx : ∀ c : Constructor, c.key ≠ x) (a : α) : (ns.bind x a).Unreserved := by
  intro c
  rw [find?_bind_of_ne (hx c)]
  exact h c

theorem Namespace.Arithmetic.bind {ns : Namespace Expr} (h : ns.Arithmetic) (x : String) {e : Expr}
    (he : e.isArithmetic = true) : (ns.bind x e).Arithmetic :=
  forall_bind (P := fun _ (b : Expr) => b.isArithmetic = true) h he

/-! ## The rules of evaluation where nothing is reserved

  `evaluateIn` checks at every binding it enters whether a constant of the literals in it is bound as a
  name.  Where nothing is reserved that check finds nothing, and what is left are the four rules below:
  a name fails if it is active or unbound and is its binding otherwise, and an operation takes its
  operands from left to right. -/

variable {ns ns' : Namespace Expr} {active : List String}

/-- The check for constants that are bound as names finds none. -/
theorem Namespace.Unreserved.clash?_eq_none {α : Type} {ns : Namespace α} (h : ns.Unreserved) (e : Expr) :
    ns.clash? e = none := by
  refine List.find?_eq_none.2 fun c _ => ?_
  simp [Namespace.contains, h c]

theorem evaluate_eq (h : ns.Unreserved) (e : Expr) : evaluate ns e = evaluateIn ns [] e := by
  simp only [evaluate, h.clash?_eq_none e]

/-- A name that is active fails: it is defined in terms of itself. -/
theorem evaluateIn_of_active {x : String} (hx : x ∈ active) :
    evaluateIn ns active (.reference x) = .error (.recursive x) := by
  rw [evaluateIn, if_pos hx]

/-- A name that is neither active nor bound is not defined. -/
theorem evaluateIn_unbound {x : String} (hx : x ∉ active) (hb : ns.find? x = none) :
    evaluateIn ns active (.reference x) = .error (.unbound x) := by
  rw [evaluateIn, if_neg hx]
  split
  · rfl
  · rename_i b hb'
    rw [hb] at hb'
    cases hb'

/-- Any other name is its binding, evaluated with the name active. -/
theorem evaluateIn_bound (h : ns.Unreserved) {x : String} {b : Expr} (hx : x ∉ active)
    (hb : ns.find? x = some b) :
    evaluateIn ns active (.reference x) = evaluateIn ns (x :: active) b := by
  rw [evaluateIn, if_neg hx]
  split
  · rename_i hb'
    rw [hb] at hb'
    cases hb'
  · rename_i b' hb'
    rw [hb] at hb'
    cases hb'
    simp only [h.clash?_eq_none b]

/-- An operation takes its left operand, then its right one, and stops at the first that fails. -/
theorem evaluateIn_binary (op : Operator) (l r : Expr) :
    evaluateIn ns active (.binary op l r) = (do
      let x ← evaluateIn ns active l
      let y ← evaluateIn ns active r
      Number.apply op x y) := by
  rw [evaluateIn]

/-- Literals have one outcome everywhere. -/
theorem evaluateIn_literal {e : Expr} (he : e.isLiteral = true) (ns : Namespace Expr)
    (active : List String) :
    evaluateIn ns active e = evaluateIn ∅ [] e := by
  cases e with
  | integer n => simp only [evaluateIn]
  | rational n d => simp only [evaluateIn]
  | reference x => simp [Expr.isLiteral, Expr.kind, Kind.isLiteral] at he
  | binary op l r => simp [Expr.isLiteral, Expr.kind, Kind.isLiteral] at he

/-- The literal of a number evaluates to the number. -/
theorem evaluateIn_ofNumber (ns : Namespace Expr) (active : List String) (z : Number) :
    evaluateIn ns active (.ofNumber z) = .ok z := by
  cases z with
  | int n => simp only [Expr.ofNumber, evaluateIn, Constructor.apply]
  | fraction f => simp only [Expr.ofNumber, evaluateIn, Number.apply_fraction_parts]

/-- An operation has a number only if both operands have one. -/
theorem ok_of_evaluateIn_binary {op : Operator} {l r : Expr} {v : Number}
    (h : evaluateIn ns active (.binary op l r) = .ok v) :
    ∃ x y, evaluateIn ns active l = .ok x ∧ evaluateIn ns active r = .ok y := by
  rw [evaluateIn_binary] at h
  obtain ⟨x, hx, h⟩ := exists_of_bind_ok h
  obtain ⟨y, hy, _⟩ := exists_of_bind_ok h
  exact ⟨x, y, hx, hy⟩

/-! ## Only what can be met matters -/

/-- **Locality of evaluation.**  Two namespaces and two sets of active names that agree on all names
    that can be met from `e` give `e` one outcome. -/
theorem evaluateIn_congr (h : ns.Unreserved) (h' : ns'.Unreserved) {active' : List String} {e : Expr}
    (hfind : ∀ y ∈ ns.reach e.free, ns.find? y = ns'.find? y)
    (hactive : ∀ y ∈ ns.reach e.free, y ∈ active ↔ y ∈ active') :
    evaluateIn ns active e = evaluateIn ns' active' e := by
  fun_induction evaluateIn ns active e generalizing active' with
  | case1 active n => simp only [evaluateIn]
  | case2 active n d => simp only [evaluateIn]
  | case3 active x hx =>
    exact (evaluateIn_of_active ((hactive x (ns.mem_reach_self x)).1 hx)).symm
  | case4 active x hx hb =>
    have hmet := ns.mem_reach_self x
    have hx' : x ∉ active' := fun hm => hx ((hactive x hmet).2 hm)
    exact (evaluateIn_unbound hx' (hfind x hmet ▸ hb)).symm
  -- nothing is reserved, so no constant is in the way
  | case5 active x hx b hb c hc => simp [h.clash?_eq_none b] at hc
  | case6 active x hx b hb hc ih =>
    -- the name becomes active on both sides, and from its binding no more can be met than from it
    have hmet := ns.mem_reach_self x
    have hx' : x ∉ active' := fun hm => hx ((hactive x hmet).2 hm)
    have hbelow : ∀ y ∈ ns.reach b.free, y ∈ ns.reach [x] := fun y hy =>
      Namespace.reach_of_mem_reads hmet (Namespace.reads_eq_free hb ▸ hy)
    rw [evaluateIn_bound h' hx' (hfind x hmet ▸ hb)]
    refine ih (fun y hy => hfind y (hbelow y hy)) fun y hy => ?_
    simp only [List.mem_cons, hactive y (hbelow y hy)]
  | case7 active op l r ihl ihr =>
    -- what can be met from an operand can be met from the operation
    have hleft : ∀ y ∈ ns.reach l.free, y ∈ ns.reach (Expr.binary op l r).free :=
      fun y hy => Namespace.mem_reach_append.2 (Or.inl hy)
    have hright : ∀ y ∈ ns.reach r.free, y ∈ ns.reach (Expr.binary op l r).free :=
      fun y hy => Namespace.mem_reach_append.2 (Or.inr hy)
    rw [evaluateIn_binary,
      ihl (fun y hy => hfind y (hleft y hy)) fun y hy => hactive y (hleft y hy),
      ihr (fun y hy => hfind y (hright y hy)) fun y hy => hactive y (hright y hy)]

/-- Entering the binding of a name that is on no cycle may be forgotten: the name is not met again. -/
theorem evaluateIn_enter (h : ns.Unreserved) {x : String} {b : Expr} (hb : ns.find? x = some b)
    (hc : ns.onCycle x = false) : evaluateIn ns (x :: active) b = evaluateIn ns active b := by
  refine evaluateIn_congr h h (fun _ _ => rfl) fun y hy => ?_
  -- `x` could be met from its own binding only along a cycle
  have hne : y ≠ x := by
    rintro rfl
    rw [← Namespace.reads_eq_free hb, ← Namespace.onCycle_iff, hc] at hy
    exact absurd hy Bool.false_ne_true
  simp [hne]

/-! ## What an outcome tells -/

/-- A number comes out only if every name that can be met is bound, and none of them is active. -/
theorem bound_of_evaluateIn {e : Expr} {v : Number} (hv : evaluateIn ns active e = .ok v) {y : String}
    (hy : y ∈ ns.reach e.free) : y ∉ active ∧ (ns.find? y).isSome := by
  fun_induction evaluateIn ns active e generalizing v with
  | case1 active n => rw [Expr.free, Namespace.reach_nil] at hy; cases hy
  | case2 active n d => rw [Expr.free, Namespace.reach_nil] at hy; cases hy
  | case3 active x hx => cases hv
  | case4 active x hx hb => cases hv
  | case5 active x hx b hb c hc => cases hv
  | case6 active x hx b hb hc ih =>
    rcases Namespace.mem_reach_singleton.1 hy with rfl | hy
    · exact ⟨hx, by rw [hb]; rfl⟩
    · -- met through the binding: there `x` is active besides, so a name that is not active there is not
      -- active here either
      rw [Namespace.reads_eq_free hb] at hy
      obtain ⟨hna, hbound⟩ := ih hv hy
      exact ⟨fun hm => hna (List.mem_cons_of_mem _ hm), hbound⟩
  | case7 active op l r ihl ihr =>
    rw [← evaluateIn_binary] at hv
    obtain ⟨x, z, hl, hr⟩ := ok_of_evaluateIn_binary hv
    rcases Namespace.mem_reach_append.1 hy with hy | hy
    · exact ihl hl hy
    · exact ihr hr hy

/-- A name on a cycle has no number. -/
theorem evaluateIn_ne_ok_of_onCycle (h : ns.Unreserved) {x : String} (hc : ns.onCycle x = true)
    (v : Number) :
    evaluateIn ns active (.reference x) ≠ .ok v := by
  intro hv
  by_cases hx : x ∈ active
  · rw [evaluateIn_of_active hx] at hv; cases hv
  · cases hb : ns.find? x with
    | none => rw [evaluateIn_unbound hx hb] at hv; cases hv
    | some b =>
      -- inside its own binding the name is active, and the cycle leads back to it
      rw [evaluateIn_bound h hx hb] at hv
      rw [Namespace.onCycle_iff, Namespace.reads_eq_free hb] at hc
      exact (bound_of_evaluateIn hv hc).1 List.mem_cons_self

/-- Where all operators have arithmetic and nothing is reserved, an evaluation fails only in a way that is
    a result. -/
theorem recoverable_of_evaluateIn (h : ns.Unreserved) (hns : ns.Arithmetic) {e : Expr}
    (he : e.isArithmetic = true) {f : Failure} (hf : evaluateIn ns active e = .error f) :
    f.recoverable = true := by
  fun_induction evaluateIn ns active e with
  | case1 active n => cases hf
  | case2 active n d =>
    -- a ratio fails only by its denominator, which is a division by zero
    simp only [Constructor.apply] at hf
    split at hf
    · cases hf; rfl
    · cases hf
  | case3 active x hx => cases hf; rfl
  | case4 active x hx hb => cases hf; rfl
  | case5 active x hx b hb c hc => simp [h.clash?_eq_none b] at hc
  | case6 active x hx b hb hc ih => exact ih (hns x b hb) hf
  | case7 active op l r ihl ihr =>
    -- the failure is that of the first operand that has one, or else of the operator
    obtain ⟨hop, hl, hr⟩ := Expr.isArithmetic_binary.1 he
    cases hvl : evaluateIn ns active l with
    | error g => rw [hvl] at hf; cases hf; exact ihl hl hvl
    | ok x =>
      cases hvr : evaluateIn ns active r with
      | error g => rw [hvl, hvr] at hf; cases hf; exact ihr hr hvr
      | ok y =>
        rw [hvl, hvr] at hf
        exact Number.recoverable_of_apply hop hf

/-! ## Where every name fails -/

/-- The first name that an evaluation asks for.  Only operands without names can have a number where all
    names fail, so the right operand is come to only if the left one asks for none and has a number. -/
def Expr.demand : Expr → Option String
  | integer _ => none
  | rational _ _ => none
  | reference x => some x
  | binary _ l r =>
    match l.demand with
    | some x => some x
    | none => if (evaluateIn ∅ [] l).isOk then r.demand else none

/-- The name that is asked for first is one that the expression mentions. -/
theorem Expr.mem_free_of_demand {e : Expr} {x : String} (h : e.demand = some x) : x ∈ e.free := by
  induction e with
  | integer n => cases h
  | rational n d => cases h
  | reference y => cases h; exact List.mem_cons_self
  | binary op l r ihl ihr =>
    rw [demand] at h
    split at h
    · rename_i y hy
      cases h
      exact List.mem_append_left _ (ihl hy)
    · split at h
      · exact List.mem_append_right _ (ihr h)
      · cases h

/-- **Where every name fails, the first name asked for decides.**  If none of the names in `e` has a
    number, `e` fails as the name does that it asks for first; if it asks for none, its outcome is what
    it is where nothing is bound. -/
theorem evaluateIn_of_failing {e : Expr}
    (hfail : ∀ x ∈ e.free, ∀ v, evaluateIn ns active (.reference x) ≠ .ok v) :
    evaluateIn ns active e =
      match e.demand with
      | some x => evaluateIn ns active (.reference x)
      | none => evaluateIn ∅ [] e := by
  induction e with
  | integer n => simp only [Expr.demand, evaluateIn]
  | rational n d => simp only [Expr.demand, evaluateIn]
  | reference y => rfl
  | binary op l r ihl ihr =>
    have hl := ihl fun x hx => hfail x (List.mem_append_left _ hx)
    have hr := ihr fun x hx => hfail x (List.mem_append_right _ hx)
    rw [Expr.demand, evaluateIn_binary, evaluateIn_binary]
    cases hdl : l.demand with
    | some x =>
      -- the left operand fails as `x` does, and the operation with it
      rw [hdl] at hl
      have hx : x ∈ (Expr.binary op l r).free := List.mem_append_left _ (Expr.mem_free_of_demand hdl)
      cases hvx : evaluateIn ns active (.reference x) with
      | ok v => exact absurd hvx (hfail x hx v)
      | error f =>
        simp only [hl, hvx]
        rfl
    | none =>
      -- the left operand comes to no name, so its outcome is the same everywhere; the right one is come
      -- to only if that is a number
      rw [hdl] at hl
      rw [hl]
      cases hvl : evaluateIn ∅ [] l with
      | error f => rfl
      | ok a =>
        cases hdr : r.demand with
        | some x =>
          rw [hdr] at hr
          have hx : x ∈ (Expr.binary op l r).free := List.mem_append_right _ (Expr.mem_free_of_demand hdr)
          cases hvx : evaluateIn ns active (.reference x) with
          | ok v => exact absurd hvx (hfail x hx v)
          | error f =>
            simp only [hr, hvx, Except.isOk, Except.toBool, if_true]
            rfl
        | none =>
          rw [hdr] at hr
          simp only [hr, Except.isOk, Except.toBool, if_true]

end Reckoner
