/-
  Evaluation without a guard.  `Unfolds` evaluates a name by going on into its binding, whatever has
  been entered before, so on a cycle it never comes to an end.  The guard of `evaluateIn` is there to
  notice just that, and it is exact: a number, a missing name and a division by zero come out where
  unfolding comes to them, and a recursion is reported where unfolding has no end
  (`evaluateIn_eq_iff_unfolds`, `not_unfolds_of_recursive`).

  An unfolding without end waits at one name after the other (`Hangs`, `Passes`).  Each name decides the
  next, so the names that two evaluations report lie on one cycle as soon as the two pass through one
  name (`Passes.one_round`).
-/
import Mathlib.Logic.Relation
import Reckoner.Proofs.Evaluation

namespace Reckoner

/-- `Unfolds ns e o` — evaluating `e` with all names replaced by their bindings, again and again, comes
    to the outcome `o`. -/
inductive Unfolds (ns : Namespace Expr) : Expr → Except Failure Number → Prop
  | integer (n : Int) : Unfolds ns (.integer n) (.ok (.int n))
  | rational (n d : Int) : Unfolds ns (.rational n d) (Constructor.fraction.apply [n, d])
  | unbound {x : String} (hb : ns.find? x = none) : Unfolds ns (.reference x) (.error (.unbound x))
  | enter {x : String} {b : Expr} {o : Except Failure Number} (hb : ns.find? x = some b)
      (h : Unfolds ns b o) :
      Unfolds ns (.reference x) o
  /-- The left operand fails, and the right one is not looked at. -/
  | left {op : Operator} {l r : Expr} {f : Failure} (hl : Unfolds ns l (.error f)) :
      Unfolds ns (.binary op l r) (.error f)
  | right {op : Operator} {l r : Expr} {a : Number} {f : Failure} (hl : Unfolds ns l (.ok a))
      (hr : Unfolds ns r (.error f)) : Unfolds ns (.binary op l r) (.error f)
  | both {op : Operator} {l r : Expr} {a b : Number} (hl : Unfolds ns l (.ok a))
      (hr : Unfolds ns r (.ok b)) :
      Unfolds ns (.binary op l r) (Number.apply op a b)

variable {ns : Namespace Expr} {active : List String} {e : Expr} {o o' : Except Failure Number}

namespace Unfolds

/-- A bound name unfolds as its binding. -/
theorem reference_iff {x : String} {b : Expr} (hb : ns.find? x = some b) :
    Unfolds ns (.reference x) o ↔ Unfolds ns b o := by
  constructor
  · intro h
    cases h with
    | unbound hnone => rw [hb] at hnone; cases hnone
    | enter hb' h =>
      rw [hb] at hb'
      cases hb'
      exact h
  · exact enter hb

/-- Operands that unfold alike make operations that unfold alike. -/
theorem binary_congr {op : Operator} {l l' r r' : Expr} (hl : ∀ o, Unfolds ns l' o ↔ Unfolds ns l o)
    (hr : ∀ o, Unfolds ns r' o ↔ Unfolds ns r o) :
    Unfolds ns (.binary op l' r') o ↔ Unfolds ns (.binary op l r) o := by
  constructor
  · intro h
    cases h with
    | left h => exact left ((hl _).1 h)
    | right h h' => exact right ((hl _).1 h) ((hr _).1 h')
    | both h h' => exact both ((hl _).1 h) ((hr _).1 h')
  · intro h
    cases h with
    | left h => exact left ((hl _).2 h)
    | right h h' => exact right ((hl _).2 h) ((hr _).2 h')
    | both h h' => exact both ((hl _).2 h) ((hr _).2 h')

/-- There is one outcome at most. -/
theorem unique (h : Unfolds ns e o) (h' : Unfolds ns e o') : o = o' := by
  induction h generalizing o' with
  | integer n => cases h'; rfl
  | rational n d => cases h'; rfl
  | unbound hb =>
    cases h' with
    | unbound _ => rfl
    | enter hb' _ => rw [hb] at hb'; cases hb'
  | enter hb _ ih => exact ih ((reference_iff hb).1 h')
  | left hl ihl =>
    cases h' with
    | left hl' => exact ihl hl'
    | right hl' _ => cases ihl hl'
    | both hl' _ => cases ihl hl'
  | right hl hr ihl ihr =>
    cases h' with
    | left hl' => cases ihl hl'
    | right _ hr' => exact ihr hr'
    | both _ hr' => cases ihr hr'
  | both hl hr ihl ihr =>
    cases h' with
    | left hl' => cases ihl hl'
    | right _ hr' => cases ihr hr'
    | both hl' hr' =>
      cases ihl hl'
      cases ihr hr'
      rfl

end Unfolds

/-! ## The guard is exact

  In one direction the induction is along the evaluation, which takes the same steps as unfolding does
  as long as the guard is silent.  In the other it is along the unfolding: where the guard has spoken,
  each step of an unfolding leads to where it speaks again, so there is no last step (`Looping`). -/

/-- An operator never reports a recursion. -/
theorem Number.apply_ne_recursive (op : Operator) (a b : Number) (x : String) :
    Number.apply op a b ≠ .error (.recursive x) := by
  intro h
  obtain hf | ⟨c, hf⟩ := failure_of_apply h
  · cases hf
  · cases hf

/-- An operation reports the recursion of its left operand, or that of its right operand if the left one
    has a number. -/
theorem recursive_operand {op : Operator} {l r : Expr} {x : String}
    (h : evaluateIn ns active (.binary op l r) = .error (.recursive x)) :
    evaluateIn ns active l = .error (.recursive x) ∨
      ∃ a, evaluateIn ns active l = .ok a ∧ evaluateIn ns active r = .error (.recursive x) := by
  rw [evaluateIn_binary] at h
  cases hl : evaluateIn ns active l with
  | error f => rw [hl] at h; exact Or.inl h
  | ok a =>
    rw [hl] at h
    cases hr : evaluateIn ns active r with
    | error f => rw [hr] at h; exact Or.inr ⟨a, rfl, h⟩
    | ok b => rw [hr] at h; exact absurd h (Number.apply_ne_recursive op a b x)

/-- What comes out under the guard and is no recursion comes out without it. -/
theorem unfolds_of_evaluateIn (h : ns.Unreserved) (hv : evaluateIn ns active e = o)
    (ho : ∀ x, o ≠ .error (.recursive x)) : Unfolds ns e o := by
  fun_induction evaluateIn ns active e generalizing o with
  | case1 active n => cases hv; exact .integer n
  | case2 active n d => cases hv; exact .rational n d
  | case3 active x hx => exact absurd hv.symm (ho x)
  | case4 active x hx hb => cases hv; exact .unbound hb
  | case5 active x hx b hb c hc => simp [h.clash?_eq_none b] at hc
  | case6 active x hx b hb hc ih => exact .enter hb (ih hv ho)
  | case7 active op l r ihl ihr =>
    -- each outcome of an operation has its rule
    cases hvl : evaluateIn ns active l with
    | error f =>
      rw [hvl] at hv
      cases hv
      exact .left (ihl hvl ho)
    | ok a =>
      have hl := ihl hvl (by rintro _ ⟨⟩)
      rw [hvl] at hv
      cases hvr : evaluateIn ns active r with
      | error f =>
        rw [hvr] at hv
        cases hv
        exact .right hl (ihr hvr ho)
      | ok b =>
        rw [hvr] at hv
        cases hv
        exact .both hl (ihr hvr (by rintro _ ⟨⟩))

/-- The active names have been entered one inside the other, and inside each of them a recursion is
    reported. -/
def Looping (ns : Namespace Expr) (active : List String) : Prop :=
  ∀ y rest, (y :: rest) <:+ active →
    ∃ b z, ns.find? y = some b ∧ evaluateIn ns (y :: rest) b = .error (.recursive z)

namespace Looping

/-- At the beginning no name is active. -/
theorem nil : Looping ns [] := by
  intro y rest h
  exact absurd (List.suffix_nil.1 h) (List.cons_ne_nil y rest)

/-- A name that is entered joins the loop, if a recursion is reported inside it. -/
theorem cons (hloop : Looping ns active) {x z : String} {b : Expr} (hb : ns.find? x = some b)
    (hrec : evaluateIn ns (x :: active) b = .error (.recursive z)) : Looping ns (x :: active) := by
  intro y rest h
  rcases List.suffix_cons_iff.1 h with heq | h
  · cases heq
    exact ⟨b, z, hb, hrec⟩
  · exact hloop y rest h

/-- From a name in a loop the evaluation goes on into its binding, and is in a loop again. -/
theorem enter (h : ns.Unreserved) (hloop : Looping ns active) {x z : String}
    (hrec : evaluateIn ns active (.reference x) = .error (.recursive z)) :
    ∃ b active' z', ns.find? x = some b ∧ Looping ns active' ∧
      evaluateIn ns active' b = .error (.recursive z') := by
  by_cases hx : x ∈ active
  · -- it has been entered before: back to where that was
    obtain ⟨before, rest, rfl⟩ := List.append_of_mem hx
    obtain ⟨b, z', hb, hrec'⟩ := hloop x rest (List.suffix_append before (x :: rest))
    have hrest : Looping ns (x :: rest) :=
      fun y r hs => hloop y r (hs.trans (List.suffix_append before _))
    exact ⟨b, x :: rest, z', hb, hrest, hrec'⟩
  · cases hb : ns.find? x with
    | none => rw [evaluateIn_unbound hx hb] at hrec; cases hrec
    | some b =>
      rw [evaluateIn_bound h hx hb] at hrec
      exact ⟨b, x :: active, z, rfl, hloop.cons hb hrec, hrec⟩

/-- In a loop unfolding comes to no end: each of its steps leads to another place in the loop. -/
theorem not_unfolds (h : ns.Unreserved) (hloop : Looping ns active) {z : String}
    (hrec : evaluateIn ns active e = .error (.recursive z)) : ¬Unfolds ns e o := by
  intro hu
  induction hu generalizing active z with
  | integer n => simp only [evaluateIn] at hrec; cases hrec
  | rational n d =>
    simp only [evaluateIn, Constructor.apply] at hrec
    split at hrec <;> cases hrec
  | unbound hb =>
    obtain ⟨b, _, _, hb', _⟩ := hloop.enter h hrec
    rw [hb] at hb'
    cases hb'
  | enter hb _ ih =>
    obtain ⟨b, active', z', hb', hloop', hrec'⟩ := hloop.enter h hrec
    rw [hb] at hb'
    cases hb'
    exact ih hloop' hrec'
  | left hl ihl =>
    rcases recursive_operand hrec with hrec | ⟨a, hv, _⟩
    · exact ihl hloop hrec
    · -- the left operand has one outcome, and that is a failure
      cases hl.unique (unfolds_of_evaluateIn h hv (by rintro _ ⟨⟩))
  | right hl hr ihl ihr =>
    rcases recursive_operand hrec with hrec | ⟨_, _, hrec⟩
    · exact ihl hloop hrec
    · exact ihr hloop hrec
  | both hl hr ihl ihr =>
    rcases recursive_operand hrec with hrec | ⟨_, _, hrec⟩
    · exact ihl hloop hrec
    · exact ihr hloop hrec

end Looping

/-- Where a recursion is reported, unfolding has no end. -/
theorem not_unfolds_of_recursive (h : ns.Unreserved) {x : String}
    (hv : evaluateIn ns [] e = .error (.recursive x)) : ¬Unfolds ns e o :=
  Looping.nil.not_unfolds h hv

/-- Where unfolding has no end, a recursion is reported. -/
theorem exists_recursive_of_not_unfolds (h : ns.Unreserved) (hend : ∀ o, ¬Unfolds ns e o) :
    ∃ x, evaluateIn ns [] e = .error (.recursive x) := by
  apply Classical.byContradiction
  intro hne
  exact hend _ (unfolds_of_evaluateIn h rfl fun x hx => hne ⟨x, hx⟩)

/-- **The guard changes nothing but what has no end.**  An outcome that is no recursion comes out of an
    evaluation exactly if unfolding comes to it. -/
theorem evaluateIn_eq_iff_unfolds (h : ns.Unreserved) (ho : ∀ x, o ≠ .error (.recursive x)) :
    evaluateIn ns [] e = o ↔ Unfolds ns e o := by
  constructor
  · intro hv
    exact unfolds_of_evaluateIn h hv ho
  · intro hu
    by_cases hrec : ∃ x, evaluateIn ns [] e = .error (.recursive x)
    · -- a recursion would have no unfolding
      obtain ⟨x, hx⟩ := hrec
      exact absurd hu (not_unfolds_of_recursive h hx)
    · have hne : ∀ x, evaluateIn ns [] e ≠ .error (.recursive x) := fun x hx => hrec ⟨x, hx⟩
      exact (unfolds_of_evaluateIn h rfl hne).unique hu

/-! ## Where an unfolding hangs

  Evaluation goes from left to right, so of the names in an expression at most one is where an unfolding
  without end is stuck.  The step from a name to where its binding hangs is therefore a partial
  function, and a way along it that comes back to a name goes round for ever. -/

/-- `Hangs ns e x` — unfolding `e` comes to the name `x` and does not get past it. -/
inductive Hangs (ns : Namespace Expr) : Expr → String → Prop
  | here {x : String} (hx : ∀ o, ¬Unfolds ns (.reference x) o) : Hangs ns (.reference x) x
  | left {op : Operator} {l r : Expr} {x : String} (hl : Hangs ns l x) : Hangs ns (.binary op l r) x
  | right {op : Operator} {l r : Expr} {a : Number} {x : String} (hl : Unfolds ns l (.ok a))
      (hr : Hangs ns r x) : Hangs ns (.binary op l r) x

namespace Hangs

variable {x y : String}

theorem not_unfolds (hx : Hangs ns e x) : ¬Unfolds ns e o := by
  intro hu
  induction hx generalizing o with
  | here hx => exact hx _ hu
  | left _ ih =>
    cases hu with
    | left hl => exact ih hl
    | right hl _ => exact ih hl
    | both hl _ => exact ih hl
  | right hl _ ih =>
    cases hu with
    | left hl' => cases hl.unique hl'
    | right _ hr => exact ih hr
    | both _ hr => exact ih hr

/-- An unfolding hangs at one name at most. -/
theorem unique (hx : Hangs ns e x) (hy : Hangs ns e y) : x = y := by
  induction hx with
  | here hx => cases hy; rfl
  | left hl ih =>
    cases hy with
    | left hl' => exact ih hl'
    | right hl' _ => exact absurd hl' hl.not_unfolds
  | right hl _ ih =>
    cases hy with
    | left hl' => exact absurd hl hl'.not_unfolds
    | right _ hr => exact ih hr

/-- An unfolding hangs at a name of the expression. -/
theorem mem_free (hx : Hangs ns e x) : x ∈ e.free := by
  induction hx with
  | here _ => exact List.mem_cons_self
  | left _ ih => exact List.mem_append_left _ ih
  | right _ _ ih => exact List.mem_append_right _ ih

end Hangs

/-- `Passes ns x y` — unfolding the name `x` goes on into its binding and hangs at `y` there. -/
def Passes (ns : Namespace Expr) (x y : String) : Prop := ∃ b, ns.find? x = some b ∧ Hangs ns b y

namespace Passes

variable {x y z : String}

theorem unique (hy : Passes ns x y) (hz : Passes ns x z) : y = z := by
  obtain ⟨b, hb, hy⟩ := hy
  obtain ⟨b', hb', hz⟩ := hz
  rw [hb] at hb'
  cases hb'
  exact hy.unique hz

/-- What is passed on the way from `x` can be met from its binding. -/
theorem mem_reach (h : Relation.TransGen (Passes ns) x y) : y ∈ ns.reach (ns.reads x) := by
  induction h with
  | single h =>
    obtain ⟨b, hb, hy⟩ := h
    rw [Namespace.reads_eq_free hb]
    exact Namespace.mem_reach_of_mem hy.mem_free
  | tail _ h ih =>
    obtain ⟨b, hb, hy⟩ := h
    refine Namespace.mem_reach_of_reads ih ?_
    rw [Namespace.reads_eq_free hb]
    exact hy.mem_free

/-- A way that comes back to where it began never leaves that round. -/
theorem back (hround : Relation.TransGen (Passes ns) x x) (h : Relation.ReflTransGen (Passes ns) x y) :
    Relation.ReflTransGen (Passes ns) y x := by
  induction h with
  | refl => exact .refl
  | tail _ hstep ih =>
    rename_i y z
    rcases ih.cases_head with rfl | ⟨w, hw, hback⟩
    · -- at the beginning the next step is that of the round
      obtain ⟨w, hw, hback⟩ := Relation.TransGen.head'_iff.1 hround
      rwa [hstep.unique hw]
    · rwa [hstep.unique hw]

/-- Of two rounds that are met on the way from one name, each leads to the other. -/
theorem one_round (hx : Relation.TransGen (Passes ns) x x) (hy : Relation.TransGen (Passes ns) y y)
    (hzx : Relation.ReflTransGen (Passes ns) z x) (hzy : Relation.ReflTransGen (Passes ns) z y) :
    Relation.TransGen (Passes ns) x y ∧ Relation.TransGen (Passes ns) y x := by
  have hunique : Relator.RightUnique (Passes ns) := fun _ _ _ h h' => h.unique h'
  rcases Relation.ReflTransGen.total_of_right_unique hunique hzx hzy with hxy | hyx
  · exact ⟨hx.trans_left hxy, Relation.TransGen.trans_right (back hx hxy) hx⟩
  · exact ⟨Relation.TransGen.trans_right (back hy hyx) hy, hy.trans_left hyx⟩

/-- **The name that is reported.**  The evaluation hangs at a name, and from there the way leads to the
    name that is reported; this is an active name, or the way comes round to it. -/
theorem of_recursive (h : ns.Unreserved) (hloop : Looping ns active)
    (hv : evaluateIn ns active e = .error (.recursive x)) :
    ∃ z, Hangs ns e z ∧ Relation.ReflTransGen (Passes ns) z x ∧
      (x ∈ active ∨ Relation.TransGen (Passes ns) x x) := by
  fun_induction evaluateIn ns active e with
  | case1 active n => cases hv
  | case2 active n d =>
    simp only [Constructor.apply] at hv
    split at hv <;> cases hv
  | case3 active y hy =>
    -- the guard speaks here, and the name is active
    cases hv
    exact ⟨x, .here fun _ => hloop.not_unfolds h (evaluateIn_of_active hy), .refl, Or.inl hy⟩
  | case4 active y hy hb => cases hv
  | case5 active y hy b hb c hc => cases hv
  | case6 active y hy b hb hc ih =>
    -- the name is entered, and becomes the first of the way
    have hend : ∀ o, ¬Unfolds ns (.reference y) o := fun _ =>
      hloop.not_unfolds h ((evaluateIn_bound h hy hb).trans hv)
    obtain ⟨z, hz, hway, hround⟩ := ih (hloop.cons hb hv) hv
    have hstep : Passes ns y z := ⟨b, hb, hz⟩
    refine ⟨y, .here hend, hway.head hstep, ?_⟩
    rcases hround with hmem | hround
    · -- the name that is reported is this one, so the way comes round; or it was active before
      rcases List.mem_cons.1 hmem with rfl | hmem
      · exact Or.inr (Relation.TransGen.head' hstep hway)
      · exact Or.inl hmem
    · exact Or.inr hround
  | case7 active op l r ihl ihr =>
    rw [← evaluateIn_binary] at hv
    rcases recursive_operand hv with hvl | ⟨a, hvl, hvr⟩
    · obtain ⟨z, hz, hway, hround⟩ := ihl hloop hvl
      exact ⟨z, .left hz, hway, hround⟩
    · -- the left operand has a number, and is got past
      obtain ⟨z, hz, hway, hround⟩ := ihr hloop hvr
      exact ⟨z, .right (unfolds_of_evaluateIn h hvl (by rintro _ ⟨⟩)) hz, hway, hround⟩

end Passes

end Reckoner
