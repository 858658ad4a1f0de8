/-
  The names behind an expression.  An expression mentions names, these lead to further names, and
  `Expr.Meets` is the least set that is closed under such steps; which steps count is a parameter.

  Evaluation has its own way to notice names that are missing and names that need themselves: it looks a
  name up when it comes to it, and it reports the name that it comes to twice.  What it says is
  nevertheless what the bindings show as a whole (`Truthful`).  A missing name that it reports is met
  and unbound.  A name that it reports as recursive is met and on a cycle, because the evaluation has
  gone round that cycle (`Passes.of_recursive`).  And a number leaves no room for either, also where the
  evaluation came last: a name that is met behind an expression with a number has a number itself
  (`Unfolds.number_of_meets`).

  Specialization goes on through bound names that are on no cycle and stops at the others.  So of the
  names that it meets there are left just those it has to stop at (`mem_free_iff_of_specialize`).
-/
import Reckoner.Proofs.Cycle
import Reckoner.Proofs.Guard
import Reckoner.Proofs.NormalForm

namespace Reckoner

/-! ## Meeting names -/

/-- `e.Meets R x` — the name `x` is in the least set that holds the names of `e` and, with every name,
    all that it is related to by `R`. -/
inductive Expr.Meets (R : String → String → Prop) (e : Expr) : String → Prop
  | free {x : String} (hx : x ∈ e.free) : e.Meets R x
  | step {x y : String} (hx : e.Meets R x) (hxy : R x y) : e.Meets R y

namespace Expr

variable {R : String → String → Prop} {e l r : Expr} {x y : String}

/-- To meet a name is to come to it on a path from a name that stands free. -/
theorem meets_iff : e.Meets R y ↔ ∃ x ∈ e.free, Relation.ReflTransGen R x y := by
  constructor
  · intro h
    induction h with
    | free hx => exact ⟨_, hx, .refl⟩
    | step _ hxy ih =>
      obtain ⟨z, hz, hpath⟩ := ih
      exact ⟨z, hz, hpath.tail hxy⟩
  · rintro ⟨x, hx, hpath⟩
    induction hpath with
    | refl => exact .free hx
    | tail _ hstep ih => exact ih.step hstep

/-- From a reference are met the names on the paths that begin with it. -/
theorem meets_reference : (reference x).Meets R y ↔ Relation.ReflTransGen R x y := by
  rw [meets_iff]
  simp [free]

/-- An operation meets what one of its operands meets. -/
theorem meets_binary {op : Operator} : (binary op l r).Meets R y ↔ l.Meets R y ∨ r.Meets R y := by
  simp only [meets_iff, free, List.mem_append, or_and_right, exists_or]

/-- A literal meets no name. -/
theorem not_meets_of_isLiteral (he : e.isLiteral = true) : ¬e.Meets R y := by
  rw [meets_iff, free_of_isLiteral he]
  simp

/-- Along the bindings of a namespace, to meet is what `reach` computes. -/
theorem meets_leads_iff {ns : Namespace Expr} : e.Meets ns.Leads y ↔ y ∈ ns.reach e.free := by
  rw [meets_iff, Namespace.mem_reach_iff]

end Expr

variable {ns : Namespace Expr} {e : Expr} {x y : String}

/-- What is met behind the binding of a name is met behind the name. -/
theorem meets_of_binding {b : Expr} (hb : ns.find? x = some b) (h : b.Meets ns.Leads y) :
    (Expr.reference x).Meets ns.Leads y := by
  obtain ⟨z, hz, hpath⟩ := Expr.meets_iff.1 h
  exact Expr.meets_reference.2 (hpath.head ⟨b, hb, hz⟩)

/-! ## What an outcome says about names -/

namespace Unfolds

/-- A missing name that an expression unfolds to is met, and it is missing. -/
theorem meets_of_unbound (h : Unfolds ns e (.error (.unbound x))) :
    e.Meets ns.Leads x ∧ ns.find? x = none := by
  generalize ho : (Except.error (.unbound x) : Except Failure Number) = o at h
  induction h with
  | integer n => cases ho
  | rational n d =>
    simp only [Constructor.apply] at ho
    split at ho <;> cases ho
  | unbound hb =>
    cases ho
    exact ⟨.free List.mem_cons_self, hb⟩
  | enter hb _ ih =>
    obtain ⟨hmeets, hnone⟩ := ih ho
    exact ⟨meets_of_binding hb hmeets, hnone⟩
  | left _ ih =>
    obtain ⟨hmeets, hnone⟩ := ih ho
    exact ⟨Expr.meets_binary.2 (Or.inl hmeets), hnone⟩
  | right _ _ _ ih =>
    obtain ⟨hmeets, hnone⟩ := ih ho
    exact ⟨Expr.meets_binary.2 (Or.inr hmeets), hnone⟩
  | both _ _ _ _ =>
    obtain hf | ⟨c, hf⟩ := Number.failure_of_apply ho.symm
    · cases hf
    · cases hf

/-- The names in an expression with a number have numbers. -/
theorem number_of_mem_free {v : Number} (h : Unfolds ns e (.ok v)) (hx : x ∈ e.free) :
    ∃ w, Unfolds ns (.reference x) (.ok w) := by
  induction e generalizing v with
  | integer n => cases hx
  | rational n d => cases hx
  | reference z =>
    cases List.mem_singleton.1 hx
    exact ⟨v, h⟩
  | binary op l r ihl ihr =>
    -- both operands have numbers, for otherwise the operation had none
    generalize ho : (Except.ok v : Except Failure Number) = o at h
    cases h with
    | left _ => cases ho
    | right _ _ => cases ho
    | both hl hr =>
      rcases List.mem_append.1 hx with hx | hx
      · exact ihl hl hx
      · exact ihr hr hx

/-- **All names behind an expression with a number have numbers**, however far behind they are. -/
theorem number_of_meets {v : Number} (h : Unfolds ns e (.ok v)) (hx : e.Meets ns.Leads x) :
    ∃ w, Unfolds ns (.reference x) (.ok w) := by
  induction hx with
  | free hx => exact h.number_of_mem_free hx
  | step _ hstep ih =>
    obtain ⟨w, hw⟩ := ih
    obtain ⟨b, hb, hy⟩ := hstep
    exact ((reference_iff hb).1 hw).number_of_mem_free hy

end Unfolds

/-- To pass from one name to the next is to be led there. -/
theorem Passes.leads (h : Passes ns x y) : ns.Leads x y := by
  obtain ⟨b, hb, hy⟩ := h
  exact ⟨b, hb, hy.mem_free⟩

/-- A name that is reported as recursive is met, and it is on a cycle. -/
theorem meets_of_recursive (h : ns.Unreserved) (hv : evaluateIn ns [] e = .error (.recursive x)) :
    e.Meets ns.Leads x ∧ ns.onCycle x = true := by
  obtain ⟨z, hz, hway, hround⟩ := Passes.of_recursive h Looping.nil hv
  have hround := hround.resolve_left List.not_mem_nil
  constructor
  · exact Expr.meets_iff.2 ⟨z, hz.mem_free, Relation.ReflTransGen.mono (fun _ _ => Passes.leads) _ _ hway⟩
  · exact Namespace.onCycle_iff_path.2 (Relation.TransGen.mono (fun _ _ => Passes.leads) _ _ hround)

/-- A name that is met behind an expression with a number is bound, and it is on no cycle. -/
theorem bound_of_meets (h : ns.Unreserved) {v : Number} (hv : evaluateIn ns [] e = .ok v)
    (hx : e.Meets ns.Leads x) : (∃ b, ns.find? x = some b) ∧ ns.onCycle x = false := by
  have hne : ∀ {w : Number} (z : String), (Except.ok w : Except Failure Number) ≠
      .error (.recursive z) := by
    rintro _ _ ⟨⟩
  obtain ⟨w, hw⟩ := (unfolds_of_evaluateIn h hv hne).number_of_meets hx
  constructor
  · cases hw with
    | enter hb _ => exact ⟨_, hb⟩
  · refine Bool.eq_false_iff.2 fun hc => ?_
    exact evaluateIn_ne_ok_of_onCycle h hc w ((evaluateIn_eq_iff_unfolds h hne).2 hw)

/-- `Truthful ns e out` — the outcome `out` of `e` agrees with what the bindings show of the names
    behind `e`. -/
structure Truthful (ns : Namespace Expr) (e : Expr) (out : Except Failure Number) : Prop where
  unbound : ∀ x, out = .error (.unbound x) → e.Meets ns.Leads x ∧ ns.find? x = none
  recursive : ∀ x, out = .error (.recursive x) → e.Meets ns.Leads x ∧ ns.onCycle x = true
  value : ∀ v, out = .ok v → ∀ x, e.Meets ns.Leads x → (∃ b, ns.find? x = some b) ∧ ns.onCycle x = false
  /-- Where no name is missing and none is on a cycle, there is one way to fail. -/
  failure : (∀ x, e.Meets ns.Leads x → (∃ b, ns.find? x = some b) ∧ ns.onCycle x = false) →
    ∀ f, out = .error f → f = .divisionByZero

/-- The outcome of an evaluation is truthful, where nothing leads to a fault. -/
theorem truthful_evaluateIn (h : ns.Unreserved) (hns : ns.Arithmetic) (he : e.isArithmetic = true) :
    Truthful ns e (evaluateIn ns [] e) := by
  have hunbound : ∀ x, evaluateIn ns [] e = .error (.unbound x) → e.Meets ns.Leads x ∧
      ns.find? x = none :=
    fun x hx => (unfolds_of_evaluateIn h hx (by rintro _ ⟨⟩)).meets_of_unbound
  refine ⟨hunbound, fun x => meets_of_recursive h, fun v hv x => bound_of_meets h hv, fun hall f hf => ?_⟩
  cases f with
  | unbound x =>
    obtain ⟨hmeets, hnone⟩ := hunbound x hf
    obtain ⟨b, hb⟩ := (hall x hmeets).1
    cases hnone.symm.trans hb
  | recursive x =>
    obtain ⟨hmeets, hc⟩ := meets_of_recursive h hf
    cases hc.symm.trans (hall x hmeets).2
  | divisionByZero => rfl
  | fault c => cases recoverable_of_evaluateIn h hns he hf

/-- **Diagnostics say the truth, and agree with the cycle test.**  In a namespace that binds no
    constant, and with operators that all have arithmetic, a name that an evaluation reports as missing
    is met behind the expression and is unbound; one that it reports as recursive is met and is on a
    cycle; if a number comes out, every name that is met is bound and on no cycle; and if this is so,
    nothing but a division by zero can go wrong.  The engine says the same, for any nodes of this
    form. -/
theorem evaluate_truthful (ns : Namespace Expr) (e : Expr) (h : ns.Unreserved) (hns : ns.Arithmetic)
    (he : e.isArithmetic = true) :
    Truthful ns e (evaluate ns e) ∧
      ∀ (en : Engine) (bindings : Namespace Node) (n : Node), bindings.exprs = ns → n.expr = e →
        Truthful ns e (en.evaluate bindings n).1 := by
  have hplain : Truthful ns e (evaluate ns e) := by
    rw [evaluate_eq h]
    exact truthful_evaluateIn h hns he
  refine ⟨hplain, ?_⟩
  rintro en bindings n rfl rfl
  rw [(en.evaluate_eq bindings n).1]
  exact hplain

/-- `a` is bound to `b + 2`, `b` to `3`, `c` to `a - d`, `p` to `q * b` and `q` to `a + p`. -/
def ledger : Namespace Expr :=
  (((((∅ : Namespace Expr).bind
    "a" (.binary .add (.reference "b") (.integer 2))).bind
    "b" (.integer 3)).bind
    "c" (.binary .sub (.reference "a") (.reference "d"))).bind
    "p" (.binary .mul (.reference "q") (.reference "b"))).bind
    "q" (.binary .add (.reference "a") (.reference "p"))

/-- In `ledger` the name `c` fails for `d`, which is met and unbound, and `a + p` fails for `p`, which
    is met and on a cycle.  The expression `a * b` has a number, so all names behind it are bound and on
    no cycle; and as the same names are behind `a / (b - 3)`, that can only divide by zero, as it
    does. -/
theorem evaluate_truthful_ledger :
    ledger.Unreserved ∧ ledger.Arithmetic ∧
      ((Expr.reference "c").Meets ledger.Leads "d" ∧ ledger.find? "d" = none) ∧
      ((Expr.binary .add (.reference "a") (.reference "p")).Meets ledger.Leads "p" ∧
        ledger.onCycle "p" = true) ∧
      (∀ x, (Expr.binary .mul (.reference "a") (.reference "b")).Meets ledger.Leads x →
        (∃ b, ledger.find? x = some b) ∧ ledger.onCycle x = false) ∧
      evaluate ledger (.binary .div (.reference "a") (.binary .sub (.reference "b") (.integer 3))) =
        .error .divisionByZero := by
  have hunreserved : ledger.Unreserved := by
    intro c
    cases c <;> decide
  have harithmetic : ledger.Arithmetic :=
    ((((arithmetic_empty.bind "a" rfl).bind "b" rfl).bind "c" rfl).bind "p" rfl).bind "q" rfl
  have hall : ∀ x, (Expr.binary .mul (.reference "a") (.reference "b")).Meets ledger.Leads x →
      (∃ b, ledger.find? x = some b) ∧ ledger.onCycle x = false :=
    (evaluate_truthful ledger _ hunreserved harithmetic rfl).1.value (.int 15) (by cbv)
  refine ⟨hunreserved, harithmetic, ?_, ?_, hall, ?_⟩
  · exact (evaluate_truthful ledger _ hunreserved harithmetic rfl).1.unbound "d" (by cbv)
  · exact (evaluate_truthful ledger _ hunreserved harithmetic rfl).1.recursive "p" (by cbv)
  · have hfails : ∃ f, evaluate ledger
        (.binary .div (.reference "a") (.binary .sub (.reference "b") (.integer 3))) = .error f :=
      ⟨_, by cbv⟩
    obtain ⟨f, hf⟩ := hfails
    have hsame : ∀ x,
        (Expr.binary .div (.reference "a") (.binary .sub (.reference "b") (.integer 3))).Meets
          ledger.Leads x → (∃ b, ledger.find? x = some b) ∧ ledger.onCycle x = false := by
      intro x hx
      obtain ⟨z, hz, hpath⟩ := Expr.meets_iff.1 hx
      exact hall x (Expr.meets_iff.2 ⟨z, hz, hpath⟩)
    rw [hf, (evaluate_truthful ledger _ hunreserved harithmetic rfl).1.failure hsame f hf]

/-! ## The names that are left -/

/-- `ns.Opens x y` — the name `x` is bound and on no cycle, and its binding mentions `y`. -/
def Namespace.Opens (ns : Namespace Expr) (x y : String) : Prop := ns.onCycle x = false ∧ ns.Leads x y

/-- A name that specialization has to leave: it is unbound or on a cycle. -/
def Namespace.Stuck (ns : Namespace Expr) (x : String) : Prop := ns.find? x = none ∨ ns.onCycle x = true

/-- A name that is replaced is not left. -/
theorem Namespace.not_stuck {b : Expr} (hb : ns.find? x = some b) (hc : ns.onCycle x = false) :
    ¬ns.Stuck x := by
  rintro (hnone | hcycle)
  · cases hnone.symm.trans hb
  · cases hcycle.symm.trans hc

/-- Nothing is met behind a name that is left. -/
theorem Namespace.Stuck.not_opens (h : ns.Stuck x) : ¬ns.Opens x y := by
  rintro ⟨hc, b, hb, _⟩
  exact not_stuck hb hc h

/-- **The names that are left** of an expression are those that are met behind it and are stuck. -/
theorem mem_free_iff_of_specialize {e' : Expr} (hs : specialize ns e = .ok e') :
    x ∈ e'.free ↔ e.Meets ns.Opens x ∧ ns.Stuck x := by
  refine specialize_induction (P := fun e e' => ∀ x, x ∈ e'.free ↔ e.Meets ns.Opens x ∧ ns.Stuck x)
    ?_ ?_ ?_ ?_ hs x
  · intro e he x
    rw [Expr.free_of_isLiteral he]
    exact ⟨fun hx => absurd hx List.not_mem_nil, fun hx => absurd hx.1 (Expr.not_meets_of_isLiteral he)⟩
  · -- the name itself is all that is met
    intro y hy x
    have hend : ∀ z, ¬ns.Opens y z := fun z => Namespace.Stuck.not_opens hy
    rw [Expr.meets_reference, Relation.reflTransGen_iff_eq hend, Expr.free, List.mem_singleton]
    constructor
    · rintro rfl
      exact ⟨rfl, hy⟩
    · exact And.left
  · intro y b b' hb hc ih x
    rw [ih x, Expr.meets_reference, Relation.ReflTransGen.cases_head_iff, Expr.meets_iff]
    constructor
    · rintro ⟨⟨z, hz, hpath⟩, hx⟩
      exact ⟨Or.inr ⟨z, ⟨hc, b, hb, hz⟩, hpath⟩, hx⟩
    · rintro ⟨hpath, hx⟩
      rcases hpath with rfl | ⟨z, ⟨_, b₁, hb₁, hz⟩, hpath⟩
      · exact absurd hx (Namespace.not_stuck hb hc)
      · cases hb.symm.trans hb₁
        exact ⟨⟨z, hz, hpath⟩, hx⟩
  · intro op l r l' r' e' ihl ihr hcomb x
    rw [free_combine hcomb, List.mem_append, ihl x, ihr x, Expr.meets_binary, or_and_right]

/-- **Specialization neither loses nor invents names.**  With operators that all have arithmetic, an
    expression can be specialized, and the names of what is left are exactly those names that are
    unbound or on a cycle among the names behind it: its own, and with each that is bound and on no
    cycle the names of its binding.  So it is with the nodes that the engine makes. -/
theorem specialize_names (ns : Namespace Expr) (e : Expr) (hns : ns.Arithmetic)
    (he : e.isArithmetic = true) :
    (∃ e', specialize ns e = .ok e' ∧ ∀ x, x ∈ e'.free ↔ e.Meets ns.Opens x ∧ ns.Stuck x) ∧
      ∀ (en : Engine) (bindings : Namespace Node) (n : Node), bindings.exprs = ns → n.expr = e →
        en.Made bindings n → ∃ n', (en.specialize bindings n).1 = .ok n' ∧
          ∀ x, x ∈ n'.free ↔ e.Meets ns.Opens x ∧ ns.Stuck x := by
  obtain ⟨e', hs⟩ := exists_specialize hns he
  refine ⟨⟨e', hs, fun x => mem_free_iff_of_specialize hs⟩, ?_⟩
  rintro en bindings n rfl rfl ⟨store, hends, hbound, hstored⟩
  obtain ⟨n', hn', rfl⟩ :=
    exists_of_map_ok ((Engine.specialize_yields hends hbound hstored).outcome.trans hs)
  exact ⟨n', hn', fun x => mem_free_iff_of_specialize hs⟩

/-- Of `c + q` there is left `(5 - d) + q` in `ledger`: the names `a` and `b` have given way, `d` is
    unbound, `q` is on a cycle, and `p`, which is on it as well, is not met since specialization stops
    at `q`. -/
theorem specialize_names_ledger :
    ledger.Arithmetic ∧
      ∃ e', specialize ledger (.binary .add (.reference "c") (.reference "q")) = .ok e' ∧
      (∀ x, x ∈ e'.free ↔ x = "d" ∨ x = "q") ∧
      (Expr.binary .add (.reference "c") (.reference "q")).Meets ledger.Opens "d" ∧ ledger.Stuck "d" ∧
      ledger.Stuck "p" ∧
      ¬(Expr.binary .add (.reference "c") (.reference "q")).Meets ledger.Opens "p" := by
  have harithmetic : ledger.Arithmetic :=
    ((((arithmetic_empty.bind "a" rfl).bind "b" rfl).bind "c" rfl).bind "p" rfl).bind "q" rfl
  have hleft : specialize ledger (.binary .add (.reference "c") (.reference "q")) =
      .ok (.binary .add (.binary .sub (.integer 5) (.reference "d")) (.reference "q")) := by
    cbv
  have hp : ledger.Stuck "p" := Or.inr (by cbv)
  obtain ⟨⟨e', hs, hnames⟩, _⟩ :=
    specialize_names ledger (.binary .add (.reference "c") (.reference "q")) harithmetic rfl
  cases hs.symm.trans hleft
  obtain ⟨hmeets, hstuck⟩ := (hnames "d").1 (by decide)
  refine ⟨harithmetic, _, hleft, fun x => ?_, hmeets, hstuck, hp, fun hmeets => ?_⟩
  · simp [Expr.free]
  · have hmem := (hnames "p").2 ⟨hmeets, hp⟩
    revert hmem
    decide

end Reckoner
