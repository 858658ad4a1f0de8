/-
  What a residual program evaluates.  It has one evaluation for every evaluation of the program, in
  order, with the expression that specialization leaves (`residual_pairs`).

  Where an evaluation has a number, nothing keeps its parts from being folded: a name that stays has no
  number, and literals that fail have none.  So what is left is the literal of the number
  (`literal_iff_number`), and where it is none the residual program fails, for the assignments it keeps
  bind no name to anything that has a number.

  Without cycles the names that are left are unbound, at the time of the evaluation and so ever before
  it.  Hence no assignment in front is read and none is kept (`prune_of_acyclic`); and an unbound name
  fails in every namespace alike.
-/
import Reckoner.Proofs.Residual

namespace Reckoner

/-- The expressions that a program evaluates, in order. -/
def evaluated : List (Instruction Expr) → List Expr
  | [] => []
  | .evaluate e :: rest => e :: evaluated rest
  | _ :: rest => evaluated rest

variable {ns : Namespace Expr} {p q : List (Instruction Expr)}

/-- All evaluations of a program that has been read are come to. -/
theorem map_evaluations (hns : ns.Writable) (hp : ∀ i ∈ p, i.isWritable = true) :
    (evaluations ns p).map (·.2) = evaluated p := by
  induction p generalizing ns with
  | nil => rfl
  | cons i rest ih =>
    obtain ⟨hi, hrest⟩ := List.forall_mem_cons.1 hp
    cases i with
    | assign x e =>
      -- no assignment fails to be specialized, so none cuts the evaluations off
      obtain ⟨hx, he⟩ := (Bool.and_eq_true _ _).mp hi
      obtain ⟨e', hs⟩ := exists_specialize hns.arithmetic (Expr.isArithmetic_of_isWritable he)
      rw [evaluations_assign hs, ih (hns.bind hx (hns.specialize hs he)) hrest]
      rfl
    | evaluate e =>
      rw [evaluations, List.map_cons, ih hns hrest]
      rfl
    | missing => cases hi

/-- **The two programs evaluation by evaluation.**  Every program that has been read has a residual
    program, and its evaluations are those of the program, specialized, in what the kept assignments
    leave of the namespace. -/
theorem residual_pairs {ε : Type} (hp : ∀ i ∈ p, i.isWritable = true) :
    ∃ q, specializeAll ∅ (p.map (Except.ok (ε := ε))) = .ok q ∧
      residual (p.map (Except.ok (ε := ε))) = .ok (prune q) ∧ (∀ i ∈ prune q, i.isWritable = true) ∧
      (evaluations ∅ (prune q)).length = (evaluations ∅ p).length ∧
      ∀ c ∈ (evaluations ∅ p).zip (evaluations ∅ (prune q)),
        KeptOf c.1.1 c.2.1 ∧ specialize c.1.1 c.1.2 = .ok c.2.2 := by
  obtain ⟨q, hq, hwq⟩ := exists_specializeAll (ε := ε) writable_empty hp
  obtain ⟨hlen, hall⟩ := evaluations_residual KeptOf.empty hp hq
  refine ⟨q, hq, ?_, fun i hi => hwq i (mem_of_mem_prune hi), hlen, hall⟩
  rw [residual, hq]
  rfl

/-- The expressions of the residual program are what specialization leaves, one for one. -/
theorem map_evaluated_prune (hwq : ∀ i ∈ prune q, i.isWritable = true)
    (hlen : (evaluations ∅ (prune q)).length = (evaluations ∅ p).length)
    (hall : ∀ c ∈ (evaluations ∅ p).zip (evaluations ∅ (prune q)), specialize c.1.1 c.1.2 = .ok c.2.2) :
    (evaluated (prune q)).map Except.ok = (evaluations ∅ p).map fun c => specialize c.1 c.2 := by
  rw [← map_evaluations writable_empty hwq, List.map_map, map_eq_map_iff_zip hlen]
  intro c hc
  exact (hall c hc).symm

/-! ## Literals and numbers -/

/-- Two literals whose operation has a number give way to the literal of it. -/
theorem combine_of_number {op : Operator} {l r : Expr} (hl : l.isLiteral = true) (hr : r.isLiteral = true)
    {z : Number} (hz : evaluateIn ∅ [] (.binary op l r) = .ok z) :
    combine op l r = .ok (.ofNumber z) := by
  have hfold : fold op l r = .ok (some (.ofNumber z)) := by rw [fold_eq, hz]
  simp only [combine, hl, hr, hfold, Bool.and_self, if_true]

/-- What is left of an expression that has a number is a literal. -/
theorem isLiteral_of_number (h : ns.Unreserved) {e e' : Expr} (hs : specialize ns e = .ok e') {v : Number}
    (hv : evaluateIn ns [] e = .ok v) : e'.isLiteral = true := by
  fun_induction specialize ns e generalizing e' v with
  | case1 n => cases hs; rfl
  | case2 n d => cases hs; rfl
  | case3 x hb =>
    -- an unbound name and a name on a cycle have no number
    rw [evaluateIn_unbound List.not_mem_nil hb] at hv
    cases hv
  | case4 x b hb hc => exact absurd hv (evaluateIn_ne_ok_of_onCycle h hc v)
  | case5 x b hb hc ih =>
    -- a bound name has the number of its binding, where nothing leads back to it
    rw [evaluateIn_bound h List.not_mem_nil hb, evaluateIn_enter h hb (Bool.eq_false_iff.2 hc)] at hv
    exact ih hs hv
  | case6 op l r ihl ihr =>
    obtain ⟨l', hl, hs⟩ := exists_of_bind_ok hs
    obtain ⟨r', hr, hcomb⟩ := exists_of_bind_ok hs
    -- both operands have numbers, so both are literals by now and can be folded
    obtain ⟨a, b, hvl, hvr⟩ := ok_of_evaluateIn_binary hv
    have hlit := ihl hl hvl
    have hlit' := ihr hr hvr
    have hclosed : evaluateIn ns [] (.binary op l' r') = evaluateIn ∅ [] (.binary op l' r') :=
      evaluateIn_operation_of_literals hlit hlit' []
    have hz : evaluateIn ∅ [] (.binary op l' r') = .ok v := by
      rw [← hclosed, evaluateIn_binary, evaluateIn_specialize h hl, evaluateIn_specialize h hr,
        ← evaluateIn_binary, hv]
    rw [combine_of_number hlit hlit' hz] at hcomb
    cases hcomb
    exact Expr.isLiteral_ofNumber v

/-- **Folded to the end.**  What is left of an expression is a literal of a number exactly if that
    number comes out of the evaluation. -/
theorem literal_iff_number (h : ns.Unreserved) {e e' : Expr} (hs : specialize ns e = .ok e')
    (v : Number) :
    e'.isLiteral = true ∧ evaluate ∅ e' = .ok v ↔ evaluate ns e = .ok v := by
  -- a literal has one outcome everywhere, and specialization has kept the outcome
  have hsame : e'.isLiteral = true → evaluate ∅ e' = evaluate ns e := by
    intro hlit
    rw [evaluate_eq unreserved_empty, evaluate_eq h, ← evaluateIn_specialize h hs,
      evaluateIn_literal hlit ns]
  constructor
  · rintro ⟨hlit, hv⟩
    rw [← hsame hlit, hv]
  · intro hv
    have hlit : e'.isLiteral = true := isLiteral_of_number h hs (by rw [← evaluate_eq h, hv])
    exact ⟨hlit, (hsame hlit).trans hv⟩

/-! ## Folded evaluations -/

/-- What stands at one place of two lists of one length stands at that place of their pairs. -/
theorem exists_getElem?_zip {α β : Type} {as : List α} {bs : List β}
    (hlen : bs.length = as.length) {k : Nat} {a : α} (ha : as[k]? = some a) :
    ∃ b, bs[k]? = some b ∧ (a, b) ∈ as.zip bs := by
  obtain ⟨hk, rfl⟩ := List.getElem?_eq_some_iff.1 ha
  have hk' : k < bs.length := hlen ▸ hk
  have hzip : k < (as.zip bs).length := by rw [List.length_zip]; omega
  refine ⟨bs[k], List.getElem?_eq_getElem hk', ?_⟩
  rw [← List.getElem_zip (h := hzip)]
  exact List.getElem_mem hzip

/-- **Residual programs are folded to the end.**  The residual program of a program that has been read
    has the evaluations of the program, in order, each with what specialization leaves.  The `k`-th of
    them is the literal of a number exactly if the program's `k`-th result is that number; and where the
    program gives a diagnostic the residual program gives one. -/
theorem residual_folded {ε : Type} (hp : ∀ i ∈ p, ∃ line, Source.readLine line = .ok i) :
    ∃ p', residual (p.map (Except.ok (ε := ε))) = .ok p' ∧
      (evaluated p').map Except.ok = (evaluations ∅ p).map (fun c => specialize c.1 c.2) ∧
      (evaluated p').length = (evaluated p).length ∧ (results p).length = (evaluated p).length ∧
      (∀ (k : Nat) (v : Number),
        (∃ e', (evaluated p')[k]? = some e' ∧ e'.isLiteral = true ∧ evaluate ∅ e' = .ok v) ↔
          (results p)[k]? = some (Result.value v)) ∧
      ∀ (k : Nat) (f : Failure), (results p)[k]? = some (Result.diagnostic f) →
        ∃ f', (results p')[k]? = some (Result.diagnostic f') := by
  have hwp : ∀ i ∈ p, i.isWritable = true := fun i hi => exists_readLine_iff.1 (hp i hi)
  obtain ⟨q, _, hres, hwq, hlen, hall⟩ := residual_pairs (ε := ε) hwp
  have hmap := map_evaluations writable_empty hwp
  have hmap' := map_evaluations writable_empty hwq
  have hspecialized := map_evaluated_prune hwq hlen fun c hc => (hall c hc).2
  refine ⟨prune q, hres, hspecialized, ?_, ?_, ?_, ?_⟩
  · -- as many evaluations, and a result for each of them
    rw [← hmap, ← hmap', List.length_map, List.length_map, hlen]
  · rw [← hmap, results_eq hwp, List.length_map, List.length_map]
  · intro k v
    rw [results_eq hwp, List.getElem?_map, ← hmap', List.getElem?_map]
    cases hk : (evaluations ∅ p)[k]? with
    | none =>
      -- behind the last evaluation there is none in the residual program either
      have hk' : (evaluations ∅ (prune q))[k]? = none := by
        rw [List.getElem?_eq_none_iff] at hk ⊢
        omega
      rw [hk']
      simp
    | some c =>
      -- the two evaluations at this place belong together
      obtain ⟨c', hk', hmem⟩ := exists_getElem?_zip hlen hk
      obtain ⟨hkept, hs⟩ := hall _ hmem
      have hvalue : Result.of (evaluate c.1 c.2) = .value v ↔ evaluate c.1 c.2 = .ok v := by
        cases evaluate c.1 c.2 with
        | ok x => simp [Result.of]
        | error f => simp [Result.of]
      rw [hk', Option.map_some, Option.map_some, Option.some.injEq, hvalue,
        ← literal_iff_number hkept.writable.unreserved hs v]
      simp
  · intro k f hf
    rw [results_eq hwp, List.getElem?_map] at hf
    obtain ⟨c, hk, hc⟩ := Option.map_eq_some_iff.1 hf
    obtain ⟨c', hk', hmem⟩ := exists_getElem?_zip hlen hk
    obtain ⟨hkept, hs⟩ := hall _ hmem
    rw [results_eq hwq, List.getElem?_map, hk', Option.map_some]
    cases hv : evaluate c'.1 c'.2 with
    | ok v =>
      -- a number here would be a number there
      rw [(number_kept hkept hs v).1 hv] at hc
      cases hc
    | error f' => exact ⟨f', rfl⟩

/-- The second evaluation of `spiral` is left as a literal, and the first one fails in what is left of
    it. -/
theorem residual_folded_spiral :
    (∀ i ∈ spiral, ∃ line, Source.readLine line = .ok i) ∧
      ∃ p', residual (ε := Empty) (spiral.map .ok) = .ok p' ∧ (evaluated p').length = 3 ∧
        (∃ e', (evaluated p')[1]? = some e' ∧ e'.isLiteral = true ∧ evaluate ∅ e' = .ok (.int 7)) ∧
        ∃ f, (results p')[0]? = some (Result.diagnostic f) := by
  have hwritable : ∀ i ∈ spiral, i.isWritable = true := by decide
  have hread : ∀ i ∈ spiral, ∃ line, Source.readLine line = .ok i := fun i hi =>
    exists_readLine_iff.2 (hwritable i hi)
  have hevaluations : evaluations ∅ spiral =
      [(((∅ : Namespace Expr).bind "a" (.integer 2)).bind
          "x" (.binary .mul (.integer 2) (.reference "x")), .reference "x"),
        (((∅ : Namespace Expr).bind "a" (.integer 7)).bind
          "x" (.binary .mul (.integer 2) (.reference "x")), .reference "a"),
        (((∅ : Namespace Expr).bind "a" (.integer 7)).bind
          "x" (.binary .mul (.integer 2) (.reference "x")),
          .binary .div (.reference "a") (.reference "y"))] := by
    cbv
  have hresults : results spiral =
      [.diagnostic (.recursive "x"), .value (.int 7), .diagnostic (.unbound "y")] := by
    rw [results_eq hwritable, hevaluations]
    simp only [List.map_cons, List.map_nil]
    cbv
  obtain ⟨p', hres, _, hlen, _, hvalue, hfail⟩ := residual_folded (ε := Empty) hread
  refine ⟨hread, p', hres, hlen, (hvalue 1 _).2 ?_, hfail 0 (.recursive "x") ?_⟩
  · rw [hresults]
    rfl
  · rw [hresults]
    rfl

/-! ## Without cycles

  The condition is on every namespace of the run, since a cycle may be there at one time and gone at
  another.  Evaluations are made in such namespaces only. -/

/-- The namespaces that a run goes through, the first and the last included. -/
def namespaces (ns : Namespace Expr) : List (Instruction Expr) → List (Namespace Expr)
  | [] => [ns]
  | i :: rest => ns :: match step ns i with
    | .ok (ns', _) => namespaces ns' rest
    | .error _ => []

/-- An assignment leads to the namespace with the name bound to what is left. -/
theorem namespaces_assign {x : String} {e e' : Expr} (hs : specialize ns e = .ok e')
    (p : List (Instruction Expr)) :
    namespaces ns (.assign x e :: p) = ns :: namespaces (ns.bind x e') p := by
  simp only [namespaces, step, hs]
  rfl

/-- An evaluation leads nowhere. -/
theorem namespaces_evaluate (hns : ns.Writable) {e : Expr} (he : e.isWritable = true)
    (p : List (Instruction Expr)) : namespaces ns (.evaluate e :: p) = ns :: namespaces ns p := by
  simp only [namespaces, step, ofOutcome_evaluate hns.regular (Expr.isArithmetic_of_isWritable he)]
  rfl

/-- Every evaluation is made in a namespace that the run goes through. -/
theorem mem_namespaces_of_evaluations (hns : ns.Writable) (hp : ∀ i ∈ p, i.isWritable = true)
    {c : Namespace Expr × Expr} (hc : c ∈ evaluations ns p) : c.1 ∈ namespaces ns p := by
  induction p generalizing ns with
  | nil => cases hc
  | cons i rest ih =>
    obtain ⟨hi, hrest⟩ := List.forall_mem_cons.1 hp
    cases i with
    | assign x e =>
      obtain ⟨hx, he⟩ := (Bool.and_eq_true _ _).mp hi
      obtain ⟨e', hs⟩ := exists_specialize hns.arithmetic (Expr.isArithmetic_of_isWritable he)
      rw [evaluations_assign hs] at hc
      rw [namespaces_assign hs]
      exact List.mem_cons_of_mem _ (ih (hns.bind hx (hns.specialize hs he)) hrest hc)
    | evaluate e =>
      rw [namespaces_evaluate hns hi]
      rcases List.mem_cons.1 hc with rfl | hc
      · exact List.mem_cons_self
      · exact List.mem_cons_of_mem _ (ih hns hrest hc)
    | missing => cases hi

/-- **Without cycles a live name is unbound**, and so no assignment is kept. -/
theorem prune_of_acyclic {ε : Type} (hns : ns.Writable) (hp : ∀ i ∈ p, i.isWritable = true)
    (hq : specializeAll ns (p.map (Except.ok (ε := ε))) = .ok q)
    (hacyclic : ∀ ns' ∈ namespaces ns p, ∀ x, ns'.onCycle x = false) :
    (∀ x ∈ live q, ns.find? x = none) ∧ prune q = (evaluated q).map .evaluate := by
  induction p generalizing ns q with
  | nil =>
    cases hq
    exact ⟨fun _ h => absurd h List.not_mem_nil, rfl⟩
  | cons i rest ih =>
    obtain ⟨hi, hrest⟩ := List.forall_mem_cons.1 hp
    cases i with
    | assign x e =>
      obtain ⟨hx, he⟩ := (Bool.and_eq_true _ _).mp hi
      obtain ⟨e', q', hs, hq', rfl⟩ := specializeAll_assign hq
      rw [namespaces_assign hs] at hacyclic
      obtain ⟨hlive, hprune⟩ := ih (hns.bind hx (hns.specialize hs he)) hrest hq'
        fun ns' h => hacyclic ns' (List.mem_cons_of_mem _ h)
      -- the name is bound behind the assignment, so it is not live there
      have hdead : x ∉ live q' := by
        intro hmem
        have hnone := hlive x hmem
        rw [Namespace.find?_bind_self] at hnone
        cases hnone
      constructor
      · intro y hy
        rw [live_assign_dead e' hdead] at hy
        have hne : y ≠ x := fun h => hdead (h ▸ hy)
        rw [← Namespace.find?_bind_of_ne hne e']
        exact hlive y hy
      · rw [prune_assign_dead e' hdead, hprune]
        rfl
    | evaluate e =>
      obtain ⟨e', q', hs, hq', rfl⟩ := specializeAll_evaluate hq
      rw [namespaces_evaluate hns hi] at hacyclic
      obtain ⟨hlive, hprune⟩ := ih hns hrest hq' fun ns' h => hacyclic ns' (List.mem_cons_of_mem _ h)
      constructor
      · intro y hy
        rw [live_evaluate] at hy
        rcases List.mem_append.1 hy with hy | hy
        · -- a name that is left is unbound or on a cycle, and there are no cycles
          rcases stuck_of_mem_free hs hy with hnone | hc
          · exact hnone
          · rw [hacyclic ns List.mem_cons_self] at hc
            cases hc
        · exact hlive y hy
      · rw [prune_evaluate, hprune]
        rfl
    | missing => cases hi

/-- A program of evaluations evaluates just these. -/
theorem evaluated_map (es : List Expr) : evaluated (es.map .evaluate) = es := by
  induction es with
  | nil => rfl
  | cons e es ih => rw [List.map_cons, evaluated, ih]

/-- **Programs without cycles leave evaluations only.**  If no name is on a cycle in any namespace that
    the run of a program goes through, its residual program has no assignment: it consists of the
    evaluations of the program, in order, each with what specialization leaves, and gives the same
    results, the diagnostics included. -/
theorem residual_of_acyclic {ε : Type} (hp : ∀ i ∈ p, ∃ line, Source.readLine line = .ok i)
    (hacyclic : ∀ ns ∈ namespaces ∅ p, ∀ x, ns.onCycle x = false) :
    ∃ es : List Expr, residual (p.map (Except.ok (ε := ε))) = .ok (es.map .evaluate) ∧
      es.map Except.ok = (evaluations ∅ p).map (fun c => specialize c.1 c.2) ∧
      es.length = (evaluated p).length ∧ results (es.map .evaluate) = results p := by
  have hwp : ∀ i ∈ p, i.isWritable = true := fun i hi => exists_readLine_iff.1 (hp i hi)
  obtain ⟨q, hq, hres, hwq, hlen, hall⟩ := residual_pairs (ε := ε) hwp
  obtain ⟨_, hprune⟩ := prune_of_acyclic writable_empty hwp hq hacyclic
  have hspecialized := map_evaluated_prune hwq hlen fun c hc => (hall c hc).2
  have hmap := map_evaluations writable_empty hwp
  have hmap' := map_evaluations writable_empty hwq
  -- nothing but evaluations is kept, so the kept ones are all
  have hes : evaluated (prune q) = evaluated q := by rw [hprune, evaluated_map]
  refine ⟨evaluated q, ?_, ?_, ?_, ?_⟩
  · rw [hres, hprune]
  · rw [← hes, hspecialized]
  · rw [← hes, ← hmap, ← hmap', List.length_map, List.length_map, hlen]
  · rw [← hprune, results_eq hwp, results_eq hwq, map_eq_map_iff_zip hlen]
    intro c hc
    obtain ⟨hkept, hs⟩ := hall c hc
    have hmem : c.1.1 ∈ namespaces ∅ p :=
      mem_namespaces_of_evaluations writable_empty hwp (List.of_mem_zip hc).1
    -- only a name on a cycle could fail differently
    refine congrArg Result.of ((evaluate_kept_eq_iff hkept hs).2 fun x _ hcycle => ?_)
    rw [hacyclic _ hmem x] at hcycle
    cases hcycle

/-- Only bound names need be looked at: a name that is not bound reads nothing. -/
theorem Namespace.onCycle_false_of_names (h : ∀ x ∈ ns.names, ns.onCycle x = false) (x : String) :
    ns.onCycle x = false := by
  by_cases hx : x ∈ ns.names
  · exact h x hx
  · exact Bool.eq_false_iff.2 fun hc =>
      Namespace.exists_reads_of_onCycle hc (Namespace.reads_of_not_mem hx)

/-- `s := a / b`, `a := 6`, `>>> s`, `b := a - 6`, `>>> s`, `b := 3`, `>>> s`: a binding that is read
    before its names are bound, then fails, and then has a number. -/
def sheet : List (Instruction Expr) :=
  [.assign "s" (.binary .div (.reference "a") (.reference "b")), .assign "a" (.integer 6),
    .evaluate (.reference "s"), .assign "b" (.binary .sub (.reference "a") (.integer 6)),
    .evaluate (.reference "s"), .assign "b" (.integer 3), .evaluate (.reference "s")]

/-- Of `sheet` are left `>>> (6 / b)`, `>>> (6 / 0)` and `>>> 2`. -/
theorem residual_of_acyclic_sheet :
    (∀ i ∈ sheet, ∃ line, Source.readLine line = .ok i) ∧
      (∀ ns ∈ namespaces ∅ sheet, ∀ x, ns.onCycle x = false) ∧
      ∃ es : List Expr, residual (ε := Empty) (sheet.map .ok) = .ok (es.map .evaluate) ∧ es.length = 3 ∧
        results (es.map .evaluate) =
          [.diagnostic (.unbound "b"), .diagnostic .divisionByZero, .value (.int 2)] := by
  have hwritable : ∀ i ∈ sheet, i.isWritable = true := by decide
  have hread : ∀ i ∈ sheet, ∃ line, Source.readLine line = .ok i := fun i hi =>
    exists_readLine_iff.2 (hwritable i hi)
  have hnames : (namespaces ∅ sheet).all (fun ns => ns.names.all fun x => !ns.onCycle x) = true := by cbv
  have hacyclic : ∀ ns ∈ namespaces ∅ sheet, ∀ x, ns.onCycle x = false := by
    intro ns hns
    refine Namespace.onCycle_false_of_names fun x hx => ?_
    simpa using List.all_eq_true.1 (List.all_eq_true.1 hnames ns hns) x hx
  obtain ⟨es, hres, _, hlen, hsame⟩ := residual_of_acyclic (ε := Empty) hread hacyclic
  have hevaluations : evaluations ∅ sheet =
      [(((∅ : Namespace Expr).bind "a" (.integer 6)).bind
          "s" (.binary .div (.reference "a") (.reference "b")), .reference "s"),
        ((((∅ : Namespace Expr).bind "a" (.integer 6)).bind "b" (.integer 0)).bind
          "s" (.binary .div (.reference "a") (.reference "b")), .reference "s"),
        ((((∅ : Namespace Expr).bind "a" (.integer 6)).bind "b" (.integer 3)).bind
          "s" (.binary .div (.reference "a") (.reference "b")), .reference "s")] := by
    cbv
  refine ⟨hread, hacyclic, es, hres, hlen, ?_⟩
  rw [hsame, results_eq hwritable, hevaluations]
  simp only [List.map_cons, List.map_nil]
  cbv

end Reckoner
