/-
  Every recursion through bindings ends.  Three procedures follow the bindings of a namespace, however
  they lead in circles: the execution of code, the specialization of nodes, and the search for a cycle.
  Each is a `Procedure` here, which might go on for ever, and each is shown to return what the
  definition that runs gives.

  Each has its own reason.  Inside a binding, one more bound name is active.  From what a name on no
  cycle is bound to, the name itself is not met again.  And a search goes only into names that are not
  marked, and marks them.  So no name is opened inside itself, and neither executions nor substitutions
  are nested deeper than there are names.
-/
import Mathlib.Data.List.Perm.Subperm
import Reckoner.Proofs.ActiveNames
import Reckoner.Proofs.Cycle

namespace Reckoner

/-- Some of the bound names, each once, are no more than all of them. -/
theorem Namespace.length_le_size {α : Type} {ns : Namespace α} {xs : List String} (hxs : xs.Nodup)
    (hnames : ∀ x ∈ xs, x ∈ ns.names) : xs.length ≤ ns.size := by
  have hle := (List.subperm_of_subset hxs hnames).length_le
  rwa [Namespace.names, List.length_map] at hle

namespace Engine

variable {ns : Namespace Node}

/-! ## Execution -/

/-- The execution that the evaluation of a node begins with. -/
def start (en : Engine) (n : Node) : Frame := ⟨n.constants, n.code, ⟨en.compile n, []⟩⟩

/-- What an evaluation gives is what comes of its first execution, unless a constant clashes. -/
theorem evaluate_start {n : Node} (h : ns.clash? n.expr = none) (en : Engine) :
    en.evaluate ns n = ((outcome ns (en.start n)).1, (outcome ns (en.start n)).2.engine) := by
  simp only [evaluate, h]
  rfl

/-- **Executions inside each other**: the names that they have opened have become active, none of them
    was so before, and none has been opened twice. -/
theorem nested_execution {fr fr' : Frame} {xs : List String}
    (h : (execution ns).Nested Frame.opens fr xs fr') :
    fr'.shared.active = xs ++ fr.shared.active ∧ xs.Nodup ∧ (∀ x ∈ xs, x ∉ fr.shared.active) ∧
      ∀ x ∈ xs, x ∈ ns.names := by
  induction h with
  | here => exact ⟨rfl, List.nodup_nil, List.forall_mem_nil _, List.forall_mem_nil _⟩
  | @deeper xs j k _ hcall ih =>
    -- one execution deeper: into the binding of a name, or into an operand
    obtain ⟨hactive, hnodup, hfresh, hnames⟩ := ih
    rcases calls_cases hcall with ⟨x, b, hcode, hx, hb, _, hentered⟩ | ⟨op, l, r, hcode, _, hsame⟩
    · -- the name is opened only if it is not active, so it is none of those opened before
      rw [hactive, List.mem_append, not_or] at hx
      rw [Frame.opens, hcode, hentered, hactive]
      refine ⟨rfl, List.nodup_cons.2 ⟨hx.1, hnodup⟩, List.forall_mem_cons.2 ⟨hx.2, hfresh⟩, ?_⟩
      exact List.forall_mem_cons.2 ⟨Namespace.mem_names_of_find? hb, hnames⟩
    · -- an operand is executed with the same names active
      rw [Frame.opens, hcode, hsame, hactive]
      exact ⟨rfl, hnodup, hfresh, hnames⟩

/-! ## Specialization -/

/-- The name that is substituted when a node is specialized. -/
def substitutes (c : Engine × Node) : Option String :=
  match c.2 with
  | .reference _ x => some x
  | _ => none

/-- Specialize a node, in as many nested specializations as it takes. -/
def specialization (ns : Namespace Node) :
    Procedure (Engine × Node) (Except Failure Node × Engine) := fun c =>
  match c.2 with
  | .integer i k => .done (.ok (.integer i k), c.1)
  | .rational i k d => .done (.ok (.rational i k d), c.1)
  | .reference i x =>
    match ns.find? x with
    | none => .done (.ok (.reference i x), c.1)
    | some b => if ns.onCycle x then .done (.ok (.reference i x), c.1) else .ask (c.1, b) .done
  | .binary i op l r =>
    .ask (c.1, l) fun left =>
      match left.1 with
      | .error f => .done (.error f, left.2)
      | .ok l' =>
        .ask (left.2, r) fun right =>
          match right.1 with
          | .error f => .done (.error f, right.2)
          | .ok r' => .done (right.2.combine (.binary i op l r) op (l'.id ≠ l.id || r'.id ≠ r.id) l' r')

/-- **What a specialization has specialized**: for a name that is bound and on no cycle its binding, for
    an operation its operands. -/
theorem specialization_cases {R : Engine × Node → Except Failure Node × Engine → Prop}
    {c c' : Engine × Node} (h : (specialization ns c).Makes R c') :
    (∃ i x b, c.2 = .reference i x ∧ ns.find? x = some b ∧ ns.onCycle x = false ∧ c'.2 = b) ∨
      ∃ i op l r, c.2 = .binary i op l r ∧ (c'.2 = l ∨ c'.2 = r) := by
  obtain ⟨en, n⟩ := c
  cases n with
  | integer i k => cases h
  | rational i k d => cases h
  | reference i x =>
    left
    cases hb : ns.find? x with
    | none =>
      simp only [specialization, hb] at h
      cases h
    | some b =>
      simp only [specialization, hb] at h
      split at h
      · cases h
      · rename_i hc
        cases h with
        | ask => exact ⟨i, x, b, rfl, hb, Bool.eq_false_iff.2 hc, rfl⟩
        | later _ hj => cases hj
  | binary i op l r =>
    right
    refine ⟨i, op, l, r, rfl, ?_⟩
    -- the left operand first; the right one only if something is left of the left one
    cases h with
    | ask => exact Or.inl rfl
    | later _ hj =>
      dsimp only at hj
      split at hj
      · cases hj
      · cases hj with
        | ask => exact Or.inr rfl
        | later _ hj =>
          dsimp only at hj
          split at hj <;> cases hj

/-- The procedure comes to what is left of a node, if its calls do. -/
theorem specialization_run (ns : Namespace Node) (c : Engine × Node) :
    (specialization ns c).run (fun c => c.1.specialize ns c.2) = c.1.specialize ns c.2 := by
  obtain ⟨en, n⟩ := c
  cases n with
  | integer i k =>
    rw [specialize]
    rfl
  | rational i k d =>
    rw [specialize]
    rfl
  | reference i x =>
    rw [specialize]
    split
    · rename_i hb
      simp only [specialization, hb]
      rfl
    · rename_i b hb
      simp only [specialization, hb]
      by_cases hc : ns.onCycle x = true
      · rw [if_pos hc, if_pos hc]
        rfl
      · rw [if_neg hc, if_neg hc]
        rfl
  | binary i op l r =>
    rw [specialize]
    simp only [specialization, Plan.run]
    cases (en.specialize ns l).1 with
    | error f => rfl
    | ok l' =>
      simp only [Plan.run]
      cases ((en.specialize ns l).2.specialize ns r).1 <;> rfl

/-- An operand mentions no name that the operation does not mention. -/
theorem free_operand {n l r : Node} (h : n = l ∨ n = r) (i : Nat) (op : Operator) :
    ∀ x ∈ n.free, x ∈ (Node.binary i op l r).free := by
  rcases h with rfl | rfl
  · exact fun x => List.mem_append_left _
  · exact fun x => List.mem_append_right _

/-- **Specializations end**: the procedure answers every call, with what is left of the node. -/
theorem specialization_returns (ns : Namespace Node) (en : Engine) (n : Node) :
    (specialization ns).Returns (en, n) (en.specialize ns n) := by
  refine Procedure.returns_of_size (specialization_run ns) (fun c => (ns.rank c.2.free, sizeOf c.2))
    ?_ (en, n)
  intro c c' h
  rcases specialization_cases h with ⟨i, x, b, hn, hb, hc, hn'⟩ | ⟨i, op, l, r, hn, hoperand⟩
  · -- the names that can be met become fewer: the substituted one is on no cycle
    rw [hn, hn']
    exact Prod.Lex.left _ _ (Namespace.rank_reads_lt hb hc)
  · -- no more names, and a smaller node
    rw [hn]
    refine Prod.Lex.right' _ (Namespace.rank_mono (free_operand hoperand i op)) ?_
    rw [Node.binary.sizeOf_spec]
    rcases hoperand with h | h <;> rw [h] <;> omega

/-- **Substitutions inside each other**: no name is substituted twice, for none of those that have been
    substituted can be met from what is specialized now. -/
theorem nested_specialization {c c' : Engine × Node} {xs : List String}
    (h : (specialization ns).Nested substitutes c xs c') :
    xs.Nodup ∧ (∀ x ∈ xs, x ∉ ns.reach c'.2.free) ∧ ∀ x ∈ xs, x ∈ ns.names := by
  induction h with
  | here => exact ⟨List.nodup_nil, List.forall_mem_nil _, List.forall_mem_nil _⟩
  | @deeper xs j k _ hcall ih =>
    obtain ⟨hnodup, hgone, hnames⟩ := ih
    rcases specialization_cases hcall with ⟨i, x, b, hj, hb, hc, hk⟩ | ⟨i, op, l, r, hj, hoperand⟩
    · -- a name is substituted.  It can be met from itself, so it is none of the earlier ones; and it
      -- cannot be met from its binding, since it is on no cycle
      have hreads : ns.reads x = b.free := Namespace.reads_of_find? hb
      have hfree : j.2.free = [x] := by rw [hj]; rfl
      rw [hfree] at hgone
      rw [substitutes, hj, hk]
      refine ⟨List.nodup_cons.2 ⟨fun hx => hgone x hx (ns.mem_reach_self x), hnodup⟩,
        List.forall_mem_cons.2 ⟨fun hx => ?_, fun y hy hmet => ?_⟩,
        List.forall_mem_cons.2 ⟨Namespace.mem_names_of_find? hb, hnames⟩⟩
      · rw [← hreads, ← Namespace.onCycle_iff, hc] at hx
        cases hx
      · rw [← hreads] at hmet
        exact hgone y hy (Namespace.reach_of_mem_reads (ns.mem_reach_self x) hmet)
    · -- from an operand no more can be met than from the operation
      rw [hj] at hgone
      rw [substitutes, hj]
      refine ⟨hnodup, fun x hx hmet => hgone x hx ?_, hnames⟩
      exact Namespace.reach_mono (free_operand hoperand i op) hmet

end Engine

/-! ## The search for a cycle -/

namespace Namespace

variable {α : Type} [Mentions α] {ns : Namespace α}

/-- Go through some names in search of one: names that are marked are passed over, others are marked and
    searched. -/
def lookThrough (target : String) :
    (names seen : List String) → Plan (String × List String) (Bool × List String)
  | [], seen => .done (false, seen)
  | x :: rest, seen =>
    if x = target then .done (true, seen)
    else if x ∈ seen then lookThrough target rest seen
    else
      .ask (x, x :: seen) fun below =>
        if below.1 then .done (true, below.2) else lookThrough target rest below.2

/-- Whether the binding of a name leads to `target`, found out in as many nested searches as it takes;
    also the names that are marked then. -/
def reaching (ns : Namespace α) (order : ns.Order) (target : String) :
    Procedure (String × List String) (Bool × List String) :=
  fun c => lookThrough target (order.visit c.2 c.1) c.2

/-- What comes of a search below a name. -/
def found (ns : Namespace α) (order : ns.Order) (target : String) (c : String × List String) :
    Bool × List String :=
  let below := ns.search order target c.2 (order.visit c.2 c.1)
  (below.met, below.marked)

variable {order : ns.Order} {target : String}

/-- Going through names comes to what the search gives, if the searches below them do. -/
theorem lookThrough_run (seen names : List String) :
    (lookThrough target names seen).run (ns.found order target) =
      ((ns.search order target seen names).met, (ns.search order target seen names).marked) := by
  fun_induction search ns order target seen names with
  | case1 seen => rfl
  | case2 seen rest =>
    rw [lookThrough, if_pos rfl]
    rfl
  | case3 seen x rest hx hs ih => rw [lookThrough, if_neg hx, if_pos hs, ih]
  | case4 seen x rest hx hs below hseen hmet ih =>
    rw [lookThrough, if_neg hx, if_neg hs, Plan.run]
    have hbelow : ns.found order target (x, x :: seen) = (below.met, below.marked) := rfl
    rw [hbelow, if_pos hmet]
    rfl
  | case5 seen x rest hx hs below hseen hmet beside ihb ihr =>
    rw [lookThrough, if_neg hx, if_neg hs, Plan.run]
    have hbelow : ns.found order target (x, x :: seen) = (below.met, below.marked) := rfl
    rw [hbelow, if_neg hmet, ihr]

/-- **What a search goes into**: names from the list that are not marked, and are marked then, if marks
    are kept. -/
theorem lookThrough_cases {R : String × List String → Bool × List String → Prop}
    (hR : ∀ c a, R c a → ∀ y ∈ c.2, y ∈ a.2) {names seen : List String} {c : String × List String}
    (h : (lookThrough target names seen).Makes R c) :
    ∃ x ∈ names, ∃ marked, c = (x, x :: marked) ∧ x ∉ marked ∧ ∀ y ∈ seen, y ∈ marked := by
  induction names generalizing seen with
  | nil => cases h
  | cons x rest ih =>
    rw [lookThrough] at h
    split at h
    · cases h
    · split at h
      · -- a marked name is passed over
        obtain ⟨y, hy, hcall⟩ := ih h
        exact ⟨y, List.mem_cons_of_mem _ hy, hcall⟩
      · rename_i hs
        cases h with
        | ask => exact ⟨x, List.mem_cons_self, seen, rfl, hs, fun _ => id⟩
        | later hbelow hj =>
          dsimp only at hj
          split at hj
          · cases hj
          · obtain ⟨y, hy, marked, hc, hfresh, hkeeps⟩ := ih hj
            -- further on in the list, with the marks that the search below `x` has left
            refine ⟨y, List.mem_cons_of_mem _ hy, marked, hc, hfresh, fun z hz => hkeeps z ?_⟩
            exact hR _ _ hbelow z (List.mem_cons_of_mem _ hz)

/-- **Searches end**: the procedure answers every call, with what comes of the search. -/
theorem reaching_returns (order : ns.Order) (target : String) (c : String × List String) :
    (ns.reaching order target).Returns c (ns.found order target c) := by
  refine Procedure.returns_of_size (fun c => lookThrough_run c.2 _)
    (fun c => (ns.unseen c.2, if c.1 ∈ ns.names then 1 else 0)) ?_ c
  rintro ⟨x, seen⟩ c h
  have hR : ∀ c a, ns.found order target c = a → ∀ y ∈ c.2, y ∈ a.2 := by
    rintro c _ rfl
    exact (ns.search order target c.2 (order.visit c.2 c.1)).keeps
  obtain ⟨y, hy, marked, rfl, hfresh, hkeeps⟩ := lookThrough_cases hR h
  -- only a bound name has others to look through
  have hx : x ∈ ns.names := by
    by_contra hx
    rw [order.visit_of_not_mem hx] at hy
    cases hy
  have hle : ns.unseen marked ≤ ns.unseen seen := unseen_anti hkeeps
  by_cases hyn : y ∈ ns.names
  · exact Prod.Lex.left _ _ (Nat.lt_of_lt_of_le (unseen_cons_lt hyn hfresh) hle)
  · -- a name that is not bound leads nowhere
    simp only [unseen_cons_of_not_mem hyn, if_neg hyn, if_pos hx]
    exact Prod.Lex.right' _ hle Nat.one_pos

/-- **Names are marked one after the other**, none of them a second time. -/
theorem marked_search (order : ns.Order) (target : String) (seen names : List String) :
    seen <:+ (ns.search order target seen names).marked ∧
      (seen.Nodup → (ns.search order target seen names).marked.Nodup) := by
  fun_induction search ns order target seen names with
  | case1 seen => exact ⟨List.suffix_refl _, id⟩
  | case2 seen rest => exact ⟨List.suffix_refl _, id⟩
  | case3 seen x rest hx hs ih => exact ih
  | case4 seen x rest hx hs below hseen hmet ih =>
    exact ⟨(List.suffix_cons x seen).trans ih.1, fun h => ih.2 (List.nodup_cons.2 ⟨hs, h⟩)⟩
  | case5 seen x rest hx hs below hseen hmet beside ihb ihr =>
    -- the name, then those below it, then those beside it
    refine ⟨((List.suffix_cons x seen).trans ihb.1).trans ihr.1, fun h => ihr.2 (ihb.2 ?_)⟩
    exact List.nodup_cons.2 ⟨hs, h⟩

end Namespace

/-! ## All three -/

namespace Engine

/-- **All recursions through bindings end**, however the bindings lead in circles.

    The execution that evaluates a node returns, what the evaluation gives if no constant clashes.
    Among executions inside each other the names that have been opened are those that are active, none
    is so twice, and they are no more than there are names.

    The specialization of a node returns.  Among specializations inside each other no name has been
    substituted twice, and those that have been are no more than there are names.

    The search below a name returns, whatever is looked for, whatever is marked and in whatever order it
    goes.  It only adds marks, and marks no name twice; so does the search that finds out whether a name
    is on a cycle. -/
theorem recursions_end (ns : Namespace Node) :
    (∀ (en : Engine) (n : Node),
      (∃ out, (execution ns).Returns (en.start n) out ∧
        (ns.clash? n.expr = none → en.evaluate ns n = (out.1, out.2.engine))) ∧
      ∀ xs fr, (execution ns).Nested Frame.opens (en.start n) xs fr →
        fr.shared.active = xs ∧ xs.Nodup ∧ xs.length ≤ ns.size) ∧
    (∀ (en : Engine) (n : Node),
      (specialization ns).Returns (en, n) (en.specialize ns n) ∧
      ∀ xs c, (specialization ns).Nested substitutes (en, n) xs c → xs.Nodup ∧ xs.length ≤ ns.size) ∧
    ∀ order : ns.Order,
      (∀ target x seen, (ns.reaching order target).Returns (x, seen) (ns.found order target (x, seen)) ∧
        seen <:+ (ns.found order target (x, seen)).2 ∧
        (seen.Nodup → (ns.found order target (x, seen)).2.Nodup)) ∧
      ∀ x, ∃ marked, (ns.reaching order x).Returns (x, []) (ns.onCycle x, marked) ∧ marked.Nodup := by
  refine ⟨fun en n => ⟨?_, fun xs fr h => ?_⟩,
    fun en n => ⟨specialization_returns ns en n, fun xs c h => ?_⟩,
    fun order => ⟨fun target x seen => ?_, fun x => ?_⟩⟩
  · exact ⟨_, execution_returns ns (en.start n), fun hclash => evaluate_start hclash en⟩
  · obtain ⟨hactive, hnodup, _, hnames⟩ := nested_execution h
    exact ⟨hactive.trans (List.append_nil xs), hnodup, Namespace.length_le_size hnodup hnames⟩
  · obtain ⟨hnodup, _, hnames⟩ := nested_specialization h
    exact ⟨hnodup, Namespace.length_le_size hnodup hnames⟩
  · exact ⟨Namespace.reaching_returns order target (x, seen), Namespace.marked_search order target seen _⟩
  · have hreturns := Namespace.reaching_returns order x (x, [])
    have hmet : ns.found order x (x, []) = (ns.leadsBack order x, _) := rfl
    rw [hmet, Namespace.leadsBack_eq_onCycle] at hreturns
    exact ⟨_, hreturns, (Namespace.marked_search order x [] _).2 List.nodup_nil⟩

/-- Two names that are bound to each other, and a way to them through two more. -/
def circle : Namespace Node :=
  (((((∅ : Namespace Node).bind "a" (.reference 0 "b")).bind "b" (.reference 1 "a")).bind
    "c" (.reference 2 "a")).bind "d" (.reference 3 "c"))

/-- A look-up inside other executions that finds a binding has it executed one deeper. -/
theorem nested_lookup {ns : Namespace Node} {fr : Frame} {xs constants : List String} {x : String}
    {st : Execution} {b : Node} (h : (execution ns).Nested Frame.opens fr xs ⟨constants, .lookup x, st⟩)
    (hx : x ∉ st.active) (hb : ns.find? x = some b) (hclash : ns.clash? b.expr = none) :
    (execution ns).Nested Frame.opens fr (x :: xs)
      ⟨b.constants, b.code, ⟨st.engine.compile b, x :: st.active⟩⟩ :=
  .deeper h (calls_lookup hx hb hclash)

/-- A reference inside other specializations is substituted if its name is bound and on no cycle. -/
theorem nested_reference {ns : Namespace Node} {c : Engine × Node} {xs : List String}
    {en : Engine} {i : Nat} {x : String} {b : Node}
    (h : (specialization ns).Nested substitutes c xs (en, .reference i x)) (hb : ns.find? x = some b)
    (hc : ns.onCycle x = false) :
    (specialization ns).Nested substitutes c (x :: xs) (en, b) := by
  refine .deeper h ?_
  simp only [Procedure.Calls, specialization, hb, hc]
  exact .ask

/-- Around the circle: the evaluation of `d` opens all four names before it comes back to `a`, its
    specialization substitutes the two that are not on the circle, and the search below `d` does not
    meet `d`. -/
theorem recursions_end_circle :
    (∃ out, (execution circle).Returns (({} : Engine).start (.reference 4 "d")) out ∧
        out.1 = .error (.recursive "a")) ∧
      (∃ fr, (execution circle).Nested Frame.opens (({} : Engine).start (.reference 4 "d"))
        ["b", "a", "c", "d"] fr ∧
        fr.code = .lookup "a" ∧ fr.shared.active = ["b", "a", "c", "d"] ∧
        ["b", "a", "c", "d"].length ≤ circle.size) ∧
      (∃ c, (specialization circle).Nested substitutes ({}, .reference 4 "d") ["c", "d"] c ∧
        c.2 = .reference 2 "a" ∧ ["c", "d"].Nodup) ∧
      ∃ marked, (circle.reaching circle.written "d").Returns ("d", []) (false, marked) ∧
        marked.Nodup := by
  obtain ⟨hevaluate, hspecialize, hsearch⟩ := recursions_end circle
  have hnone : ∀ i x, circle.clash? (Node.reference i x).expr = none := fun _ _ => rfl
  have hexprs : circle.exprs =
      ((((∅ : Namespace Expr).bind "a" (.reference "b")).bind "b" (.reference "a")).bind
        "c" (.reference "a")).bind "d" (.reference "c") := rfl
  have hoff : circle.onCycle "d" = false := by
    rw [← Namespace.onCycle_exprs, hexprs]
    cbv
  refine ⟨?_, ?_, ?_, ?_⟩
  · obtain ⟨out, hreturns, heq⟩ := (hevaluate {} (.reference 4 "d")).1
    have hrecursive : (({} : Engine).evaluate circle (.reference 4 "d")).1 = .error (.recursive "a") := by
      rw [(Engine.evaluate_eq _ _ _).1, hexprs]
      show Reckoner.evaluate _ (.reference "d") = .error (.recursive "a")
      cbv
    rw [heq (hnone 4 "d")] at hrecursive
    exact ⟨out, hreturns, hrecursive⟩
  · have hstart : (execution circle).Nested Frame.opens (({} : Engine).start (.reference 4 "d")) [] _ :=
      .here
    have hd := nested_lookup hstart List.not_mem_nil rfl (hnone 3 "c")
    have hc := nested_lookup hd (by decide) rfl (hnone 2 "a")
    have ha := nested_lookup hc (by decide) rfl (hnone 0 "b")
    have hb := nested_lookup ha (by decide) rfl (hnone 1 "a")
    obtain ⟨hactive, _, hle⟩ := (hevaluate {} (.reference 4 "d")).2 _ _ hb
    exact ⟨_, hb, rfl, hactive, hle⟩
  · have hc : circle.onCycle "c" = false := by
      rw [← Namespace.onCycle_exprs, hexprs]
      cbv
    have hstart : (specialization circle).Nested substitutes ({}, .reference 4 "d") [] _ := .here
    have hboth := nested_reference (nested_reference hstart rfl hoff) rfl hc
    exact ⟨_, hboth, rfl, ((hspecialize {} (.reference 4 "d")).2 _ _ hboth).1⟩
  · obtain ⟨marked, hreturns, hnodup⟩ := (hsearch circle.written).2 "d"
    rw [hoff] at hreturns
    exact ⟨marked, hreturns, hnodup⟩

end Engine

end Reckoner
