/-
  The residual program and the program it came from.

  Specialization leaves only names that are stuck: unbound, or on a cycle.  So an assignment is kept
  only if its name is going to be stuck on a cycle, and an expression on a cycle mentions a name; hence
  the kept assignments bind no name to anything that has a number (`open_of_live`).  Wherever the
  program fails, the residual program therefore fails as well, and where the program has a number the
  residual program has the literal of it.

  The failures themselves need not be the same.  Names are read when an evaluation meets them, but the
  pruning counts a name as read where it is mentioned: an assignment is dropped although a kept binding,
  made before it, is going to ask for its name.  `evaluate_kept_eq_iff` says exactly where this shows,
  and `prunesSafely` is a condition on the program under which it never does.
-/
import Reckoner.Proofs.RoundTrip
import Reckoner.Proofs.Run
import Reckoner.Residual

namespace Reckoner

/-! ## Specializing a whole program

  The equations of `specializeAll`, read from the result: the first instruction was specialized, the
  rest was specialized behind it, and the two make up the program that came out. -/

section SpecializeAll

variable {ε : Type} {ns : Namespace Expr} {e : Expr} {rest : Readings ε Expr}
    {q : List (Instruction Expr)}

/-- An assignment is specialized, and the rest with the name bound to what is left. -/
theorem specializeAll_assign {x : String} (h : specializeAll ns (.ok (.assign x e) :: rest) = .ok q) :
    ∃ e' q', specialize ns e = .ok e' ∧ specializeAll (ns.bind x e') rest = .ok q' ∧
      q = .assign x e' :: q' := by
  simp only [specializeAll] at h
  split at h
  · cases h
  · rename_i e' hs
    obtain ⟨q', hq, rfl⟩ := exists_of_map_ok h
    exact ⟨e', q', hs, hq, rfl⟩

/-- An evaluation is specialized and binds nothing. -/
theorem specializeAll_evaluate (h : specializeAll ns (.ok (.evaluate e) :: rest) = .ok q) :
    ∃ e' q', specialize ns e = .ok e' ∧ specializeAll ns rest = .ok q' ∧ q = .evaluate e' :: q' := by
  simp only [specializeAll] at h
  split at h
  · cases h
  · rename_i e' hs
    obtain ⟨q', hq, rfl⟩ := exists_of_map_ok h
    exact ⟨e', q', hs, hq, rfl⟩

end SpecializeAll

/-! ## What pruning keeps

  The pruning goes through the program from its end and carries along the names that are read before
  they are assigned.  An assignment to such a name is kept, and its own names are read then; an
  assignment to any other name is dropped as if it were not there. -/

section Prune

variable {α : Type} [Mentions α] {x : String} {q : List (Instruction α)}

/-- The names that a program reads before it assigns them, as the pruning sees it. -/
def live (q : List (Instruction α)) : List String := (pruneWith q).2

/-- Evaluations are all kept. -/
theorem prune_evaluate (a : α) (q : List (Instruction α)) :
    prune (.evaluate a :: q) = .evaluate a :: prune q := rfl

/-- An assignment is kept if its name is live behind it.  Then the name is no longer live before it,
    unless the assignment itself mentions it. -/
theorem pruneWith_assign (x : String) (a : α) (q : List (Instruction α)) :
    pruneWith (.assign x a :: q) =
      if x ∈ live q then (.assign x a :: prune q, Mentions.mentioned a ++ (live q).filter (· ≠ x))
      else (prune q, live q) := rfl

/-- An assignment to a live name is kept. -/
theorem prune_assign (a : α) (h : x ∈ live q) : prune (.assign x a :: q) = .assign x a :: prune q := by
  rw [prune, pruneWith_assign, if_pos h]

/-- An assignment to any other name is dropped. -/
theorem prune_assign_dead (a : α) (h : x ∉ live q) : prune (.assign x a :: q) = prune q := by
  rw [prune, pruneWith_assign, if_neg h]

/-- Pruning adds nothing. -/
theorem mem_of_mem_prune {i : Instruction α} : ∀ {q : List (Instruction α)}, i ∈ prune q → i ∈ q
  | [], h => h
  | .assign x a :: q, h => by
    by_cases hx : x ∈ live q
    · rw [prune_assign a hx] at h
      rcases List.mem_cons.1 h with rfl | h
      · exact List.mem_cons_self
      · exact List.mem_cons_of_mem _ (mem_of_mem_prune h)
    · rw [prune_assign_dead a hx] at h
      exact List.mem_cons_of_mem _ (mem_of_mem_prune h)
  | .evaluate a :: q, h => by
    rcases List.mem_cons.1 h with rfl | h
    · exact List.mem_cons_self
    · exact List.mem_cons_of_mem _ (mem_of_mem_prune h)
  | .missing :: q, h => by
    rcases List.mem_cons.1 h with rfl | h
    · exact List.mem_cons_self
    · exact List.mem_cons_of_mem _ (mem_of_mem_prune h)

end Prune

/-- An evaluation reads the names that it mentions. -/
theorem live_evaluate (e : Expr) (q : List (Instruction Expr)) :
    live (.evaluate e :: q) = e.free ++ live q :=
  rfl

/-- A kept assignment reads the names that it mentions, and its own name is not read past it. -/
theorem live_assign {x : String} (e : Expr) {q : List (Instruction Expr)} (h : x ∈ live q) :
    live (.assign x e :: q) = e.free ++ (live q).filter (· ≠ x) := by
  rw [live, pruneWith_assign, if_pos h]
  rfl

/-- A dropped assignment reads nothing. -/
theorem live_assign_dead {x : String} (e : Expr) {q : List (Instruction Expr)} (h : x ∉ live q) :
    live (.assign x e :: q) = live q := by
  rw [live, pruneWith_assign, if_neg h]

/-- A name that is left by specialization and is bound is bound to an expression that mentions a name. -/
theorem open_of_stuck {ns : Namespace Expr} {e e' : Expr} (hs : specialize ns e = .ok e') {x : String}
    (hx : x ∈ e'.free) {b : Expr} (hb : ns.find? x = some b) : b.free ≠ [] := by
  rcases stuck_of_mem_free hs hx with hnone | hc
  · rw [hb] at hnone
    cases hnone
  · -- a name on a cycle reads the next name of the cycle
    rw [← Namespace.reads_eq_free hb]
    exact Namespace.exists_reads_of_onCycle hc

/-- **A live name is bound to an expression that mentions a name.**  Whoever reads it later has it left
    over from specialization, so by then it is on a cycle; and no assignment to it stands in between. -/
theorem open_of_live {ε : Type} {p q : List (Instruction Expr)} :
    ∀ {ns : Namespace Expr}, specializeAll ns (p.map (Except.ok (ε := ε))) = .ok q →
      ∀ {x : String}, x ∈ live q → ∀ {b : Expr}, ns.find? x = some b → b.free ≠ [] := by
  induction p generalizing q with
  | nil =>
    intro ns h x hx
    cases h
    cases hx
  | cons i rest ih =>
    intro ns h x hx b hb
    cases i with
    | assign y e =>
      obtain ⟨e', q', hs, hq, rfl⟩ := specializeAll_assign h
      by_cases hy : y ∈ live q'
      · rw [live_assign e' hy] at hx
        rcases List.mem_append.1 hx with hx | hx
        · -- read by this assignment itself
          exact open_of_stuck hs hx hb
        · -- read further on, and not the name that is assigned here
          obtain ⟨hx, hne⟩ := List.mem_filter.1 hx
          have hxy : x ≠ y := of_decide_eq_true hne
          exact ih hq hx ((Namespace.find?_bind_of_ne hxy e').trans hb)
      · -- the assigned name is not live here, so it is not the one in question
        rw [live_assign_dead e' hy] at hx
        have hxy : x ≠ y := fun h => hy (h ▸ hx)
        exact ih hq hx ((Namespace.find?_bind_of_ne hxy e').trans hb)
    | evaluate e =>
      obtain ⟨e', q', hs, hq, rfl⟩ := specializeAll_evaluate h
      rw [live_evaluate] at hx
      rcases List.mem_append.1 hx with hx | hx
      · -- read by the evaluation itself
        exact open_of_stuck hs hx hb
      · exact ih hq hx hb
    | missing => cases h

/-! ## Namespaces without numbers -/

/-- A namespace in which every binding mentions a name: nothing in it has a number. -/
def Namespace.Open (ns : Namespace Expr) : Prop := ∀ x b, ns.find? x = some b → b.free ≠ []

section Open

variable {ns : Namespace Expr}

/-- In an open namespace only expressions without names have numbers. -/
theorem Namespace.Open.free_eq_nil (hopen : ns.Open) {active : List String} {e : Expr} {v : Number}
    (hv : evaluateIn ns active e = .ok v) : e.free = [] := by
  fun_induction evaluateIn ns active e generalizing v with
  | case1 active n => rfl
  | case2 active n d => rfl
  | case3 active x hx => cases hv
  | case4 active x hx hb => cases hv
  | case5 active x hx b hb c hc => cases hv
  -- a bound name would need a binding with a number, and the bindings all mention names
  | case6 active x hx b hb hc ih => exact absurd (ih hv) (hopen x b hb)
  | case7 active op l r ihl ihr =>
    rw [← evaluateIn_binary] at hv
    obtain ⟨x, y, hl, hr⟩ := ok_of_evaluateIn_binary hv
    rw [Expr.free, ihl hl, ihr hr]
    rfl

/-- Specializing an expression with names in an open namespace leaves names. -/
theorem Namespace.Open.specialize (hopen : ns.Open) {e e' : Expr} (hs : specialize ns e = .ok e')
    (he : e.free ≠ []) : e'.free ≠ [] := by
  refine specialize_induction (P := fun e e' => e.free ≠ [] → e'.free ≠ [])
    (fun _ _ => id) (fun _ _ => id) ?_ ?_ hs he
  · -- a name is replaced by its binding, which mentions names since the namespace is open
    intro x b b' hb _ ih _
    exact ih (hopen x b hb)
  · -- an operation keeps the names of its operands, and one of the operands mentions a name
    intro op l r l' r' e' ihl ihr hcomb hne hnil
    rw [free_combine hcomb, List.append_eq_nil_iff] at hnil
    rw [Expr.free] at hne
    by_cases hl : l.free = []
    · have hr : r.free ≠ [] := fun hr => hne (by rw [hl, hr]; rfl)
      exact ihr hr hnil.2
    · exact ihl hl hnil.1

/-- Binding a name to an expression that mentions names keeps a namespace open. -/
theorem Namespace.Open.bind (hopen : ns.Open) {x : String} {e : Expr} (he : e.free ≠ []) :
    (ns.bind x e).Open :=
  forall_bind (P := fun _ (b : Expr) => b.free ≠ []) hopen he

end Open

/-! ## The two runs side by side -/

/-- What the kept assignments leave of a namespace: no name is bound that is not bound in the full one,
    and no name has a number. -/
structure KeptOf (ns kept : Namespace Expr) : Prop where
  writable : ns.Writable
  keptWritable : kept.Writable
  unbound : ∀ x, ns.find? x = none → kept.find? x = none
  isOpen : kept.Open

namespace KeptOf

variable {ns kept : Namespace Expr}

theorem empty : KeptOf ∅ ∅ :=
  ⟨writable_empty, writable_empty, fun _ _ => rfl, fun _ _ h => nomatch h⟩

/-- An assignment that is dropped. -/
theorem bind_dropped (h : KeptOf ns kept) {x : String} (hx : Source.isName x.toList = true) {e : Expr}
    (he : e.isWritable = true) : KeptOf (ns.bind x e) kept := by
  refine ⟨h.writable.bind hx he, h.keptWritable, fun y hy => h.unbound y ?_, h.isOpen⟩
  rw [Namespace.find?_bind] at hy
  split at hy
  · cases hy
  · exact hy

/-- An assignment that is kept. -/
theorem bind_kept (h : KeptOf ns kept) {x : String} (hx : Source.isName x.toList = true) {e e' : Expr}
    (he : e.isWritable = true) (he' : e'.isWritable = true) (hopen : e'.free ≠ []) :
    KeptOf (ns.bind x e) (kept.bind x e') := by
  refine ⟨h.writable.bind hx he, h.keptWritable.bind hx he', fun y hy => ?_, h.isOpen.bind hopen⟩
  rw [Namespace.find?_bind] at hy ⊢
  split at hy
  · cases hy
  · rename_i hyx
    rw [if_neg hyx]
    exact h.unbound y hy

end KeptOf

/-- **Side by side.**  The residual program has an evaluation for every evaluation of the program, in
    order; it evaluates what specialization leaves, in what the kept assignments leave of the
    namespace. -/
theorem evaluations_residual {ε : Type} {p q : List (Instruction Expr)} {ns kept : Namespace Expr}
    (hk : KeptOf ns kept) (hp : ∀ i ∈ p, i.isWritable = true)
    (hq : specializeAll ns (p.map (Except.ok (ε := ε))) = .ok q) :
    (evaluations kept (prune q)).length = (evaluations ns p).length ∧
      ∀ c ∈ (evaluations ns p).zip (evaluations kept (prune q)),
        KeptOf c.1.1 c.2.1 ∧ specialize c.1.1 c.1.2 = .ok c.2.2 := by
  induction p generalizing ns kept q with
  | nil =>
    cases hq
    exact ⟨rfl, fun c hc => nomatch hc⟩
  | cons i rest ih =>
    obtain ⟨hi, hrest⟩ := List.forall_mem_cons.1 hp
    cases i with
    | assign x e =>
      obtain ⟨hx, he⟩ := (Bool.and_eq_true _ _).mp hi
      obtain ⟨e', q', hs, hq', rfl⟩ := specializeAll_assign hq
      have he' := hk.writable.specialize hs he
      rw [evaluations_assign hs]
      by_cases hlive : x ∈ live q'
      · -- kept: the residual run specializes once more, which leaves the expression open
        have hopen : e'.free ≠ [] := open_of_live hq' hlive (Namespace.find?_bind_self ns x e')
        obtain ⟨e'', hs'⟩ :=
          exists_specialize hk.keptWritable.arithmetic (Expr.isArithmetic_of_isWritable he')
        rw [prune_assign e' hlive, evaluations_assign hs']
        exact ih (hk.bind_kept hx he' (hk.keptWritable.specialize hs' he')
          (hk.isOpen.specialize hs' hopen)) hrest hq'
      · -- dropped: only the full namespace grows
        rw [prune_assign_dead e' hlive]
        exact ih (hk.bind_dropped hx he') hrest hq'
    | evaluate e =>
      obtain ⟨e', q', hs, hq', rfl⟩ := specializeAll_evaluate hq
      obtain ⟨hlen, hall⟩ := ih hk hrest hq'
      rw [prune_evaluate, evaluations, evaluations]
      -- the evaluations pair up: this one with what is left of it, the later ones by induction
      refine ⟨congrArg (· + 1) hlen, fun c hc => ?_⟩
      rcases List.mem_cons.1 hc with rfl | hc
      · exact ⟨hk, hs⟩
      · exact hall c hc
    | missing => cases hi

/-! ## One evaluation

  At an evaluation, every name that specialization has left fails, in the full namespace and in the kept
  one.  By `evaluateIn_of_failing` the outcome then hangs on one name, the first that is asked for, and
  the two evaluations can be compared there. -/

section Evaluation

variable {ns kept : Namespace Expr} {e e' : Expr}

/-- A name that specialization leaves has no number. -/
theorem failing_of_stuck (h : ns.Unreserved) (hs : specialize ns e = .ok e') {x : String}
    (hx : x ∈ e'.free) (v : Number) : evaluateIn ns [] (.reference x) ≠ .ok v := by
  rcases stuck_of_mem_free hs hx with hnone | hc
  · rw [evaluateIn_unbound List.not_mem_nil hnone]
    exact fun h => nomatch h
  · exact evaluateIn_ne_ok_of_onCycle h hc v

/-- What specialization leaves asks first for a name that fails, or has the same outcome everywhere. -/
theorem evaluate_stuck (h : ns.Unreserved) (hs : specialize ns e = .ok e') :
    evaluate ns e = match e'.demand with
      | some x => evaluateIn ns [] (.reference x)
      | none => evaluateIn ∅ [] e' := by
  rw [evaluate_eq h, ← evaluateIn_specialize h hs]
  exact evaluateIn_of_failing fun x hx v => failing_of_stuck h hs hx v

/-- The same in the kept namespace, where no name has a number because it is open. -/
theorem evaluate_kept (hk : KeptOf ns kept) :
    evaluate kept e' = match e'.demand with
      | some x => evaluateIn kept [] (.reference x)
      | none => evaluateIn ∅ [] e' := by
  rw [evaluate_eq hk.keptWritable.unreserved]
  refine evaluateIn_of_failing fun x _ v hv => ?_
  have := hk.isOpen.free_eq_nil hv
  cases this

/-- An evaluation and its residual have the same number, or both fail. -/
theorem number_kept (hk : KeptOf ns kept) (hs : specialize ns e = .ok e') (v : Number) :
    evaluate kept e' = .ok v ↔ evaluate ns e = .ok v := by
  rw [evaluate_kept hk, evaluate_stuck hk.writable.unreserved hs]
  cases hd : e'.demand with
  | none => exact Iff.rfl
  | some x =>
    constructor
    · -- the kept namespace gives no name a number, and the full one does not give one to a name that is
      -- left over
      intro hv
      have := hk.isOpen.free_eq_nil hv
      cases this
    · intro hv
      exact absurd hv (failing_of_stuck hk.writable.unreserved hs (Expr.mem_free_of_demand hd) v)

/-- **When the failures are the same.**  An evaluation and its residual have the same outcome exactly if
    the name on a cycle that is asked for first, if there is one, fails alike in the full and in the
    kept namespace. -/
theorem evaluate_kept_eq_iff (hk : KeptOf ns kept) (hs : specialize ns e = .ok e') :
    evaluate kept e' = evaluate ns e ↔
      ∀ x, e'.demand = some x → ns.onCycle x = true →
        evaluate kept (.reference x) = evaluate ns (.reference x) := by
  rw [evaluate_kept hk, evaluate_stuck hk.writable.unreserved hs]
  cases hd : e'.demand with
  | none =>
    -- no name is asked for, so both have the outcome of the empty namespace
    constructor
    · intro _ x hx
      cases hx
    · intro _
      rfl
  | some x =>
    have hkept : evaluate kept (.reference x) = evaluateIn kept [] (.reference x) :=
      evaluate_eq hk.keptWritable.unreserved _
    have hfull : evaluate ns (.reference x) = evaluateIn ns [] (.reference x) :=
      evaluate_eq hk.writable.unreserved _
    constructor
    · intro h y hy _
      cases hy
      rw [hkept, hfull]
      exact h
    · intro h
      rcases stuck_of_mem_free hs (Expr.mem_free_of_demand hd) with hnone | hc
      · -- unbound in the one, unbound in the other
        show evaluateIn kept [] (.reference x) = evaluateIn ns [] (.reference x)
        rw [evaluateIn_unbound List.not_mem_nil hnone,
          evaluateIn_unbound List.not_mem_nil (hk.unbound x hnone)]
      · have := h x rfl hc
        rwa [hkept, hfull] at this

end Evaluation

/-! ## When pruning is harmless

  The outcome of a kept name can differ from that in the full program only through an assignment that
  was dropped behind it.  If no kept assignment mentions the name of one that is dropped later, all that
  an evaluation can meet is the same in both namespaces, and by the locality of evaluation so are the
  outcomes. -/

/-- The names whose assignments the pruning drops. -/
def dropped : List (Instruction Expr) → List String
  | [] => []
  | .assign x _ :: rest => if x ∈ live rest then dropped rest else x :: dropped rest
  | _ :: rest => dropped rest

/-- No assignment that is kept mentions a name of an assignment behind it that is dropped. -/
def prunesSafely : List (Instruction Expr) → Bool
  | [] => true
  | .assign x e :: rest => (x ∉ live rest || e.free.all (· ∉ dropped rest)) && prunesSafely rest
  | _ :: rest => prunesSafely rest

/-- What the rest `q` of a specialized program still asks for is the same in both namespaces, and no
    assignment that will be dropped takes part in it. -/
structure Settled (ns kept : Namespace Expr) (q : List (Instruction Expr)) : Prop where
  agree : ∀ y ∈ ns.reach (live q), ns.find? y = kept.find? y
  fixed : ∀ z ∈ ns.reach (live q), ∀ y ∈ ns.reads z, y ∉ dropped q

namespace Settled

variable {ns kept : Namespace Expr} {q : List (Instruction Expr)} {x : String} {e : Expr}

theorem empty (q : List (Instruction Expr)) : Settled ∅ ∅ q :=
  ⟨fun _ _ => rfl, fun _ _ _ hy => nomatch hy⟩

/-- Behind an evaluation less is asked for than before it. -/
theorem behind_evaluate (h : Settled ns kept (.evaluate e :: q)) : Settled ns kept q := by
  have hmono : ∀ y ∈ ns.reach (live q), y ∈ ns.reach (live (.evaluate e :: q)) := fun y hy => by
    rw [live_evaluate, Namespace.mem_reach_append]
    exact Or.inr hy
  exact ⟨fun y hy => h.agree y (hmono y hy), fun z hz => h.fixed z (hmono z hz)⟩

/-- Behind an assignment that is dropped, its name is not asked for: no live name leads to it. -/
theorem bind_dropped (h : Settled ns kept (.assign x e :: q)) (hx : x ∉ live q) :
    Settled (ns.bind x e) kept q := by
  have hdropped : dropped (.assign x e :: q) = x :: dropped q := by rw [dropped, if_neg hx]
  have hlive := live_assign_dead e hx
  -- the new binding opens no new ways: what is met behind it was met before, and is not `x`
  have hmet : ∀ y ∈ (ns.bind x e).reach (live q), y ∈ ns.reach (live q) ∧ y ≠ x := by
    intro y hy
    refine Namespace.reach_least (P := fun y => y ∈ ns.reach (live q) ∧ y ≠ x) ?_ ?_ hy
    · rintro a ⟨ha, hne⟩ b hb
      rw [Namespace.reads_congr (Namespace.find?_bind_of_ne hne e)] at hb
      refine ⟨Namespace.mem_reach_of_reads ha hb, fun hbx => ?_⟩
      have := h.fixed a (hlive ▸ ha) b hb
      rw [hdropped, hbx] at this
      exact this List.mem_cons_self
    · intro a ha
      exact ⟨Namespace.mem_reach_of_mem ha, fun hax => hx (hax ▸ ha)⟩
  constructor
  · intro y hy
    obtain ⟨hy, hne⟩ := hmet y hy
    rw [Namespace.find?_bind_of_ne hne]
    exact h.agree y (hlive ▸ hy)
  · intro z hz y hy hdrop
    obtain ⟨hz, hne⟩ := hmet z hz
    rw [Namespace.reads_congr (Namespace.find?_bind_of_ne hne e)] at hy
    exact h.fixed z (hlive ▸ hz) y hy (hdropped ▸ List.mem_cons_of_mem _ hdrop)

/-- Behind an assignment that is kept, both namespaces have the new binding. -/
theorem bind_kept (h : Settled ns kept (.assign x e :: q)) (hx : x ∈ live q)
    (hsafe : ∀ y ∈ e.free, y ∉ dropped q) : Settled (ns.bind x e) (kept.bind x e) q := by
  have hdropped : dropped (.assign x e :: q) = dropped q := by rw [dropped, if_pos hx]
  -- whatever `x` now leads to is mentioned in `e`, and so was live before the assignment
  have hmet : ∀ y ∈ (ns.bind x e).reach (live q), y = x ∨ y ∈ ns.reach (live (.assign x e :: q)) := by
    intro y hy
    refine Namespace.reach_least (P := fun y => y = x ∨ y ∈ ns.reach (live (.assign x e :: q))) ?_ ?_ hy
    · intro a ha b hb
      right
      by_cases hax : a = x
      · subst hax
        rw [Namespace.reads_eq_free (Namespace.find?_bind_self ns a e)] at hb
        rw [live_assign e hx, Namespace.mem_reach_append]
        exact Or.inl (Namespace.mem_reach_of_mem hb)
      · rw [Namespace.reads_congr (Namespace.find?_bind_of_ne hax e)] at hb
        exact Namespace.mem_reach_of_reads (ha.resolve_left hax) hb
    · intro a ha
      by_cases hax : a = x
      · exact Or.inl hax
      · refine Or.inr (Namespace.mem_reach_of_mem ?_)
        rw [live_assign e hx]
        exact List.mem_append_right _ (List.mem_filter.2 ⟨ha, decide_eq_true hax⟩)
  constructor
  · intro y hy
    by_cases hyx : y = x
    · rw [hyx, Namespace.find?_bind_self, Namespace.find?_bind_self]
    · rw [Namespace.find?_bind_of_ne hyx, Namespace.find?_bind_of_ne hyx]
      exact h.agree y ((hmet y hy).resolve_left hyx)
  · intro z hz y hy
    by_cases hzx : z = x
    · subst hzx
      rw [Namespace.reads_eq_free (Namespace.find?_bind_self ns z e)] at hy
      exact hsafe y hy
    · rw [Namespace.reads_congr (Namespace.find?_bind_of_ne hzx e)] at hy
      exact hdropped ▸ h.fixed z ((hmet z hz).resolve_left hzx) y hy

end Settled

/-- **Harmless pruning.**  If no kept assignment mentions a name whose assignment is dropped behind it,
    every evaluation of the residual program has the outcome of the evaluation that it came from. -/
theorem evaluate_of_prunesSafely {ε : Type} {p q : List (Instruction Expr)} {ns kept : Namespace Expr}
    (hk : KeptOf ns kept) (hp : ∀ i ∈ p, i.isWritable = true)
    (hq : specializeAll ns (p.map (Except.ok (ε := ε))) = .ok q) (hsafe : prunesSafely q = true)
    (hset : Settled ns kept q) :
    ∀ c ∈ (evaluations ns p).zip (evaluations kept (prune q)),
      evaluate c.2.1 c.2.2 = evaluate c.1.1 c.1.2 := by
  induction p generalizing ns kept q with
  | nil =>
    cases hq
    exact fun c hc => nomatch hc
  | cons i rest ih =>
    obtain ⟨hi, hrest⟩ := List.forall_mem_cons.1 hp
    cases i with
    | assign x e =>
      obtain ⟨hx, he⟩ := (Bool.and_eq_true _ _).mp hi
      obtain ⟨e', q', hs, hq', rfl⟩ := specializeAll_assign hq
      have he' := hk.writable.specialize hs he
      obtain ⟨hmentions, hsafe'⟩ := (Bool.and_eq_true _ _).mp hsafe
      rw [evaluations_assign hs]
      by_cases hlive : x ∈ live q'
      · -- what is left of the expression stays as it is when it is specialized once more,
        -- in either namespace
        have hopen : e'.free ≠ [] := open_of_live hq' hlive (Namespace.find?_bind_self ns x e')
        have hagree : ∀ y ∈ ns.reach e'.free, ns.find? y = kept.find? y := fun y hy =>
          hset.agree y (by rw [live_assign e' hlive, Namespace.mem_reach_append]; exact Or.inl hy)
        have hs' : specialize kept e' = .ok e' := specialize_congr hagree ▸ specialize_idempotent hs
        have hfree : ∀ y ∈ e'.free, y ∉ dropped q' := by
          simpa [hlive] using hmentions
        rw [prune_assign e' hlive, evaluations_assign hs']
        exact ih (hk.bind_kept hx he' he' hopen) hrest hq' hsafe' (hset.bind_kept hlive hfree)
      · -- dropped: nothing that is still asked for leads to the name
        rw [prune_assign_dead e' hlive]
        exact ih (hk.bind_dropped hx he') hrest hq' hsafe' (hset.bind_dropped hlive)
    | evaluate e =>
      obtain ⟨e', q', hs, hq', rfl⟩ := specializeAll_evaluate hq
      rw [prune_evaluate, evaluations, evaluations]
      intro c hc
      rcases List.mem_cons.1 hc with rfl | hc
      · -- this evaluation: both namespaces agree on all that can be met from what is left of it
        have hagree : ∀ y ∈ ns.reach e'.free, ns.find? y = kept.find? y := fun y hy =>
          hset.agree y (by rw [live_evaluate, Namespace.mem_reach_append]; exact Or.inl hy)
        have h := hk.writable.unreserved
        have h' := hk.keptWritable.unreserved
        show evaluate kept e' = evaluate ns e
        rw [evaluate_eq h, evaluate_eq h', ← evaluateIn_specialize h hs]
        exact (evaluateIn_congr h h' hagree fun _ _ => Iff.rfl).symm
      · exact ih hk hrest hq' hsafe hset.behind_evaluate c hc
    | missing => cases hi

/-! ## The results of the residual program -/

/-- The number that a result is, if it is one. -/
def Result.number? : Result → Option Number
  | value x => some x
  | diagnostic _ => none

/-- A result tells the outcome that it came from. -/
theorem Result.of_injective {a b : Except Failure Number} (h : Result.of a = Result.of b) : a = b := by
  cases a <;> cases b <;> cases h <;> rfl

/-- A result has a number exactly if the outcome was that number. -/
theorem Result.number?_of (a : Except Failure Number) (v : Number) :
    (Result.of a).number? = some v ↔ a = .ok v := by
  cases a with
  | ok x => simp [Result.of, Result.number?]
  | error f => simp [Result.of, Result.number?]

/-- Two lists of one length have the same images exactly if the images agree place by place. -/
theorem map_eq_map_iff_zip {α β γ : Type} {f : α → γ} {g : β → γ} :
    ∀ {as : List α} {bs : List β}, bs.length = as.length →
      (bs.map g = as.map f ↔ ∀ c ∈ as.zip bs, g c.2 = f c.1)
  | [], [], _ => by simp
  | a :: as, b :: bs, h => by
    have ih := map_eq_map_iff_zip (f := f) (g := g) (Nat.succ.inj h)
    rw [List.map_cons, List.map_cons, List.cons.injEq, ih, List.zip_cons_cons, List.forall_mem_cons]

/-- Specializing a program that has been read succeeds, and gives a program that could have been read. -/
theorem exists_specializeAll {ε : Type} {p : List (Instruction Expr)} {ns : Namespace Expr}
    (hns : ns.Writable) (hp : ∀ i ∈ p, i.isWritable = true) :
    ∃ q, specializeAll ns (p.map (Except.ok (ε := ε))) = .ok q ∧ ∀ i ∈ q, i.isWritable = true := by
  induction p generalizing ns with
  | nil => exact ⟨[], rfl, fun _ h => nomatch h⟩
  | cons i rest ih =>
    obtain ⟨hi, hrest⟩ := List.forall_mem_cons.1 hp
    cases i with
    | assign x e =>
      obtain ⟨hx, he⟩ := (Bool.and_eq_true _ _).mp hi
      obtain ⟨e', hs⟩ := exists_specialize hns.arithmetic (Expr.isArithmetic_of_isWritable he)
      have he' := hns.specialize hs he
      obtain ⟨q, hq, hall⟩ := ih (hns.bind hx he') hrest
      refine ⟨.assign x e' :: q, ?_, List.forall_mem_cons.2 ⟨?_, hall⟩⟩
      · simp only [List.map_cons, specializeAll, hs, hq]
        rfl
      · exact (Bool.and_eq_true _ _).mpr ⟨hx, he'⟩
    | evaluate e =>
      obtain ⟨e', hs⟩ := exists_specialize hns.arithmetic (Expr.isArithmetic_of_isWritable hi)
      obtain ⟨q, hq, hall⟩ := ih hns hrest
      refine ⟨.evaluate e' :: q, ?_, List.forall_mem_cons.2 ⟨hns.specialize hs hi, hall⟩⟩
      simp only [List.map_cons, specializeAll, hs, hq]
      rfl
    | missing => cases hi

/-- The failures that the pruning can change: at no evaluation does the name on a cycle that is asked
    for first fail differently for what is left of the namespace. -/
def SameFailures (p p' : List (Instruction Expr)) : Prop :=
  ∀ c ∈ (evaluations ∅ p).zip (evaluations ∅ p'), ∀ x, c.2.2.demand = some x → c.1.1.onCycle x = true →
    evaluate c.2.1 (.reference x) = evaluate c.1.1 (.reference x)

/-- **The residual program.**  Every program that can be read has a residual program, which gives a
    number where the program gives it and a diagnostic where the program gives one.  The diagnostics are
    the same as well exactly if the names on cycles fail alike, and they are so whenever no kept
    assignment mentions a name whose assignment is dropped behind it. -/
theorem results_residual {ε : Type} {p : List (Instruction Expr)}
    (hp : ∀ i ∈ p, ∃ line, Source.readLine line = .ok i) :
    ∃ q, specializeAll ∅ (p.map (Except.ok (ε := ε))) = .ok q ∧
      residual (p.map (Except.ok (ε := ε))) = .ok (prune q) ∧
      (results (prune q)).map Result.number? = (results p).map Result.number? ∧
      (results (prune q) = results p ↔ SameFailures p (prune q)) ∧
      (prunesSafely q = true → results (prune q) = results p) := by
  have hwp : ∀ i ∈ p, i.isWritable = true := fun i hi => exists_readLine_iff.1 (hp i hi)
  obtain ⟨q, hq, hwq⟩ := exists_specializeAll (ε := ε) writable_empty hwp
  have hwq' : ∀ i ∈ prune q, i.isWritable = true := fun i hi => hwq i (mem_of_mem_prune hi)
  obtain ⟨hlen, hall⟩ := evaluations_residual KeptOf.empty hwp hq
  -- results are compared evaluation by evaluation
  have hsame : results (prune q) = results p ↔
      ∀ c ∈ (evaluations ∅ p).zip (evaluations ∅ (prune q)),
        evaluate c.2.1 c.2.2 = evaluate c.1.1 c.1.2 := by
    rw [results_eq hwp, results_eq hwq', map_eq_map_iff_zip hlen]
    exact ⟨fun h c hc => Result.of_injective (h c hc), fun h c hc => congrArg Result.of (h c hc)⟩
  refine ⟨q, hq, ?_, ?_, ?_, ?_⟩
  · rw [residual, hq]
    rfl
  · rw [results_eq hwp, results_eq hwq', List.map_map, List.map_map, map_eq_map_iff_zip hlen]
    intro c hc
    obtain ⟨hk, hs⟩ := hall c hc
    refine Option.ext fun v => ?_
    rw [Function.comp_apply, Function.comp_apply, Result.number?_of, Result.number?_of]
    exact number_kept hk hs v
  · rw [hsame]
    constructor
    · intro h c hc
      obtain ⟨hk, hs⟩ := hall c hc
      exact (evaluate_kept_eq_iff hk hs).1 (h c hc)
    · intro h c hc
      obtain ⟨hk, hs⟩ := hall c hc
      exact (evaluate_kept_eq_iff hk hs).2 (h c hc)
  · intro hsafe
    exact hsame.2 (evaluate_of_prunesSafely KeptOf.empty hwp hq hsafe (Settled.empty q))

/-- `a := 2`, `x := a * x`, `>>> x`, `a := 7`, `>>> a`, `>>> a / y`: a name on a cycle, one that is
    assigned twice and one that is never assigned. -/
def spiral : List (Instruction Expr) :=
  [.assign "a" (.integer 2), .assign "x" (.binary .mul (.reference "a") (.reference "x")),
    .evaluate (.reference "x"), .assign "a" (.integer 7), .evaluate (.reference "a"),
    .evaluate (.binary .div (.reference "a") (.reference "y"))]

/-- Of `spiral` are left `x := (2 * x)`, `>>> x`, `>>> 7`, `>>> (7 / y)`, with the same results. -/
theorem results_residual_spiral :
    (∀ i ∈ spiral, ∃ line, Source.readLine line = .ok i) ∧
      ∃ q, specializeAll (ε := Empty) ∅ (spiral.map .ok) = .ok q ∧ prunesSafely q = true ∧
        residual (ε := Empty) (spiral.map .ok) = .ok (prune q) ∧ results (prune q) = results spiral := by
  have hwritable : ∀ i ∈ spiral, i.isWritable = true := by decide
  have hread : ∀ i ∈ spiral, ∃ line, Source.readLine line = .ok i := fun i hi =>
    exists_readLine_iff.2 (hwritable i hi)
  have hq : specializeAll (ε := Empty) ∅ (spiral.map .ok) =
      .ok [.assign "a" (.integer 2), .assign "x" (.binary .mul (.integer 2) (.reference "x")),
        .evaluate (.reference "x"), .assign "a" (.integer 7), .evaluate (.integer 7),
        .evaluate (.binary .div (.integer 7) (.reference "y"))] := by
    cbv
  obtain ⟨q, hq', hres, _, _, hsafe⟩ := results_residual (ε := Empty) hread
  have hprunes : prunesSafely q = true := by
    rw [← Except.ok.inj (hq.symm.trans hq')]
    decide
  exact ⟨hread, q, hq', hprunes, hres, hsafe hprunes⟩

/-- `x := b + x`, `b := 1`, `>>> x`: the binding of `x` asks for a name that is assigned behind it. -/
def lateRead : List (Instruction Expr) :=
  [.assign "x" (.binary .add (.reference "b") (.reference "x")), .assign "b" (.integer 1),
    .evaluate (.reference "x")]

/-- **Where the pruning shows.**  The assignment of `b` in `lateRead` is dropped, and another diagnostic
    comes out. -/
theorem results_residual_lateRead :
    (∀ i ∈ lateRead, ∃ line, Source.readLine line = .ok i) ∧
      ∃ p', residual (ε := Empty) (lateRead.map .ok) = .ok p' ∧
        p'.map Instruction.text = ["x := (b + x)", ">>> x"] ∧
        (results lateRead).map Result.text = ["RecursionError: name 'x' is defined in terms of itself"] ∧
        (results p').map Result.text = ["NameError: name 'b' is not defined"] := by
  have hwritable : ∀ i ∈ lateRead, i.isWritable = true := by decide
  -- the namespace at the evaluation, with the assignment of `b` and without it
  let kept := (∅ : Namespace Expr).bind "x" (.binary .add (.reference "b") (.reference "x"))
  let full := kept.bind "b" (.integer 1)
  have hfull : evaluations ∅ lateRead = [(full, .reference "x")] := by cbv
  have hkept : evaluations ∅ [.assign "x" (.binary .add (.reference "b") (.reference "x")),
      .evaluate (.reference "x")] = [(kept, .reference "x")] := by
    cbv
  have hrecursive : evaluate full (.reference "x") = .error (.recursive "x") := by cbv
  have hunbound : evaluate kept (.reference "x") = .error (.unbound "b") := by cbv
  refine ⟨fun i hi => exists_readLine_iff.2 (hwritable i hi),
    [.assign "x" (.binary .add (.reference "b") (.reference "x")), .evaluate (.reference "x")],
    by cbv, by decide, ?_, ?_⟩
  · rw [results_eq hwritable, hfull]
    show [(Result.of (evaluate full (.reference "x"))).text] = _
    rw [hrecursive]
    decide
  · rw [results_eq (by decide), hkept]
    show [(Result.of (evaluate kept (.reference "x"))).text] = _
    rw [hunbound]
    decide

end Reckoner
