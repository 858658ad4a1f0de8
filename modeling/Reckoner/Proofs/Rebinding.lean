/-
  What a new binding can change.  Binding a name may turn names far away into cyclic ones, and so change
  what specialization puts in their place; but all of evaluation and specialization depends on nothing
  but the bindings of names that are met behind the expression (`evaluateIn_congr`, `specialize_congr`).
  A name that is not met may be bound to anything.

  Hence two assignments commute if neither name is met behind the other's expression: each specializes
  its expression as if it were alone, and the two bindings go to different places of one namespace,
  which does not know in which order they came (`bind_comm`).
-/
import Mathlib.Data.List.Sort
import Reckoner.Proofs.Names
import Reckoner.Proofs.Retention

namespace Reckoner

open Source

/-! ## Namespaces are told apart by looking up -/

namespace Namespace

variable {α : Type}

/-- In a rising list the entry for a name is the one that is found. -/
theorem lookupIn_of_mem_rising {x : String} {a : α} : ∀ {es : List (String × α)},
    es.Pairwise (fun p q => p.1 < q.1) → (x, a) ∈ es → lookupIn x es = some a
  | (y, b) :: r, hrising, hmem => by
    obtain ⟨hfirst, hrest⟩ := List.pairwise_cons.1 hrising
    unfold lookupIn
    rcases List.mem_cons.1 hmem with heq | hmem
    · cases heq
      rw [if_pos rfl]
    · have hne : x ≠ y := fun h => String.lt_irrefl x (h ▸ hfirst _ hmem)
      rw [if_neg hne]
      exact lookupIn_of_mem_rising hrest hmem

/-- An entry is what is found for its name, since no name has two. -/
theorem mem_entries_iff {ns : Namespace α} {x : String} {a : α} :
    (x, a) ∈ ns.entries ↔ ns.find? x = some a :=
  ⟨lookupIn_of_mem_rising ns.rising, mem_of_lookupIn⟩

/-- Namespaces in which the same is found for every name are one namespace. -/
theorem ext_find? {ns ns' : Namespace α} (h : ∀ x, ns.find? x = ns'.find? x) : ns = ns' := by
  have hirrefl : Std.Irrefl fun p q : String × α => p.1 < q.1 := ⟨fun p => String.lt_irrefl p.1⟩
  have hantisymm : Std.Antisymm fun p q : String × α => p.1 < q.1 :=
    ⟨fun p q hpq hqp => absurd (String.lt_trans hpq hqp) (String.lt_irrefl p.1)⟩
  have hentries : ns.entries = ns'.entries := by
    refine ns.rising.eq_of_mem_iff ns'.rising ?_
    rintro ⟨x, a⟩
    rw [mem_entries_iff, mem_entries_iff, h x]
  cases ns
  cases hentries
  rfl

/-- It makes no difference which of two names is bound first. -/
theorem bind_comm (ns : Namespace α) {x y : String} (hxy : x ≠ y) (a b : α) :
    (ns.bind x a).bind y b = (ns.bind y b).bind x a := by
  refine ext_find? fun z => ?_
  simp only [find?_bind]
  by_cases hzx : z = x
  · have hzy : z ≠ y := fun h => hxy (hzx.symm.trans h)
    rw [if_neg hzy, if_pos hzx, if_pos hzx]
  · rw [if_neg hzx, if_neg hzx]

end Namespace

/-! ## Names that are not met -/

section Frame

variable {ns : Namespace Expr} {x : String} {e : Expr}

/-- A name that is not met behind `e` may be bound: all that is met is bound as before. -/
theorem find?_bind_of_not_meets (hx : ¬e.Meets ns.Leads x) (b : Expr) :
    ∀ y ∈ ns.reach e.free, ns.find? y = (ns.bind x b).find? y := by
  intro y hy
  have hne : y ≠ x := by
    rintro rfl
    exact hx (Expr.meets_leads_iff.2 hy)
  exact (Namespace.find?_bind_of_ne hne b).symm

/-- **The frame of evaluation.** -/
theorem evaluate_bind (h : ns.Unreserved) (hkey : ∀ c : Constructor, c.key ≠ x) (hx : ¬e.Meets ns.Leads x)
    (b : Expr) :
    evaluate (ns.bind x b) e = evaluate ns e := by
  have h' := h.bind hkey b
  rw [evaluate_eq h, evaluate_eq h']
  exact (evaluateIn_congr h h' (find?_bind_of_not_meets hx b) fun _ _ => Iff.rfl).symm

/-- **The frame of specialization.** -/
theorem specialize_bind (hx : ¬e.Meets ns.Leads x) (b : Expr) :
    specialize (ns.bind x b) e = specialize ns e :=
  (specialize_congr (find?_bind_of_not_meets hx b)).symm

end Frame

/-! ## Two assignments -/

/-- `Commute act view s i j` — from the state `s` on, `i` and `j` may be acted on in either order: each
    gives what it gives alone, and of the state behind both the same is seen. -/
structure Commute {σ τ ι ε : Type} (act : σ → ι → Except (Stop ε) (Option Result) × σ)
    (view : σ → τ) (s : σ) (i j : ι) : Prop where
  first : (act (act s j).2 i).1 = (act s i).1
  second : (act (act s i).2 j).1 = (act s j).1
  state : view (act (act s i).2 j).2 = view (act (act s j).2 i).2

/-- **Assignments commute** if neither name is met behind the other's expression. -/
theorem commute_assign {ε : Type} {ns : Namespace Expr} {x y : String} {e₁ e₂ : Expr} (hxy : x ≠ y)
    (hy : ¬e₁.Meets ns.Leads y) (hx : ¬e₂.Meets ns.Leads x) :
    Commute (perform (ε := ε)) id ns (.ok (.assign x e₁)) (.ok (.assign y e₂)) := by
  cases h₁ : specialize ns e₁ with
  | error f₁ =>
    cases h₂ : specialize ns e₂ with
    | error f₂ =>
      constructor <;> simp only [perform_assign_error h₁, perform_assign_error h₂]
    | ok b₂ =>
      have h₁' := (specialize_bind hy b₂).trans h₁
      constructor <;> simp only [perform_assign_error h₁, perform_assign h₂, perform_assign_error h₁']
  | ok b₁ =>
    cases h₂ : specialize ns e₂ with
    | error f₂ =>
      have h₂' := (specialize_bind hx b₁).trans h₂
      constructor <;> simp only [perform_assign h₁, perform_assign_error h₂, perform_assign_error h₂']
    | ok b₂ =>
      have h₁' := (specialize_bind hy b₂).trans h₁
      have h₂' := (specialize_bind hx b₁).trans h₂
      constructor <;> simp only [perform_assign h₁, perform_assign h₂, perform_assign h₁',
        perform_assign h₂']
      exact congrArg id (ns.bind_comm hxy b₁ b₂)

/-- What commutes in a plain program commutes in a session that stands beside it. -/
theorem Session.commute_of_mirrors {s : Session} {cs : List Channel} {ns : Namespace Expr}
    (h : s.Mirrors cs ns) {i j : Except ReadError Entry}
    (hcommute : Commute perform id ns (hear cs i) (hear cs j)) :
    Commute (act Engine.fetch) (fun s => s.bindings.exprs) s i j := by
  obtain ⟨hi, hmirrors⟩ := act_mirrors h i
  obtain ⟨hj, hmirrors'⟩ := act_mirrors h j
  obtain ⟨hij, hboth⟩ := act_mirrors hmirrors j
  obtain ⟨hji, hboth'⟩ := act_mirrors hmirrors' i
  constructor
  · rw [hji, hi, hcommute.first]
  · rw [hij, hj, hcommute.second]
  · rw [hboth.bindings, hboth'.bindings]
    exact hcommute.state

/-- **Rebinding affects only what can come to the name.**  Let a namespace bind no constant, and let `x`
    be no constant and no name that is met behind `e`.  Whatever `x` is bound to, `e` evaluates as
    before, and the same is left of it.  Consequently two assignments to different names, neither of
    which is met behind the other's expression, may be executed in either order: they lead to one
    namespace.  So it is with the engine's nodes and with the lines of a session. -/
theorem rebinding_frame (ns : Namespace Expr) (h : ns.Unreserved) :
    (∀ (x : String) (b e : Expr), (∀ c : Constructor, c.key ≠ x) → ¬e.Meets ns.Leads x →
      evaluate (ns.bind x b) e = evaluate ns e ∧ specialize (ns.bind x b) e = specialize ns e) ∧
    (∀ (en en' : Engine) (bindings : Namespace Node) (x : String) (b n : Node), bindings.exprs = ns →
      (∀ c : Constructor, c.key ≠ x) → ¬n.expr.Meets ns.Leads x →
      (en.evaluate (bindings.bind x b) n).1 = (en'.evaluate bindings n).1 ∧
        (en.Made (bindings.bind x b) n → en'.Made bindings n →
          (en.specialize (bindings.bind x b) n).1.map Node.expr =
            (en'.specialize bindings n).1.map Node.expr)) ∧
    (∀ (x y : String) (e₁ e₂ : Expr), x ≠ y → ¬e₁.Meets ns.Leads y → ¬e₂.Meets ns.Leads x →
      Commute (perform (ε := Trouble)) id ns (.ok (.assign x e₁)) (.ok (.assign y e₂))) ∧
    ∀ (s : Session) (i j : Except ReadError Entry) (x y : String) (e₁ e₂ : Expr),
      s.Mirrors s.engine.channels ns →
      hear s.engine.channels i = .ok (.assign x e₁) →
      hear s.engine.channels j = .ok (.assign y e₂) → x ≠ y →
      ¬e₁.Meets ns.Leads y → ¬e₂.Meets ns.Leads x →
      Commute (Session.act Engine.fetch) (fun s => s.bindings.exprs) s i j := by
  refine ⟨fun x b e hkey hx => ⟨evaluate_bind h hkey hx b, specialize_bind hx b⟩, ?_,
    fun x y e₁ e₂ => commute_assign, ?_⟩
  · rintro en en' bindings x b n rfl hkey hx
    constructor
    · rw [(en.evaluate_eq _ n).1, (en'.evaluate_eq _ n).1, Namespace.exprs_bind]
      exact evaluate_bind h hkey hx b.expr
    · rintro ⟨store, hends, hbound, hstored⟩ ⟨store', hends', hbound', hstored'⟩
      rw [(Engine.specialize_yields hends hbound hstored).outcome,
        (Engine.specialize_yields hends' hbound' hstored').outcome, Namespace.exprs_bind]
      exact specialize_bind hx b.expr
  · intro s i j x y e₁ e₂ hmirrors hi hj hxy hy hx
    refine Session.commute_of_mirrors hmirrors ?_
    rw [hi, hj]
    exact commute_assign hxy hy hx

/-- In `ledger` the name `d` is not met behind `a * b`: bound to `c`, which closes a cycle, it leaves
    the number of that expression alone, for the engine as well.  And `d := p - c` and `r := a + s` lead
    to one namespace in either order, as do the lines `x := a + 1` and `y := b * 2` from the start. -/
theorem rebinding_frame_ledger :
    ledger.Unreserved ∧ ¬(Expr.binary .mul (.reference "a") (.reference "b")).Meets ledger.Leads "d" ∧
      (ledger.bind "d" (.reference "c")).onCycle "c" = true ∧
      evaluate (ledger.bind "d" (.reference "c")) (.binary .mul (.reference "a") (.reference "b")) =
        .ok (.int 15) ∧
      (∃ (en : Engine) (bindings : Namespace Node) (n : Node), bindings.exprs = ledger ∧
        n.expr = .binary .mul (.reference "a") (.reference "b") ∧
        (en.specialize (bindings.bind "d" n) n).1.map Node.expr = .ok (.integer 15)) ∧
      Commute (perform (ε := Trouble)) id ledger
        (.ok (.assign "d" (.binary .sub (.reference "p") (.reference "c"))))
        (.ok (.assign "r" (.binary .add (.reference "a") (.reference "s")))) ∧
      Commute (Session.act Engine.fetch) (fun s => s.bindings.exprs) ⟨{}, ∅⟩
        (lineOf 1 (.assign "x" (.binary .add (.reference "a") (.integer 1))))
        (lineOf 2 (.assign "y" (.binary .mul (.reference "b") (.integer 2)))) := by
  have hunreserved : ledger.Unreserved := by
    intro c
    cases c <;> decide
  have hkey : ∀ c : Constructor, c.key ≠ "d" := by
    intro c
    cases c <;> decide
  have hproduct : ledger.reach ["a", "b"] = ["b", "a"] := by cbv
  have hsum : ledger.reach ["a", "s"] = ["s", "b", "a"] := by cbv
  have hdifference : ledger.reach ["p", "c"] = ["d", "c", "b", "a", "q", "p"] := by cbv
  have hd : ¬(Expr.binary .mul (.reference "a") (.reference "b")).Meets ledger.Leads "d" := by
    rw [Expr.meets_leads_iff,
      show (Expr.binary .mul (.reference "a") (.reference "b")).free = ["a", "b"] from rfl, hproduct]
    decide
  obtain ⟨hplain, hengine, hcommute, _⟩ := rebinding_frame ledger hunreserved
  refine ⟨hunreserved, hd, by cbv, ?_, ?_, ?_, ?_⟩
  · rw [(hplain "d" (.reference "c") _ hkey hd).1]
    cbv
  · obtain ⟨en, bindings, n, hns, hn, hmade⟩ :=
      exists_made ledger (.binary .mul (.reference "a") (.reference "b"))
    obtain ⟨store, hends, hbound, hstored⟩ := hmade
    refine ⟨en, bindings, n, hns, hn, ?_⟩
    rw [(hengine en en bindings "d" n n hns hkey (hn ▸ hd)).2
      ⟨store, hends, hbound.bind "d" hstored, hstored⟩
      ⟨store, hends, hbound, hstored⟩, (Engine.specialize_yields hends hbound hstored).outcome, hns, hn]
    cbv
  · refine hcommute "d" "r" _ _ (by decide) ?_ ?_
    · rw [Expr.meets_leads_iff,
        show (Expr.binary .sub (.reference "p") (.reference "c")).free = ["p", "c"] from rfl, hdifference]
      decide
    · rw [Expr.meets_leads_iff,
        show (Expr.binary .add (.reference "a") (.reference "s")).free = ["a", "s"] from rfl, hsum]
      decide
  · refine (rebinding_frame ∅ unreserved_empty).2.2.2 _ _ _ "x" "y" _ _ (Session.mirrors_empty {})
      (hear_lineOf 1 (by decide)) (hear_lineOf 2 (by decide)) (by decide) ?_ ?_
    · rw [Expr.meets_leads_iff, show (∅ : Namespace Expr).reach _ = ["a"] from by cbv]
      decide
    · rw [Expr.meets_leads_iff, show (∅ : Namespace Expr).reach _ = ["b"] from by cbv]
      decide

end Reckoner
