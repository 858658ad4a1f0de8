/-
  Paths through bindings.  A bound name leads to every name that its binding mentions, and what can be
  met from some names is what paths of such steps end at (`mem_reach_iff`).  A name is on a cycle if
  there is a path, not an empty one, from the name back to itself.

  The search for such a path marks names as it goes and never enters a marked name again, so the order
  decides through which bindings it comes; it does not decide the answer, since marks left in vain are
  closed under reading.  Hence an answer that was found in one order is right for every other, and a
  specializer that keeps its answers gives none that a new search would not give (`answer_of_exact`).
-/
import Mathlib.Logic.Relation
import Reckoner.Proofs.Namespace

namespace Reckoner.Namespace

variable {α : Type} [Mentions α] {ns : Namespace α}

/-! ## Paths -/

/-- `ns.Leads x y` — the name `x` is bound, to something that mentions `y`. -/
def Leads (ns : Namespace α) (x y : String) : Prop := ∃ a, ns.find? x = some a ∧ y ∈ Mentions.mentioned a

/-- A name leads to those that it reads. -/
theorem leads_iff {x y : String} : ns.Leads x y ↔ y ∈ ns.reads x := by
  rw [Leads, reads]
  cases ns.find? x with
  | none => simp
  | some a => simp

/-- What is met from some names lies at the end of a path from one of them. -/
theorem mem_reach_iff {xs : List String} {y : String} :
    y ∈ ns.reach xs ↔ ∃ x ∈ xs, Relation.ReflTransGen ns.Leads x y := by
  constructor
  · intro hy
    refine reach_least (P := fun y => ∃ x ∈ xs, Relation.ReflTransGen ns.Leads x y) ?_ ?_ hy
    · rintro a ⟨x, hx, hpath⟩ b hb
      exact ⟨x, hx, hpath.tail (leads_iff.2 hb)⟩
    · exact fun a ha => ⟨a, ha, .refl⟩
  · rintro ⟨x, hx, hpath⟩
    induction hpath with
    | refl => exact mem_reach_of_mem hx
    | tail _ hstep ih => exact mem_reach_of_reads ih (leads_iff.1 hstep)

/-- The binding of `x` leads back to `x` if and only if a path does, in whatever order it is looked
    for. -/
theorem leadsBack_iff_path (order : ns.Order) {x : String} :
    ns.leadsBack order x = true ↔ Relation.TransGen ns.Leads x x := by
  rw [leadsBack_iff, mem_reach_iff, Relation.TransGen.head'_iff]
  simp only [leads_iff]

/-- A name is on a cycle if a path leads from it back to it. -/
theorem onCycle_iff_path {x : String} : ns.onCycle x = true ↔ Relation.TransGen ns.Leads x x :=
  leadsBack_iff_path ns.written

/-- The order of the search makes no difference to what it finds. -/
theorem leadsBack_eq_onCycle (order : ns.Order) (x : String) : ns.leadsBack order x = ns.onCycle x := by
  rw [Bool.eq_iff_iff, leadsBack_iff_path, onCycle_iff_path]

/-! ## Answers that are kept -/

namespace Specializer

/-- The answers that are kept are those that a search gives. -/
def Exact (sp : ns.Specializer) : Prop := ∀ x c, sp.cyclic.find? x = some c → c = ns.onCycle x

/-- A specializer after some queries, each in an order of its own. -/
def after (sp : ns.Specializer) (queries : List (ns.Order × String)) : ns.Specializer :=
  queries.foldl (fun sp query => (sp.onCycle query.1 query.2).2) sp

theorem exact_empty : ({} : ns.Specializer).Exact := by
  rintro x c ⟨⟩

/-- **One query**: the answer is that of a search, and so are the answers kept after it. -/
theorem answer_of_exact {sp : ns.Specializer} (h : sp.Exact) (order : ns.Order) (x : String) :
    (sp.onCycle order x).1 = ns.onCycle x ∧ (sp.onCycle order x).2.Exact := by
  rw [onCycle]
  cases hc : sp.cyclic.find? x with
  | some c => exact ⟨h x c hc, h⟩
  | none =>
    have hfound := leadsBack_eq_onCycle order x
    exact ⟨hfound, forall_bind (P := fun x c => c = ns.onCycle x) h hfound⟩

/-- Any number of queries. -/
theorem exact_after {sp : ns.Specializer} (h : sp.Exact) (queries : List (ns.Order × String)) :
    (sp.after queries).Exact := by
  induction queries generalizing sp with
  | nil => exact h
  | cons query rest ih => exact ih (answer_of_exact h query.1 query.2).2

end Specializer

/-- **The cycle test is exact, in every order and at every time.**  A name is found to be on a cycle if
    and only if a path of at least one step leads from it back to it, through bound names whose bindings
    each mention the next.  The search finds this in whatever order it goes through the names of the
    bindings; and so does a specializer, after any queries that it has answered before, in any orders,
    whether it has kept the answer or has to search. -/
theorem onCycle_exact (ns : Namespace α) (x : String) :
    (ns.onCycle x = true ↔ Relation.TransGen ns.Leads x x) ∧
      (∀ order : ns.Order, ns.leadsBack order x = ns.onCycle x) ∧
      ∀ (earlier : List (ns.Order × String)) (order : ns.Order),
        ((({} : ns.Specializer).after earlier).onCycle order x).1 = ns.onCycle x := by
  refine ⟨onCycle_iff_path, fun order => leadsBack_eq_onCycle order x, fun earlier order => ?_⟩
  exact (Specializer.answer_of_exact (Specializer.exact_after Specializer.exact_empty earlier) order x).1

end Reckoner.Namespace
