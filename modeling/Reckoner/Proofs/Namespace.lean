/-
  Looking up and reading on.  `bind` changes what one name is bound to and nothing else (`find?_bind`).
  What can be met from some names depends only on the bindings of the names that are met
  (`mem_reach_congr`), so two namespaces that agree there also agree on the cycles that lie there.
-/
import Reckoner.Cycle

namespace Reckoner.Namespace

variable {α : Type}

/-! ## Binding and looking up -/

/-- Putting an entry in changes what is found for its name, and for no other. -/
theorem lookupIn_insertIn (x y : String) (a : α) : ∀ es : List (String × α),
    lookupIn x (insertIn y a es) = if x = y then some a else lookupIn x es
  | [] => rfl
  | (z, b) :: r => by
    unfold insertIn
    split
    · rfl
    · split
      · -- the entry of `y` itself is replaced: for any other name it was passed over before, too
        rename_i hyz
        subst hyz
        simp only [lookupIn]
        split <;> rfl
      · rename_i hyz
        simp only [lookupIn, lookupIn_insertIn x y a r]
        by_cases hxz : x = z
        · have hxy : x ≠ y := fun h => hyz (h.symm.trans hxz)
          rw [if_pos hxz, if_pos hxz, if_neg hxy]
        · rw [if_neg hxz, if_neg hxz]

/-- Binding `y` decides what is found for `y`, and leaves all other names alone. -/
theorem find?_bind (ns : Namespace α) (x y : String) (a : α) :
    (ns.bind y a).find? x = if x = y then some a else ns.find? x :=
  lookupIn_insertIn x y a ns.entries

/-- The name that is bound has the new binding. -/
theorem find?_bind_self (ns : Namespace α) (x : String) (a : α) : (ns.bind x a).find? x = some a := by
  rw [find?_bind, if_pos rfl]

/-- Any other name has the binding that it had. -/
theorem find?_bind_of_ne {ns : Namespace α} {x y : String} (h : x ≠ y) (a : α) :
    (ns.bind y a).find? x = ns.find? x := by
  rw [find?_bind, if_neg h]

/-- What holds of all bindings still does with a new one of which it holds. -/
theorem forall_bind {P : String → α → Prop} {ns : Namespace α} (h : ∀ x a, ns.find? x = some a → P x a)
    {y : String} {b : α} (hb : P y b) : ∀ x a, (ns.bind y b).find? x = some a → P x a := by
  intro x a ha
  rw [find?_bind] at ha
  split at ha
  · rename_i hxy
    cases ha
    exact hxy ▸ hb
  · exact h x a ha

/-! ## Reading on -/

section Reading

variable [Mentions α] {ns ns' : Namespace α}

/-- A bound name reads the names that its binding mentions. -/
theorem reads_of_find? {x : String} {a : α} (h : ns.find? x = some a) :
    ns.reads x = Mentions.mentioned a := by
  simp [reads, h]

/-- What a name reads depends on its binding only. -/
theorem reads_congr {x : String} (h : ns.find? x = ns'.find? x) : ns.reads x = ns'.reads x := by
  simp [reads, h]

theorem reach_nil : ns.reach [] = [] := by
  rw [reach, reachFrom]

theorem mem_reach_self (ns : Namespace α) (x : String) : x ∈ ns.reach [x] :=
  mem_reach_of_mem List.mem_cons_self

/-- What is met from the binding of a name is met from the name. -/
theorem reach_of_mem_reads {xs : List String} {x y : String} (hx : x ∈ ns.reach xs)
    (hy : y ∈ ns.reach (ns.reads x)) : y ∈ ns.reach xs :=
  reach_subset (fun _ hz => mem_reach_of_reads hx hz) hy

/-- From fewer names no more is met. -/
theorem reach_mono {xs ys : List String} (h : ∀ x ∈ xs, x ∈ ys) {y : String} (hy : y ∈ ns.reach xs) :
    y ∈ ns.reach ys :=
  reach_subset (fun x hx => mem_reach_of_mem (h x hx)) hy

/-- From one name are met the name itself and what is met from its binding. -/
theorem mem_reach_singleton {x y : String} : y ∈ ns.reach [x] ↔ y = x ∨ y ∈ ns.reach (ns.reads x) := by
  constructor
  · intro hy
    refine reach_least (P := fun y => y = x ∨ y ∈ ns.reach (ns.reads x)) ?_ ?_ hy
    · rintro a (rfl | ha) b hb
      · exact Or.inr (mem_reach_of_mem hb)
      · exact Or.inr (mem_reach_of_reads ha hb)
    · intro a ha
      exact Or.inl (List.mem_singleton.1 ha)
  · rintro (rfl | hy)
    · exact ns.mem_reach_self y
    · exact reach_of_mem_reads (ns.mem_reach_self x) hy

/-- A name is met from two lists of names together if it is met from one of them. -/
theorem mem_reach_append {xs ys : List String} {y : String} :
    y ∈ ns.reach (xs ++ ys) ↔ y ∈ ns.reach xs ∨ y ∈ ns.reach ys := by
  constructor
  · intro hy
    refine reach_least (P := fun y => y ∈ ns.reach xs ∨ y ∈ ns.reach ys) ?_ ?_ hy
    · rintro a (ha | ha) b hb
      · exact Or.inl (mem_reach_of_reads ha hb)
      · exact Or.inr (mem_reach_of_reads ha hb)
    · intro a ha
      rcases List.mem_append.1 ha with ha | ha
      · exact Or.inl (mem_reach_of_mem ha)
      · exact Or.inr (mem_reach_of_mem ha)
  · rintro (hy | hy)
    · exact reach_mono (fun _ => List.mem_append_left _) hy
    · exact reach_mono (fun _ => List.mem_append_right _) hy

/-- A name is on a cycle if it can be met from its own binding. -/
theorem onCycle_iff {x : String} : ns.onCycle x = true ↔ x ∈ ns.reach (ns.reads x) :=
  leadsBack_iff ns.written

/-- A name on a cycle is bound to something that mentions a name. -/
theorem exists_reads_of_onCycle {x : String} (h : ns.onCycle x = true) : ns.reads x ≠ [] := by
  intro hnil
  rw [onCycle_iff, hnil, reach_nil] at h
  exact List.not_mem_nil h

/-- **Locality of reading.**  Two namespaces that agree on all names met from `xs` in the one meet the
    same names from `xs`. -/
theorem mem_reach_congr {xs : List String} (h : ∀ y ∈ ns.reach xs, ns.find? y = ns'.find? y)
    {y : String} :
    y ∈ ns.reach xs ↔ y ∈ ns'.reach xs := by
  constructor
  · intro hy
    -- what is met in `ns` is carried along, for the agreement is known only there
    refine (reach_least (P := fun y => y ∈ ns.reach xs ∧ y ∈ ns'.reach xs) ?_ ?_ hy).2
    · rintro a ⟨ha, ha'⟩ b hb
      exact ⟨mem_reach_of_reads ha hb, mem_reach_of_reads ha' (reads_congr (h a ha) ▸ hb)⟩
    · exact fun a ha => ⟨mem_reach_of_mem ha, mem_reach_of_mem ha⟩
  · -- the way back stays in `ns` all along
    refine reach_least (P := fun y => y ∈ ns.reach xs) ?_ fun a ha => mem_reach_of_mem ha
    intro a ha b hb
    exact mem_reach_of_reads ha (reads_congr (h a ha) ▸ hb)

/-- Namespaces that agree on all names met from `x` agree on whether `x` is on a cycle. -/
theorem onCycle_congr {x : String} (h : ∀ y ∈ ns.reach [x], ns.find? y = ns'.find? y) :
    ns.onCycle x = ns'.onCycle x := by
  have hreads := reads_congr (h x (ns.mem_reach_self x))
  have hbelow : ∀ y ∈ ns.reach (ns.reads x), ns.find? y = ns'.find? y :=
    fun y hy => h y (reach_of_mem_reads (ns.mem_reach_self x) hy)
  rw [Bool.eq_iff_iff, onCycle_iff, onCycle_iff, ← hreads]
  exact mem_reach_congr hbelow

end Reading

end Reckoner.Namespace
