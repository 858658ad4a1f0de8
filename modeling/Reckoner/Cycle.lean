/-
  Reading through bindings.  A bound thing mentions names, those names are bound to things that mention
  further names, and so on: `reach ns xs` lists every name met on the way from `xs`, each once.  A name is
  on a cycle when the way from its own binding leads back to it.

  `reachFrom` is the usual search with a list of names still to visit.  It ends because every step either
  shortens that list or marks a bound name that was not marked before.  Three facts say all about its
  answer: it holds what the search started from, it holds whatever its members read, and it lies inside
  every set with these two properties.

  `search` looks for one name only and stops as soon as it has met it.  It goes into a name before it
  turns to the names beside it, in whatever order, and all branches share the marks.  What it has marked
  in vain is closed under reading, up to the names that were marked before (`closed_of_search`), so the
  answer does not depend on the order (`leadsBack_iff`).  A `Specializer` asks for many names and looks
  for each once.

  From this comes the rank: a name on no cycle reads only names of smaller rank, which is why substituting
  such names comes to an end.
-/
import Reckoner.Namespace

namespace Reckoner

/-- Things that mention names. -/
class Mentions (α : Type) where
  mentioned : α → List String

namespace Namespace

variable {α : Type} [Mentions α]

/-- The names that the binding of `x` mentions; none if `x` is unbound. -/
def reads (ns : Namespace α) (x : String) : List String :=
  match ns.find? x with
  | some a => Mentions.mentioned a
  | none => []

omit [Mentions α] in
/-- How many bound names are not in `seen`. -/
def unseen (ns : Namespace α) (seen : List String) : Nat := ns.names.countP (· ∉ seen)

theorem countP_lt {l : List String} {p q : String → Bool} (hpq : ∀ y ∈ l, p y → q y) {x : String}
    (hx : x ∈ l) (hq : q x) (hp : ¬p x) : l.countP p < l.countP q := by
  induction l with
  | nil => simp at hx
  | cons y r ih =>
    have hr : ∀ z ∈ r, p z → q z := fun z hz => hpq z (List.mem_cons_of_mem _ hz)
    have hle := List.countP_mono_left hr
    rcases List.mem_cons.1 hx with rfl | hx
    · rw [List.countP_cons_of_neg hp, List.countP_cons_of_pos hq]; omega
    · have hlt := ih hr hx
      by_cases hy : p y
      · rw [List.countP_cons_of_pos hy, List.countP_cons_of_pos (hpq y List.mem_cons_self hy)]; omega
      · rw [List.countP_cons_of_neg hy, List.countP_cons]; omega

omit [Mentions α] in
theorem unseen_cons_lt {ns : Namespace α} {seen : List String} {x : String} (hx : x ∈ ns.names)
    (hs : x ∉ seen) : ns.unseen (x :: seen) < ns.unseen seen :=
  countP_lt (fun y _ h => by simp at h ⊢; exact h.2) hx (by simpa using hs) (by simp)

omit [Mentions α] in
theorem unseen_cons_of_not_mem {ns : Namespace α} {seen : List String} {x : String}
    (hx : x ∉ ns.names) : ns.unseen (x :: seen) = ns.unseen seen := by
  refine List.countP_congr fun y hy => ?_
  have : y ≠ x := fun h => hx (h ▸ hy)
  simp [this]

omit [Mentions α] in
theorem unseen_anti {ns : Namespace α} {seen seen' : List String} (h : ∀ y ∈ seen, y ∈ seen') :
    ns.unseen seen' ≤ ns.unseen seen :=
  List.countP_mono_left fun y _ hy => by
    simp only [decide_eq_true_eq] at hy ⊢
    exact fun hs => hy (h y hs)

theorem reads_of_not_mem {ns : Namespace α} {x : String} (hx : x ∉ ns.names) : ns.reads x = [] := by
  unfold reads
  split
  · rename_i h
    exact absurd (mem_names_of_find? h) hx
  · rfl

/-- The names met from `work`, on top of those in `seen`. -/
def reachFrom (ns : Namespace α) (seen : List String) : List String → List String
  | [] => seen
  | x :: rest =>
    if x ∈ seen then reachFrom ns seen rest
    else reachFrom ns (x :: seen) (ns.reads x ++ rest)
termination_by work => (ns.unseen seen, work.length)
decreasing_by
  · exact Prod.Lex.right _ (by simp)
  · rename_i hs
    by_cases hx : x ∈ ns.names
    · exact Prod.Lex.left _ _ (unseen_cons_lt hx hs)
    · rw [unseen_cons_of_not_mem hx, reads_of_not_mem hx]
      exact Prod.Lex.right _ (by simp)

/-- The names met from `xs`: these, what their bindings mention, and so on. -/
def reach (ns : Namespace α) (xs : List String) : List String := ns.reachFrom [] xs

/-! ## What the search finds -/

theorem subset_reachFrom {ns : Namespace α} {seen work : List String} {y : String}
    (h : y ∈ seen ∨ y ∈ work) : y ∈ ns.reachFrom seen work := by
  fun_induction reachFrom ns seen work with
  | case1 seen => simpa using h
  | case2 seen x rest hs ih =>
    apply ih
    rcases h with h | h
    · exact Or.inl h
    · rcases List.mem_cons.1 h with rfl | h
      · exact Or.inl hs
      · exact Or.inr h
  | case3 seen x rest hs ih =>
    apply ih
    rcases h with h | h
    · exact Or.inl (List.mem_cons_of_mem _ h)
    · rcases List.mem_cons.1 h with rfl | h
      · exact Or.inl List.mem_cons_self
      · exact Or.inr (List.mem_append_right _ h)

theorem closed_reachFrom {ns : Namespace α} {seen work : List String}
    (hinv : ∀ y ∈ seen, ∀ z ∈ ns.reads y, z ∈ seen ∨ z ∈ work) {y z : String}
    (hy : y ∈ ns.reachFrom seen work) (hz : z ∈ ns.reads y) : z ∈ ns.reachFrom seen work := by
  fun_induction reachFrom ns seen work with
  | case1 seen => simpa using hinv y hy z hz
  | case2 seen x rest hs ih =>
    refine ih (fun a ha b hb => ?_) hy
    rcases hinv a ha b hb with h | h
    · exact Or.inl h
    · rcases List.mem_cons.1 h with rfl | h
      · exact Or.inl hs
      · exact Or.inr h
  | case3 seen x rest hs ih =>
    refine ih (fun a ha b hb => ?_) hy
    rcases List.mem_cons.1 ha with rfl | ha
    · exact Or.inr (List.mem_append_left _ hb)
    · rcases hinv a ha b hb with h | h
      · exact Or.inl (List.mem_cons_of_mem _ h)
      · rcases List.mem_cons.1 h with rfl | h
        · exact Or.inl List.mem_cons_self
        · exact Or.inr (List.mem_append_right _ h)

theorem reachFrom_least {ns : Namespace α} {seen work : List String} {P : String → Prop}
    (hclosed : ∀ y, P y → ∀ z ∈ ns.reads y, P z) (hseen : ∀ y ∈ seen, P y) (hwork : ∀ y ∈ work, P y)
    {y : String} (hy : y ∈ ns.reachFrom seen work) : P y := by
  fun_induction reachFrom ns seen work with
  | case1 seen => exact hseen y hy
  | case2 seen x rest hs ih => exact ih hseen (fun a ha => hwork a (List.mem_cons_of_mem _ ha)) hy
  | case3 seen x rest hs ih =>
    have hx := hwork x List.mem_cons_self
    refine ih (fun a ha => ?_) (fun a ha => ?_) hy
    · rcases List.mem_cons.1 ha with rfl | ha
      · exact hx
      · exact hseen a ha
    · rcases List.mem_append.1 ha with ha | ha
      · exact hclosed x hx a ha
      · exact hwork a (List.mem_cons_of_mem _ ha)

/-- The search finds what it starts from. -/
theorem mem_reach_of_mem {ns : Namespace α} {xs : List String} {y : String} (h : y ∈ xs) :
    y ∈ ns.reach xs :=
  subset_reachFrom (Or.inr h)

/-- What a found name reads is found. -/
theorem mem_reach_of_reads {ns : Namespace α} {xs : List String} {y z : String}
    (hy : y ∈ ns.reach xs) (hz : z ∈ ns.reads y) : z ∈ ns.reach xs :=
  closed_reachFrom (fun _ h => absurd h List.not_mem_nil) hy hz

/-- The search finds nothing else: its answer lies inside every set that is closed under reading. -/
theorem reach_least {ns : Namespace α} {xs : List String} {P : String → Prop}
    (hclosed : ∀ y, P y → ∀ z ∈ ns.reads y, P z) (hxs : ∀ y ∈ xs, P y) {y : String}
    (hy : y ∈ ns.reach xs) : P y :=
  reachFrom_least hclosed (fun _ h => absurd h List.not_mem_nil) hxs hy

/-- From names that are all found from `ys`, nothing is found that is not found from `ys`. -/
theorem reach_subset {ns : Namespace α} {xs ys : List String} (h : ∀ x ∈ xs, x ∈ ns.reach ys)
    {y : String} (hy : y ∈ ns.reach xs) : y ∈ ns.reach ys :=
  reach_least (fun _ ha _ hb => mem_reach_of_reads ha hb) h hy

/-! ## Looking for one name -/

/-- An order in which the names of bindings are gone through.  It may be another one at every visit; which
    visit to `x` it is, the names in `seen` tell, which are marked by then. -/
structure Order (ns : Namespace α) where
  visit : (seen : List String) → (x : String) → List String
  mem_visit : ∀ {seen x y}, y ∈ visit seen x ↔ y ∈ ns.reads x

/-- The order in which the names are written. -/
def written (ns : Namespace α) : ns.Order := ⟨fun _ x => ns.reads x, Iff.rfl⟩

theorem Order.visit_of_not_mem {ns : Namespace α} (order : ns.Order) {x : String} (hx : x ∉ ns.names)
    (seen : List String) : order.visit seen x = [] := by
  refine List.eq_nil_iff_forall_not_mem.2 fun y hy => ?_
  rw [order.mem_visit, reads_of_not_mem hx] at hy
  cases hy

/-- What a search comes to: whether it has met the name it looks for, and the names that are marked now.
    Marks are never taken away. -/
structure Search (seen : List String) where
  met : Bool
  marked : List String
  keeps : ∀ y ∈ seen, y ∈ marked

/-- Look for `target` among some names and in all that their bindings lead to, but not behind names in
    `seen`. -/
def search (ns : Namespace α) (order : ns.Order) (target : String) (seen : List String) :
    List String → Search seen
  | [] => ⟨false, seen, fun _ h => h⟩
  | x :: rest =>
    if x = target then ⟨true, seen, fun _ h => h⟩
    else if x ∈ seen then search ns order target seen rest
    else
      let below := search ns order target (x :: seen) (order.visit (x :: seen) x)
      have hseen : ∀ y ∈ seen, y ∈ below.marked := fun y hy => below.keeps y (List.mem_cons_of_mem _ hy)
      if below.met then ⟨true, below.marked, hseen⟩
      else
        -- what was marked below `x` is not gone through again beside it
        let beside := search ns order target below.marked rest
        ⟨beside.met, beside.marked, fun y hy => beside.keeps y (hseen y hy)⟩
termination_by names => (ns.unseen seen, names.length)
decreasing_by
  · exact Prod.Lex.right _ (by simp)
  · rename_i hs
    by_cases hx : x ∈ ns.names
    · exact Prod.Lex.left _ _ (unseen_cons_lt hx hs)
    · rw [unseen_cons_of_not_mem hx, order.visit_of_not_mem hx]
      exact Prod.Lex.right _ (by simp)
  · exact Prod.Lex.right' _ (unseen_anti hseen) (by simp)

/-- Whether the binding of `x` leads back to `x`, found out in some order. -/
def leadsBack (ns : Namespace α) (order : ns.Order) (x : String) : Bool :=
  (ns.search order x [] (order.visit [] x)).met

/-- Whether the binding of `x` leads back to `x`. -/
def onCycle (ns : Namespace α) (x : String) : Bool := ns.leadsBack ns.written x

/-- A search meets only what can be met. -/
theorem mem_reach_of_search {ns : Namespace α} {order : ns.Order} {target : String}
    {seen names : List String} (h : (ns.search order target seen names).met = true) :
    target ∈ ns.reach names := by
  have htail : ∀ {x rest}, target ∈ ns.reach rest → target ∈ ns.reach (x :: rest) := fun hr =>
    reach_subset (fun y hy => mem_reach_of_mem (List.mem_cons_of_mem _ hy)) hr
  have hbelow : ∀ {seen x rest}, target ∈ ns.reach (order.visit seen x) → target ∈ ns.reach (x :: rest) :=
    fun hr => reach_subset (fun y hy =>
      mem_reach_of_reads (mem_reach_of_mem List.mem_cons_self) (order.mem_visit.1 hy)) hr
  fun_induction search ns order target seen names with
  | case1 seen => cases h
  | case2 seen rest => exact mem_reach_of_mem List.mem_cons_self
  | case3 seen x rest hx hs ih => exact htail (ih h)
  | case4 seen x rest hx hs below hseen hmet ih => exact hbelow (ih hmet)
  | case5 seen x rest hx hs below hseen hmet beside ihb ihr => exact htail (ihr h)

/-- **What is marked in vain is closed under reading.**  A search that has not met its target has marked
    all names it was given, and of every name it has newly marked, which is not the target, all that its
    binding mentions.  Names marked before may still be open: whoever has opened them goes through the
    rest. -/
theorem closed_of_search {ns : Namespace α} {order : ns.Order} {target : String}
    {seen names : List String} (h : (ns.search order target seen names).met = false) :
    (∀ y ∈ names, y ∈ (ns.search order target seen names).marked) ∧
      ∀ y ∈ (ns.search order target seen names).marked, y ∉ seen →
        y ≠ target ∧ ∀ z ∈ ns.reads y, z ∈ (ns.search order target seen names).marked := by
  fun_induction search ns order target seen names with
  | case1 seen => exact ⟨fun y hy => absurd hy List.not_mem_nil, fun y hy hn => absurd hy hn⟩
  | case2 seen rest => cases h
  | case3 seen x rest hx hs ih =>
    obtain ⟨hrest, hnew⟩ := ih h
    exact ⟨List.forall_mem_cons.2 ⟨Search.keeps _ x hs, hrest⟩, hnew⟩
  | case4 seen x rest hx hs below hseen hmet ih => cases h
  | case5 seen x rest hx hs below hseen hmet beside ihb ihr =>
    obtain ⟨hvisit, hbelow⟩ := ihb (Bool.eq_false_iff.2 hmet)
    obtain ⟨hrest, hbeside⟩ := ihr h
    refine ⟨List.forall_mem_cons.2 ⟨beside.keeps x (below.keeps x List.mem_cons_self), hrest⟩,
      fun y hy hn => ?_⟩
    by_cases hyb : y ∈ below.marked
    · by_cases hyx : y = x
      · -- `x` itself was open while the search went on below it, and is done now
        subst hyx
        exact ⟨hx, fun z hz => beside.keeps z (hvisit z (order.mem_visit.2 hz))⟩
      · obtain ⟨hne, hreads⟩ := hbelow y hyb (by simp [hyx, hn])
        exact ⟨hne, fun z hz => beside.keeps z (hreads z hz)⟩
    · exact hbeside y hy hyb

/-- **The search is exact**, whatever the order: the binding of a name is found to lead back to the name
    if and only if the name can be met from it. -/
theorem leadsBack_iff {ns : Namespace α} (order : ns.Order) {x : String} :
    ns.leadsBack order x = true ↔ x ∈ ns.reach (ns.reads x) := by
  constructor
  · intro h
    exact reach_subset (fun y hy => mem_reach_of_mem (order.mem_visit.1 hy)) (mem_reach_of_search h)
  · intro hx
    cases h : ns.leadsBack order x with
    | true => rfl
    | false =>
      obtain ⟨hvisit, hclosed⟩ := closed_of_search h
      have hmarked : ∀ {y}, y ∈ (ns.search order x [] (order.visit [] x)).marked → y ≠ x :=
        fun hy => (hclosed _ hy List.not_mem_nil).1
      refine absurd rfl (hmarked (reach_least ?_ ?_ hx))
      · exact fun y hy => (hclosed y hy List.not_mem_nil).2
      · exact fun y hy => hvisit y (order.mem_visit.2 hy)

/-! ## Asking again -/

/-- The answers that have been found for a namespace, name by name. -/
structure Specializer (ns : Namespace α) where
  cyclic : Namespace Bool := ∅

/-- Whether `x` is on a cycle: the answer that was found before, or the one that is found now and kept. -/
def Specializer.onCycle {ns : Namespace α} (sp : ns.Specializer) (order : ns.Order) (x : String) :
    Bool × ns.Specializer :=
  match sp.cyclic.find? x with
  | some c => (c, sp)
  | none =>
    let c := ns.leadsBack order x
    (c, ⟨sp.cyclic.bind x c⟩)

/-! ## The rank -/

/-- How many bound names can be met from `xs`. -/
def rank (ns : Namespace α) (xs : List String) : Nat := ns.names.countP (· ∈ ns.reach xs)

theorem rank_mono {ns : Namespace α} {xs ys : List String} (h : ∀ x ∈ xs, x ∈ ys) :
    ns.rank xs ≤ ns.rank ys :=
  List.countP_mono_left fun y _ hy => by
    simp only [decide_eq_true_eq] at hy ⊢
    exact reach_subset (fun x hx => mem_reach_of_mem (h x hx)) hy

/-- A bound name on no cycle has a greater rank than what it is bound to. -/
theorem rank_reads_lt {ns : Namespace α} {x : String} {a : α} (hx : ns.find? x = some a)
    (hc : ns.onCycle x = false) : ns.rank (Mentions.mentioned a) < ns.rank [x] := by
  have hr : ns.reads x = Mentions.mentioned a := by simp [reads, hx]
  refine countP_lt (x := x) (fun y _ hy => ?_) (mem_names_of_find? hx) ?_ ?_
  · simp only [decide_eq_true_eq] at hy ⊢
    refine reach_subset (fun z hz => ?_) hy
    exact mem_reach_of_reads (mem_reach_of_mem List.mem_cons_self) (hr ▸ hz)
  · simpa using mem_reach_of_mem List.mem_cons_self
  · have hx : ¬x ∈ ns.reach (ns.reads x) := fun h => by
      rw [onCycle, (leadsBack_iff ns.written).2 h] at hc
      cases hc
    rw [← hr]
    simpa using hx

end Namespace

end Reckoner
