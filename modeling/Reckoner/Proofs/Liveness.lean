/-
  Pruning is backward liveness.  What `prune` keeps is said here on positions: every instruction that is
  no assignment is kept, and an assignment is kept exactly if its name is read by a kept instruction
  further on, with no assignment to it in between.  Which positions are kept depends on which later ones
  are, so the rule has one solution (`KeepsLive.unique`).

  The pruning itself knows no positions; it carries a set of names.  `mem_live_cons` says what one
  instruction does to that set, and `mem_live_drop` what the set is: the names that a kept instruction
  reads before anybody assigns them.
-/
import Reckoner.Proofs.Residual

namespace Reckoner

variable {α : Type}

namespace Instruction

/-- The names that stand free in the expression of an instruction. -/
def reads [Mentions α] : Instruction α → List String
  | assign _ a => Mentions.mentioned a
  | evaluate a => Mentions.mentioned a
  | missing => []

/-- The instruction is an assignment to `x`. -/
def Assigns (x : String) : Instruction α → Prop
  | assign y _ => x = y
  | _ => False

/-- Whether an instruction is kept before a program that reads `names`. -/
def isNeeded (names : List String) : Instruction α → Bool
  | assign x _ => x ∈ names
  | _ => true

variable {c : Instruction α} {x : String}

theorem assigns_assign (x : String) (a : α) : (assign x a).Assigns x := rfl

/-- An assignment is kept exactly if its name is read. -/
theorem isNeeded_iff (h : c.Assigns x) {names : List String} : c.isNeeded names = true ↔ x ∈ names := by
  cases c with
  | assign y a =>
    cases h
    exact decide_eq_true_iff
  | evaluate a => cases h
  | missing => cases h

/-- What is no assignment is always kept. -/
theorem isNeeded_of_not_assigns (h : ∀ x, ¬c.Assigns x) (names : List String) :
    c.isNeeded names = true := by
  cases c with
  | assign x a => exact absurd (assigns_assign x a) (h x)
  | evaluate a => rfl
  | missing => rfl

end Instruction

/-! ## The rule -/

/-- The instructions at the kept positions, in order. -/
def selected (is : List (Instruction α)) (kept : Fin is.length → Bool) : List (Instruction α) :=
  ((List.finRange is.length).filter kept).map is.get

/-- The first position decides whether the first instruction is selected. -/
theorem selected_cons (c : Instruction α) (is : List (Instruction α))
    (kept : Fin (is.length + 1) → Bool) :
    selected (c :: is) kept =
      if kept 0 then c :: selected is (kept ∘ Fin.succ) else selected is (kept ∘ Fin.succ) := by
  have hrest : ((List.map Fin.succ (List.finRange is.length)).filter kept).map (c :: is).get =
      selected is (kept ∘ Fin.succ) := by
    rw [List.filter_map, List.map_map]
    rfl
  show ((List.finRange (is.length + 1)).filter kept).map (c :: is).get = _
  rw [List.finRange_succ, List.filter_cons]
  split
  · rw [List.map_cons, hrest]
    rfl
  · exact hrest

variable [Mentions α]

section Rule

variable {is : List (Instruction α)} {kept kept' : Fin is.length → Bool}

/-- `ReadLater is kept i x` — a kept instruction after the position `i` reads `x`, and no instruction
    between the two assigns it. -/
def ReadLater (is : List (Instruction α)) (kept : Fin is.length → Bool) (i : Fin is.length) (x : String) :
    Prop :=
  ∃ j, i < j ∧ kept j = true ∧ x ∈ (is.get j).reads ∧ ∀ k, i < k → k < j → ¬(is.get k).Assigns x

/-- `kept` are the positions that liveness keeps. -/
structure KeepsLive (is : List (Instruction α)) (kept : Fin is.length → Bool) : Prop where
  other : ∀ i, (∀ x, ¬(is.get i).Assigns x) → kept i = true
  assignment : ∀ i x, (is.get i).Assigns x → (kept i = true ↔ ReadLater is kept i x)

/-- The rule decides a position from the positions after it. -/
theorem KeepsLive.eq_at (h : KeepsLive is kept) (h' : KeepsLive is kept') (i : Fin is.length) :
    kept i = kept' i := by
  rw [Bool.eq_iff_iff]
  by_cases hassign : ∃ x, (is.get i).Assigns x
  · obtain ⟨x, hx⟩ := hassign
    rw [h.assignment i x hx, h'.assignment i x hx]
    -- the two rules differ only in which later positions are kept, and those are the same
    refine exists_congr fun j => and_congr_right fun hj => ?_
    rw [KeepsLive.eq_at h h' j]
  · have hnone : ∀ x, ¬(is.get i).Assigns x := fun x hx => hassign ⟨x, hx⟩
    exact iff_of_true (h.other i hnone) (h'.other i hnone)
termination_by is.length - i
decreasing_by omega

/-- There is only one way to keep positions by the rule. -/
theorem KeepsLive.unique (h : KeepsLive is kept) (h' : KeepsLive is kept') : kept = kept' :=
  funext (h.eq_at h')

end Rule

/-! ## What one instruction does -/

section Instructions

variable {is : List (Instruction α)} {x : String}

/-- An instruction is kept if it is needed before what follows it. -/
theorem prune_cons (c : Instruction α) (is : List (Instruction α)) :
    prune (c :: is) = if c.isNeeded (live is) then c :: prune is else prune is := by
  cases c with
  | assign x a =>
    by_cases hx : x ∈ live is
    · rw [prune_assign a hx, if_pos ((Instruction.isNeeded_iff (Instruction.assigns_assign x a)).2 hx)]
    · rw [prune_assign_dead a hx,
        if_neg (mt (Instruction.isNeeded_iff (Instruction.assigns_assign x a)).1 hx)]
  | evaluate a => rfl
  | missing => rfl

/-- **One instruction.**  Read before it are its own names, if it is kept, and what is read after it,
    but for the name that it assigns. -/
theorem mem_live_cons (c : Instruction α) :
    x ∈ live (c :: is) ↔ c.isNeeded (live is) = true ∧ x ∈ c.reads ∨ ¬c.Assigns x ∧ x ∈ live is := by
  cases c with
  | assign y a =>
    rw [Instruction.isNeeded_iff (Instruction.assigns_assign y a), live, pruneWith_assign]
    by_cases hy : y ∈ live is
    · -- kept: it kills its name and then reads its own names, which may hold that name
      rw [if_pos hy, List.mem_append, List.mem_filter, decide_eq_true_eq, and_comm (a := x ∈ live is)]
      exact or_congr_left (iff_and_self.2 fun _ => hy)
    · -- dropped: its name was not read anyway
      rw [if_neg hy]
      refine ⟨fun hx => Or.inr ⟨?_, hx⟩, ?_⟩
      · rintro rfl
        exact hy hx
      · rintro (⟨h, _⟩ | ⟨_, hx⟩)
        · exact absurd h hy
        · exact hx
  | evaluate a =>
    show x ∈ Mentions.mentioned a ++ live is ↔ _
    simp [Instruction.isNeeded, Instruction.reads, Instruction.Assigns]
  | missing =>
    show x ∈ live is ↔ _
    simp [Instruction.reads, Instruction.Assigns]

end Instructions

/-! ## Positions -/

/-- The positions that the pruning keeps. -/
def keptAt (is : List (Instruction α)) (i : Fin is.length) : Bool :=
  (is.get i).isNeeded (live (is.drop (i + 1)))

/-- Pruning selects the positions that it keeps. -/
theorem prune_eq_selected (is : List (Instruction α)) : prune is = selected is (keptAt is) := by
  induction is with
  | nil => rfl
  | cons c is ih =>
    rw [prune_cons, selected_cons, ih]
    rfl

/-- **The names that are read.**  From the position `n` on, a name is live if a kept instruction reads
    it and none before that one assigns it. -/
theorem mem_live_drop (is : List (Instruction α)) (n : Nat) (x : String) :
    x ∈ live (is.drop n) ↔ ∃ j : Fin is.length, n ≤ j ∧ keptAt is j = true ∧ x ∈ (is.get j).reads ∧
      ∀ k : Fin is.length, n ≤ k → k < j → ¬(is.get k).Assigns x := by
  by_cases hn : n < is.length
  · -- the position `n` itself is the reader, or it does not assign the name and the reader is behind it
    rw [List.drop_eq_getElem_cons hn, mem_live_cons, mem_live_drop is (n + 1) x]
    constructor
    · rintro (⟨hkept, hx⟩ | ⟨hfirst, j, hj, hkept, hx, hbetween⟩)
      · exact ⟨⟨n, hn⟩, Nat.le_refl n, hkept, hx, fun k hk hkn => absurd hkn (Nat.not_lt.2 hk)⟩
      · refine ⟨j, by omega, hkept, hx, fun k hk hkj => ?_⟩
        by_cases hkn : n = k
        · subst hkn
          exact hfirst
        · exact hbetween k (by omega) hkj
    · rintro ⟨j, hj, hkept, hx, hbetween⟩
      by_cases hjn : n = j
      · subst hjn
        exact Or.inl ⟨hkept, hx⟩
      · refine Or.inr ⟨hbetween ⟨n, hn⟩ (Nat.le_refl n) ?_, j, by omega, hkept, hx,
          fun k hk => hbetween k (by omega)⟩
        show n < j
        omega
  · rw [List.drop_eq_nil_of_le (by omega)]
    exact ⟨by rintro ⟨⟩, fun ⟨j, hj, _⟩ => by omega⟩
termination_by is.length - n

/-- **What the pruning keeps is what liveness keeps.** -/
theorem keepsLive_keptAt (is : List (Instruction α)) : KeepsLive is (keptAt is) := by
  refine ⟨fun i hnone => Instruction.isNeeded_of_not_assigns hnone _, fun i x hx => ?_⟩
  rw [keptAt, Instruction.isNeeded_iff hx, mem_live_drop]
  rfl

/-! ## Pruning twice -/

/-- A pruned program reads what the program reads, and nothing of it is dropped. -/
theorem pruneWith_prune (is : List (Instruction α)) : pruneWith (prune is) = pruneWith is := by
  induction is with
  | nil => rfl
  | cons c is ih =>
    have hlive : live (prune is) = live is := congrArg Prod.snd ih
    have hprune : prune (prune is) = prune is := congrArg Prod.fst ih
    cases c with
    | assign x a =>
      by_cases hx : x ∈ live is
      · rw [prune_assign a hx, pruneWith_assign, pruneWith_assign, hlive, hprune]
      · rw [prune_assign_dead a hx, ih, pruneWith_assign, if_neg hx]
        rfl
    | evaluate a =>
      show (Instruction.evaluate a :: prune (prune is), Mentions.mentioned a ++ live (prune is)) = _
      rw [hlive, hprune]
      rfl
    | missing =>
      show (Instruction.missing :: prune (prune is), live (prune is)) = _
      rw [hlive, hprune]
      rfl

/-- **Pruning is liveness.**  There is one way to mark the positions of a program so that everything but
    assignments is marked, and an assignment exactly if a marked instruction after it reads its name and
    none in between assigns it.  Pruning leaves the marked instructions, in their order; and there is
    nothing to prune twice. -/
theorem prune_live (is : List (Instruction α)) :
    (∃ kept : Fin is.length → Bool, KeepsLive is kept ∧ (∀ kept', KeepsLive is kept' → kept' = kept) ∧
        prune is = selected is kept) ∧
      prune (prune is) = prune is := by
  refine ⟨⟨keptAt is, keepsLive_keptAt is, fun kept' h => h.unique (keepsLive_keptAt is),
    prune_eq_selected is⟩, ?_⟩
  exact congrArg Prod.fst (pruneWith_prune is)

/-- An assignment that reads its own name keeps the one before it alive; the one behind the last reader
    is dropped. -/
example : prune [.assign "x" (.integer 1), .assign "y" (.reference "x"),
      .assign "x" (.binary .add (.reference "x") (.integer 1)), .evaluate (.reference "x"),
      .assign "x" (.integer 2)] =
    ([.assign "x" (.integer 1), .assign "x" (.binary .add (.reference "x") (.integer 1)),
      .evaluate (.reference "x")] : List (Instruction Expr)) := by
  decide

end Reckoner
