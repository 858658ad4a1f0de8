/-
  Every node is compiled once.  Nodes share operands, down to an operation both of whose operands are
  one node, and the engine keeps the numbers of the nodes that it has compiled.

  What one call of `compile` does is said without the recursion: the numbers of all nodes that can be
  met from the node are compiled now, and no others are new (`mem_compile`).  That the counter keeps up
  with the numbers (`once`), and so that a call counts the nodes that were not compiled before it
  (`counts_of_remembers`), follows.

  Evaluating and specializing do nothing to the memory but call `compile` and give out numbers
  (`Works`), so what the calls keep is kept by every operation, and by every history of operations.
-/
import Mathlib.Data.Set.Card
import Reckoner.Proofs.Engine

namespace Reckoner

/-! ## Operands

  Nodes are finite, so an operand is smaller than its operation and no node is met from its own
  operands. -/

namespace Node

/-- `m` is an operand of `n`. -/
def Operand (n m : Node) : Prop := n.left? = some m ∨ n.right? = some m

/-- `m` is met from `n` through operands. -/
def Reaches (n m : Node) : Prop := Relation.ReflTransGen Operand n m

variable {store : Store} {m n p : Node}

/-- The operands of an operation. -/
theorem operand_binary {i : Nat} {op : Operator} {l r : Node} :
    (binary i op l r).Operand m ↔ m = l ∨ m = r := by
  simp only [Operand, left?, right?, Option.some.injEq, eq_comm]

/-- The operands of a stored node are stored, and so is what is met from it. -/
theorem Stored.operand (h : n.Stored store) (hm : n.Operand m) : m.Stored store := by
  cases n with
  | binary i op l r =>
    rcases operand_binary.1 hm with rfl | rfl
    · exact h.2.1
    · exact h.2.2
  | _ => rcases hm with hm | hm <;> cases hm

theorem Stored.reaches (h : n.Stored store) (hm : n.Reaches m) : m.Stored store := by
  induction hm with
  | refl => exact h
  | tail _ hlast ih => exact ih.operand hlast

/-- From an operation its operands are met, and what is met from them. -/
theorem reaches_binary {i : Nat} {op : Operator} {l r : Node} :
    (binary i op l r).Reaches m ↔ m = binary i op l r ∨ l.Reaches m ∨ r.Reaches m := by
  rw [Reaches, Relation.ReflTransGen.cases_head_iff]
  constructor
  · rintro (rfl | ⟨p, hp, hm⟩)
    · exact Or.inl rfl
    · rcases operand_binary.1 hp with rfl | rfl
      · exact Or.inr (Or.inl hm)
      · exact Or.inr (Or.inr hm)
  · rintro (rfl | hm | hm)
    · exact Or.inl rfl
    · exact Or.inr ⟨l, operand_binary.2 (Or.inl rfl), hm⟩
    · exact Or.inr ⟨r, operand_binary.2 (Or.inr rfl), hm⟩

/-- From a node that is no operation only the node itself is met. -/
theorem reaches_leaf (hn : ∀ i op l r, n = binary i op l r → False) : n.Reaches m ↔ m = n := by
  refine ⟨fun h => ?_, fun h => h ▸ .refl⟩
  rcases Relation.ReflTransGen.cases_head_iff.1 h with rfl | ⟨p, hp, _⟩
  · rfl
  · cases n with
    | binary i op l r => exact absurd rfl (hn i op l r)
    | _ => rcases hp with hp | hp <;> cases hp

/-- Operands are smaller. -/
theorem sizeOf_lt_of_operand (h : n.Operand m) : sizeOf m < sizeOf n := by
  cases n with
  | binary i op l r =>
    rcases operand_binary.1 h with rfl | rfl <;> simp only [binary.sizeOf_spec] <;> omega
  | _ => rcases h with h | h <;> cases h

theorem sizeOf_le_of_reaches (h : n.Reaches m) : sizeOf m ≤ sizeOf n := by
  induction h with
  | refl => exact Nat.le_refl _
  | tail _ hlast ih => exact Nat.le_trans (Nat.le_of_lt (sizeOf_lt_of_operand hlast)) ih

/-- A node is not met from its operands, nor is its number. -/
theorem Stored.id_ne_of_operand (h : n.Stored store) (hp : n.Operand p) (hm : p.Reaches m) :
    m.id ≠ n.id := by
  intro hid
  -- with the number of `n` it would be `n`, and not smaller than it
  have heq : m = n := ((h.operand hp).reaches hm).eq_of_id h hid
  have hle := sizeOf_le_of_reaches hm
  have hlt := sizeOf_lt_of_operand hp
  rw [heq] at hle
  omega

end Node

/-! ## One call

  What `compile` finds compiled it leaves at once, and rightly so only if the operands are compiled too:
  the compiled numbers are closed under operands, before a call and after it.  As a call compiles
  operands first, this is not so in between; the induction is on the call, and what it says is about its
  two ends. -/

namespace Engine

variable {store store' : Store} {en : Engine} {m n : Node}

/-- The compiled numbers are closed under operands. -/
def Closed (store : Store) (en : Engine) : Prop :=
  ∀ n m : Node, n.Stored store → n.id ∈ en.compiled → n.Operand m → m.id ∈ en.compiled

/-- Notes are not remembered as nodes. -/
theorem compiled_note (en : Engine) (c : Channel) (text : Unit → String) :
    (en.note c text).compiled = en.compiled := by
  unfold note
  split <;> rfl

theorem compilations_note (en : Engine) (c : Channel) (text : Unit → String) :
    (en.note c text).compilations = en.compilations := by
  unfold note
  split <;> rfl

theorem compiled_markCompiled (en : Engine) (n : Node) :
    (en.markCompiled n).compiled = en.compiled.insert n.id :=
  compiled_note _ _ _

theorem compilations_markCompiled (en : Engine) (n : Node) :
    (en.markCompiled n).compilations = en.compilations + 1 :=
  compilations_note _ _ _

/-- One number is new. -/
theorem mem_markCompiled {i : Nat} : i ∈ (en.markCompiled n).compiled ↔ i = n.id ∨ i ∈ en.compiled := by
  rw [compiled_markCompiled, Std.HashSet.mem_insert, beq_iff_eq, eq_comm]

/-- What is met from a compiled node is compiled. -/
theorem Closed.reaches (h : en.Closed store) (hn : n.Stored store) (hid : n.id ∈ en.compiled)
    (hm : n.Reaches m) :
    m.id ∈ en.compiled := by
  induction hm with
  | refl => exact hid
  | tail hfront hlast ih => exact h _ _ (hn.reaches hfront) ih hlast

/-- Numbers that are compiled because they are met from one node do not break the rule. -/
theorem Closed.grow {en' : Engine} (h : en.Closed store) (hn : n.Stored store)
    (hmem : ∀ i, i ∈ en'.compiled ↔ i ∈ en.compiled ∨ ∃ m, n.Reaches m ∧ m.id = i) :
    en'.Closed store := by
  intro p q hp hid hq
  rw [hmem] at hid ⊢
  rcases hid with hid | ⟨m, hm, hid⟩
  · exact Or.inl (h p q hp hid hq)
  · -- the node with the number of `m` is `m`, so its operands are met as well
    obtain rfl : m = p := (hn.reaches hm).eq_of_id hp hid
    exact Or.inr ⟨q, hm.tail hq, rfl⟩

/-- **One call.**  After `compile n` the numbers of the nodes that are met from `n` are compiled, and no
    new ones. -/
theorem mem_compile (h : en.Closed store) (hn : n.Stored store) :
    ∀ i, i ∈ (en.compile n).compiled ↔ i ∈ en.compiled ∨ ∃ m, n.Reaches m ∧ m.id = i := by
  fun_induction compile en n with
  | case1 n en hin =>
    -- the node is compiled, and so is all that is met from it
    intro i
    refine ⟨Or.inl, ?_⟩
    rintro (hi | ⟨m, hm, rfl⟩)
    · exact hi
    · exact h.reaches hn (Std.HashSet.contains_iff_mem.1 hin) hm
  | case2 en i op l r hin ihl ihr =>
    intro k
    -- the right operand is compiled when the numbers of the left one are in
    have hleft := ihl h hn.2.1
    have hright := ihr (h.grow hn.2.1 hleft) hn.2.2
    rw [mem_markCompiled, hright, hleft]
    constructor
    · rintro (rfl | (hk | ⟨m, hm, rfl⟩) | ⟨m, hm, rfl⟩)
      · exact Or.inr ⟨_, .refl, rfl⟩
      · exact Or.inl hk
      · exact Or.inr ⟨m, Node.reaches_binary.2 (Or.inr (Or.inl hm)), rfl⟩
      · exact Or.inr ⟨m, Node.reaches_binary.2 (Or.inr (Or.inr hm)), rfl⟩
    · rintro (hk | ⟨m, hm, rfl⟩)
      · exact Or.inr (Or.inl (Or.inl hk))
      · rcases Node.reaches_binary.1 hm with rfl | hm | hm
        · exact Or.inl rfl
        · exact Or.inr (Or.inl (Or.inr ⟨m, hm, rfl⟩))
        · exact Or.inr (Or.inr ⟨m, hm, rfl⟩)
  | case3 n en hin hleaf =>
    intro k
    simp only [mem_markCompiled, Node.reaches_leaf hleaf, exists_eq_left]
    exact ⟨fun hk => hk.elim (fun hk => Or.inr hk.symm) Or.inl,
      fun hk => hk.elim Or.inr fun hk => Or.inl hk.symm⟩

/-- **What the engine remembers** of the nodes of a store: a number that is compiled is the number of a
    node; with a node its operands are compiled; and there were as many compilations as there are
    compiled nodes, so none was compiled twice. -/
structure Remembers (store : Store) (en : Engine) : Prop where
  made : ∀ i ∈ en.compiled, ∃ n : Node, n.Stored store ∧ n.id = i
  closed : en.Closed store
  once : en.compilations = en.compiled.size

theorem size_markCompiled (h : n.id ∉ en.compiled) :
    (en.markCompiled n).compiled.size = en.compiled.size + 1 := by
  rw [compiled_markCompiled, Std.HashSet.size_insert, if_neg h]

/-- The counter goes up with the compiled numbers: when it is the turn of an operation, its own number
    is still new. -/
theorem once_compile (h : en.Closed store) (hn : n.Stored store)
    (honce : en.compilations = en.compiled.size) :
    (en.compile n).compilations = (en.compile n).compiled.size := by
  fun_induction compile en n with
  | case1 n en hin => exact honce
  | case2 en i op l r hin ihl ihr =>
    have hleft := mem_compile h hn.2.1
    have hclosed := h.grow hn.2.1 hleft
    have hright := mem_compile hclosed hn.2.2
    -- the operands have other numbers, so the operation is not among what they have brought in
    have hnew : (Node.binary i op l r).id ∉ ((en.compile l).compile r).compiled := by
      rw [hright, hleft]
      rintro ((hid | ⟨m, hm, hid⟩) | ⟨m, hm, hid⟩)
      · exact hin (Std.HashSet.contains_iff_mem.2 hid)
      · exact hn.id_ne_of_operand (Node.operand_binary.2 (Or.inl rfl)) hm hid
      · exact hn.id_ne_of_operand (Node.operand_binary.2 (Or.inr rfl)) hm hid
    rw [compilations_markCompiled, size_markCompiled hnew, ihr hclosed hn.2.2 (ihl h hn.2.1 honce)]
  | case3 n en hin hleaf =>
    rw [compilations_markCompiled, size_markCompiled (mt Std.HashSet.contains_iff_mem.2 hin), honce]

/-- **One call** keeps what is remembered. -/
theorem Remembers.compile (h : en.Remembers store) (hn : n.Stored store) :
    (en.compile n).Remembers store := by
  have hmem := mem_compile h.closed hn
  refine ⟨fun i hi => ?_, h.closed.grow hn hmem, once_compile h.closed hn h.once⟩
  rcases (hmem i).1 hi with hi | ⟨m, hm, rfl⟩
  · exact h.made i hi
  · exact ⟨m, hn.reaches hm, rfl⟩

/-- The nodes that a call of `compile` finds not compiled. -/
def pending (en : Engine) (n : Node) : Set Node := {m | n.Reaches m ∧ m.id ∉ en.compiled}

/-- `en.Counts n` — compiling `n` adds to the counter the number of distinct nodes that are met from `n`
    and were not compiled before. -/
def Counts (en : Engine) (n : Node) : Prop :=
  (en.compile n).compilations = en.compilations + (en.pending n).ncard

/-- The compiled numbers as a finite set, to count them. -/
theorem coe_compiled (en : Engine) : {i | i ∈ en.compiled} = (en.compiled.toList.toFinset : Set Nat) := by
  ext i
  simp

theorem finite_compiled (en : Engine) : {i | i ∈ en.compiled}.Finite := by
  rw [coe_compiled]
  exact Finset.finite_toSet _

/-- There are as many compiled numbers as the set says. -/
theorem ncard_compiled (en : Engine) : {i | i ∈ en.compiled}.ncard = en.compiled.size := by
  have hnodup : en.compiled.toList.Nodup :=
    Std.HashSet.distinct_toList.imp fun hne heq => by simp [heq] at hne
  rw [coe_compiled, Set.ncard_coe_finset, List.toFinset_card_of_nodup hnodup, Std.HashSet.length_toList]

/-- The compiled numbers after a call are those before it and those of the pending nodes. -/
theorem compiled_compile (h : en.Closed store) (hn : n.Stored store) :
    {i | i ∈ (en.compile n).compiled} = {i | i ∈ en.compiled} ∪ Set.image Node.id (en.pending n) := by
  ext i
  refine (mem_compile h hn i).trans ⟨?_, ?_⟩
  · rintro (hi | ⟨m, hm, rfl⟩)
    · exact Or.inl hi
    · by_cases hid : m.id ∈ en.compiled
      · exact Or.inl hid
      · exact Or.inr ⟨m, ⟨hm, hid⟩, rfl⟩
  · rintro (hi | ⟨m, ⟨hm, _⟩, rfl⟩)
    · exact Or.inl hi
    · exact Or.inr ⟨m, hm, rfl⟩

/-- **A call counts what it compiles.** -/
theorem counts_of_remembers (h : en.Remembers store) (hn : n.Stored store) : en.Counts n := by
  have hset := compiled_compile h.closed hn
  have hfinite : (Set.image Node.id (en.pending n)).Finite :=
    (finite_compiled (en.compile n)).subset (hset ▸ Set.subset_union_right)
  -- pending nodes are not compiled
  have hdisjoint : Disjoint {i | i ∈ en.compiled} (Set.image Node.id (en.pending n)) := by
    rw [Set.disjoint_right]
    rintro _ ⟨m, hm, rfl⟩
    exact hm.2
  -- pending nodes are told apart by their numbers
  have hinj : Set.InjOn Node.id (en.pending n) := fun m hm p hp hid =>
    (hn.reaches hm.1).eq_of_id (hn.reaches hp.1) hid
  calc (en.compile n).compilations
      = {i | i ∈ (en.compile n).compiled}.ncard := by rw [(h.compile hn).once, ncard_compiled]
    _ = {i | i ∈ en.compiled}.ncard + (Set.image Node.id (en.pending n)).ncard := by
        rw [hset, Set.ncard_union_eq hdisjoint (finite_compiled en) hfinite]
    _ = en.compilations + (en.pending n).ncard := by rw [ncard_compiled, h.once, hinj.ncard_image]

/-! ## Operations are calls

  An evaluation compiles what it enters, a specialization the literals that it folds, and both give out
  numbers in between.  The numbers do not matter to `compile` (`compile_renumbered`), so they can be
  taken as given out before. -/

/-- `ByCalls called en en'` — the engine came from `en` to `en'` by compiling nodes, one after the
    other, all of them `called`. -/
def ByCalls (called : Node → Prop) (en en' : Engine) : Prop :=
  ∃ calls : List Node, (∀ c ∈ calls, called c) ∧ en' = calls.foldl compile en

namespace ByCalls

variable {called called' : Node → Prop} {en' en'' : Engine}

theorem refl (called : Node → Prop) (en : Engine) : ByCalls called en en := ⟨[], by simp, rfl⟩

theorem call (h : called n) : ByCalls called en (en.compile n) := ⟨[n], by simpa using h, rfl⟩

theorem trans (h : ByCalls called en en') (h' : ByCalls called en' en'') : ByCalls called en en'' := by
  obtain ⟨cs, hcs, rfl⟩ := h
  obtain ⟨cs', hcs', rfl⟩ := h'
  exact ⟨cs ++ cs', List.forall_mem_append.2 ⟨hcs, hcs'⟩, (List.foldl_append ..).symm⟩

theorem mono (h : ByCalls called en en') (hsub : ∀ c, called c → called' c) : ByCalls called' en en' := by
  obtain ⟨cs, hcs, rfl⟩ := h
  exact ⟨cs, fun c hc => hsub c (hcs c hc), rfl⟩

end ByCalls

/-- The engine with another number to give next. -/
def renumbered (en : Engine) (next : Nat) : Engine := { en with fresh := next }

theorem markCompiled_renumbered (en : Engine) (next : Nat) (n : Node) :
    (en.renumbered next).markCompiled n = (en.markCompiled n).renumbered next := by
  unfold markCompiled note renumbered
  split <;> rfl

/-- Compiling does not look at the number that comes next. -/
theorem compile_renumbered (en : Engine) (next : Nat) (n : Node) :
    (en.renumbered next).compile n = (en.compile n).renumbered next := by
  -- what is looked up is the same for both
  have hkeep : ∀ (en : Engine) (i : Nat), (en.renumbered next).compiled.contains i =
      en.compiled.contains i :=
    fun _ _ => rfl
  fun_induction compile en n with
  | case1 n en hin => rw [compile.eq_def, hkeep, if_pos hin]
  | case2 en i op l r hin ihl ihr =>
    rw [compile.eq_def, hkeep, if_neg hin]
    simp only [ihl, ihr, markCompiled_renumbered]
  | case3 n en hin hleaf =>
    rw [compile.eq_def, hkeep, if_neg hin]
    split
    · exact (hleaf _ _ _ _ rfl).elim
    · exact markCompiled_renumbered en next n

/-- So calls can be made with any number to come next. -/
theorem ByCalls.renumbered {called : Node → Prop} {en' : Engine} (h : ByCalls called en en')
    (next : Nat) :
    ByCalls called (en.renumbered next) (en'.renumbered next) := by
  obtain ⟨cs, hcs, rfl⟩ := h
  refine ⟨cs, hcs, ?_⟩
  clear hcs
  induction cs generalizing en with
  | nil => rfl
  | cons c cs ih => rw [List.foldl_cons, List.foldl_cons, ih, compile_renumbered]

/-- Execution compiles the bindings that it enters. -/
theorem execute_calls (ns : Namespace Node) (depth : Nat) (atHand : List String) (code : Code)
    (st : Execution) :
    ByCalls (fun c => ∃ x, ns.find? x = some c) st.engine (execute ns depth atHand code st).2.engine := by
  fun_induction execute ns depth atHand code st with
  | case1 depth atHand st c args => exact .refl _ _
  | case2 depth atHand st x hx => exact .refl _ _
  | case3 depth atHand st x hx hb => exact .refl _ _
  | case4 atHand st x hx b hb => exact .refl _ _
  | case5 atHand st x hx b hb d opened c hc => exact .refl _ _
  | case6 atHand st x hx b hb d opened hc outcome ih => exact (ByCalls.call ⟨x, hb⟩).trans ih
  | case7 depth atHand st op l r left f hf ih => exact ih
  | case8 depth atHand st op l r left a ha right f hf ihl ihr => exact ihl.trans ihr
  | case9 depth atHand st op l r left a ha right b hb ihl ihr => exact ihl.trans ihr

/-- Evaluation compiles the node and the bindings that it enters. -/
theorem evaluate_calls (en : Engine) (ns : Namespace Node) (n : Node) :
    ByCalls (fun c => c = n ∨ ∃ x, ns.find? x = some c) en (en.evaluate ns n).2 := by
  unfold evaluate
  split
  · -- a collision is found before anything is compiled
    exact .refl _ _
  · exact (ByCalls.call (Or.inl rfl)).trans
      ((execute_calls ns ns.size n.constants n.code ⟨en.compile n, []⟩).mono
      fun c hc => Or.inr hc)

/-- `Works called store en store' en'` — the engine came from `en` to `en'` by making nodes, with which
    the store has grown to `store'`, and by compiling stored nodes that are `called`. -/
structure Works (called : Node → Prop) (store : Store) (en : Engine) (store' : Store) (en' : Engine) :
    Prop where
  grown : store.Extends store'
  ends : store'.EndsAt en'.fresh
  calls : ByCalls (fun c => called c ∧ c.Stored store') (en.renumbered en'.fresh) en'

namespace Works

variable {called : Node → Prop} {store'' : Store} {en' en'' : Engine}

theorem refl (called : Node → Prop) (h : store.EndsAt en.fresh) : Works called store en store en :=
  ⟨.refl store, h, .refl _ _⟩

theorem trans (h : Works called store en store' en') (h' : Works called store' en' store'' en'') :
    Works called store en store'' en'' := by
  refine ⟨h.grown.trans h'.grown, h'.ends, ?_⟩
  have hfirst :=
    (h.calls.renumbered en''.fresh).mono fun c hc => And.imp_right (Node.Stored.mono · h'.grown) hc
  exact hfirst.trans h'.calls

/-- Calls give out no number. -/
theorem ofCalls (h : store.EndsAt en.fresh) (hfresh : en'.fresh = en.fresh)
    (hcalls : ByCalls called en en') (hstored : ∀ c, called c → c.Stored store) :
    Works called store en store en' := by
  refine ⟨.refl store, hfresh ▸ h, ?_⟩
  rw [hfresh]
  exact hcalls.mono fun c hc => ⟨hc, hstored c hc⟩

theorem mono {called' : Node → Prop} (h : Works called store en store' en')
    (hsub : ∀ c, called c → called' c) :
    Works called' store en store' en' :=
  ⟨h.grown, h.ends, h.calls.mono fun c hc => ⟨hsub c hc.1, hc.2⟩⟩

/-- Making nodes compiles nothing. -/
theorem ofGrown {next : Nat} (hgrown : store.Extends store') (hends : store'.EndsAt next) :
    Works called store en store' (en.renumbered next) :=
  ⟨hgrown, hends, .refl _ _⟩

end Works

section Specialize

variable {ns : Namespace Node} {l r : Node}

/-- An evaluation makes no nodes. -/
theorem evaluate_works (h : store.EndsAt en.fresh) (hns : ns.Stored store) (hn : n.Stored store) :
    Works (fun c => c = n ∨ ∃ x, ns.find? x = some c) store en store (en.evaluate ns n).2 := by
  refine .ofCalls h (en.evaluate_eq ns n).2.fresh (en.evaluate_calls ns n) ?_
  rintro c (rfl | ⟨x, hx⟩)
  · exact hn
  · exact hns x c hx

/-- The nodes of an expression are made without compiling. -/
theorem place_works (e : Expr) (h : store.EndsAt en.fresh) :
    ∃ store', Works (fun c => c.isLiteral = true) store en store' (en.place e).2 ∧
      (en.place e).1.Stored store' := by
  obtain ⟨s, hs, hends, hstored⟩ := Node.exists_stored_place e h
  exact ⟨s, .ofGrown hs hends, hstored⟩

theorem join_works (op : Operator) (h : store.EndsAt en.fresh) (hl : l.Stored store)
    (hr : r.Stored store) :
    ∃ store', Works (fun c => c.isLiteral = true) store en store' (en.join op l r).2 ∧
      (en.join op l r).1.Stored store' := by
  have hput : store.Extends (store.put (.binary en.fresh op l r)) := Store.extends_put h
  exact ⟨_, .ofGrown hput (Store.endsAt_put h), Store.put_self _ _, hl.mono hput, hr.mono hput⟩

/-- `Delivers held store en o` — on the way to the outcome `o` the engine made nodes and compiled
    literals, and what came out is `held` by the store that has grown by the new nodes. -/
def Delivers {α : Type} (held : Store → α → Prop) (store : Store) (en : Engine)
    (o : Except Failure α × Engine) : Prop :=
  ∃ store', Works (fun c => c.isLiteral = true) store en store' o.2 ∧ ∀ a, o.1 = .ok a → held store' a

/-- What is delivered after some work is delivered with it. -/
theorem Delivers.after {α : Type} {held : Store → α → Prop} {en' : Engine} {o : Except Failure α × Engine}
    (h : Delivers held store' en' o) (hworks : Works (fun c => c.isLiteral = true) store en store' en') :
    Delivers held store en o := by
  obtain ⟨s, hs, hheld⟩ := h
  exact ⟨s, hworks.trans hs, hheld⟩

/-- A failure delivers nothing. -/
theorem Works.failed {α : Type} {held : Store → α → Prop} {en' : Engine}
    (h : Works (fun c => c.isLiteral = true) store en store' en') (f : Failure) :
    Delivers held store en (.error f, en') :=
  ⟨store', h, by rintro _ ⟨⟩⟩

/-- A literal is evaluated without a binding. -/
theorem evaluate_literal_works (h : store.EndsAt en.fresh) (hn : n.Stored store)
    (hlit : n.isLiteral = true) :
    Works (fun c => c.isLiteral = true) store en store (en.evaluate ∅ n).2 := by
  have hempty : (∅ : Namespace Node).Stored store := by rintro _ _ ⟨⟩
  refine (evaluate_works h hempty hn).mono ?_
  rintro c (rfl | ⟨x, ⟨⟩⟩)
  exact hlit

/-- Folding evaluates two literals, and makes one. -/
theorem fold_delivers (op : Operator) (h : store.EndsAt en.fresh) (hl : l.Stored store)
    (hr : r.Stored store) (hll : l.isLiteral = true) (hlr : r.isLiteral = true) :
    Delivers (fun store (m : Option Node) => ∀ n ∈ m, n.Stored store) store en (en.fold op l r) := by
  have hleft := evaluate_literal_works h hl hll
  have hboth := hleft.trans (evaluate_literal_works hleft.ends hr hlr)
  -- an operation that is not folded has made no node
  have hrefuse : ∀ {en' : Engine} (f : Failure), Works (fun c => c.isLiteral = true) store en store en' →
      Delivers (fun store (m : Option Node) => ∀ n ∈ m, n.Stored store) store en
        (if f.recoverable then .ok none else .error f, en') := by
    intro en' f hworks
    split
    · refine ⟨store, hworks, ?_⟩
      rintro _ ⟨⟩ n ⟨⟩
    · exact hworks.failed f
  rw [fold]
  simp only
  cases (en.evaluate ∅ l).1 with
  | error f => exact hrefuse f hleft
  | ok x =>
    simp only
    cases ((en.evaluate ∅ l).2.evaluate ∅ r).1 with
    | error f => exact hrefuse f hboth
    | ok y =>
      simp only
      cases Number.apply op x y with
      | error f => exact hrefuse f hboth
      | ok z =>
        -- folded: the literal is made after both evaluations
        obtain ⟨s, hs, hstored⟩ := place_works (.ofNumber z) hboth.ends
        refine ⟨s, hboth.trans hs, ?_⟩
        rintro _ ⟨⟩ n ⟨⟩
        exact hstored

/-- Putting two nodes together makes the operation, if it is new, and then tries to fold it. -/
theorem combine_delivers (op : Operator) (changed : Bool) (h : store.EndsAt en.fresh)
    (hn : n.Stored store) (hl : l.Stored store) (hr : r.Stored store) :
    Delivers Node.Stored store en (en.combine n op changed l r) := by
  -- the operation is made, or is the node that there was
  have hjoined : ∃ s, Works (fun c => c.isLiteral = true) store en s
      (if changed then en.join op l r else (n, en)).2 ∧
      (if changed then en.join op l r else (n, en)).1.Stored s := by
    split
    · exact join_works op h hl hr
    · exact ⟨store, .refl _ h, hn⟩
  obtain ⟨s, hs, hstored⟩ := hjoined
  rw [combine]
  simp only
  split
  · -- both operands are literals: what comes of folding decides
    rename_i hlit
    obtain ⟨hll, hlr⟩ := (Bool.and_eq_true _ _).mp hlit
    obtain ⟨s', hs', hheld⟩ := fold_delivers op hs.ends (hl.mono hs.grown) (hr.mono hs.grown) hll hlr
    split
    · rename_i e he
      refine ⟨s', hs.trans hs', ?_⟩
      rintro _ ⟨⟩
      exact hheld _ he e rfl
    · refine ⟨s', hs.trans hs', ?_⟩
      rintro _ ⟨⟩
      exact hstored.mono hs'.grown
    · exact (hs.trans hs').failed _
  · refine ⟨s, hs, ?_⟩
    rintro _ ⟨⟩
    exact hstored

theorem same_delivers (h : store.EndsAt en.fresh) (hn : n.Stored store) :
    Delivers Node.Stored store en (.ok n, en) :=
  ⟨store, .refl _ h, by rintro _ ⟨⟩; exact hn⟩

/-- **Specialization makes nodes and compiles literals**, and does nothing else to the memory. -/
theorem specialize_delivers (h : store.EndsAt en.fresh) (hns : ns.Stored store) (hn : n.Stored store) :
    Delivers Node.Stored store en (en.specialize ns n) := by
  fun_induction specialize en ns n generalizing store with
  | case1 en i k => exact same_delivers h hn
  | case2 en i k d => exact same_delivers h hn
  | case3 en i x hb => exact same_delivers h hn
  | case4 en i x b hb hc => exact same_delivers h hn
  | case5 en i x b hb hc ih => exact ih h hns (hns x b hb)
  | case6 en i op l r left f hf =>
    rename_i ihl
    obtain ⟨s, hs, _⟩ := ihl h hns hn.2.1
    exact hs.failed f
  | case7 en i op l r left l' hl' right f hf ihl =>
    rename_i ihr
    obtain ⟨s, hs, _⟩ := ihl h hns hn.2.1
    obtain ⟨s', hs', _⟩ := ihr hs.ends (hns.mono hs.grown) (hn.2.2.mono hs.grown)
    exact (hs.trans hs').failed f
  | case8 en i op l r left l' hl' right r' hr' ihl =>
    -- the store grows with the left operand, and again with the right one
    rename_i ihr
    obtain ⟨s, hs, hstored⟩ := ihl h hns hn.2.1
    obtain ⟨s', hs', hstored'⟩ := ihr hs.ends (hns.mono hs.grown) (hn.2.2.mono hs.grown)
    have hboth := hs.trans hs'
    exact (combine_delivers op _ hboth.ends (hn.mono hboth.grown) ((hstored l' hl').mono hs'.grown)
      (hstored' r' hr')).after hboth

end Specialize

/-! ## What is remembered after many calls

  Induction along the calls carries `Remembers` from one to the next, with the count that each of them
  makes. -/

/-- New nodes are not compiled, so they change nothing of what is remembered. -/
theorem Remembers.grow (h : en.Remembers store) (hext : store.Extends store') (next : Nat) :
    (en.renumbered next).Remembers store' := by
  refine ⟨fun i hi => ?_, fun n m hn hid hm => ?_, h.once⟩
  · obtain ⟨n, hn, hid⟩ := h.made i hi
    exact ⟨n, hn.mono hext, hid⟩
  · -- the compiled node of that number was stored before, so it is `n`
    obtain ⟨p, hp, hpid⟩ := h.made n.id hid
    obtain rfl : p = n := (hp.mono hext).eq_of_id hn hpid
    exact h.closed p m hp hid hm

/-- `Counted called en en'` — the engine came from `en` to `en'` by calls of `compile` on `called`
    nodes, and each call counted what it compiled. -/
inductive Counted (called : Node → Prop) : Engine → Engine → Prop
  | refl (en : Engine) : Counted called en en
  | call {en en' : Engine} {n : Node} (hn : called n) (hcounts : en.Counts n)
      (hrest : Counted called (en.compile n) en') : Counted called en en'

/-- Call by call, what is remembered is kept and the count is right. -/
theorem Remembers.calls {called : Node → Prop} {en' : Engine} (h : en.Remembers store)
    (hcalls : ByCalls (fun c => called c ∧ c.Stored store) en en') :
    en'.Remembers store ∧ Counted called en en' := by
  obtain ⟨calls, hall, rfl⟩ := hcalls
  induction calls generalizing en with
  | nil => exact ⟨h, .refl en⟩
  | cons c calls ih =>
    obtain ⟨⟨hc, hstored⟩, hrest⟩ := List.forall_mem_cons.1 hall
    obtain ⟨hafter, hcounted⟩ := ih (h.compile hstored) hrest
    exact ⟨hafter, .call hc (counts_of_remembers h hstored) hcounted⟩

/-- **Many calls.**  Whatever is done by making nodes and calling `compile` keeps what is remembered. -/
theorem Remembers.works {called : Node → Prop} {en' : Engine} (h : en.Remembers store)
    (hworks : Works called store en store' en') :
    en'.Remembers store' ∧ Counted called (en.renumbered en'.fresh) en' :=
  (h.grow hworks.grown en'.fresh).calls hworks.calls

end Engine

end Reckoner
