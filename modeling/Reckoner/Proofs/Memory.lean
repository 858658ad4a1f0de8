/-
  A machine that keeps codes.  The engine keeps the numbers of the nodes that it has compiled, and has
  the code of a node worked out whenever it runs.  A machine in use keeps the code under the number, and
  runs what it finds there: `Memory` is what it keeps, filled by `Memory.compile`, operands first, and
  `Machine` does everything that an engine does, with nothing but the kept codes.

  A memory whose codes are those of the nodes that have the numbers gives every node its own code
  (`compile_eq`), so evaluating with it comes to what the engine comes to, whatever else is kept
  (`evaluate_eq`).  Each operation of the machine goes as that of the engine does and keeps the two
  together (`Matches`): making nodes, putting them together, compiling, evaluating, folding and
  specializing.
-/
import Reckoner.Proofs.Compilation

namespace Reckoner

/-! ## A memory of codes

  `compile`, `execute` and `evaluate` go as those of the engine do, case by case, with two differences.
  Where the engine looks whether a number is marked as compiled, the memory looks for a code under it.
  And where the engine works out the code of a binding, the memory runs the one that it has. -/

/-- The codes that are kept, by the numbers of their nodes. -/
abbrev Memory := Nat → Option Code

namespace Memory

/-- Keep a code under a number. -/
def keep (mem : Memory) (i : Nat) (c : Code) : Memory := fun k => if k = i then some c else mem k

/-- The code of a node: the one that is kept, or one made from the codes of the operands, which is kept
    from now on. -/
def compile (mem : Memory) (n : Node) : Code × Memory :=
  match mem n.id with
  | some c => (c, mem)
  | none =>
    match n with
    | .binary i op l r =>
      let left := compile mem l
      let right := compile left.2 r
      let c := .operation op left.1 right.1
      (c, right.2.keep i c)
    | _ => (n.code, mem.keep n.id n.code)

/-- Execute code, with the names whose bindings are being evaluated; a binding is run through the code
    kept for it. -/
def execute (mem : Memory) (ns : Namespace Node) (depth : Nat) (active atHand : List String)
    (code : Code) : Except Failure Number × Memory :=
  match code with
  | .literal c args => (Code.build atHand c args, mem)
  | .lookup x =>
    if x ∈ active then (.error (.recursive x), mem)
    else match ns.find? x with
      | none => (.error (.unbound x), mem)
      | some b =>
        match depth with
        | 0 => (.error (.recursive x), mem)
        | d + 1 =>
          match ns.clash? b.expr with
          | some c => (.error (.fault (.collision c.key)), mem)
          | none =>
            let kept := mem.compile b
            execute kept.2 ns d (x :: active) b.constants kept.1
  | .operation op l r =>
    let left := execute mem ns depth active atHand l
    match left.1 with
    | .error f => (.error f, left.2)
    | .ok x =>
      let right := execute left.2 ns depth active atHand r
      match right.1 with
      | .error f => (.error f, right.2)
      | .ok y => (Number.apply op x y, right.2)
termination_by (depth, code)

/-- The number that a node stands for in a namespace, by the code kept for it. -/
def evaluate (mem : Memory) (ns : Namespace Node) (n : Node) : Except Failure Number × Memory :=
  match ns.clash? n.expr with
  | some c => (.error (.fault (.collision c.key)), mem)
  | none =>
    let kept := mem.compile n
    kept.2.execute ns ns.size [] n.constants kept.1

/-- `mem.Backs store en` — a memory that goes with an engine: it has codes under the compiled numbers
    and no others, and each is the code of the node with that number. -/
structure Backs (mem : Memory) (store : Store) (en : Engine) : Prop where
  kept : ∀ i, mem i ≠ none ↔ i ∈ en.compiled
  sound : ∀ n : Node, n.Stored store → ∀ c, mem n.id = some c → c = n.code

variable {mem : Memory} {store : Store} {en : Engine} {n : Node} {ns : Namespace Node}

/-- The engine takes a node for compiled exactly if a code is kept under its number. -/
theorem Backs.contains_iff (h : mem.Backs store en) (i : Nat) :
    en.compiled.contains i = true ↔ mem i ≠ none :=
  Std.HashSet.contains_iff_mem.trans (h.kept i).symm

/-- Keeping the code of a stored node goes with marking the node as compiled. -/
theorem Backs.keep (h : mem.Backs store en) (hn : n.Stored store) :
    (mem.keep n.id n.code).Backs store (en.markCompiled n) := by
  refine ⟨fun i => ?_, fun m hm c hc => ?_⟩
  · rw [Engine.mem_markCompiled, ← h.kept i, Memory.keep]
    split <;> simp_all
  · rw [Memory.keep] at hc
    split at hc
    · -- a stored node with the same number is the same node, so it has the same code
      rename_i hid
      rw [hm.eq_of_id hn hid, ← Option.some.inj hc]
    · exact h.sound m hm c hc

/-- **A kept code is the node's own**, and the memory fills as the engine compiles. -/
theorem compile_eq (h : mem.Backs store en) (hn : n.Stored store) :
    (mem.compile n).1 = n.code ∧ (mem.compile n).2.Backs store (en.compile n) := by
  fun_induction compile mem n generalizing en with
  | case1 n mem c hc =>
    -- a code is kept: it is the node's by soundness, and neither side does anything
    rw [Engine.compile.eq_def, if_pos ((h.contains_iff n.id).2 (by simp [hc]))]
    exact ⟨h.sound n hn c hc, h⟩
  | case2 mem i op l r left right c hnone ihl =>
    -- operands first, the right one with the memory that the left one leaves; their codes are their
    -- own, so the code that is put together of them is the code of the operation
    rename_i ihr
    obtain ⟨hl, hleft⟩ := ihl h hn.2.1
    obtain ⟨hr, hright⟩ := ihr hleft hn.2.2
    have hcode : c = (Node.binary i op l r).code := by rw [Node.code, ← hl, ← hr]
    rw [Engine.compile.eq_def, if_neg (mt (h.contains_iff _).1 (by simp [hnone])), hcode]
    exact ⟨rfl, hright.keep hn⟩
  | case3 n mem hnone hleaf =>
    rw [Engine.compile.eq_def, if_neg (mt (h.contains_iff n.id).1 (by simp [hnone]))]
    refine ⟨rfl, ?_⟩
    split
    · exact (hleaf _ _ _ _ rfl).elim
    · exact h.keep hn

/-- A run with a memory goes as a run of the engine: to the same outcome, with the memory filled as far,
    and with the names `active` that it began with. -/
structure Agrees (store : Store) (active : List String) (o : Except Failure Number × Memory)
    (run : Except Failure Number × Execution) : Prop where
  outcome : o.1 = run.1
  active : run.2.active = active
  backs : o.2.Backs store run.2.engine

/-- **A run with a memory goes as a run of the engine does.** The induction follows the run of the
    engine.  `active` is part of what is carried through, for the memory is handed the names and the
    engine keeps them in its state: that they are restored behind every binding is what makes the two
    meet again at a right operand. -/
theorem execute_agrees (hns : ns.Stored store) (depth : Nat) (atHand : List String) (code : Code)
    (st : Execution) :
    ∀ mem : Memory, mem.Backs store st.engine →
      Agrees store st.active (mem.execute ns depth st.active atHand code)
        (Engine.execute ns depth atHand code st) := by
  fun_induction Engine.execute ns depth atHand code st with
  | case1 depth atHand st c args =>
    intro mem h
    rw [execute]
    exact ⟨rfl, rfl, h⟩
  | case2 depth atHand st x hx =>
    intro mem h
    rw [execute, if_pos hx]
    exact ⟨rfl, rfl, h⟩
  | case3 depth atHand st x hx hb =>
    intro mem h
    rw [execute, if_neg hx, hb]
    exact ⟨rfl, rfl, h⟩
  | case4 atHand st x hx b hb =>
    intro mem h
    rw [execute, if_neg hx, hb]
    exact ⟨rfl, rfl, h⟩
  | case5 atHand st x hx b hb d opened c hc =>
    intro mem h
    rw [execute, if_neg hx, hb]
    simp only [hc]
    -- a constant is in the way: the name has been entered and is left again
    exact ⟨rfl, Execution.active_leave hx rfl, h⟩
  | case6 atHand st x hx b hb d opened hc outcome ih =>
    intro mem h
    -- the code kept for the binding is the one that the engine runs
    obtain ⟨hcode, hbacks⟩ := compile_eq h (hns x b hb)
    have hrun := ih _ hbacks
    rw [execute, if_neg hx, hb]
    simp only [hc, hcode]
    exact ⟨hrun.outcome, Execution.active_leave hx hrun.active, hrun.backs⟩
  | case7 depth atHand st op l r left f hf ih =>
    intro mem h
    have hl := ih mem h
    rw [execute]
    simp only [hl.outcome.trans hf]
    exact ⟨rfl, hl.active, hl.backs⟩
  | case8 depth atHand st op l r left a ha right f hf ihl ihr =>
    intro mem h
    -- the right operand runs with what the left one has left in the memory
    have hl := ihl mem h
    have hr := ihr _ hl.backs
    rw [hl.active] at hr
    rw [execute]
    simp only [hl.outcome.trans ha, hr.outcome.trans hf]
    exact ⟨rfl, hr.active, hr.backs⟩
  | case9 depth atHand st op l r left a ha right b hb ihl ihr =>
    intro mem h
    have hl := ihl mem h
    have hr := ihr _ hl.backs
    rw [hl.active] at hr
    rw [execute]
    simp only [hl.outcome.trans ha, hr.outcome.trans hb]
    exact ⟨rfl, hr.active, hr.backs⟩

/-- **What is kept does not show** in what evaluation comes to. -/
theorem evaluate_eq (h : mem.Backs store en) (hns : ns.Stored store) (hn : n.Stored store) :
    (mem.evaluate ns n).1 = (en.evaluate ns n).1 ∧
      (mem.evaluate ns n).2.Backs store (en.evaluate ns n).2 := by
  rw [evaluate, Engine.evaluate]
  cases ns.clash? n.expr with
  | some c => exact ⟨rfl, h⟩
  | none =>
    obtain ⟨hcode, hbacks⟩ := compile_eq h hn
    have hrun := execute_agrees hns ns.size n.constants n.code ⟨en.compile n, []⟩ _ hbacks
    simp only [hcode]
    exact ⟨hrun.outcome, hrun.backs⟩

end Memory

/-! ## The machine

  The operations of `Engine` that make, compile, evaluate and specialize nodes, word for word, over kept
  codes in place of compiled numbers.  Nothing of the engine is asked: it stands only in what is proved
  about the machine. -/

/-- A machine that keeps codes. -/
structure Machine where
  /-- The first number that no node has. -/
  fresh : Nat := 0
  codes : Memory := fun _ => none

namespace Machine

/-- Make nodes for an expression. -/
def place (m : Machine) (e : Expr) : Node × Machine :=
  let placed := Node.place m.fresh e
  (placed.1, { m with fresh := placed.2 })

/-- Make a node for an operation on two nodes. -/
def join (m : Machine) (op : Operator) (l r : Node) : Node × Machine :=
  (.binary m.fresh op l r, { m with fresh := m.fresh + 1 })

/-- The code of a node, which is kept from now on. -/
def compile (m : Machine) (n : Node) : Code × Machine :=
  let kept := m.codes.compile n
  (kept.1, { m with codes := kept.2 })

/-- The number that a node stands for in a namespace, by the codes that are kept. -/
def evaluate (m : Machine) (ns : Namespace Node) (n : Node) : Except Failure Number × Machine :=
  let outcome := m.codes.evaluate ns n
  (outcome.1, { m with codes := outcome.2 })

/-- The literal of `op` applied to two known operands, by the codes that are kept. -/
def fold (m : Machine) (op : Operator) (l r : Node) : Except Failure (Option Node) × Machine :=
  let refuse (f : Failure) : Except Failure (Option Node) := if f.recoverable then .ok none else .error f
  let left := m.evaluate ∅ l
  match left.1 with
  | .error f => (refuse f, left.2)
  | .ok x =>
    let right := left.2.evaluate ∅ r
    match right.1 with
    | .error f => (refuse f, right.2)
    | .ok y =>
      match Number.apply op x y with
      | .error f => (refuse f, right.2)
      | .ok z =>
        let placed := right.2.place (.ofNumber z)
        (.ok (some placed.1), placed.2)

/-- Combine two specialized operands of the operation `n`. -/
def combine (m : Machine) (n : Node) (op : Operator) (changed : Bool) (l r : Node) :
    Except Failure Node × Machine :=
  let joined := if changed then m.join op l r else (n, m)
  if l.isLiteral && r.isLiteral then
    let folded := joined.2.fold op l r
    match folded.1 with
    | .ok (some e) => (.ok e, folded.2)
    | .ok none => (.ok joined.1, folded.2)
    | .error f => (.error f, folded.2)
  else (.ok joined.1, joined.2)

/-- The node that is left of `n` when all that `ns` says has been worked in, by the codes that are
    kept. -/
def specialize (m : Machine) (ns : Namespace Node) (n : Node) : Except Failure Node × Machine :=
  match n with
  | .integer i k => (.ok (.integer i k), m)
  | .rational i k d => (.ok (.rational i k d), m)
  | .reference i x =>
    match _hb : ns.find? x with
    | none => (.ok (.reference i x), m)
    | some b => if ns.onCycle x then (.ok (.reference i x), m) else specialize m ns b
  | .binary i op l r =>
    let left := specialize m ns l
    match left.1 with
    | .error f => (.error f, left.2)
    | .ok l' =>
      let right := specialize left.2 ns r
      match right.1 with
      | .error f => (.error f, right.2)
      | .ok r' => right.2.combine (.binary i op l r) op (l'.id ≠ l.id || r'.id ≠ r.id) l' r'
termination_by (ns.rank n.free, sizeOf n)
decreasing_by
  · rename_i hc
    exact Prod.Lex.left _ _ (Namespace.rank_reads_lt _hb (by simpa using hc))
  · refine Prod.Lex.right' _ ?_ ?_
    · exact Namespace.rank_mono fun x hx => List.mem_append_left _ hx
    · simp only [Node.binary.sizeOf_spec]; omega
  · refine Prod.Lex.right' _ ?_ ?_
    · exact Namespace.rank_mono fun x hx => List.mem_append_right _ hx
    · simp only [Node.binary.sizeOf_spec]; omega

/-- `m.Matches store en` — the machine goes with the engine: they give out the same number next, which
    no stored node has, the engine remembers its nodes, and the kept codes are those of the compiled
    nodes. -/
structure Matches (m : Machine) (store : Store) (en : Engine) : Prop where
  fresh : m.fresh = en.fresh
  ends : store.EndsAt en.fresh
  remembers : en.Remembers store
  backs : m.codes.Backs store en

/-- A new machine goes with a new engine. -/
theorem matches_new (cs : List Channel) : ({} : Machine).Matches (fun _ => none) { channels := cs } := by
  refine ⟨rfl, Store.endsAt_empty _, ⟨?_, ?_, rfl⟩, ?_, ?_⟩
  · -- nothing is compiled, so there is nothing to remember and nothing kept
    intro i hi
    exact absurd hi Std.HashSet.not_mem_empty
  · intro n m _ hid _
    exact absurd hid Std.HashSet.not_mem_empty
  · intro i
    exact iff_of_false (fun h => h rfl) Std.HashSet.not_mem_empty
  · rintro n _ c ⟨⟩

namespace Matches

variable {m : Machine} {store store' : Store} {en : Engine} {n l r : Node} {ns : Namespace Node}

/-- Nodes are made. -/
theorem grow (h : m.Matches store en) (hext : store.Extends store') {next : Nat}
    (hends : store'.EndsAt next) :
    Matches { m with fresh := next } store' (en.renumbered next) := by
  refine ⟨rfl, hends, h.remembers.grow hext next, h.backs.kept, fun n hn c hc => ?_⟩
  -- a number under which a code is kept is that of a node that was stored before
  have hid : n.id ∈ en.compiled := (h.backs.kept n.id).1 (hc ▸ Option.some_ne_none c)
  obtain ⟨p, hp, hpid⟩ := h.remembers.made n.id hid
  obtain rfl : p = n := (hp.mono hext).eq_of_id hn hpid
  exact h.backs.sound p hp c hc

/-- **Making nodes** gives the same nodes. -/
theorem place (h : m.Matches store en) (e : Expr) :
    ∃ store', store.Extends store' ∧ (m.place e).1 = (en.place e).1 ∧ (en.place e).1.Stored store' ∧
      (m.place e).2.Matches store' (en.place e).2 := by
  obtain ⟨s, hs, hends, hstored⟩ := Node.exists_stored_place e h.ends
  have hnode : Node.place m.fresh e = Node.place en.fresh e := by rw [h.fresh]
  refine ⟨s, hs, congrArg Prod.fst hnode, hstored, ?_⟩
  show Matches { m with fresh := (Node.place m.fresh e).2 } s _
  rw [hnode]
  exact h.grow hs hends

/-- **Putting nodes together** gives the same node. -/
theorem join (h : m.Matches store en) (op : Operator) (hl : l.Stored store) (hr : r.Stored store) :
    ∃ store', store.Extends store' ∧ (m.join op l r).1 = (en.join op l r).1 ∧
      (en.join op l r).1.Stored store' ∧
      (m.join op l r).2.Matches store' (en.join op l r).2 := by
  have hput : store.Extends (store.put (.binary en.fresh op l r)) := Store.extends_put h.ends
  refine ⟨_, hput, ?_, ⟨Store.put_self _ _, hl.mono hput, hr.mono hput⟩, ?_⟩
  · show Node.binary m.fresh op l r = _
    rw [h.fresh]
    rfl
  · show Matches { m with fresh := m.fresh + 1 } _ _
    rw [h.fresh]
    exact h.grow hput (Store.endsAt_put h.ends)

/-- **Compiling** gives a node its own code. -/
theorem compile (h : m.Matches store en) (hn : n.Stored store) :
    (m.compile n).1 = n.code ∧ (m.compile n).2.Matches store (en.compile n) := by
  obtain ⟨hcode, hbacks⟩ := Memory.compile_eq h.backs hn
  have hfresh := (en.leaves_compile n).fresh
  exact ⟨hcode, h.fresh.trans hfresh.symm, hfresh ▸ h.ends, h.remembers.compile hn, hbacks⟩

/-- **Evaluating** comes to the same. -/
theorem evaluate (h : m.Matches store en) (hns : ns.Stored store) (hn : n.Stored store) :
    (m.evaluate ns n).1 = (en.evaluate ns n).1 ∧
      (m.evaluate ns n).2.Matches store (en.evaluate ns n).2 := by
  obtain ⟨hout, hbacks⟩ := Memory.evaluate_eq h.backs hns hn
  have hworks := Engine.evaluate_works h.ends hns hn
  have hfresh := (en.evaluate_eq ns n).2.fresh
  exact ⟨hout, h.fresh.trans hfresh.symm, hworks.ends, (h.remembers.works hworks).1, hbacks⟩

end Matches

/-- `Alike held store o o'` — the machine came to the outcome that the engine came to and goes with it,
    with a store that has grown by the new nodes and `held` what came out. -/
def Alike {α : Type} (held : Store → α → Prop) (store : Store) (o : Except Failure α × Engine)
    (o' : Except Failure α × Machine) : Prop :=
  ∃ store', store.Extends store' ∧ o'.1 = o.1 ∧ o'.2.Matches store' o.2 ∧ ∀ a, o.1 = .ok a → held store' a

section Alike

variable {m m' : Machine} {store store' : Store} {en en' : Engine} {n l r : Node} {ns : Namespace Node}

/-- What has grown from a grown store has grown from the store. -/
theorem Alike.after {α : Type} {held : Store → α → Prop} {o : Except Failure α × Engine}
    {o' : Except Failure α × Machine} (h : Alike held store' o o') (hext : store.Extends store') :
    Alike held store o o' := by
  obtain ⟨s, hs, hrest⟩ := h
  exact ⟨s, hext.trans hs, hrest⟩

/-- A failure of both. -/
theorem Matches.failed {α : Type} {held : Store → α → Prop} (h : m.Matches store en) (f : Failure) :
    Alike held store (.error f, en) (.error f, m) :=
  ⟨store, .refl store, rfl, h, by rintro _ ⟨⟩⟩

/-- The same result of both. -/
theorem Matches.same {α : Type} {held : Store → α → Prop} (h : m.Matches store en) {a : α}
    (ha : held store a) :
    Alike held store (.ok a, en) (.ok a, m) :=
  ⟨store, .refl store, rfl, h, by rintro _ ⟨⟩; exact ha⟩

/-- Both refuse to fold. -/
theorem Matches.refuse (h : m.Matches store en) (f : Failure) :
    Alike (fun store (n : Option Node) => ∀ a ∈ n, a.Stored store) store
      (if f.recoverable then .ok none else .error f, en)
      (if f.recoverable then .ok none else .error f, m) := by
  split
  · exact h.same (by rintro _ ⟨⟩)
  · exact h.failed f

/-- **Folding** makes the same literal, or none. -/
theorem Matches.fold (h : m.Matches store en) (op : Operator) (hl : l.Stored store)
    (hr : r.Stored store) :
    Alike (fun store (n : Option Node) => ∀ a ∈ n, a.Stored store) store (en.fold op l r)
      (m.fold op l r) := by
  -- literals are evaluated in the empty namespace, one after the other
  have hempty : (∅ : Namespace Node).Stored store := by rintro _ _ ⟨⟩
  obtain ⟨hleft, hmatch⟩ := h.evaluate hempty hl
  obtain ⟨hright, hmatch'⟩ := hmatch.evaluate hempty hr
  rw [Machine.fold, Engine.fold]
  simp only [hleft]
  cases (en.evaluate ∅ l).1 with
  | error f => exact hmatch.refuse f
  | ok x =>
    simp only [hright]
    cases ((en.evaluate ∅ l).2.evaluate ∅ r).1 with
    | error f => exact hmatch'.refuse f
    | ok y =>
      simp only
      cases Number.apply op x y with
      | error f => exact hmatch'.refuse f
      | ok z =>
        -- both make the same literal, with the next number
        obtain ⟨s, hs, hnode, hstored, hplaced⟩ := hmatch'.place (.ofNumber z)
        refine ⟨s, hs, congrArg (fun n => Except.ok (some n)) hnode, hplaced, ?_⟩
        rintro _ ⟨⟩ a ⟨⟩
        exact hstored

/-- **Combining** two operands gives the same node. -/
theorem Matches.combine (h : m.Matches store en) (op : Operator) (changed : Bool) (hn : n.Stored store)
    (hl : l.Stored store) (hr : r.Stored store) :
    Alike Node.Stored store (en.combine n op changed l r) (m.combine n op changed l r) := by
  -- the operation that stands if nothing is folded: a new one, or the one that was there
  have hjoined : ∃ s, store.Extends s ∧
      (if changed then m.join op l r else (n, m)).1 = (if changed then en.join op l r else (n, en)).1 ∧
      (if changed then en.join op l r else (n, en)).1.Stored s ∧
      (if changed then m.join op l r else (n, m)).2.Matches s
        (if changed then en.join op l r else (n, en)).2 := by
    cases changed with
    | true => exact h.join op hl hr
    | false => exact ⟨store, .refl store, rfl, hn, h⟩
  obtain ⟨s, hs, hnode, hstored, hmatch⟩ := hjoined
  rw [Machine.combine, Engine.combine]
  simp only [hnode]
  split
  · obtain ⟨s', hs', hout, hfolded, hheld⟩ := hmatch.fold op (hl.mono hs) (hr.mono hs)
    rw [hout]
    cases hfold : ((if changed then en.join op l r else (n, en)).2.fold op l r).1 with
    | error f => exact Alike.after (hfolded.failed f) (hs.trans hs')
    | ok folded =>
      cases folded with
      | none => exact Alike.after (hfolded.same (hstored.mono hs')) (hs.trans hs')
      | some e => exact Alike.after (hfolded.same (hheld _ hfold e rfl)) (hs.trans hs')
  · exact Alike.after (hmatch.same hstored) hs

/-- A name that is not bound stays. -/
theorem specialize_unbound {x : String} (hb : ns.find? x = none) (m : Machine) (i : Nat) :
    m.specialize ns (.reference i x) = (.ok (.reference i x), m) := by
  rw [specialize]
  split
  · rfl
  · rename_i b hb'
    cases hb.symm.trans hb'

/-- A name on a cycle stays, any other is replaced by what is left of its binding. -/
theorem specialize_bound {x : String} {b : Node} (hb : ns.find? x = some b) (m : Machine) (i : Nat) :
    m.specialize ns (.reference i x) = if ns.onCycle x then (.ok (.reference i x), m)
      else m.specialize ns b := by
  rw [specialize]
  split
  · rename_i hb'
    cases hb.symm.trans hb'
  · rename_i b' hb'
    obtain rfl := Option.some.inj (hb.symm.trans hb')
    rfl

/-- **Specializing** leaves the same node. -/
theorem specialize_alike (en : Engine) (ns : Namespace Node) (n : Node) : ∀ (m : Machine) (store : Store),
    m.Matches store en → ns.Stored store → n.Stored store →
      Alike Node.Stored store (en.specialize ns n) (m.specialize ns n) := by
  fun_induction Engine.specialize en ns n with
  | case1 en i k =>
    intro m store h _ hn
    rw [specialize]
    exact h.same hn
  | case2 en i k d =>
    intro m store h _ hn
    rw [specialize]
    exact h.same hn
  | case3 en i x hb =>
    intro m store h _ hn
    rw [specialize_unbound hb]
    exact h.same hn
  | case4 en i x b hb hc =>
    intro m store h _ hn
    rw [specialize_bound hb, if_pos hc]
    exact h.same hn
  | case5 en i x b hb hc ih =>
    intro m store h hns _
    -- the binding is stored, so the induction goes on with it
    rw [specialize_bound hb, if_neg hc]
    exact ih m store h hns (hns x b hb)
  | case6 en i op l r left f hf ihl =>
    intro m store h hns hn
    obtain ⟨s, hs, hleft, hmatch, _⟩ := ihl m store h hns hn.2.1
    rw [specialize]
    simp only [hleft.trans hf]
    exact Alike.after (hmatch.failed f) hs
  | case7 en i op l r left l' hl' right f hf ihl ihr =>
    intro m store h hns hn
    obtain ⟨s, hs, hleft, hmatch, _⟩ := ihl m store h hns hn.2.1
    obtain ⟨s', hs', hright, hmatch', _⟩ := ihr _ s hmatch (hns.mono hs) (hn.2.2.mono hs)
    rw [specialize]
    simp only [hleft.trans hl', hright.trans hf]
    exact Alike.after (hmatch'.failed f) (hs.trans hs')
  | case8 en i op l r left l' hl' right r' hr' ihl ihr =>
    intro m store h hns hn
    obtain ⟨s, hs, hleft, hmatch, hstored⟩ := ihl m store h hns hn.2.1
    obtain ⟨s', hs', hright, hmatch', hstored'⟩ := ihr _ s hmatch (hns.mono hs) (hn.2.2.mono hs)
    -- the store has grown twice, and all that was stored before is still there
    have hgrown := hs.trans hs'
    rw [specialize]
    simp only [hleft.trans hl', hright.trans hr']
    exact Alike.after (hmatch'.combine op _ (hn.mono hgrown) ((hstored l' hl').mono hs')
      (hstored' r' hr')) hgrown

end Alike

end Machine

end Reckoner
