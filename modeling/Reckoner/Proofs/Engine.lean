/-
  The engine computes what the plain functions say.  `Node.expr` forgets the numbers of a node,
  `Namespace.exprs` those of a whole namespace, and the engine's evaluation and specialization become
  the plain ones.

  Two things stand between them.  The engine's executions share one set of active names; every execution
  leaves it as it found it, so each look-up sees just the names around it (`execute_code`).  And the
  engine takes a node for unchanged if its number is: that is right as long as nodes of one number are
  one node.  A `Store` says which node has which number, grows with every new node, and carries this
  along (`specialize_yields`).
-/
import Reckoner.Engine.Specialization
import Reckoner.Proofs.Specialization

namespace Reckoner

/-! ## Namespaces without numbers

  Whatever a namespace is asked for, the numbers of its nodes do not matter: names are found in the same
  places, and a binding mentions what its expression does. -/

namespace Namespace

variable {α β : Type}

/-- Looking up and changing all bindings can be done in either order. -/
theorem lookupIn_map (f : α → β) (x : String) : ∀ es : List (String × α),
    lookupIn x (es.map fun p => (p.1, f p.2)) = (lookupIn x es).map f
  | [] => rfl
  | (y, b) :: r => by
    simp only [List.map_cons, lookupIn]
    split
    · rfl
    · exact lookupIn_map f x r

/-- What is found in a namespace whose bindings have been changed is what was found, changed. -/
theorem find?_map (f : α → β) (ns : Namespace α) (x : String) : (ns.map f).find? x = (ns.find? x).map f :=
  lookupIn_map f x ns.entries

/-- So can binding and changing all bindings. -/
theorem insertIn_map (f : α → β) (x : String) (a : α) : ∀ es : List (String × α),
    insertIn x (f a) (es.map fun p => (p.1, f p.2)) = (insertIn x a es).map fun p => (p.1, f p.2)
  | [] => rfl
  | (y, b) :: r => by
    simp only [List.map_cons, insertIn]
    split
    · rfl
    · split
      · rfl
      · rw [List.map_cons, insertIn_map f x a r]

theorem map_bind (f : α → β) (ns : Namespace α) (x : String) (a : α) :
    (ns.bind x a).map f = (ns.map f).bind x (f a) := by
  simp only [bind, map, insertIn_map]

/-- The expressions that the nodes of a namespace stand for. -/
def exprs (ns : Namespace Node) : Namespace Expr := ns.map Node.expr

variable {ns : Namespace Node}

theorem find?_exprs (ns : Namespace Node) (x : String) : ns.exprs.find? x = (ns.find? x).map Node.expr :=
  find?_map Node.expr ns x

/-- Binding a node binds the expression that it stands for. -/
theorem exprs_bind (ns : Namespace Node) (x : String) (n : Node) :
    (ns.bind x n).exprs = ns.exprs.bind x n.expr :=
  map_bind Node.expr ns x n

theorem exprs_empty : (∅ : Namespace Node).exprs = ∅ := rfl

/-- A binding mentions the names that its expression mentions. -/
theorem reads_exprs (ns : Namespace Node) (x : String) : ns.exprs.reads x = ns.reads x := by
  simp only [reads, find?_exprs]
  cases ns.find? x with
  | none => rfl
  | some n => rfl

/-- From the same names the same are met, among nodes and among expressions. -/
theorem reachFrom_exprs (ns : Namespace Node) (seen work : List String) :
    ns.exprs.reachFrom seen work = ns.reachFrom seen work := by
  fun_induction reachFrom ns seen work with
  | case1 seen => rw [reachFrom]
  | case2 seen x rest hs ih => rw [reachFrom, if_pos hs, ih]
  | case3 seen x rest hs ih => rw [reachFrom, if_neg hs, reads_exprs, ih]

/-- The cycles of a namespace are those of its expressions. -/
theorem onCycle_exprs (ns : Namespace Node) (x : String) : ns.exprs.onCycle x = ns.onCycle x := by
  rw [Bool.eq_iff_iff, onCycle_iff, onCycle_iff, reach, reach, reads_exprs, reachFrom_exprs]

/-- Only names matter for a collision. -/
theorem clash?_exprs (ns : Namespace Node) (e : Expr) : ns.exprs.clash? e = ns.clash? e := by
  have hcontains : ∀ x, ns.exprs.contains x = ns.contains x := fun x => by
    rw [contains, contains, find?_exprs, Option.isSome_map]
  simp only [clash?, hcontains]

/-- There are no more names to enter than there are names. -/
theorem unseen_le_size (ns : Namespace α) (seen : List String) : ns.unseen seen ≤ ns.size := by
  have h := List.countP_le_length (p := fun x => decide (x ∉ seen)) (l := ns.names)
  rwa [names, List.length_map] at h

end Namespace

/-! ## Executing

  Code is executed with the engine at hand, which may compile and take notes meanwhile.  `Leaves` says
  what is as before in spite of that; it is all that the comparison with the plain evaluation needs. -/

/-- What the engine has neither made nor been told anew: it may have compiled nodes and taken notes. -/
structure Engine.Leaves (en en' : Engine) : Prop where
  fresh : en'.fresh = en.fresh
  channels : en'.channels = en.channels

namespace Engine

variable {en : Engine} {ns : Namespace Node} {n : Node}

theorem Leaves.refl (en : Engine) : en.Leaves en := ⟨rfl, rfl⟩

theorem Leaves.trans {en' en'' : Engine} (h : en.Leaves en') (h' : en'.Leaves en'') : en.Leaves en'' :=
  ⟨h'.fresh.trans h.fresh, h'.channels.trans h.channels⟩

/-- Nothing but the notes changes when one is taken, and compiling takes notes. -/
theorem leaves_note (en : Engine) (c : Channel) (text : Unit → String) : en.Leaves (en.note c text) := by
  unfold note
  split <;> exact ⟨rfl, rfl⟩

/-- Marking a node as compiled gives out no number and changes no channel. -/
theorem leaves_markCompiled (en : Engine) (n : Node) : en.Leaves (en.markCompiled n) := by
  have hnote :=
    leaves_note { en with compiled := en.compiled.insert n.id, compilations := en.compilations + 1 }
      .codeGeneration fun _ => n.expr.text ++ " => " ++ n.code.text
  exact ⟨hnote.fresh, hnote.channels⟩

/-- Neither does compiling, however many nodes are marked on the way. -/
theorem leaves_compile (en : Engine) (n : Node) : en.Leaves (en.compile n) := by
  fun_induction compile en n with
  | case1 n en hn => exact .refl en
  | case2 en i op l r hn ihl ihr => exact (ihl.trans ihr).trans (leaves_markCompiled _ _)
  | case3 n en hn _ => exact leaves_markCompiled en n

end Engine

/-- An execution leaves the active names as they were. -/
structure Execution.Leaves (st st' : Execution) : Prop where
  active : st'.active = st.active
  engine : st.engine.Leaves st'.engine

theorem Execution.Leaves.refl (st : Execution) : st.Leaves st := ⟨rfl, .refl st.engine⟩

theorem Execution.Leaves.trans {st st' st'' : Execution} (h : st.Leaves st') (h' : st'.Leaves st'') :
    st.Leaves st'' :=
  ⟨h'.active.trans h.active, h.engine.trans h'.engine⟩

/-- The constants of a node are the keys of the constructors that its literals use. -/
theorem Node.mem_constants {n : Node} {c : Constructor} (h : n.expr.uses c = true) :
    c.key ∈ n.constants := by
  refine List.mem_map_of_mem (List.mem_filter.2 ⟨?_, h⟩)
  cases c <;> simp

/-- A constructor whose key is at hand is the one that is called. -/
theorem Code.build_key {atHand : List String} {c : Constructor} (h : c.key ∈ atHand) (args : List Int) :
    Code.build atHand c.key args = c.apply args := by
  rw [Code.build, if_pos h]
  cases c <;> rfl

/-- Entering a binding, whatever its constants: one that is bound as a name is a fault. -/
theorem evaluateIn_entering {ns : Namespace Expr} {active : List String} {x : String} {b : Expr}
    (hx : x ∉ active) (hb : ns.find? x = some b) :
    evaluateIn ns active (.reference x) =
      (ns.clash? b).elim (evaluateIn ns (x :: active) b) fun c => .error (.fault (.collision c.key)) := by
  rw [evaluateIn, if_neg hx]
  split
  · rename_i hb'
    rw [hb] at hb'
    cases hb'
  · rename_i b' hb'
    rw [hb] at hb'
    cases hb'
    cases ns.clash? b with
    | none => rfl
    | some c => rfl

namespace Engine

variable {en : Engine} {ns : Namespace Node} {n : Node}

/-- **Execution is evaluation.**  With its constants at hand and room for all names that are not active,
    the code of a node has the outcome of the expression, and leaves the active names as they were,
    whatever came out. -/
theorem execute_code (ns : Namespace Node) (depth : Nat) :
    ∀ (n : Node) (st : Execution) {atHand : List String},
    (∀ c : Constructor, n.expr.uses c = true → c.key ∈ atHand) → ns.unseen st.active ≤ depth →
      (execute ns depth atHand n.code st).1 = evaluateIn ns.exprs st.active n.expr ∧
        st.Leaves (execute ns depth atHand n.code st).2 := by
  -- the depth goes down where a binding is entered, and the node gets smaller everywhere else
  induction depth using Nat.strongRecOn with
  | _ depth deeper =>
    intro n
    induction n with
    | integer i k =>
      intro st atHand hhand _
      rw [Node.code, execute, Node.expr, evaluateIn, Code.build_key (hhand .int rfl)]
      exact ⟨rfl, .refl st⟩
    | rational i k d =>
      intro st atHand hhand _
      rw [Node.code, execute, Node.expr, evaluateIn, Code.build_key (hhand .fraction rfl)]
      exact ⟨rfl, .refl st⟩
    | reference i x =>
      intro st atHand _ hdepth
      rw [Node.code, execute, Node.expr]
      by_cases hx : x ∈ st.active
      · rw [if_pos hx, evaluateIn_of_active hx]
        exact ⟨rfl, .refl st⟩
      · rw [if_neg hx]
        cases hb : ns.find? x with
        | none =>
          rw [evaluateIn_unbound hx (by rw [Namespace.find?_exprs, hb]; rfl)]
          exact ⟨rfl, .refl st⟩
        | some b =>
          -- entering `x` uses up one of the names that were not active
          have hroom := Namespace.unseen_cons_lt (Namespace.mem_names_of_find? hb) hx
          cases depth with
          | zero => omega
          | succ d =>
            have hb' : ns.exprs.find? x = some b.expr := by rw [Namespace.find?_exprs, hb]; rfl
            rw [evaluateIn_entering hx hb', Namespace.clash?_exprs]
            simp only
            cases ns.clash? b.expr with
            | some c => exact ⟨rfl, Execution.active_leave hx rfl, .refl _⟩
            | none =>
              have hle : ns.unseen (x :: st.active) ≤ d := by omega
              obtain ⟨hout, hleaves⟩ :=
                deeper d (Nat.lt_succ_self d) b ⟨st.engine.compile b, x :: st.active⟩
                  (fun _ => Node.mem_constants) hle
              -- `x` was not active before, so taking it out leaves the names that were
              exact ⟨hout, Execution.active_leave hx hleaves.active,
                (leaves_compile _ _).trans hleaves.engine⟩
    | binary i op l r ihl ihr =>
      intro st atHand hhand hdepth
      have hleft : ∀ c : Constructor, l.expr.uses c = true → c.key ∈ atHand :=
        fun c hc => hhand c (by rw [Node.expr, Expr.uses, hc]; rfl)
      have hright : ∀ c : Constructor, r.expr.uses c = true → c.key ∈ atHand :=
        fun c hc => hhand c (by rw [Node.expr, Expr.uses, hc, Bool.or_true])
      -- the left operand leaves the active names, so the right one sees the same
      obtain ⟨hl, hkeepl⟩ := ihl st hleft hdepth
      obtain ⟨hr, hkeepr⟩ := ihr (execute ns depth atHand l.code st).2 hright (hkeepl.active ▸ hdepth)
      rw [hkeepl.active] at hr
      rw [Node.code, execute, Node.expr, evaluateIn_binary, ← hl, ← hr]
      simp only
      cases (execute ns depth atHand l.code st).1 with
      | error f => exact ⟨rfl, hkeepl⟩
      | ok a =>
        simp only
        cases (execute ns depth atHand r.code (execute ns depth atHand l.code st).2).1 with
        | error f => exact ⟨rfl, hkeepl.trans hkeepr⟩
        | ok b => exact ⟨rfl, hkeepl.trans hkeepr⟩

/-- **The engine evaluates as the plain evaluation does**, and has nothing to show for it but compiled
    nodes and notes. -/
theorem evaluate_eq (en : Engine) (ns : Namespace Node) (n : Node) :
    (en.evaluate ns n).1 = Reckoner.evaluate ns.exprs n.expr ∧ en.Leaves (en.evaluate ns n).2 := by
  rw [evaluate, Reckoner.evaluate, Namespace.clash?_exprs]
  cases ns.clash? n.expr with
  | some c => exact ⟨rfl, .refl en⟩
  | none =>
    -- at the top no name is active, and there is room for all names of the namespace
    obtain ⟨hout, hleaves⟩ := execute_code ns ns.size n ⟨en.compile n, []⟩ (fun _ => Node.mem_constants)
      (ns.unseen_le_size [])
    exact ⟨hout, (leaves_compile en n).trans hleaves.engine⟩

end Engine

/-! ## Nodes and their numbers

  A number is given once, so a store only ever grows at its end.  What is stored stays stored, and two
  stored nodes of one number are one. -/

/-- Which node has which number. -/
abbrev Store := Nat → Option Node

/-- Every part of a node is what the store has under its number. -/
def Node.Stored (store : Store) : Node → Prop
  | integer i k => store i = some (integer i k)
  | rational i k d => store i = some (rational i k d)
  | reference i x => store i = some (reference i x)
  | binary i op l r => store i = some (binary i op l r) ∧ l.Stored store ∧ r.Stored store

namespace Store

/-- The nodes of the one store are in the other as well. -/
def Extends (store store' : Store) : Prop := ∀ k n, store k = some n → store' k = some n

/-- No number from `next` on has been given. -/
def EndsAt (store : Store) (next : Nat) : Prop := ∀ k, next ≤ k → store k = none

/-- A store with one more node. -/
def put (store : Store) (n : Node) : Store := fun k => if k = n.id then some n else store k

variable {store store' store'' : Store} {n : Node}

theorem Extends.refl (store : Store) : store.Extends store := fun _ _ h => h

theorem Extends.trans (h : store.Extends store') (h' : store'.Extends store'') : store.Extends store'' :=
  fun k n hk => h' k n (h k n hk)

theorem endsAt_empty (next : Nat) : EndsAt (fun _ => none) next := fun _ _ => rfl

theorem put_self (store : Store) (n : Node) : store.put n n.id = some n := if_pos rfl

/-- A node with a new number takes nothing out of the store. -/
theorem extends_put (h : store.EndsAt n.id) : store.Extends (store.put n) := by
  intro k m hk
  -- the number of `n` was free, so `k` is another one
  have hne : k ≠ n.id := by
    rintro rfl
    rw [h n.id (Nat.le_refl _)] at hk
    cases hk
  rw [put, if_neg hne, hk]

/-- Behind the number of a node that has been put in, no number is taken. -/
theorem endsAt_put (h : store.EndsAt n.id) : (store.put n).EndsAt (n.id + 1) := by
  intro k hk
  have hne : k ≠ n.id := by omega
  rw [put, if_neg hne]
  exact h k (by omega)

end Store

namespace Node

variable {store store' : Store} {m n : Node}

/-- A stored node is found under its number. -/
theorem Stored.lookup (h : n.Stored store) : store n.id = some n := by
  cases n with
  | integer i k => exact h
  | rational i k d => exact h
  | reference i x => exact h
  | binary i op l r => exact h.1

/-- Stored nodes of one number are one node. -/
theorem Stored.eq_of_id (hm : m.Stored store) (hn : n.Stored store) (hid : m.id = n.id) : m = n :=
  Option.some.inj (hm.lookup.symm.trans (hid ▸ hn.lookup))

/-- What is stored stays so when the store grows. -/
theorem Stored.mono (h : n.Stored store) (hext : store.Extends store') : n.Stored store' := by
  induction n with
  | integer i k => exact hext _ _ h
  | rational i k d => exact hext _ _ h
  | reference i x => exact hext _ _ h
  | binary i op l r ihl ihr => exact ⟨hext _ _ h.1, ihl h.2.1, ihr h.2.2⟩

/-- The nodes that are made for an expression are stored under new numbers. -/
theorem exists_stored_place (e : Expr) {next : Nat} (h : store.EndsAt next) :
    ∃ store', store.Extends store' ∧ store'.EndsAt (place next e).2 ∧ (place next e).1.Stored store' := by
  induction e generalizing next store with
  | integer k =>
    exact ⟨store.put (.integer next k), Store.extends_put h, Store.endsAt_put h, Store.put_self _ _⟩
  | rational k d =>
    exact ⟨store.put (.rational next k d), Store.extends_put h, Store.endsAt_put h, Store.put_self _ _⟩
  | reference x =>
    exact ⟨store.put (.reference next x), Store.extends_put h, Store.endsAt_put h, Store.put_self _ _⟩
  | binary op l r ihl ihr =>
    -- the operands first; the operation has the number behind theirs
    obtain ⟨s, hs, hends, hl⟩ := ihl h
    obtain ⟨s', hs', hends', hr⟩ := ihr hends
    let n : Node := .binary (place (place next l).2 r).2 op (place next l).1 (place (place next l).2 r).1
    have hput : s'.Extends (s'.put n) := Store.extends_put (n := n) hends'
    exact ⟨s'.put n, (hs.trans hs').trans hput, Store.endsAt_put (n := n) hends', Store.put_self s' n,
      (hl.mono hs').mono hput, hr.mono hput⟩

end Node

/-- `Yields view held store cs o plain` — the engine's outcome `o` is `plain` once the numbers are
    forgotten by `view`, the store can be extended by the new nodes so that it holds what came out, and
    `cs` are still the channels. -/
structure Engine.Yields {ε α β : Type} (view : α → β) (held : Store → α → Prop) (store : Store)
    (cs : List Channel) (o : Except ε α × Engine) (plain : Except ε β) : Prop where
  outcome : o.1.map view = plain
  channels : o.2.channels = cs
  grown : ∃ store', store.Extends store' ∧ store'.EndsAt o.2.fresh ∧ ∀ a, o.1 = .ok a → held store' a

namespace Engine.Yields

variable {ε ε' α β γ δ : Type} {view : α → β} {held : Store → α → Prop} {view' : γ → δ}
  {held' : Store → γ → Prop} {store store' : Store} {cs cs' : List Channel}
  {o : Except ε α × Engine} {plain : Except ε β}

/-- What is yielded from a store that has grown is yielded from the store that it has grown from. -/
theorem later (h : Yields view held store' cs' o plain) (hext : store.Extends store') (hcs : cs' = cs) :
    Yields view held store cs o plain := by
  obtain ⟨s, hs, hends, hheld⟩ := h.grown
  exact ⟨h.outcome, h.channels.trans hcs, s, hext.trans hs, hends, hheld⟩

/-- A failure is passed on as it is, whatever was to be made of the outcome. -/
theorem failed (h : Yields view held store cs o plain) (f : ε') :
    Yields view' held' store cs (.error f, o.2) (.error f) := by
  obtain ⟨s, hs, hends, _⟩ := h.grown
  exact ⟨rfl, h.channels, s, hs, hends, by rintro _ ⟨⟩⟩

end Engine.Yields

/-- The nodes of a namespace are all stored. -/
def Namespace.Stored (store : Store) (ns : Namespace Node) : Prop :=
  ∀ x n, ns.find? x = some n → n.Stored store

/-- Bindings stay stored while the store grows. -/
theorem Namespace.Stored.mono {ns : Namespace Node} {store store' : Store} (h : ns.Stored store)
    (hext : store.Extends store') : ns.Stored store' :=
  fun x n hn => (h x n hn).mono hext

/-- Binding a stored node keeps all bindings stored. -/
theorem Namespace.Stored.bind {ns : Namespace Node} {store : Store} (h : ns.Stored store) (x : String)
    {n : Node} (hn : n.Stored store) : (ns.bind x n).Stored store :=
  forall_bind (P := fun _ (n : Node) => n.Stored store) h hn

/-! ## Specializing

  Each operation of the engine is matched with the plain one by `Yields`: the same outcome, and a store
  that has grown by the nodes that were made.  Two such steps are put together by `later`. -/

namespace Engine

variable {en : Engine} {ns : Namespace Node} {store : Store} {l r n : Node}

/-- An operation that is not folded has made no node. -/
theorem refuse_yields {en' : Engine} (h : store.EndsAt en.fresh) (hleaves : en.Leaves en') (f : Failure) :
    Yields (Option.map Node.expr) (fun store m => ∀ n ∈ m, n.Stored store) store en.channels
      (if f.recoverable then .ok none else .error f, en')
      (if f.recoverable then .ok none else .error f) := by
  refine ⟨?_, hleaves.channels, store, .refl store, hleaves.fresh ▸ h, ?_⟩
  · split <;> rfl
  · -- if it can be recovered from, nothing comes out that would have to be stored
    intro m hm n hn
    split at hm
    · cases hm
      cases hn
    · cases hm

/-- Folding nodes is folding their expressions; the literal is a new node. -/
theorem fold_yields (h : store.EndsAt en.fresh) (op : Operator) (l r : Node) :
    Yields (Option.map Node.expr) (fun store m => ∀ n ∈ m, n.Stored store) store en.channels
      (en.fold op l r) (Reckoner.fold op l.expr r.expr) := by
  obtain ⟨hl, hleft⟩ := en.evaluate_eq ∅ l
  obtain ⟨hr, hright⟩ := (en.evaluate ∅ l).2.evaluate_eq ∅ r
  rw [Namespace.exprs_empty] at hl hr
  rw [fold, Reckoner.fold, ← hl, ← hr]
  simp only
  cases (en.evaluate ∅ l).1 with
  | error f => exact refuse_yields h hleft f
  | ok x =>
    have hboth := hleft.trans hright
    simp only
    cases ((en.evaluate ∅ l).2.evaluate ∅ r).1 with
    | error f => exact refuse_yields h hboth f
    | ok y =>
      simp only [bind, Except.bind]
      cases Number.apply op x y with
      | error f => exact refuse_yields h hboth f
      | ok z =>
        obtain ⟨s, hs, hends, hstored⟩ := Node.exists_stored_place (.ofNumber z) (hboth.fresh ▸ h)
        refine ⟨?_, hboth.channels, s, hs, hends, ?_⟩
        · exact congrArg (fun e => Except.ok (some e)) (Node.expr_place _ _)
        · rintro _ ⟨⟩ n hn
          cases hn
          exact hstored

/-- A new node for an operation, or the node that there is. -/
theorem exists_joined (op : Operator) (h : store.EndsAt en.fresh) (hn : n.Stored store)
    (hl : l.Stored store) (hr : r.Stored store) {changed : Bool}
    (hsame : changed = false → n.expr = .binary op l.expr r.expr) :
    ∃ store', store.Extends store' ∧ store'.EndsAt (if changed then en.join op l r else (n, en)).2.fresh ∧
      (if changed then en.join op l r else (n, en)).1.Stored store' ∧
      (if changed then en.join op l r else (n, en)).1.expr = .binary op l.expr r.expr ∧
      (if changed then en.join op l r else (n, en)).2.channels = en.channels := by
  cases changed with
  | false => exact ⟨store, .refl store, h, hn, hsame rfl, rfl⟩
  | true =>
    have hput : store.Extends (store.put (.binary en.fresh op l r)) := Store.extends_put h
    exact ⟨_, hput, Store.endsAt_put h, ⟨Store.put_self _ _, hl.mono hput, hr.mono hput⟩, rfl, rfl⟩

/-- Putting two nodes together is putting their expressions together. -/
theorem combine_yields (op : Operator) (h : store.EndsAt en.fresh) (hn : n.Stored store)
    (hl : l.Stored store) (hr : r.Stored store) {changed : Bool}
    (hsame : changed = false → n.expr = .binary op l.expr r.expr) :
    Yields Node.expr Node.Stored store en.channels (en.combine n op changed l r)
      (Reckoner.combine op l.expr r.expr) := by
  obtain ⟨s, hs, hends, hstored, hexpr, hchannels⟩ := exists_joined op h hn hl hr hsame
  -- both look at whether the operands are literals, and only then try to fold
  rw [combine, Reckoner.combine]
  simp only
  rw [Node.isLiteral, Node.isLiteral]
  split
  · have hfold := fold_yields hends op l r
    obtain ⟨s', hs', hends', hheld⟩ := hfold.grown
    rw [← hfold.outcome]
    refine Yields.later ?_ hs hchannels
    cases hm : ((if changed then en.join op l r else (n, en)).2.fold op l r).1 with
    | error f => exact hfold.failed f
    | ok m =>
      cases m with
      | none =>
        -- not folded: the operation itself comes out
        refine ⟨congrArg Except.ok hexpr, hfold.channels, s', hs', hends', ?_⟩
        rintro _ ⟨⟩
        exact hstored.mono hs'
      | some e =>
        -- folded: the literal is the node that was made for it
        refine ⟨rfl, hfold.channels, s', hs', hends', ?_⟩
        rintro _ ⟨⟩
        exact hheld _ hm e rfl
  · exact ⟨congrArg Except.ok hexpr, hchannels, s, hs, hends, by rintro _ ⟨⟩; exact hstored⟩

/-- A node that comes back as itself. -/
theorem same_yields (h : store.EndsAt en.fresh) (hn : n.Stored store) :
    Yields (ε := Failure) Node.expr Node.Stored store en.channels (.ok n, en) (.ok n.expr) :=
  ⟨rfl, rfl, store, .refl store, h, by rintro _ ⟨⟩; exact hn⟩

/-- **The engine specializes as the plain specialization does.**  The nodes that come out are those that
    went in, nodes of the namespace, or new ones. -/
theorem specialize_yields (h : store.EndsAt en.fresh) (hns : ns.Stored store) (hn : n.Stored store) :
    Yields Node.expr Node.Stored store en.channels (en.specialize ns n)
      (Reckoner.specialize ns.exprs n.expr) := by
  have hfind : ∀ {x b}, ns.find? x = some b → ns.exprs.find? x = some b.expr := fun hb => by
    rw [Namespace.find?_exprs, hb]
    rfl
  fun_induction specialize en ns n generalizing store with
  | case1 en i k =>
    rw [Node.expr, specialize_literal rfl]
    exact same_yields h hn
  | case2 en i k d =>
    rw [Node.expr, specialize_literal rfl]
    exact same_yields h hn
  | case3 en i x hb =>
    rw [Node.expr, specialize_unbound (by rw [Namespace.find?_exprs, hb]; rfl)]
    exact same_yields h hn
  | case4 en i x b hb hc =>
    rw [Node.expr, specialize_onCycle (by rw [Namespace.onCycle_exprs, hc])]
    exact same_yields h hn
  | case5 en i x b hb hc ih =>
    -- the binding is specialized in place of the reference, which is dropped with its number
    rw [Node.expr, specialize_bound (hfind hb), Namespace.onCycle_exprs, if_neg hc]
    exact ih h hns (hns x b hb)
  | case6 en i op l r left f hf =>
    -- the left operand fails, and its failure is all
    rename_i ihl
    have hl := ihl h hns hn.2.1
    rw [Node.expr, specialize_binary, ← hl.outcome, show (en.specialize ns l).1 = .error f from hf]
    exact hl.failed f
  | case7 en i op l r left l' hl' right f hf ihl =>
    -- the right operand starts from the store that the left one has left
    rename_i ihr
    have hl := ihl h hns hn.2.1
    obtain ⟨s, hs, hends, _⟩ := hl.grown
    have hr := ihr hends (hns.mono hs) (hn.2.2.mono hs)
    rw [Node.expr, specialize_binary, ← hl.outcome, ← hr.outcome,
      show (en.specialize ns l).1 = .ok l' from hl',
      show (left.2.specialize ns r).1 = .error f from hf]
    exact (hr.failed f).later hs hl.channels
  | case8 en i op l r left l' hl' right r' hr' ihl =>
    rename_i ihr
    have hl := ihl h hns hn.2.1
    obtain ⟨s, hs, hends, hstored⟩ := hl.grown
    have hr := ihr hends (hns.mono hs) (hn.2.2.mono hs)
    obtain ⟨s', hs', hends', hstored'⟩ := hr.grown
    have hls' := (hstored l' hl').mono hs'
    have hrs' := hstored' r' hr'
    have hns' := hn.mono (hs.trans hs')
    -- operands that come back with their numbers are the operands themselves
    have hsame : (decide (l'.id ≠ l.id) || decide (r'.id ≠ r.id)) = false →
        (Node.binary i op l r).expr = .binary op l'.expr r'.expr := by
      intro hchanged
      simp only [ne_eq, decide_not, Bool.or_eq_false_iff, Bool.not_eq_false',
        decide_eq_true_eq] at hchanged
      rw [hls'.eq_of_id hns'.2.1 hchanged.1, hrs'.eq_of_id hns'.2.2 hchanged.2]
      rfl
    have hcomb := combine_yields op hends' hns' hls' hrs' hsame
    rw [Node.expr, specialize_binary, ← hl.outcome, ← hr.outcome,
      show (en.specialize ns l).1 = .ok l' from hl',
      show (left.2.specialize ns r).1 = .ok r' from hr']
    exact hcomb.later (hs.trans hs') (hr.channels.trans hl.channels)

end Engine

end Reckoner
