/-
  What has been compiled does not show.  The nodes are those of a `History`: made, put together,
  specialized, compiled and evaluated in any order, any node as often as one likes.  An engine, which
  keeps the numbers of the compiled nodes, and a machine, which keeps their codes and runs nothing else,
  go through the history side by side.

  One step keeps the two together whatever it is (`Machine.Matches`), so they are together after every
  history (`History.exists_matches`): they have made the same nodes, every node has been compiled once,
  and whatever is asked of a node next, they answer alike.
-/
import Mathlib.Data.Set.Card
import Reckoner.Proofs.Memory

namespace Reckoner

/-! ## Histories -/

/-- Every binding is one of these nodes. -/
def Namespace.Over (known : List Node) (ns : Namespace Node) : Prop :=
  ∀ x n, ns.find? x = some n → n ∈ known

/-- `History en m known` — a new engine has come to `en` and a new machine to `m` by making nodes,
    putting nodes together, specializing, compiling and evaluating.  `known` are the nodes that came out
    of the engine on the way; every operation is on such nodes, and any of them may be used again. -/
inductive History : Engine → Machine → List Node → Prop
  | start (cs : List Channel) : History { channels := cs } {} []
  | make {en : Engine} {m : Machine} {known : List Node} (h : History en m known) (e : Expr) :
      History (en.place e).2 (m.place e).2 ((en.place e).1 :: known)
  | join {en : Engine} {m : Machine} {known : List Node} (h : History en m known) (op : Operator)
      {l r : Node} (hl : l ∈ known) (hr : r ∈ known) :
      History (en.join op l r).2 (m.join op l r).2 ((en.join op l r).1 :: known)
  | operand {en : Engine} {m : Machine} {known : List Node} (h : History en m known) {n p : Node}
      (hn : n ∈ known) (hp : n.Operand p) : History en m (p :: known)
  | specialize {en : Engine} {m : Machine} {known : List Node} (h : History en m known)
      {ns : Namespace Node} (hns : ns.Over known) {n : Node} (hn : n ∈ known) :
      History (en.specialize ns n).2 (m.specialize ns n).2
        ((en.specialize ns n).1.toOption.toList ++ known)
  | compile {en : Engine} {m : Machine} {known : List Node} (h : History en m known) {n : Node}
      (hn : n ∈ known) :
      History (en.compile n) (m.compile n).2 known
  | evaluate {en : Engine} {m : Machine} {known : List Node} (h : History en m known)
      {ns : Namespace Node} (hns : ns.Over known) {n : Node} (hn : n ∈ known) :
      History (en.evaluate ns n).2 (m.evaluate ns n).2 known

section Known

variable {store store' : Store} {known : List Node}

/-- A namespace of known nodes is stored, since they are. -/
theorem Namespace.Over.stored {ns : Namespace Node} (hns : ns.Over known)
    (h : ∀ n ∈ known, n.Stored store) :
    ns.Stored store :=
  fun x n hn => h n (hns x n hn)

/-- The known nodes stay stored while the store grows. -/
theorem stored_mono (h : ∀ n ∈ known, n.Stored store) (hext : store.Extends store') :
    ∀ n ∈ known, n.Stored store' :=
  fun n hn => (h n hn).mono hext

end Known

/-- **Every history** leaves the known nodes told apart by their numbers, and the machine with the
    engine. -/
theorem History.exists_matches {en : Engine} {m : Machine} {known : List Node} (h : History en m known) :
    ∃ store, (∀ n ∈ known, n.Stored store) ∧ m.Matches store en := by
  induction h with
  | start cs => exact ⟨_, List.forall_mem_nil _, Machine.matches_new cs⟩
  | make h e ih =>
    obtain ⟨store, hknown, hmatch⟩ := ih
    obtain ⟨s, hs, _, hstored, hmade⟩ := hmatch.place e
    exact ⟨s, List.forall_mem_cons.2 ⟨hstored, stored_mono hknown hs⟩, hmade⟩
  | join h op hl hr ih =>
    obtain ⟨store, hknown, hmatch⟩ := ih
    obtain ⟨s, hs, _, hstored, hjoined⟩ := hmatch.join op (hknown _ hl) (hknown _ hr)
    exact ⟨s, List.forall_mem_cons.2 ⟨hstored, stored_mono hknown hs⟩, hjoined⟩
  | operand h hn hp ih =>
    obtain ⟨store, hknown, hmatch⟩ := ih
    exact ⟨store, List.forall_mem_cons.2 ⟨(hknown _ hn).operand hp, hknown⟩, hmatch⟩
  | @specialize en m known h ns hns n hn ih =>
    -- the store grows by the nodes that specialization makes, the same for both
    obtain ⟨store, hknown, hmatch⟩ := ih
    obtain ⟨s, hs, _, hafter, hheld⟩ :=
      Machine.specialize_alike en ns n m store hmatch (hns.stored hknown) (hknown n hn)
    refine ⟨s, List.forall_mem_append.2 ⟨?_, stored_mono hknown hs⟩, hafter⟩
    -- what came out is stored, if anything did
    intro a ha
    cases hout : (en.specialize ns n).1 with
    | error f =>
      rw [hout] at ha
      cases ha
    | ok b =>
      rw [hout] at ha
      obtain rfl := List.mem_singleton.1 ha
      exact hheld a hout
  | compile h hn ih =>
    obtain ⟨store, hknown, hmatch⟩ := ih
    exact ⟨store, hknown, (hmatch.compile (hknown _ hn)).2⟩
  | evaluate h hns hn ih =>
    obtain ⟨store, hknown, hmatch⟩ := ih
    exact ⟨store, hknown, (hmatch.evaluate (hns.stored hknown) (hknown _ hn)).2⟩

/-- **Every node is compiled once.**  After any history the compiled nodes are closed under operands,
    there were as many compilations as there are compiled nodes, and the codes that the machine has kept
    are those of the compiled nodes.  Compiling a known node adds the number of nodes met from it that
    were not compiled, and gives the node its own code; evaluating and specializing do nothing to what
    the engine remembers but make such calls, and specializing calls for literals only.

    And what has been kept does not show.  Evaluating and specializing a known node come to the same
    with the engine and with the machine; and evaluating it does so with every engine and every memory
    of codes that goes with it, whatever nodes they have compiled. -/
theorem compiles_once {en : Engine} {m : Machine} {known : List Node} (h : History en m known) :
    ∃ store : Store, (∀ n ∈ known, n.Stored store) ∧ en.Remembers store ∧ m.codes.Backs store en ∧
      ∀ n ∈ known, en.Counts n ∧ (m.compile n).1 = n.code ∧ ∀ ns : Namespace Node, ns.Over known →
        Engine.Counted (· ∈ known) en (en.evaluate ns n).2 ∧
        Engine.Counted (·.isLiteral = true) (en.renumbered (en.specialize ns n).2.fresh)
          (en.specialize ns n).2 ∧
        (m.evaluate ns n).1 = (en.evaluate ns n).1 ∧ (m.specialize ns n).1 = (en.specialize ns n).1 ∧
        ∀ (en' : Engine) (mem : Memory), mem.Backs store en' →
          (en'.evaluate ns n).1 = (en.evaluate ns n).1 ∧ (mem.evaluate ns n).1 = (en.evaluate ns n).1 ∧
            (mem.evaluate ns n).2.Backs store (en'.evaluate ns n).2 := by
  obtain ⟨store, hknown, hmatch⟩ := h.exists_matches
  refine ⟨store, hknown, hmatch.remembers, hmatch.backs, fun n hn => ?_⟩
  have hstored := hknown n hn
  refine ⟨Engine.counts_of_remembers hmatch.remembers hstored, (hmatch.compile hstored).1,
    fun ns hns => ?_⟩
  have hbindings := hns.stored hknown
  refine ⟨?_, ?_, (hmatch.evaluate hbindings hstored).1, ?_, fun en' mem hmem => ?_⟩
  · -- an evaluation compiles the node itself and bindings, which are all known
    refine (hmatch.remembers.calls ((en.evaluate_calls ns n).mono ?_)).2
    rintro c (rfl | ⟨x, hx⟩)
    · exact ⟨hn, hstored⟩
    · exact ⟨hns x c hx, hbindings x c hx⟩
  · obtain ⟨s, hs, _⟩ := Engine.specialize_delivers hmatch.ends hbindings hstored
    exact (hmatch.remembers.works hs).2
  · obtain ⟨_, _, hsame, _⟩ := Machine.specialize_alike en ns n m store hmatch hbindings hstored
    exact hsame
  · -- an evaluation comes to what the expression is worth, whatever the engine has compiled
    have hsame : (en'.evaluate ns n).1 = (en.evaluate ns n).1 :=
      (en'.evaluate_eq ns n).1.trans (en.evaluate_eq ns n).1.symm
    obtain ⟨hout, hbacks⟩ := Memory.evaluate_eq hmem hbindings hstored
    exact ⟨hsame, hout.trans hsame, hbacks⟩

/-- The name `x`, made once. -/
def unknown : Node := .reference 0 "x"

/-- The product of `x` with itself, whose operands are one node. -/
def square : Node := .binary 1 .mul unknown unknown

/-- The sum of the square and of the name in it. -/
def oblong : Node := .binary 2 .add square unknown

/-- An engine that has made these nodes and a literal, and has compiled the square. -/
def afterSquare : Engine := ({ fresh := 4 } : Engine).compile square

/-- The machine beside it. -/
def keptSquare : Machine := (({ fresh := 4 } : Machine).compile square).2

/-- The way there: a name is made, two operations on it and a literal, and the square is compiled. -/
theorem history_afterSquare : History afterSquare keptSquare [.integer 3 3, oblong, square, unknown] := by
  have hx : History { fresh := 1 } { fresh := 1 } [unknown] := .make (.start []) (.reference "x")
  have hsquare : History { fresh := 2 } { fresh := 2 } [square, unknown] :=
    hx.join .mul (by simp) (by simp)
  have hoblong : History { fresh := 3 } { fresh := 3 } [oblong, square, unknown] :=
    hsquare.join .add (by simp) (by simp)
  have hliteral : History { fresh := 4 } { fresh := 4 } [.integer 3 3, oblong, square, unknown] :=
    hoblong.make (.integer 3)
  exact hliteral.compile (by simp)

/-- The square took two compilations and the sum takes one more; with the codes that the machine has
    kept the sum is twelve where `x` is three. -/
theorem compiles_once_afterSquare :
    History afterSquare keptSquare [.integer 3 3, oblong, square, unknown] ∧
      afterSquare.compilations = 2 ∧
      (afterSquare.compile oblong).compilations = 3 ∧ (afterSquare.pending oblong).ncard = 1 ∧
      (∃ store : Store, keptSquare.codes.Backs store afterSquare) ∧
        (keptSquare.compile oblong).1 = oblong.code ∧
      (keptSquare.evaluate ((∅ : Namespace Node).bind "x" (.integer 3 3)) oblong).1 = .ok (.int 12) := by
  have htwo : afterSquare.compilations = 2 := by
    simp [afterSquare, square, unknown, Engine.compile, Engine.markCompiled, Engine.note, Node.id]
  have hthree : (afterSquare.compile oblong).compilations = 3 := by
    simp [afterSquare, oblong, square, unknown, Engine.compile, Engine.markCompiled, Engine.note, Node.id]
  have htwelve : (afterSquare.evaluate ((∅ : Namespace Node).bind "x" (.integer 3 3)) oblong).1 =
      .ok (.int 12) := by
    rw [(Engine.evaluate_eq _ _ _).1]
    show evaluate ((∅ : Namespace Expr).bind "x" (.integer 3))
      (.binary .add (.binary .mul (.reference "x") (.reference "x")) (.reference "x")) = .ok (.int 12)
    cbv
  have hover : ((∅ : Namespace Node).bind "x" (.integer 3 3)).Over
      [.integer 3 3, oblong, square, unknown] := by
    refine Namespace.forall_bind ?_ (by simp)
    rintro _ _ ⟨⟩
  obtain ⟨store, _, _, hbacks, hknown⟩ := compiles_once history_afterSquare
  obtain ⟨hcounts, hcode, hsame⟩ := hknown oblong (by simp)
  obtain ⟨_, _, hevaluate, _⟩ := hsame _ hover
  have hone : (afterSquare.pending oblong).ncard = 1 := by
    rw [Engine.Counts, hthree, htwo] at hcounts
    omega
  exact ⟨history_afterSquare, htwo, hthree, hone, ⟨store, hbacks⟩, hcode, hevaluate.trans htwelve⟩

end Reckoner
