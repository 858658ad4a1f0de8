/-
  The names whose bindings are being evaluated.  All nested executions share one set of them: a look-up
  puts its name in, has the binding executed, and takes the name out again, however it came in.
  Whatever comes of it, an execution leaves the set as it found it (`active_execute`): a look-up whose
  name is in already goes no further, so the name that is taken out was not in before.

  `execution` is the execution as a procedure that calls itself without any bound on how deep it goes.
  `Engine.execute`, which has such a bound, gives the answers of the procedure as long as there is room
  for the names that are not active (`execution_returns`).
-/
import Reckoner.Proofs.Engine
import Reckoner.Proofs.Recursion

namespace Reckoner

/-- An execution that is to be done: code, the constants at hand, and what it shares with all others. -/
structure Frame where
  constants : List String
  code : Code
  shared : Execution

/-- The name whose binding an execution opens. -/
def Frame.opens (fr : Frame) : Option String :=
  match fr.code with
  | .lookup x => some x
  | _ => none

namespace Engine

variable {ns : Namespace Node}

/-- Execute code, in as many nested executions as it takes. -/
def execution (ns : Namespace Node) : Procedure Frame (Except Failure Number × Execution) := fun fr =>
  match fr.code with
  | .literal c args => .done (Code.build fr.constants c args, fr.shared)
  | .lookup x =>
    if x ∈ fr.shared.active then .done (.error (.recursive x), fr.shared)
    else match ns.find? x with
      | none => .done (.error (.unbound x), fr.shared)
      | some b =>
        let opened := fr.shared.enter x
        match ns.clash? b.expr with
        | some c => .done (.error (.fault (.collision c.key)), opened.leave x)
        | none =>
          .ask ⟨b.constants, b.code, { opened with engine := opened.engine.compile b }⟩ fun outcome =>
            .done (outcome.1, outcome.2.leave x)
  | .operation op l r =>
    .ask ⟨fr.constants, l, fr.shared⟩ fun left =>
      match left.1 with
      | .error f => .done (.error f, left.2)
      | .ok x =>
        .ask ⟨fr.constants, r, left.2⟩ fun right =>
          match right.1 with
          | .error f => .done (.error f, right.2)
          | .ok y => .done (Number.apply op x y, right.2)

/-! ## The set is left as it was

  Two inductions inside each other: on the room that is left, which a look-up uses up when it enters a
  binding, and within that on the code, for the operands of an operation. -/

/-- **Executions leave the active names as they were**, whatever they come to, and however much room
    there is. -/
theorem active_execute (ns : Namespace Node) (depth : Nat) :
    ∀ (atHand : List String) (code : Code) (st : Execution),
      (execute ns depth atHand code st).2.active = st.active := by
  induction depth using Nat.strongRecOn with
  | _ depth deeper =>
    intro atHand code
    induction code with
    | literal c args =>
      intro st
      rw [execute]
    | lookup x =>
      intro st
      rw [execute]
      by_cases hx : x ∈ st.active
      · rw [if_pos hx]
      · rw [if_neg hx]
        cases ns.find? x with
        | none => rfl
        | some b =>
          cases depth with
          | zero => rfl
          | succ d =>
            simp only
            cases ns.clash? b.expr with
            | some c => exact Execution.active_leave hx rfl
            | none =>
              -- inside, the names are active that were so before and `x`, which was not
              have hinside :=
                deeper d (Nat.lt_succ_self d) b.constants b.code ⟨st.engine.compile b, x :: st.active⟩
              exact Execution.active_leave hx hinside
    | operation op l r ihl ihr =>
      intro st
      rw [execute]
      simp only
      cases (execute ns depth atHand l st).1 with
      | error f => exact ihl st
      | ok a =>
        simp only
        -- the right operand is executed with what the left one leaves
        have hboth := (ihr (execute ns depth atHand l st).2).trans (ihl st)
        cases (execute ns depth atHand r (execute ns depth atHand l st).2).1 with
        | error f => exact hboth
        | ok b => exact hboth

/-- More room than there are names that are not active makes no difference. -/
theorem execute_depth (ns : Namespace Node) (depth : Nat) :
    ∀ (more : Nat) (atHand : List String) (code : Code) (st : Execution),
      ns.unseen st.active ≤ depth →
        execute ns (depth + more) atHand code st = execute ns depth atHand code st := by
  induction depth using Nat.strongRecOn with
  | _ depth deeper =>
    intro more atHand code
    induction code with
    | literal c args =>
      intro st _
      rw [execute, execute]
    | lookup x =>
      intro st hroom
      rw [execute, execute]
      by_cases hx : x ∈ st.active
      · rw [if_pos hx, if_pos hx]
      · rw [if_neg hx, if_neg hx]
        cases hb : ns.find? x with
        | none => rfl
        | some b =>
          -- one more name is active inside the binding, so the room that is left will do there as well
          have hless := Namespace.unseen_cons_lt (Namespace.mem_names_of_find? hb) hx
          obtain ⟨d, rfl⟩ : ∃ d, depth = d + 1 := ⟨depth - 1, by omega⟩
          have hle : ns.unseen (x :: st.active) ≤ d := by omega
          have hinside := deeper d (Nat.lt_succ_self d) more b.constants b.code
            ⟨st.engine.compile b, x :: st.active⟩ hle
          rw [Nat.add_right_comm]
          simp only
          cases ns.clash? b.expr with
          | some c => rfl
          | none => exact congrArg (fun outcome => (outcome.1, outcome.2.leave x)) hinside
    | operation op l r ihl ihr =>
      intro st hroom
      -- the left operand has left the names active that were so, hence there is still room
      have hright : ns.unseen (execute ns depth atHand l st).2.active ≤ depth := by
        rw [active_execute]
        exact hroom
      rw [execute, execute, ihl st hroom, ihr _ hright]

/-! ## Nested executions

  A procedure that returns has a plan of calls.  What an execution calls can be read off its code, and
  with what names active, once it is known that the calls made before it have left the names alone: this
  is `hR` below, which holds of everything that the procedure returns. -/

section Calls

variable {R : Frame → Except Failure Number × Execution → Prop} {fr fr' : Frame}

/-- **What an execution has executed**: a look-up the binding of its name, which has become active; an
    operation its operands, with the names that are active for itself, if executions leave them as they
    were. -/
theorem makes_cases (hR : ∀ fr out, R fr out → out.2.active = fr.shared.active)
    (h : (execution ns fr).Makes R fr') :
    (∃ x b, fr.code = .lookup x ∧ x ∉ fr.shared.active ∧ ns.find? x = some b ∧ fr'.code = b.code ∧
        fr'.shared.active = x :: fr.shared.active) ∨
      ∃ op l r, fr.code = .operation op l r ∧ (fr'.code = l ∨ fr'.code = r) ∧
        fr'.shared.active = fr.shared.active := by
  obtain ⟨constants, code, st⟩ := fr
  cases code with
  | literal c args => cases h
  | lookup x =>
    left
    simp only [execution] at h
    split at h
    · cases h
    · rename_i hx
      cases hb : ns.find? x with
      | none =>
        rw [hb] at h
        cases h
      | some b =>
        simp only [hb] at h
        split at h
        · cases h
        · cases h with
          | ask => exact ⟨x, b, rfl, hx, hb, rfl, rfl⟩
          | later _ hj => cases hj
  | operation op l r =>
    right
    refine ⟨op, l, r, rfl, ?_⟩
    simp only [execution] at h
    -- the call of the left operand, or a later one: the right operand, once the left one has come to a
    -- number
    cases h with
    | ask => exact ⟨Or.inl rfl, rfl⟩
    | later hleft hj =>
      dsimp only at hj
      split at hj
      · cases hj
      · cases hj with
        | ask => exact ⟨Or.inr rfl, hR ⟨constants, l, st⟩ _ hleft⟩
        | later _ hj =>
          dsimp only at hj
          split at hj <;> cases hj

end Calls

/-- What becomes of an execution, with room for every name. -/
def outcome (ns : Namespace Node) (fr : Frame) : Except Failure Number × Execution :=
  execute ns ns.size fr.constants fr.code fr.shared

/-- So much room is not needed: that for the names which are not active will do. -/
theorem execute_eq_outcome {fr : Frame} {depth : Nat} (hroom : ns.unseen fr.shared.active ≤ depth) :
    execute ns depth fr.constants fr.code fr.shared = outcome ns fr := by
  obtain ⟨more, rfl⟩ := Nat.exists_eq_add_of_le hroom
  obtain ⟨rest, hsize⟩ := Nat.exists_eq_add_of_le (ns.unseen_le_size fr.shared.active)
  rw [outcome, hsize, execute_depth ns _ more _ _ _ (Nat.le_refl _),
    execute_depth ns _ rest _ _ _ (Nat.le_refl _)]

/-- What becomes of an execution leaves the active names as they were. -/
theorem active_outcome (ns : Namespace Node) (fr : Frame) : (outcome ns fr).2.active = fr.shared.active :=
  active_execute ns ns.size fr.constants fr.code fr.shared

/-- The procedure comes to what becomes of an execution, if its calls do. -/
theorem execution_run (ns : Namespace Node) (fr : Frame) :
    (execution ns fr).run (outcome ns) = outcome ns fr := by
  obtain ⟨constants, code, st⟩ := fr
  cases code with
  | literal c args =>
    rw [outcome, execute]
    rfl
  | lookup x =>
    rw [outcome, execute]
    simp only [execution]
    by_cases hx : x ∈ st.active
    · rw [if_pos hx, if_pos hx]
      rfl
    · rw [if_neg hx, if_neg hx]
      cases hb : ns.find? x with
      | none => rfl
      | some b =>
        -- there is a bound name that is not active, so there is room for it, and enough is left
        have hless := Namespace.unseen_cons_lt (Namespace.mem_names_of_find? hb) hx
        have hsize := ns.unseen_le_size st.active
        obtain ⟨d, hd⟩ : ∃ d, ns.size = d + 1 := ⟨ns.size - 1, by omega⟩
        have hroom : ns.unseen (x :: st.active) ≤ d := by omega
        have hinside :=
          execute_depth ns d 1 b.constants b.code ⟨st.engine.compile b, x :: st.active⟩ hroom
        simp only [hd]
        cases ns.clash? b.expr with
        | some c => rfl
        | none =>
          simp only [Plan.run, outcome, hd]
          exact congrArg (fun out => (out.1, out.2.leave x)) hinside
  | operation op l r =>
    rw [outcome, execute]
    simp only [execution, Plan.run, outcome]
    cases (execute ns ns.size constants l st).1 with
    | error f => rfl
    | ok a =>
      simp only [Plan.run, outcome]
      cases (execute ns ns.size constants r (execute ns ns.size constants l st).2).1 <;> rfl

/-- **Executions end**: the procedure answers every call, with what becomes of the execution when there
    is room for every name. -/
theorem execution_returns (ns : Namespace Node) (fr : Frame) :
    (execution ns).Returns fr (outcome ns fr) := by
  refine Procedure.returns_of_size (execution_run ns)
    (fun fr => (ns.unseen fr.shared.active, sizeOf fr.code)) ?_ fr
  intro fr fr' h
  have hR : ∀ fr out, outcome ns fr = out → out.2.active = fr.shared.active := by
    rintro fr _ rfl
    exact active_outcome ns fr
  rcases makes_cases hR h with ⟨x, b, _, hx, hb, _, hactive⟩ | ⟨op, l, r, hcode, hoperand, hactive⟩
  · -- into a binding: fewer names are not active
    apply Prod.Lex.left
    rw [hactive]
    exact Namespace.unseen_cons_lt (Namespace.mem_names_of_find? hb) hx
  · -- into an operand: the same names are active, and the code is smaller
    rw [hactive, hcode]
    apply Prod.Lex.right
    rw [Code.operation.sizeOf_spec]
    rcases hoperand with h | h <;> rw [h] <;> omega

/-- Whatever the procedure returns, the active names are as they were. -/
theorem active_of_returns {fr : Frame} {out : Except Failure Number × Execution}
    (h : (execution ns).Returns fr out) :
    out.2.active = fr.shared.active := by
  rw [h.unique (execution_returns ns fr)]
  exact active_outcome ns fr

/-- What an execution has executed, in the course of the procedure. -/
theorem calls_cases {fr fr' : Frame} (h : (execution ns).Calls fr fr') :
    (∃ x b, fr.code = .lookup x ∧ x ∉ fr.shared.active ∧ ns.find? x = some b ∧ fr'.code = b.code ∧
        fr'.shared.active = x :: fr.shared.active) ∨
      ∃ op l r, fr.code = .operation op l r ∧ (fr'.code = l ∨ fr'.code = r) ∧
        fr'.shared.active = fr.shared.active :=
  makes_cases (fun _ _ => active_of_returns) h

section Calls

variable {constants : List String} {op : Operator} {l r : Code} {st : Execution}

/-- A look-up that finds a binding has it executed. -/
theorem calls_lookup {x : String} {b : Node} (hx : x ∉ st.active) (hb : ns.find? x = some b)
    (hclash : ns.clash? b.expr = none) :
    (execution ns).Calls ⟨constants, .lookup x, st⟩
      ⟨b.constants, b.code, ⟨st.engine.compile b, x :: st.active⟩⟩ := by
  simp only [Procedure.Calls, execution, if_neg hx, hb, hclash]
  exact .ask

/-- An operation has its left operand executed. -/
theorem calls_left : (execution ns).Calls ⟨constants, .operation op l r, st⟩ ⟨constants, l, st⟩ := .ask

/-- An operation whose left operand has come to a number has its right operand executed. -/
theorem calls_right {x : Number} {st' : Execution}
    (h : (execution ns).Returns ⟨constants, l, st⟩ (.ok x, st')) :
    (execution ns).Calls ⟨constants, .operation op l r, st⟩ ⟨constants, r, st'⟩ :=
  .later h .ask

end Calls

/-- **The active names are restored.**  Whatever code is executed, in whatever namespace and with
    whatever names active, the execution ends, in what the engine's execution comes to if it has room
    for the names that are not active; and then the names are active that were so at its beginning, be
    it with a number or with a failure of any kind.  Only inside a look-up one more name is active,
    which was not so before.  Hence both operands of an operation are executed with the names active
    that are so for the operation, the right one whenever the left one has come to a number. -/
theorem active_restored (ns : Namespace Node) (fr : Frame) :
    (∀ depth, (execute ns depth fr.constants fr.code fr.shared).2.active = fr.shared.active) ∧
      (∃ out, (execution ns).Returns fr out ∧ out.2.active = fr.shared.active ∧
        ∀ depth, ns.unseen fr.shared.active ≤ depth →
          execute ns depth fr.constants fr.code fr.shared = out) ∧
      (∀ x, fr.code = .lookup x → ∀ fr', (execution ns).Calls fr fr' →
        x ∉ fr.shared.active ∧ fr'.shared.active = x :: fr.shared.active) ∧
      ∀ op l r, fr.code = .operation op l r →
        (execution ns).Calls fr ⟨fr.constants, l, fr.shared⟩ ∧
          (∀ x st, (execution ns).Returns ⟨fr.constants, l, fr.shared⟩ (.ok x, st) →
            (execution ns).Calls fr ⟨fr.constants, r, st⟩) ∧
          ∀ fr', (execution ns).Calls fr fr' → fr'.shared.active = fr.shared.active := by
  have hends : ∃ out, (execution ns).Returns fr out ∧ out.2.active = fr.shared.active ∧
      ∀ depth, ns.unseen fr.shared.active ≤ depth →
        execute ns depth fr.constants fr.code fr.shared = out :=
    ⟨outcome ns fr, execution_returns ns fr, active_outcome ns fr, fun _ => execute_eq_outcome⟩
  obtain ⟨constants, code, st⟩ := fr
  refine ⟨fun depth => active_execute ns depth _ _ _, hends, fun x hcode fr' hcall => ?_,
    fun op l r hcode => ?_⟩
  · -- a look-up calls the execution of a binding only
    rcases calls_cases hcall with ⟨y, b, hy, hactive, _, _, hentered⟩ | ⟨op, l, r, hop, _⟩
    · cases hcode.symm.trans hy
      exact ⟨hactive, hentered⟩
    · cases hcode.symm.trans hop
  · cases hcode
    refine ⟨calls_left, fun x st' hleft => calls_right hleft, fun fr' hcall => ?_⟩
    rcases calls_cases hcall with ⟨y, b, hy, _⟩ | ⟨_, _, _, _, _, hactive⟩
    · cases hy
    · exact hactive

/-- The name `x` is bound to the number two. -/
def deuce : Namespace Node := (∅ : Namespace Node).bind "x" (.integer 0 2)

/-- While the binding of `y` is being evaluated, `x` is added to one. -/
def addition : Frame := ⟨["__int__"], .operation .add (.literal "__int__" [1]) (.lookup "x"), ⟨{}, ["y"]⟩⟩

/-- The sum is three, and `y` is active as before.  The right operand is executed while only `y` is
    active, as the left one was.  Inside it, `x` is active as well. -/
theorem active_restored_addition :
    (execute deuce 1 addition.constants addition.code addition.shared).2.active = ["y"] ∧
      (∃ out, (execution deuce).Returns addition out ∧ out.1 = .ok (.int 3) ∧ out.2.active = ["y"]) ∧
      (∃ fr', (execution deuce).Calls addition fr' ∧ fr'.code = .lookup "x" ∧ fr'.shared.active = ["y"]) ∧
      ∃ fr', (execution deuce).Calls ⟨["__int__"], .lookup "x", ⟨{}, ["y"]⟩⟩ fr' ∧
        fr'.shared.active = ["x", "y"] := by
  obtain ⟨hactive, ⟨out, hreturns, hrestored, _⟩, _, hoperation⟩ := active_restored deuce addition
  have hsum : (execution deuce).Returns addition
      (.ok (.int 3), ⟨({} : Engine).compile (.integer 0 2), ["y"]⟩) :=
    ⟨3, rfl⟩
  obtain ⟨_, hright, hboth⟩ := hoperation _ _ _ rfl
  have hcall := hright (.int 1) ⟨{}, ["y"]⟩ ⟨1, rfl⟩
  have hinside : (execution deuce).Calls ⟨["__int__"], .lookup "x", ⟨{}, ["y"]⟩⟩ _ :=
    calls_lookup (by decide : "x" ∉ ["y"]) rfl (by decide)
  refine ⟨hactive 1, ⟨out, hreturns, by rw [hreturns.unique hsum], hrestored⟩,
    ⟨_, hcall, rfl, hboth _ hcall⟩, _, hinside, ?_⟩
  exact ((active_restored deuce _).2.2.1 "x" rfl _ hinside).2

end Engine

end Reckoner
