/-
  The normal form that specialization computes.  An expression is normal when nothing is left to do in
  it: its bound names are all on cycles, and no operation in it stands on two literals that have a
  number together (`Expr.Normal`).

  Whatever specialization leaves is normal (`normal_of_specialize`), and a normal node comes back as
  itself, since both of its operands do and nothing is folded (`specialize_of_normal`).  From the two
  together comes the law of identity: a node comes back as itself exactly if it is normal.  It needs
  that nodes are told apart by their numbers, which is so for all nodes that the engine has made
  (`Made`).

  On known inputs nothing keeps an expression from being folded, so a number comes out of an evaluation
  exactly if its literal is left of the expression.  What is left without any name, and is no literal of
  a number, can fail in one way only (`eq_divisionByZero_of_closed`).
-/
import Reckoner.Proofs.Engine
import Reckoner.Proofs.Evaluated

namespace Reckoner

/-! ## Normal expressions

  `Normal` is said of all parts at once.  The three lemmas below say it by the form of the expression,
  which is how specialization goes through it. -/

/-- The parts of an expression: itself, and the parts of its operands. -/
def Expr.parts : Expr → List Expr
  | integer n => [integer n]
  | rational n d => [rational n d]
  | reference x => [reference x]
  | binary op l r => binary op l r :: (l.parts ++ r.parts)

/-- An expression in which nothing is left to do. -/
structure Expr.Normal (ns : Namespace Expr) (e : Expr) : Prop where
  /-- No part is a name that is bound and on no cycle. -/
  names : ∀ x b, .reference x ∈ e.parts → ns.find? x = some b → ns.onCycle x = true
  /-- No part is an operation on two literals that can be folded. -/
  operations : ∀ op l r, .binary op l r ∈ e.parts → l.isLiteral = true → r.isLiteral = true →
    ∀ z, fold op l r ≠ .ok (some z)

section Normal

variable {ns : Namespace Expr} {op : Operator} {l r e e' : Expr}

/-- There is nothing to do in a literal. -/
theorem Expr.normal_of_isLiteral (he : e.isLiteral = true) : e.Normal ns := by
  cases e with
  | integer n => exact ⟨by simp [parts], by simp [parts]⟩
  | rational n d => exact ⟨by simp [parts], by simp [parts]⟩
  | reference x => cases he
  | binary op l r => cases he

/-- A name is normal if it is not bound or on a cycle. -/
theorem Expr.normal_reference {x : String} :
    (reference x).Normal ns ↔ ∀ b, ns.find? x = some b → ns.onCycle x = true := by
  constructor
  · intro h b hb
    exact h.names x b List.mem_cons_self hb
  · intro h
    refine ⟨fun y b hy hb => ?_, by simp [parts]⟩
    cases List.mem_singleton.1 hy
    exact h b hb

/-- An operation is normal if its operands are, and it cannot be folded itself. -/
theorem Expr.normal_binary :
    (binary op l r).Normal ns ↔
      l.Normal ns ∧ r.Normal ns ∧
      (l.isLiteral = true → r.isLiteral = true → ∀ z, fold op l r ≠ .ok (some z)) := by
  constructor
  · intro h
    -- the parts of an operand are parts of the operation
    have hleft : ∀ {p : Expr}, p ∈ l.parts → p ∈ (binary op l r).parts :=
      fun hp => List.mem_cons_of_mem _ (List.mem_append_left _ hp)
    have hright : ∀ {p : Expr}, p ∈ r.parts → p ∈ (binary op l r).parts :=
      fun hp => List.mem_cons_of_mem _ (List.mem_append_right _ hp)
    exact ⟨⟨fun x b hx => h.names x b (hleft hx), fun o a b hp => h.operations o a b (hleft hp)⟩,
      ⟨fun x b hx => h.names x b (hright hx), fun o a b hp => h.operations o a b (hright hp)⟩,
      h.operations op l r List.mem_cons_self⟩
  · -- a part is the operation itself, or a part of one of the operands
    rintro ⟨hl, hr, hfold⟩
    constructor
    · intro x b hx
      rcases List.mem_cons.1 hx with hx | hx
      · cases hx
      · rcases List.mem_append.1 hx with hx | hx
        · exact hl.names x b hx
        · exact hr.names x b hx
    · intro o a b hp
      rcases List.mem_cons.1 hp with hp | hp
      · cases hp
        exact hfold
      · rcases List.mem_append.1 hp with hp | hp
        · exact hl.operations o a b hp
        · exact hr.operations o a b hp

/-- Folding gives literals. -/
theorem isLiteral_of_fold {z : Expr} (h : fold op l r = .ok (some z)) : z.isLiteral = true := by
  rw [fold_eq] at h
  split at h
  · cases h
    exact Expr.isLiteral_ofNumber _
  · split at h <;> cases h

/-- Two operands that stay an operation cannot be folded. -/
theorem fold_ne_of_combine (h : combine op l r = .ok (.binary op l r)) (hl : l.isLiteral = true)
    (hr : r.isLiteral = true) (z : Expr) : fold op l r ≠ .ok (some z) := by
  intro hfold
  simp only [combine, hl, hr, hfold, Bool.and_self, if_true] at h
  cases h
  cases isLiteral_of_fold hfold

/-- **What specialization leaves is normal.** -/
theorem normal_of_specialize (hs : specialize ns e = .ok e') : e'.Normal ns := by
  refine specialize_induction (P := fun _ e' => e'.Normal ns) (fun _ he => Expr.normal_of_isLiteral he) ?_
    (fun _ _ _ _ _ ih => ih) ?_ hs
  · -- a name is left only if it is stuck
    rintro x (hnone | hc)
    · refine Expr.normal_reference.2 fun b hb => ?_
      rw [hnone] at hb
      cases hb
    · exact Expr.normal_reference.2 fun _ _ => hc
  · -- of an operation there is left an operation that could not be folded, or a literal
    intro op l r l' r' e' hl hr hcomb
    rcases combine_cases hcomb with rfl | ⟨z, _, _, _, rfl⟩
    · exact Expr.normal_binary.2 ⟨hl, hr, fold_ne_of_combine hcomb⟩
    · exact Expr.normal_of_isLiteral (Expr.isLiteral_ofNumber z)

end Normal

/-! ## Nodes that come back as themselves

  Now with nodes in place of expressions.  The engine compares nodes by their numbers, and makes a new
  operation only if an operand has come back with another number. -/

namespace Engine

variable {en : Engine} {ns : Namespace Node} {n : Node}

/-- Literals that cannot be folded are left alone. -/
theorem fold_eq_none {op : Operator} {l r : Node}
    (harithmetic : (Expr.binary op l.expr r.expr).isArithmetic = true)
    (hfold : ∀ z, Reckoner.fold op l.expr r.expr ≠ .ok (some z)) : (en.fold op l r).1 = .ok none := by
  have hsame := (fold_yields (Store.endsAt_empty en.fresh) op l r).outcome
  -- folding nodes is folding what they say, and that is refused
  obtain ⟨m, hm⟩ := exists_fold harithmetic
  cases m with
  | some z => exact absurd hm (hfold z)
  | none =>
    obtain ⟨m', hm', hnone⟩ := exists_of_map_ok (hsame.trans hm)
    rw [hm', Option.map_eq_none_iff.1 hnone]

/-- **A normal node comes back as itself**, with its number, whatever the engine remembers. -/
theorem specialize_of_normal (hnormal : n.expr.Normal ns.exprs) (hn : n.expr.isArithmetic = true)
    (en : Engine) :
    (en.specialize ns n).1 = .ok n := by
  induction n generalizing en with
  | integer i k => rw [specialize]
  | rational i k d => rw [specialize]
  | reference i x =>
    rw [specialize]
    split
    · rfl
    · rename_i b hb
      have hc := Expr.normal_reference.1 hnormal b.expr (by rw [Namespace.find?_exprs, hb]; rfl)
      rw [Namespace.onCycle_exprs] at hc
      rw [if_pos hc]
  | binary i op l r ihl ihr =>
    obtain ⟨hl, hr, hfold⟩ := Expr.normal_binary.1 hnormal
    obtain ⟨_, hal, har⟩ := Expr.isArithmetic_binary.1 hn
    rw [specialize]
    simp only [ihl hl hal, ihr hr har]
    -- neither operand has changed, so there is no new operation
    simp only [combine, ne_eq, not_true_eq_false, decide_false, Bool.or_self,
      Bool.false_eq_true, if_false]
    split
    · rename_i hlit
      obtain ⟨hll, hlr⟩ := (Bool.and_eq_true _ _).mp hlit
      rw [fold_eq_none hn (hfold hll hlr)]
    · rfl

/-- The engine has made a node and the nodes of a namespace: nodes of one number are one node, and the
    numbers that are still to be given are given to none of them. -/
def Made (en : Engine) (ns : Namespace Node) (n : Node) : Prop :=
  ∃ store : Store, store.EndsAt en.fresh ∧ ns.Stored store ∧ n.Stored store

/-- `Settles en ns n` — what is left of the node `n` is normal; it is `n` itself, which shows in its
    number, exactly if `n` is normal; and it is what is left of itself. -/
def Settles (en : Engine) (ns : Namespace Node) (n : Node) : Prop :=
  ∃ n', (en.specialize ns n).1 = .ok n' ∧ n'.expr.Normal ns.exprs ∧ (n' = n ↔ n.expr.Normal ns.exprs) ∧
    (n'.id = n.id ↔ n.expr.Normal ns.exprs) ∧ ∀ en' : Engine, (en'.specialize ns n').1 = .ok n'

/-- **Made nodes settle.** That what is left is normal comes from the expressions; that a normal node
    comes back as itself, from the nodes; and that no other does, from both, since what is left is
    normal. -/
theorem settles_of_made (hmade : en.Made ns n) (hns : ns.exprs.Arithmetic)
    (hn : n.expr.isArithmetic = true) :
    en.Settles ns n := by
  obtain ⟨store, hends, hbound, hstored⟩ := hmade
  have hspecial := specialize_yields hends hbound hstored
  obtain ⟨e', he'⟩ := exists_specialize hns hn
  obtain ⟨n', hn', rfl⟩ := exists_of_map_ok (hspecial.outcome.trans he')
  have hnormal := normal_of_specialize he'
  have hback : n.expr.Normal ns.exprs → n' = n := fun h =>
    Except.ok.inj (hn'.symm.trans (specialize_of_normal h hn en))
  -- in the store that has grown by the new nodes, the number of `n` is still the number of `n`
  obtain ⟨store', hext, _, hheld⟩ := hspecial.grown
  have hid : n'.id = n.id → n' = n := (hheld n' hn').eq_of_id (hstored.mono hext)
  refine ⟨n', hn', hnormal, ⟨fun h => h ▸ hnormal, hback⟩,
    ⟨fun h => hid h ▸ hnormal, fun h => by rw [hback h]⟩, ?_⟩
  exact specialize_of_normal hnormal (isArithmetic_specialize hns he' hn)

end Engine

/-- Nodes can be made for the entries of a namespace, one after the other. -/
theorem exists_stored_entries (es : List (String × Expr)) {store : Store} {next : Nat}
    (h : store.EndsAt next) :
    ∃ (es' : List (String × Node)) (store' : Store) (next' : Nat),
      es'.map (fun p => (p.1, p.2.expr)) = es ∧ store.Extends store' ∧ store'.EndsAt next' ∧
        ∀ p ∈ es', p.2.Stored store' := by
  induction es generalizing store next with
  | nil => exact ⟨[], store, next, rfl, .refl store, h, by rintro _ ⟨⟩⟩
  | cons p es ih =>
    obtain ⟨s, hs, hends, hstored⟩ := Node.exists_stored_place p.2 h
    obtain ⟨es', s', next', hmap, hs', hends', hall⟩ := ih hends
    refine ⟨(p.1, (Node.place next p.2).1) :: es', s', next', ?_, hs.trans hs', hends', ?_⟩
    · rw [List.map_cons, hmap, Node.expr_place]
    · exact List.forall_mem_cons.2 ⟨hstored.mono hs', hall⟩

/-- Nodes can be made for every namespace and every expression. -/
theorem exists_made (ns : Namespace Expr) (e : Expr) :
    ∃ (en : Engine) (bindings : Namespace Node) (n : Node), bindings.exprs = ns ∧ n.expr = e ∧
      en.Made bindings n := by
  obtain ⟨es, store, next, hmap, _, hends, hall⟩ :=
    exists_stored_entries ns.entries (Store.endsAt_empty 0)
  obtain ⟨store', hext, hends', hstored⟩ := Node.exists_stored_place e hends
  -- the names stay in their order, so the entries are those of a namespace
  have hrising : es.Pairwise fun a b => a.1 < b.1 := by
    have h := ns.rising
    rwa [← hmap, List.pairwise_map] at h
  refine ⟨{ fresh := (Node.place next e).2 }, ⟨es, hrising⟩, (Node.place next e).1, ?_,
    Node.expr_place next e, store', hends', fun x n hn => ?_, hstored⟩
  · cases ns
    cases hmap
    rfl
  · exact (hall _ (Namespace.mem_of_lookupIn hn)).mono hext

/-- **Specialization computes a normal form, and keeps the identity of nodes exactly on it.**  Let all
    operators of a namespace and an expression have arithmetic.  Nodes can be made for the two; and
    however they were made, what is left of the expression's node is normal, it is that very node
    exactly if the expression was normal, and to specialize it once more gives it back. -/
theorem specialize_settles (ns : Namespace Expr) (e : Expr) (hns : ns.Arithmetic)
    (he : e.isArithmetic = true) :
    (∃ (en : Engine) (bindings : Namespace Node) (n : Node),
        bindings.exprs = ns ∧ n.expr = e ∧ en.Made bindings n) ∧
      ∀ (en : Engine) (bindings : Namespace Node) (n : Node),
        bindings.exprs = ns → n.expr = e → en.Made bindings n → en.Settles bindings n := by
  refine ⟨exists_made ns e, ?_⟩
  rintro en bindings n rfl rfl hmade
  exact Engine.settles_of_made hmade hns he

/-- `a` is bound to `a + 1`, `b` to `c * 2` and `c` to `1 / 0`. -/
def burrow : Namespace Expr :=
  (((∅ : Namespace Expr).bind "a" (.binary .add (.reference "a") (.integer 1))).bind "b"
    (.binary .mul (.reference "c") (.integer 2))).bind "c" (.binary .div (.integer 1) (.integer 0))

/-- Of `a - b` there is left `a - (1 / 0) * 2`, which is another node, and stays. -/
theorem specialize_settles_burrow :
    burrow.Arithmetic ∧ ∃ (en : Engine) (bindings : Namespace Node) (n n' : Node),
      bindings.exprs = burrow ∧ n.expr = .binary .sub (.reference "a") (.reference "b") ∧
      en.Made bindings n ∧
        (en.specialize bindings n).1 = .ok n' ∧ n'.id ≠ n.id ∧
        n'.expr = .binary .sub (.reference "a")
          (.binary .mul (.binary .div (.integer 1) (.integer 0)) (.integer 2)) ∧
        n'.expr.Normal burrow ∧ ∀ en' : Engine, (en'.specialize bindings n').1 = .ok n' := by
  have harithmetic : burrow.Arithmetic := ((arithmetic_empty.bind "a" rfl).bind "b" rfl).bind "c" rfl
  obtain ⟨⟨en, bindings, n, hns, hn, hmade⟩, hsettles⟩ :=
    specialize_settles burrow (.binary .sub (.reference "a") (.reference "b")) harithmetic rfl
  obtain ⟨n', hn', hnormal, _, hid, hagain⟩ := hsettles en bindings n hns hn hmade
  rw [hns] at hnormal hid
  have hleft : specialize burrow (.binary .sub (.reference "a") (.reference "b")) =
      .ok (.binary .sub (.reference "a")
        (.binary .mul (.binary .div (.integer 1) (.integer 0)) (.integer 2))) := by
    cbv
  have hb : burrow.onCycle "b" = false := by cbv
  refine ⟨harithmetic, en, bindings, n, n', hns, hn, hmade, hn', fun h => ?_, ?_, hnormal, hagain⟩
  · -- were it the same node it would be normal, and `b` on a cycle
    have hcycle :=
      (hid.1 h).names "b" (.binary .mul (.reference "c") (.integer 2)) (by rw [hn]; decide) rfl
    rw [hb] at hcycle
    cases hcycle
  · obtain ⟨store, hends, hbound, hstored⟩ := hmade
    have houtcome := (Engine.specialize_yields hends hbound hstored).outcome
    rw [hn', hns, hn, hleft] at houtcome
    exact Except.ok.inj houtcome

/-! ## Known inputs

  Where no name is left, the failures that names can cause are out of the question.  The only other one,
  for operators with arithmetic, is a division by zero; and an operation of literals without one would
  have been folded. -/

/-- An expression without names fails only by dividing by zero. -/
theorem eq_divisionByZero_of_closed {ns : Namespace Expr} {active : List String} {e : Expr}
    (hfree : e.free = []) (he : e.isArithmetic = true) {f : Failure}
    (hf : evaluateIn ns active e = .error f) : f = .divisionByZero := by
  induction e generalizing f with
  | integer n => rw [evaluateIn] at hf; cases hf
  | rational n d =>
    simp only [evaluateIn, Constructor.apply] at hf
    split at hf
    · cases hf
      rfl
    · cases hf
  | reference x => cases hfree
  | binary op l r ihl ihr =>
    -- the failure of the first operand that has one, and else that of the operator
    obtain ⟨hl, hr⟩ := List.append_eq_nil_iff.1 hfree
    obtain ⟨hop, hal, har⟩ := Expr.isArithmetic_binary.1 he
    rw [evaluateIn_binary] at hf
    cases hvl : evaluateIn ns active l with
    | error g =>
      rw [hvl] at hf
      cases hf
      exact ihl hl hal hvl
    | ok x =>
      cases hvr : evaluateIn ns active r with
      | error g =>
        rw [hvl, hvr] at hf
        cases hf
        exact ihr hr har hvr
      | ok y =>
        rw [hvl, hvr] at hf
        exact Number.eq_divisionByZero_of_apply hop hf

/-- `Tells e' left out` — what is left of an expression, `e'` with the outcome `left`, tells the outcome
    `out` of the expression: a number comes out exactly if `e'` is a literal of that number, and if `e'`
    has no names and is no literal of a number, the expression divides by zero. -/
structure Expr.Tells (e' : Expr) (left out : Except Failure Number) : Prop where
  number : ∀ v, out = .ok v ↔ e'.isLiteral = true ∧ left = .ok v
  failure : e'.free = [] → (∀ v, ¬(e'.isLiteral = true ∧ left = .ok v)) → out = .error .divisionByZero

/-- What is left of an expression tells its outcome, where nothing leads to a fault. -/
theorem tells_of_specialize {ns : Namespace Expr} {e e' : Expr} (h : ns.Unreserved) (hns : ns.Arithmetic)
    (he : e.isArithmetic = true) (hs : specialize ns e = .ok e') :
    e'.Tells (evaluate ns e') (evaluate ns e) := by
  have hsame : evaluate ns e' = evaluate ns e := by
    rw [evaluate_eq h, evaluate_eq h, evaluateIn_specialize h hs]
  have hnumber : ∀ v, evaluate ns e = .ok v ↔ e'.isLiteral = true ∧ evaluate ns e' = .ok v := by
    intro v
    rw [hsame]
    refine ⟨fun hv => ⟨?_, hv⟩, And.right⟩
    exact isLiteral_of_number h hs (by rw [← evaluate_eq h, hv])
  refine ⟨hnumber, fun hfree hnone => ?_⟩
  cases hv : evaluate ns e with
  | ok v => exact absurd ((hnumber v).1 hv) (hnone v)
  | error f =>
    rw [← hsame, evaluate_eq h] at hv
    rw [eq_divisionByZero_of_closed hfree (isArithmetic_specialize hns hs he) hv]

/-- **Specialization is complete on known inputs.**  In a namespace that binds no constant, and with
    operators that all have arithmetic, an expression evaluates to a number exactly if a literal of that
    number is left of it; and if what is left has no names and is no such literal, the expression
    divides by zero.  The engine finds the same, for any nodes that were made for the two and whatever
    it remembers when it evaluates. -/
theorem specialize_tells (ns : Namespace Expr) (e : Expr) (h : ns.Unreserved) (hns : ns.Arithmetic)
    (he : e.isArithmetic = true) :
    (∃ e', specialize ns e = .ok e' ∧ e'.Tells (evaluate ns e') (evaluate ns e)) ∧
      ∀ (en : Engine) (bindings : Namespace Node) (n : Node),
        bindings.exprs = ns → n.expr = e → en.Made bindings n →
          ∃ n', (en.specialize bindings n).1 = .ok n' ∧ ∀ en' en'' : Engine,
            n'.expr.Tells (en'.evaluate bindings n').1 (en''.evaluate bindings n).1 := by
  obtain ⟨e', hs⟩ := exists_specialize hns he
  have htells := tells_of_specialize h hns he hs
  refine ⟨⟨e', hs, htells⟩, ?_⟩
  rintro en bindings n rfl rfl ⟨store, hends, hbound, hstored⟩
  obtain ⟨n', hn', rfl⟩ :=
    exists_of_map_ok ((Engine.specialize_yields hends hbound hstored).outcome.trans hs)
  refine ⟨n', hn', fun en' en'' => ?_⟩
  -- an engine evaluates a node to what its expression is worth, whatever it has compiled
  rw [(en'.evaluate_eq bindings n').1, (en''.evaluate_eq bindings n).1]
  exact htells

/-- `a` is bound to `2` and `b` to `a * 3 : 4`. -/
def account : Namespace Expr :=
  ((∅ : Namespace Expr).bind "a" (.integer 2)).bind "b" (.binary .mul (.reference "a") (.rational 3 4))

/-- `(a + 1) / (b - 1 : 2)`. -/
def balance : Expr :=
  .binary .div (.binary .add (.reference "a") (.integer 1))
    (.binary .sub (.reference "b") (.rational 1 2))

/-- `b / (a - 2)`. -/
def overdraft : Expr := .binary .div (.reference "b") (.binary .sub (.reference "a") (.integer 2))

/-- `(a + 1) / (b - 1 : 2)` has the number `3` and leaves a literal of it; `b / (a - 2)` leaves an
    operation without names, and divides by zero.  The engine finds both, with the nodes that it makes
    for them. -/
theorem specialize_tells_account :
    account.Unreserved ∧ account.Arithmetic ∧
      (∃ e', specialize account balance = .ok e' ∧ e'.isLiteral = true ∧
        evaluate account e' = .ok (.int 3)) ∧
      evaluate account overdraft = .error .divisionByZero ∧
      (∃ (en : Engine) (bindings : Namespace Node) (n n' : Node),
        bindings.exprs = account ∧ n.expr = balance ∧ en.Made bindings n ∧
        (en.specialize bindings n).1 = .ok n' ∧
          n'.expr.isLiteral = true ∧ ∀ en' : Engine, (en'.evaluate bindings n').1 = .ok (.int 3)) ∧
      ∃ (en : Engine) (bindings : Namespace Node) (n n' : Node),
        bindings.exprs = account ∧ n.expr = overdraft ∧ en.Made bindings n ∧
        (en.specialize bindings n).1 = .ok n' ∧
          n'.expr.free = [] ∧ n'.expr.isLiteral = false ∧
          ∀ en' : Engine, (en'.evaluate bindings n).1 = .error .divisionByZero := by
  have hunreserved : account.Unreserved := by
    intro c
    cases c <;> decide
  have harithmetic : account.Arithmetic := (arithmetic_empty.bind "a" rfl).bind "b" rfl
  have ha : specialize account (.reference "a") = .ok (.integer 2) := by cbv
  have hb : specialize account (.reference "b") = .ok (.rational 3 2) := by
    have hcycle : account.onCycle "b" = false := by cbv
    rw [specialize_bound (b := .binary .mul (.reference "a") (.rational 3 4)) rfl, hcycle,
      if_neg Bool.false_ne_true, specialize_binary, ha, specialize_literal rfl]
    exact combine_number .mul (.int 2) (.fraction ⟨3, 4, by decide, by decide⟩)
  have hbalance : specialize account balance = .ok (.integer 3) := by
    have hsum : specialize account (.binary .add (.reference "a") (.integer 1)) = .ok (.integer 3) := by
      rw [specialize_binary, ha, specialize_literal rfl]
      exact combine_number .add (.int 2) (.int 1)
    have hdifference : specialize account (.binary .sub (.reference "b") (.rational 1 2)) =
        .ok (.integer 1) := by
      rw [specialize_binary, hb, specialize_literal rfl]
      exact combine_number .sub (.fraction ⟨3, 2, by decide, by decide⟩)
        (.fraction ⟨1, 2, by decide, by decide⟩)
    rw [balance, specialize_binary, hsum, hdifference]
    exact combine_number .div (.int 3) (.int 1)
  have hoverdraft : specialize account overdraft = .ok (.binary .div (.rational 3 2) (.integer 0)) := by
    have hdifference : specialize account (.binary .sub (.reference "a") (.integer 2)) =
        .ok (.integer 0) := by
      rw [specialize_binary, ha, specialize_literal rfl]
      exact combine_number .sub (.int 2) (.int 2)
    rw [overdraft, specialize_binary, hb, hdifference]
    exact combine_number .div (.fraction ⟨3, 2, by decide, by decide⟩) (.int 0)
  obtain ⟨⟨e, hs, htells⟩, hbalanced⟩ := specialize_tells account balance hunreserved harithmetic rfl
  obtain ⟨⟨e', hs', htells'⟩, hoverdrawn⟩ :=
    specialize_tells account overdraft hunreserved harithmetic rfl
  cases hs.symm.trans hbalance
  cases hs'.symm.trans hoverdraft
  have hnumber : evaluate account balance = .ok (.int 3) :=
    (htells.number _).2 ⟨rfl, by rw [evaluate_eq hunreserved, evaluateIn]; rfl⟩
  have hfailure : evaluate account overdraft = .error .divisionByZero :=
    htells'.failure rfl (by rintro _ ⟨⟨⟩, _⟩)
  refine ⟨hunreserved, harithmetic, ⟨_, hs, (htells.number _).1 hnumber⟩, hfailure, ?_, ?_⟩
  · obtain ⟨en, bindings, n, hns, hn, hmade⟩ := exists_made account balance
    obtain ⟨n', hn', htells⟩ := hbalanced en bindings n hns hn hmade
    have hvalue : ∀ en' : Engine, n'.expr.isLiteral = true ∧
        (en'.evaluate bindings n').1 = .ok (.int 3) := by
      intro en'
      refine ((htells en' en).number _).1 ?_
      rw [(en.evaluate_eq bindings n).1, hns, hn, hnumber]
    exact ⟨en, bindings, n, n', hns, hn, hmade, hn', (hvalue en).1, fun en' => (hvalue en').2⟩
  · obtain ⟨en, bindings, n, hns, hn, hmade⟩ := exists_made account overdraft
    obtain ⟨n', hn', htells⟩ := hoverdrawn en bindings n hns hn hmade
    have hexpr : n'.expr = .binary .div (.rational 3 2) (.integer 0) := by
      obtain ⟨store, hends, hbound, hstored⟩ := hmade
      have houtcome := (Engine.specialize_yields hends hbound hstored).outcome
      rw [hn', hns, hn, hoverdraft] at houtcome
      exact Except.ok.inj houtcome
    rw [hexpr] at htells
    refine ⟨en, bindings, n, n', hns, hn, hmade, hn', by rw [hexpr]; rfl, by rw [hexpr]; rfl,
      fun en' => ?_⟩
    exact (htells en en').failure rfl (by rintro _ ⟨⟨⟩, _⟩)

end Reckoner
