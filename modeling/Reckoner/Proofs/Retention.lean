/-
  A name keeps the number it was assigned.  Names are looked up when an evaluation meets them, so what a
  name stands for may change with every assignment to a name behind it.  A name that was assigned an
  expression with a number is the exception: specialization has folded the expression to a literal by
  then (`isLiteral_of_number`), and a literal mentions no name.  What happens to the names of the
  expression afterwards, be they bound anew or drawn into a cycle, cannot reach it.

  `follow` is the state behind a sequence of instructions or lines; it is defined only if all of them
  are executed.  One instruction leaves the bindings of all names but the one it assigns
  (`perform_frame`), hence so does every sequence of them (`exists_follow`).
-/
import Reckoner.Proofs.Evaluated
import Reckoner.Proofs.Session

namespace Reckoner

open Source

/-! ## States behind a source -/

/-- `follow act s source` — the state behind `source`, unless something in it stops the run. -/
def follow {σ ι ε : Type} (act : σ → ι → Except (Stop ε) (Option Result) × σ) (s : σ) :
    List ι → Except (Stop ε) σ
  | [] => .ok s
  | i :: rest =>
    match act s i with
    | (.error c, _) => .error c
    | (.ok _, s') => follow act s' rest

section Follow

variable {σ τ ι κ ε : Type} {act : σ → ι → Except (Stop ε) (Option Result) × σ}
  {act' : τ → κ → Except (Stop ε) (Option Result) × τ}

theorem follow_cons_error {s : σ} {i : ι} {c : Stop ε} (h : (act s i).1 = .error c) (rest : List ι) :
    follow act s (i :: rest) = .error c := by
  rw [follow, show act s i = (.error c, (act s i).2) from Prod.ext h rfl]

theorem follow_cons_ok {s : σ} {i : ι} {r : Option Result} (h : (act s i).1 = .ok r) (rest : List ι) :
    follow act s (i :: rest) = follow act (act s i).2 rest := by
  rw [follow, show act s i = (.ok r, (act s i).2) from Prod.ext h rfl]

/-- **States beside each other.**  If two ways to act give the same on states that belong together, and
    leave states that belong together, then the states behind a source belong together. -/
theorem follow_beside {R : σ → τ → Prop} {hears : ι → κ}
    (hact : ∀ s t i, R s t → (act s i).1 = (act' t (hears i)).1 ∧ R (act s i).2 (act' t (hears i)).2)
    {s : σ} {t : τ} (h : R s t) (source : List ι) :
    (∃ c, follow act s source = .error c ∧ follow act' t (source.map hears) = .error c) ∨
      ∃ s' t', follow act s source = .ok s' ∧ follow act' t (source.map hears) = .ok t' ∧ R s' t' := by
  induction source generalizing s t with
  | nil => exact Or.inr ⟨s, t, rfl, rfl, h⟩
  | cons i rest ih =>
    obtain ⟨hsame, hnext⟩ := hact s t i h
    rw [List.map_cons]
    cases ho : (act s i).1 with
    | error c => exact Or.inl ⟨c, follow_cons_error ho _, follow_cons_error (hsame ▸ ho) _⟩
    | ok r =>
      rw [follow_cons_ok ho, follow_cons_ok (hsame ▸ ho)]
      exact ih hnext

end Follow

/-! ## What instructions leave alone -/

section Frame

variable {ε : Type} {ns : Namespace Expr} {x : String}

/-- **The frame of one instruction**: it is executed, and binds no name but the one it assigns. -/
theorem perform_frame (hns : ns.Regular) {i : Instruction Expr} (hi : i.isWritable = true) :
    (∃ r, (perform (ε := ε) ns (.ok i)).1 = .ok r) ∧ (perform (ε := ε) ns (.ok i)).2.Regular ∧
      ∀ x, (∀ e, i ≠ .assign x e) → (perform (ε := ε) ns (.ok i)).2.find? x = ns.find? x := by
  rcases step_cases hns hi with ⟨y, e, e', rfl, _, hns', hstep⟩ | ⟨e, rfl, _, hstep⟩
  · rw [perform_of_step hstep]
    refine ⟨⟨none, rfl⟩, hns', fun x hx => Namespace.find?_bind_of_ne (fun hxy => ?_) e'⟩
    exact hx e (hxy ▸ rfl)
  · rw [perform_of_step hstep]
    exact ⟨⟨_, rfl⟩, hns, fun _ _ => rfl⟩

/-- Writable instructions leave a regular namespace. -/
theorem regular_of_follow (hns : ns.Regular) {source : Readings ε Expr}
    (hsource : ∀ i, .ok i ∈ source → i.isWritable = true) {ns' : Namespace Expr}
    (h : follow perform ns source = .ok ns') : ns'.Regular := by
  induction source generalizing ns with
  | nil =>
    cases h
    exact hns
  | cons item rest ih =>
    cases item with
    | error c => cases h
    | ok i =>
      obtain ⟨⟨r, hr⟩, hnext, _⟩ := perform_frame (ε := ε) hns (hsource i List.mem_cons_self)
      rw [follow_cons_ok hr] at h
      exact ih hnext (fun j hj => hsource j (List.mem_cons_of_mem _ hj)) h

/-- **The frame of a sequence of instructions**: all are executed, and a name that none of them assigns
    is bound as before. -/
theorem exists_follow (hns : ns.Regular) {source : Readings ε Expr}
    (hsource : ∀ item ∈ source, ∃ i, item = .ok i ∧ i.isWritable = true ∧ ∀ e, i ≠ .assign x e) :
    ∃ ns', follow perform ns source = .ok ns' ∧ ns'.Regular ∧ ns'.find? x = ns.find? x := by
  induction source generalizing ns with
  | nil => exact ⟨ns, rfl, hns, rfl⟩
  | cons item rest ih =>
    obtain ⟨⟨i, rfl, hi, hother⟩, hrest⟩ := List.forall_mem_cons.1 hsource
    obtain ⟨⟨r, hr⟩, hnext, hframe⟩ := perform_frame (ε := ε) hns hi
    obtain ⟨ns', hfollow, hns', hfind⟩ := ih hnext hrest
    exact ⟨ns', (follow_cons_ok hr rest).trans hfollow, hns', hfind.trans (hframe x hother)⟩

end Frame

/-! ## Numbers stay -/

section Number

variable {ε : Type} {ns : Namespace Expr} {x : String} {e : Expr} {v : Number}

/-- All operators of an expression with a number have arithmetic. -/
theorem isArithmetic_of_number {active : List String} (hv : evaluateIn ns active e = .ok v) :
    e.isArithmetic = true := by
  induction e generalizing v with
  | integer n => rfl
  | rational n d => rfl
  | reference y => rfl
  | binary op l r ihl ihr =>
    obtain ⟨a, b, hl, hr⟩ := ok_of_evaluateIn_binary hv
    refine Expr.isArithmetic_binary.2 ⟨?_, ihl hl, ihr hr⟩
    rw [evaluateIn_binary, hl, hr] at hv
    cases op with
    | other s => cases (Number.apply_other s a b).symm.trans hv
    | _ => rfl

/-- A name that is bound to a literal stands for the number of it. -/
theorem evaluate_reference_of_literal (hns : ns.Regular) {e' : Expr} (hb : ns.find? x = some e')
    (hlit : e'.isLiteral = true) : evaluate ns (.reference x) = evaluate ∅ e' := by
  rw [evaluate_eq hns.unreserved, evaluateIn_bound hns.unreserved List.not_mem_nil hb,
    evaluateIn_literal hlit, evaluate_eq unreserved_empty]

/-- **A number stays** with the name it was assigned to, whatever instructions follow that do not assign
    the name. -/
theorem follow_assign_number (hns : ns.Regular) (hx : ∀ c : Constructor, c.key ≠ x)
    (hv : evaluate ns e = .ok v) {source : Readings ε Expr}
    (hsource : ∀ item ∈ source, ∃ i, item = .ok i ∧ i.isWritable = true ∧ ∀ e, i ≠ .assign x e) :
    ∃ ns', follow perform ns (.ok (.assign x e) :: source) = .ok ns' ∧
      evaluate ns' (.reference x) = .ok v := by
  have he : e.isArithmetic = true := by
    rw [evaluate_eq hns.unreserved] at hv
    exact isArithmetic_of_number hv
  obtain ⟨e', hs⟩ := exists_specialize hns.arithmetic he
  -- the name is bound to a literal of the number
  obtain ⟨hlit, hnumber⟩ := (literal_iff_number hns.unreserved hs v).2 hv
  have hbound : (ns.bind x e').Regular := hns.bind hx (isArithmetic_specialize hns.arithmetic hs he)
  have hact : perform (ε := ε) ns (.ok (.assign x e)) = (.ok none, ns.bind x e') := perform_assign hs
  obtain ⟨ns', hfollow, hns', hfind⟩ := exists_follow hbound hsource
  refine ⟨ns', ?_, ?_⟩
  · rw [follow_cons_ok (congrArg Prod.fst hact), hact]
    exact hfollow
  · rw [Namespace.find?_bind_self] at hfind
    rw [evaluate_reference_of_literal hns' hfind hlit, hnumber]

end Number

/-- The same in a session, for the lines it reads. -/
theorem Session.follow_assign_number {en : Engine} {s : Session} {p q : List (Except ReadError Entry)}
    {item : Except ReadError Entry} {x : String} {n : Node} {v : Number}
    (hreach : follow (act Engine.fetch) ⟨en, ∅⟩ p = .ok s)
    (hitem : hear en.channels item = .ok (.assign x n.expr))
    (hv : (s.engine.evaluate s.bindings n).1 = .ok v)
    (hq : ∀ j ∈ q, ∃ i, hear en.channels j = .ok i ∧ ∀ e, i ≠ .assign x e) :
    ∃ t, follow (act Engine.fetch) s (item :: q) = .ok t ∧
      ∀ k, (t.engine.evaluate t.bindings (.reference k x)).1 = .ok v := by
  have hbeside : ∀ (s : Session) ns item, s.Mirrors en.channels ns →
      (s.act Engine.fetch item).1 = (perform ns (hear en.channels item)).1 ∧
        (s.act Engine.fetch item).2.Mirrors en.channels (perform ns (hear en.channels item)).2 :=
    fun _ _ item h => act_mirrors h item
  have hname : ∀ c : Constructor, c.key ≠ x :=
    key_ne_of_isName ((Bool.and_eq_true _ _).mp (isWritable_of_hear hitem)).1
  -- the session stands beside a plain program, which has bound the name to a literal
  obtain ⟨c, hstop, _⟩ | ⟨s', ns, hs', hfollow, hmirrors⟩ := follow_beside hbeside (mirrors_empty en) p
  · rw [hreach] at hstop
    cases hstop
  · cases hreach.symm.trans hs'
    have hns : ns.Regular := by
      refine regular_of_follow writable_empty.regular ?_ hfollow
      intro i hi
      obtain ⟨j, _, hj⟩ := List.mem_map.1 hi
      exact isWritable_of_hear hj
    rw [(s.engine.evaluate_eq s.bindings n).1, hmirrors.bindings] at hv
    have hsource : ∀ j ∈ q.map (hear en.channels),
        ∃ i, j = .ok i ∧ i.isWritable = true ∧ ∀ e, i ≠ .assign x e := by
      refine List.forall_mem_map.2 fun j hj => ?_
      obtain ⟨i, hi, hother⟩ := hq j hj
      exact ⟨i, hi, isWritable_of_hear hi, hother⟩
    obtain ⟨ns', hns', hnumber⟩ := Reckoner.follow_assign_number hns hname hv hsource
    rw [← hitem, ← List.map_cons] at hns'
    obtain ⟨c, _, hstop⟩ | ⟨t, ns'', ht, hplain, hmirrors'⟩ := follow_beside hbeside hmirrors (item :: q)
    · rw [hns'] at hstop
      cases hstop
    · cases hns'.symm.trans hplain
      refine ⟨t, ht, fun k => ?_⟩
      rw [(t.engine.evaluate_eq t.bindings _).1, hmirrors'.bindings]
      exact hnumber

/-- **A name keeps the number it was assigned.**  Let a program that was read from lines have led to a
    namespace in which `e` has the number `v`.  Behind an assignment of `e` to `x`, and any further
    program that was read from lines and does not assign `x`, all of which is executed, the name `x`
    stands for `v`.  For `x` any name will do that is no constant, as no name in a line is.  The same
    holds in a session, for the lines it reads. -/
theorem evaluate_assigned_number :
    (∀ (p q : List (Instruction Expr)) (ns : Namespace Expr) (x : String) (e : Expr) (v : Number),
      (∀ i ∈ p, ∃ line, readLine line = .ok i) →
        follow (perform (ε := ReadError)) ∅ (p.map .ok) = .ok ns →
      (∀ c : Constructor, c.key ≠ x) → evaluate ns e = .ok v →
      (∀ i ∈ q, ∃ line, readLine line = .ok i) → (∀ e', .assign x e' ∉ q) →
      ∃ ns', follow (perform (ε := ReadError)) ns ((.assign x e :: q).map .ok) = .ok ns' ∧
        evaluate ns' (.reference x) = .ok v) ∧
    ∀ (en : Engine) (p q : List (Except ReadError Entry)) (s : Session) (item : Except ReadError Entry)
      (x : String) (n : Node) (v : Number),
      follow (Session.act Engine.fetch) ⟨en, ∅⟩ p = .ok s →
      hear en.channels item = .ok (.assign x n.expr) →
      (s.engine.evaluate s.bindings n).1 = .ok v →
      (∀ j ∈ q, ∃ i, hear en.channels j = .ok i ∧ ∀ e', i ≠ .assign x e') →
      ∃ t, follow (Session.act Engine.fetch) s (item :: q) = .ok t ∧
        ∀ k, (t.engine.evaluate t.bindings (.reference k x)).1 = .ok v := by
  constructor
  · intro p q ns x e v hp hreach hx hv hq hother
    have hns : ns.Regular := by
      refine regular_of_follow writable_empty.regular ?_ hreach
      intro i hi
      obtain ⟨j, hj, hij⟩ := List.mem_map.1 hi
      cases hij
      exact exists_readLine_iff.1 (hp i hj)
    refine follow_assign_number hns hx hv (List.forall_mem_map.2 fun i hi => ?_)
    exact ⟨i, rfl, exists_readLine_iff.1 (hq i hi), fun e' he' => hother e' (he' ▸ hi)⟩
  · intro en p q s item x n v hreach hitem hv hq
    exact Session.follow_assign_number hreach hitem hv hq

/-- `a := 2`, `b := a * 3`. -/
def opening : List (Instruction Expr) :=
  [.assign "a" (.integer 2), .assign "b" (.binary .mul (.reference "a") (.integer 3))]

/-- `a := b + c`, `c := a`, `b := 0`, `>>> c`: names bound anew, and a cycle. -/
def upheaval : List (Instruction Expr) :=
  [.assign "a" (.binary .add (.reference "b") (.reference "c")), .assign "c" (.reference "a"),
    .assign "b" (.integer 0), .evaluate (.reference "c")]

/-- The line that an instruction is written on. -/
def lineOf (k : Nat) (i : Instruction Expr) : Except ReadError Entry := .ok ⟨"s", k, i.text.toList⟩

theorem hear_lineOf (k : Nat) {i : Instruction Expr} (hi : i.isWritable = true) :
    hear [] (lineOf k i) = .ok i := by
  rw [hear_of_clear (by rintro ⟨⟩), lineOf, show (Except.ok _ >>= Entry.read) = Entry.read _ from rfl,
    Entry.read, readLine_text hi]
  rfl

/-- Behind `opening` the expression `a + b` has the number `8`, and `x` keeps it through `upheaval`.  A
    session that reads `x := 2 + 6` and then the lines of `upheaval` keeps it as well. -/
theorem evaluate_assigned_number_upheaval :
    (∀ i ∈ opening ++ upheaval, ∃ line, readLine line = .ok i) ∧
      (∃ ns ns', follow (perform (ε := ReadError)) ∅ (opening.map .ok) = .ok ns ∧
        follow (perform (ε := ReadError)) ns
          ((.assign "x" (.binary .add (.reference "a") (.reference "b")) :: upheaval).map .ok) = .ok ns' ∧
        evaluate ns' (.reference "x") = .ok (.int 8)) ∧
      ∃ t, follow (Session.act Engine.fetch) ⟨{}, ∅⟩
          (lineOf 1 (.assign "x" (.binary .add (.integer 2) (.integer 6))) :: upheaval.map (lineOf 2)) =
            .ok t ∧
        ∀ k, (t.engine.evaluate t.bindings (.reference k "x")).1 = .ok (.int 8) := by
  have hwritable : ∀ i ∈ opening ++ upheaval, i.isWritable = true := by decide
  have hread : ∀ i ∈ opening ++ upheaval, ∃ line, readLine line = .ok i := fun i hi =>
    exists_readLine_iff.2 (hwritable i hi)
  have hother : ∀ i ∈ upheaval, ∀ e', i ≠ .assign "x" e' := by simp [upheaval]
  refine ⟨hread, ?_, ?_⟩
  · have hreach : follow (perform (ε := ReadError)) ∅ (opening.map .ok) =
        .ok (((∅ : Namespace Expr).bind "a" (.integer 2)).bind "b" (.integer 6)) := by
      cbv
    obtain ⟨ns', hns', hx⟩ := evaluate_assigned_number.1 opening upheaval _ "x"
      (.binary .add (.reference "a") (.reference "b")) (.int 8)
      (fun i hi => hread i (List.mem_append_left _ hi)) hreach (key_ne_of_isName (by decide)) (by cbv)
      (fun i hi => hread i (List.mem_append_right _ hi)) (fun e' he' => hother _ he' e' rfl)
    exact ⟨_, ns', hreach, hns', hx⟩
  · have hitem : hear [] (lineOf 1 (.assign "x" (.binary .add (.integer 2) (.integer 6)))) =
        .ok (.assign "x" (Node.binary 2 .add (.integer 0 2) (.integer 1 6)).expr) :=
      hear_lineOf 1 (by decide)
    refine evaluate_assigned_number.2 {} [] _ _ _ "x" _ (.int 8) rfl hitem ?_ ?_
    · rw [(Engine.evaluate_eq _ _ _).1]
      cbv
    · refine List.forall_mem_map.2 fun i hi => ⟨i, ?_, hother i hi⟩
      exact hear_lineOf 2 (hwritable i (List.mem_append_right _ hi))

end Reckoner
