/-
  What a line can say.  An instruction is writable if its names are names (a letter, then letters and
  underscores) and its operators are the four that have arithmetic; the integers in it may be any.
  Whatever is read from a line is writable, and specialization takes writable expressions to writable
  ones.

  A writable name begins with a letter and the constants of the literals with an underscore, so a
  program that has been read never binds one of them.
-/
import Reckoner.Proofs.Specialization
import Reckoner.Source.Line

namespace Reckoner

open Source

/-- Whether an expression can be written down. -/
def Expr.isWritable : Expr → Bool
  | integer _ => true
  | rational _ _ => true
  | reference x => isName x.toList
  | binary op l r => op.isArithmetic && l.isWritable && r.isWritable

/-- Whether an instruction can be written down. -/
def Instruction.isWritable : Instruction Expr → Bool
  | assign x e => isName x.toList && e.isWritable
  | evaluate e => e.isWritable
  | missing => false

namespace Expr

theorem isWritable_binary {op : Operator} {l r : Expr} :
    (binary op l r).isWritable = true ↔
      op.isArithmetic = true ∧ l.isWritable = true ∧ r.isWritable = true := by
  simp [isWritable, and_assoc]

theorem isWritable_ofNumber (z : Number) : (ofNumber z).isWritable = true := by
  cases z <;> rfl

/-- What can be written down has arithmetic throughout: only the four operators can be written. -/
theorem isArithmetic_of_isWritable {e : Expr} (h : e.isWritable = true) : e.isArithmetic = true := by
  induction e with
  | integer n => rfl
  | rational n d => rfl
  | reference x => rfl
  | binary op l r ihl ihr =>
    obtain ⟨hop, hl, hr⟩ := isWritable_binary.1 h
    exact isArithmetic_binary.2 ⟨hop, ihl hl, ihr hr⟩

end Expr

/-- A name that a line can bind is none of the constants that literals are built through. -/
theorem key_ne_of_isName {x : String} (hx : isName x.toList = true) (c : Constructor) : c.key ≠ x := by
  rintro rfl
  -- each of the constants begins with an underscore
  cases c <;> exact absurd hx (by decide)

/-! ## Writable namespaces -/

/-- A namespace that lines can build: it binds names to writable expressions. -/
def Namespace.Writable (ns : Namespace Expr) : Prop :=
  ∀ x b, ns.find? x = some b → isName x.toList = true ∧ b.isWritable = true

theorem writable_empty : (∅ : Namespace Expr).Writable := fun _ _ h => nomatch h

namespace Namespace.Writable

variable {ns : Namespace Expr}

/-- No constant of the literals is bound in a namespace that lines can build. -/
theorem unreserved (h : ns.Writable) : ns.Unreserved := by
  intro c
  cases hb : ns.find? c.key with
  | none => rfl
  | some b => exact absurd rfl (key_ne_of_isName (h c.key b hb).1 c)

/-- The bindings of a namespace that lines can build have arithmetic throughout. -/
theorem arithmetic (h : ns.Writable) : ns.Arithmetic :=
  fun x b hb => Expr.isArithmetic_of_isWritable (h x b hb).2

/-- Assigning a writable expression to a name stays among what lines can build. -/
theorem bind (h : ns.Writable) {x : String} (hx : isName x.toList = true) {e : Expr}
    (he : e.isWritable = true) : (ns.bind x e).Writable :=
  forall_bind (P := fun x (b : Expr) => isName x.toList = true ∧ b.isWritable = true) h ⟨hx, he⟩

/-- Specialization in a writable namespace leaves a writable expression. -/
theorem specialize (h : ns.Writable) {e e' : Expr} (hs : specialize ns e = .ok e')
    (he : e.isWritable = true) : e'.isWritable = true :=
  specialize_preserves (Q := fun e => e.isWritable = true) Expr.isWritable_ofNumber
    (fun _ _ _ => Expr.isWritable_binary) (fun x b hb => (h x b hb).2) hs he

end Namespace.Writable

/-! ## Only writable instructions are read

  From the phrase up to the line: the four connectives that stand for an operator stand for one that has
  arithmetic, a name is checked where it becomes a reference, and the name in front of an assignment is
  checked by the pattern of assignments. -/

/-- The connectives that become operators become ones with arithmetic. -/
theorem isArithmetic_of_operator? {c : Connective} {op : Operator} (h : c.operator? = some op) :
    op.isArithmetic = true := by
  unfold Connective.operator? at h
  split at h <;> cases h <;> rfl

/-- A numeral or a ratio of numerals is writable, whatever its integers. -/
theorem isWritable_of_literalOf {negative : Bool} {x : Phrase} {e : Expr}
    (h : literalOf negative x = .ok e) : e.isWritable = true := by
  unfold literalOf at h
  split at h
  · obtain ⟨n, _, rfl⟩ := exists_of_map_ok h
    rfl
  · obtain ⟨p, _, rfl⟩ := exists_of_map_ok h
    rfl
  · cases h
  · cases h
  · -- a ratio: both parts are integers
    obtain ⟨n, _, h⟩ := exists_of_bind_ok h
    obtain ⟨d, _, h⟩ := exists_of_bind_ok h
    cases h
    rfl
  · cases h
  · cases h

/-- A reference is built of a name only, whatever the phrase called it. -/
theorem isWritable_of_referenceOf {s : String} {e : Expr} (h : referenceOf s = .ok e) :
    e.isWritable = true := by
  unfold referenceOf at h
  simp only at h
  split at h
  · rename_i hx
    cases h
    rw [Expr.isWritable, String.toList_ofList]
    exact hx
  · cases h

/-- **Only writable expressions are read.** -/
theorem isWritable_of_exprOf {x : Phrase} {e : Expr} (h : exprOf x = .ok e) : e.isWritable = true := by
  fun_induction exprOf x generalizing e with
  | case1 s => exact isWritable_of_referenceOf h
  | case2 x ih => exact ih h
  | case3 sign x hsign => exact isWritable_of_literalOf h
  | case4 => cases h
  | case5 => cases h
  | case6 op broken x y o ho ihx ihy =>
    obtain ⟨l, hl, h⟩ := exists_of_bind_ok h
    obtain ⟨r, hr, h⟩ := exists_of_bind_ok h
    cases h
    exact Expr.isWritable_binary.2 ⟨isArithmetic_of_operator? ho, ihx hl, ihy hr⟩
  -- the literals without a sign, one case for each shape that can hold one
  | case7 => exact isWritable_of_literalOf h
  | case8 => exact isWritable_of_literalOf h
  | case9 => exact isWritable_of_literalOf h
  | case10 => exact isWritable_of_literalOf h
  | case11 => exact isWritable_of_literalOf h
  | case12 => cases h

/-- What is read from a source is writable. -/
theorem isWritable_of_readExpr {src : List Char} {e : Expr} (h : readExpr src = .ok e) :
    e.isWritable = true := by
  obtain ⟨x, _, h⟩ := exists_of_bind_ok h
  unfold expressionOf at h
  split at h
  · rename_i hx
    cases h
    exact isWritable_of_exprOf hx
  · cases h

/-- The name of an assignment is a name. -/
theorem isName_of_assignment? {cs body : List Char} {x : String}
    (h : assignment? cs = some (.assign x body)) : isName x.toList = true := by
  unfold assignment? at h
  simp only at h
  split at h
  · -- the colon and the equals sign are there: it is an assignment only if the name is one as well
    split at h
    · rename_i hname
      cases h
      rw [String.toList_ofList]
      exact ((Bool.and_eq_true _ _).mp hname).1
    · cases h
  · cases h

/-- The name of an assignment is a name also where the line is trimmed first. -/
theorem isName_of_instruction? {line body : List Char} {x : String}
    (h : instruction? line = some (.assign x body)) : isName x.toList = true := by
  unfold instruction? at h
  split at h
  · cases h
  · exact isName_of_assignment? h

/-- **Only writable instructions are read.** -/
theorem isWritable_of_readLine {line : List Char} {i : Instruction Expr} (h : readLine line = .ok i) :
    i.isWritable = true := by
  unfold readLine at h
  split at h
  · cases h
  · rename_i x src hhead
    obtain ⟨e, he, rfl⟩ := exists_of_map_ok h
    rw [Instruction.isWritable, isName_of_instruction? hhead, isWritable_of_readExpr he]
    rfl
  · obtain ⟨e, he, rfl⟩ := exists_of_map_ok h
    exact isWritable_of_readExpr he
  · cases h

end Reckoner
