/-
  Sentences: the sources of expressions, as a grammar gives them.

      sum    ::= term | sum (+|-) term
      term   ::= factor | term (*|/) factor
      factor ::= [sign] numeral | name | ( sum )

  A numeral is a run of digits, a ratio `n : d` of two runs, the second with a sign if it likes, or a
  decimal `n.d`.  Between the tokens stand gaps.  What a gap may be is a parameter of the grammar.

  A sentence is a derivation: it holds every gap, digit and letter, so it is written in one way
  (`source`) and stands for one expression (`tree`), in which brackets leave no trace.  `write` also
  writes a sentence with other texts for its numerals and names; each step that prepares a source for
  the scanner turns one such text into another (`write_rel`).
-/
import Mathlib.Algebra.Group.Int.Defs
import Mathlib.Algebra.Group.Nat.Defs
import Reckoner.Expr
import Reckoner.Source.Preparation

namespace Reckoner.Source

/-! ## The grammar -/

/-- What stands between two tokens. -/
abbrev Gap (Blank : List Char → Prop) := { g : List Char // Blank g }

/-- A run of digits, with any zeros in front. -/
abbrev Digits := { ds : List Char // ds ≠ [] ∧ ∀ d ∈ ds, d.isDigit = true }

/-- A name. -/
abbrev Name := { x : List Char // isName x = true }

inductive Sign
  | plus
  | minus
  deriving DecidableEq, Repr

/-- A numeral without its sign. -/
inductive Numeral (Blank : List Char → Prop)
  | whole (ds : Digits)
  | ratio (num : Digits) (before after : Gap Blank) (sign : Option Sign) (den : Digits)
  | decimal (front places : Digits)

/-- The three levels of the grammar. -/
inductive Level
  | sum
  | term
  | factor
  deriving DecidableEq, Repr

/-- The operations of a level, and the level of their right operand. -/
inductive Operation : Level → Level → Type
  | plus : Operation .sum .term
  | minus : Operation .sum .term
  | times : Operation .term .factor
  | slash : Operation .term .factor

/-- A numeral without its sign, or a name. -/
inductive Atom (Blank : List Char → Prop)
  | numeral (n : Numeral Blank)
  | name (x : Name)

/-- A sentence of a level. -/
inductive Sentence (Blank : List Char → Prop) : Level → Type
  | atom (a : Atom Blank) : Sentence Blank .factor
  | signed (sign : Sign) (gap : Gap Blank) (n : Numeral Blank) : Sentence Blank .factor
  | group (before : Gap Blank) (e : Sentence Blank .sum) (after : Gap Blank) : Sentence Blank .factor
  | ofFactor (f : Sentence Blank .factor) : Sentence Blank .term
  | ofTerm (t : Sentence Blank .term) : Sentence Blank .sum
  | operation {outer inner : Level} (op : Operation outer inner) (l : Sentence Blank outer)
      (before after : Gap Blank) (r : Sentence Blank inner) : Sentence Blank outer

variable {Blank : List Char → Prop} {k : Level}

/-! ## How a sentence is written -/

def Sign.char : Sign → Char
  | plus => '+'
  | minus => '-'

/-- A sign that may be missing. -/
def Sign.text : Option Sign → List Char
  | none => []
  | some s => [s.char]

def Operation.char {outer inner : Level} : Operation outer inner → Char
  | plus => '+'
  | minus => '-'
  | times => '*'
  | slash => '/'

def Numeral.text : Numeral Blank → List Char
  | whole ds => ds
  | ratio num before after sign den => num ++ (before ++ ':' :: (after ++ (Sign.text sign ++ den)))
  | decimal front places => front ++ '.' :: places

def Atom.text : Atom Blank → List Char
  | numeral n => n.text
  | name x => x

/-- A sentence, with its numerals and names written by `f`. -/
def Sentence.write (f : Atom Blank → List Char) : {k : Level} → Sentence Blank k → List Char
  | _, atom a => f a
  | _, signed sign gap n => sign.char :: (gap ++ f (.numeral n))
  | _, group before e after => '(' :: (before ++ (e.write f ++ (after ++ [')'])))
  | _, ofFactor t => t.write f
  | _, ofTerm t => t.write f
  | _, operation op l before after r => l.write f ++ (before ++ op.char :: (after ++ r.write f))

/-- The source of a sentence. -/
def Sentence.source (s : Sentence Blank k) : List Char := s.write Atom.text

/-! ## What a sentence stands for -/

/-- The sign applied to a number. -/
def Sign.apply : Sign → Int → Int
  | plus, n => n
  | minus, n => -n

/-- The number of a run of digits. -/
def Digits.value (ds : Digits) : Nat := Text.natOfDigits ds

/-- The literal of a numeral behind a sign.  A decimal is all its digits over a power of ten. -/
def Numeral.tree (sign : Sign) : Numeral Blank → Expr
  | whole ds => .integer (sign.apply ds.value)
  | ratio num _ _ s den => .rational (sign.apply num.value) ((s.getD .plus).apply den.value)
  | decimal front places =>
    .rational (sign.apply (Text.natOfDigits (front ++ places.val))) (10 ^ places.val.length)

def Operation.operator {outer inner : Level} : Operation outer inner → Operator
  | plus => .add
  | minus => .sub
  | times => .mul
  | slash => .div

/-- The expression of a sentence. -/
def Sentence.tree : {k : Level} → Sentence Blank k → Expr
  | _, atom (.numeral n) => n.tree .plus
  | _, atom (.name x) => .reference (String.ofList x)
  | _, signed sign _ n => n.tree sign
  | _, group _ e _ => e.tree
  | _, ofFactor t => t.tree
  | _, ofTerm t => t.tree
  | _, operation op l _ _ r => .binary op.operator l.tree r.tree

/-! ## Sentences with spaces and tabs -/

/-- Spaces and tabs. -/
def Spaced (g : List Char) : Prop := ∀ c ∈ g, c = ' ' ∨ c = '\t'

/-- The characters of a sentence that belong to no numeral and no name. -/
def isPlain (c : Char) : Bool := c ∈ [' ', '\t', '(', ')', '+', '-', '*', '/']

/-- The plain characters that can follow a numeral or a name, spaces and tabs apart. -/
def isStop (c : Char) : Bool := c ∈ [')', '+', '-', '*', '/']

/-- A text that can follow a numeral or a name: after spaces and tabs it ends, or a plain character
    stands that is no opening bracket. -/
inductive Loose : List Char → Prop
  | nil : Loose []
  | stop {c : Char} (hc : isStop c = true) (r : List Char) : Loose (c :: r)
  | blank {c : Char} (hc : c = ' ' ∨ c = '\t') {r : List Char} (hr : Loose r) : Loose (c :: r)

theorem isPlain_of_spaced {g : List Char} (hg : Spaced g) {c : Char} (hc : c ∈ g) : isPlain c = true := by
  rcases hg c hc with rfl | rfl <;> rfl

theorem spaced_of_cons {c : Char} {g : List Char} (h : Spaced (c :: g)) : Spaced g :=
  fun d hd => h d (List.mem_cons_of_mem c hd)

theorem loose_gap {r : List Char} (hr : Loose r) : ∀ {g : List Char}, Spaced g → Loose (g ++ r)
  | [], _ => hr
  | c :: _, hg => .blank (hg c List.mem_cons_self) (loose_gap hr (spaced_of_cons hg))

theorem Operation.isStop_char {outer inner : Level} (op : Operation outer inner) :
    isStop op.char = true := by
  cases op <;> rfl

theorem Sign.isPlain_char (s : Sign) : isPlain s.char = true := by
  cases s <;> rfl

theorem Operation.isPlain_char {outer inner : Level} (op : Operation outer inner) :
    isPlain op.char = true := by
  cases op <;> rfl

section Write

variable {f g : Atom Spaced → List Char} {R : List Char → List Char → Prop}

/-- What is kept by putting characters of a class in front is kept by putting a run of them in front. -/
theorem run_rel {p : Char → Prop} (step : ∀ c r r', p c → R r r' → R (c :: r) (c :: r'))
    {r r' : List Char} (h : R r r') : ∀ {w : List Char}, (∀ c ∈ w, p c) → R (w ++ r) (w ++ r')
  | [], _ => h
  | c :: _, hw => step c _ _ (hw c List.mem_cons_self)
    (run_rel step h fun d hd => hw d (List.mem_cons_of_mem c hd))

theorem gap_rel (plain : ∀ c r r', isPlain c = true → R r r' → R (c :: r) (c :: r')) {r r' : List Char}
    (h : R r r') {gap : List Char} (hgap : Spaced gap) : R (gap ++ r) (gap ++ r') :=
  run_rel plain h fun _ hc => isPlain_of_spaced hgap hc

/-- **From atoms to sentences.**  A relation between texts that is kept by putting a plain character in
    front of both, and an atom in its two writings, is kept by putting a sentence in its two writings in
    front. -/
theorem write_rel (plain : ∀ c r r', isPlain c = true → R r r' → R (c :: r) (c :: r'))
    (atom : ∀ a r r', Loose r → R r r' → R (f a ++ r) (g a ++ r')) (s : Sentence Spaced k)
    {r r' : List Char} (hr : Loose r) (h : R r r') : R (s.write f ++ r) (s.write g ++ r') := by
  -- from the end of the sentence to its front: every part stands before what has been related already
  induction s generalizing r r' with
  | atom a => exact atom a r r' hr h
  | signed sign gap n =>
    simp only [Sentence.write, List.append_assoc, List.cons_append]
    exact plain _ _ _ sign.isPlain_char (gap_rel plain (atom _ _ _ hr h) gap.property)
  | group before e after ih =>
    simp only [Sentence.write, List.append_assoc, List.cons_append, List.nil_append]
    have hclose := gap_rel plain (plain ')' _ _ rfl h) after.property
    have hbody := ih (loose_gap (.stop rfl r) after.property) hclose
    exact plain '(' _ _ rfl (gap_rel plain hbody before.property)
  | ofFactor t ih => exact ih hr h
  | ofTerm t ih => exact ih hr h
  | operation op l before after r ihl ihr =>
    simp only [Sentence.write, List.append_assoc, List.cons_append]
    have hright := gap_rel plain (ihr hr h) after.property
    have hop := gap_rel plain (plain op.char _ _ op.isPlain_char hright) before.property
    exact ihl (loose_gap (.stop op.isStop_char _) before.property) hop

/-- What holds of plain characters, of gaps and of atoms as they are written holds of a sentence. -/
theorem forall_mem_write {p : Char → Prop} {f : Atom Blank → List Char}
    (hplain : ∀ c, isPlain c = true → p c) (hgap : ∀ g : Gap Blank, ∀ c ∈ g.val, p c)
    (hatom : ∀ a, ∀ c ∈ f a, p c) (s : Sentence Blank k) :
    ∀ c ∈ s.write f, p c := by
  induction s with
  | atom a => exact hatom a
  | signed sign gap n =>
    simp only [Sentence.write, List.forall_mem_cons, List.forall_mem_append]
    exact ⟨hplain _ sign.isPlain_char, hgap gap, hatom _⟩
  | group before e after ih =>
    simp only [Sentence.write, List.forall_mem_cons, List.forall_mem_append]
    exact ⟨hplain _ rfl, hgap before, ih, hgap after, hplain _ rfl, List.forall_mem_nil _⟩
  | ofFactor t ih => exact ih
  | ofTerm t ih => exact ih
  | operation op l before after r ihl ihr =>
    simp only [Sentence.write, List.forall_mem_cons, List.forall_mem_append]
    exact ⟨ihl, hgap before, hplain _ op.isPlain_char, hgap after, ihr⟩

/-- The characters of a sentence. -/
theorem mem_write {c : Char} {s : Sentence Spaced k} (h : c ∈ s.write f) :
    isPlain c = true ∨ ∃ a, c ∈ f a := by
  refine forall_mem_write (p := fun c => isPlain c = true ∨ ∃ a, c ∈ f a) (fun c hc => Or.inl hc)
    ?_ ?_ s c h
  · exact fun g c hc => Or.inl (isPlain_of_spaced g.property hc)
  · exact fun a c hc => Or.inr ⟨a, hc⟩

/-- A sentence begins with a bracket, a sign, a numeral or a name. -/
theorem exists_cons_write {p : Char → Prop} (hopen : p '(') (hsign : ∀ sign : Sign, p sign.char)
    (hatom : ∀ a, ∃ c cs, f a = c :: cs ∧ p c) (s : Sentence Spaced k) :
    ∃ c cs, s.write f = c :: cs ∧ p c := by
  induction s with
  | atom a => exact hatom a
  | signed sign gap n => exact ⟨_, _, rfl, hsign sign⟩
  | group before e after ih => exact ⟨_, _, rfl, hopen⟩
  | ofFactor t ih => exact ih
  | ofTerm t ih => exact ih
  | operation op l before after r ihl ihr =>
    obtain ⟨c, cs, hl, hc⟩ := ihl
    exact ⟨c, _, by rw [Sentence.write, hl, List.cons_append], hc⟩

/-- A sentence ends with a bracket, a numeral or a name. -/
theorem exists_concat_write {p : Char → Prop} (hclose : p ')')
    (hatom : ∀ a, ∃ cs c, f a = cs ++ [c] ∧ p c) (s : Sentence Spaced k) :
    ∃ cs c, s.write f = cs ++ [c] ∧ p c := by
  induction s with
  | atom a => exact hatom a
  | signed sign gap n =>
    obtain ⟨cs, c, ha, hc⟩ := hatom (.numeral n)
    exact ⟨sign.char :: (gap.val ++ cs), c, by simp [Sentence.write, ha], hc⟩
  | group before e after ih =>
    exact ⟨'(' :: (before.val ++ (e.write f ++ after.val)), ')', by simp [Sentence.write], hclose⟩
  | ofFactor t ih => exact ih
  | ofTerm t ih => exact ih
  | operation op l before after r ihl ihr =>
    obtain ⟨cs, c, hr, hc⟩ := ihr
    exact ⟨l.write f ++ (before.val ++ op.char :: (after.val ++ cs)), c, by simp [Sentence.write, hr], hc⟩

end Write

end Reckoner.Source
