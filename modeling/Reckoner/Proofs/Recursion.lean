/-
  Recursive procedures that need not end.  A `Plan` says how one call is answered: with an answer, or by
  asking for the answer to a further call and going on from there.  A `Procedure` has a plan for every
  call, and nothing in it says that answering comes to an end.

  `within n` answers calls with at most `n` of them open inside each other, and `Returns` says that some
  number is enough.  A procedure that is solved by a function returns what the function says if the
  calls that it makes become smaller (`returns_of_size`).  `Calls` tells which calls the answering of a
  call really makes, given the answers to those before, and `Nested` follows them inside each other and
  notes the names that are opened on the way.
-/

namespace Reckoner

/-- How a call is answered: at once, or with the help of the answer to another call. -/
inductive Plan (ι α : Type)
  | done (answer : α)
  | ask (call : ι) (next : α → Plan ι α)

/-- A plan for every call. -/
abbrev Procedure (ι α : Type) := ι → Plan ι α

variable {ι α : Type}

namespace Plan

/-- What a plan comes to if every call is answered by `f`. -/
def run (f : ι → α) : Plan ι α → α
  | done a => a
  | ask i next => (next (f i)).run f

/-- The same if `f` does not answer every call. -/
def run? (f : ι → Option α) : Plan ι α → Option α
  | done a => some a
  | ask i next => (f i).bind fun a => (next a).run? f

/-- `plan.Makes R j` — the call `j` is made in the course of a plan if the answers to calls are those
    that `R` says. -/
inductive Makes (R : ι → α → Prop) : Plan ι α → ι → Prop
  | ask {i : ι} {next : α → Plan ι α} : Makes R (ask i next) i
  | later {i j : ι} {next : α → Plan ι α} {a : α} (hi : R i a) (hj : Makes R (next a) j) :
      Makes R (ask i next) j

/-- With more answers at hand, a plan that came to an end comes to the same end. -/
theorem run?_mono {f g : ι → Option α} (h : ∀ i a, f i = some a → g i = some a) {plan : Plan ι α} {a : α}
    (ha : plan.run? f = some a) : plan.run? g = some a := by
  induction plan with
  | done b => exact ha
  | ask i next ih =>
    obtain ⟨b, hb, hnext⟩ := Option.bind_eq_some_iff.1 ha
    exact Option.bind_eq_some_iff.2 ⟨b, h i b hb, ih b hnext⟩

end Plan

namespace Procedure

variable {p : Procedure ι α} {i j : ι} {a b : α}

/-- The answer to a call, if it is found with at most `n` calls open inside each other. -/
def within (p : Procedure ι α) : Nat → ι → Option α
  | 0, _ => none
  | n + 1, i => (p i).run? (p.within n)

/-- `p.Returns i a` — answering the call `i` comes to an end, with the answer `a`. -/
def Returns (p : Procedure ι α) (i : ι) (a : α) : Prop := ∃ n, p.within n i = some a

/-- `p.Calls i j` — answering the call `i`, the procedure calls itself with `j`. -/
def Calls (p : Procedure ι α) (i j : ι) : Prop := (p i).Makes p.Returns j

/-- `p.Nested opens i xs j` — in the course of answering `i`, a call of `j` is open inside other calls,
    and those of them that open a name have opened the names `xs`, the latest first. -/
inductive Nested (p : Procedure ι α) (opens : ι → Option String) (i : ι) : List String → ι → Prop
  | here : Nested p opens i [] i
  | deeper {xs : List String} {j k : ι} (h : Nested p opens i xs j) (hk : p.Calls j k) :
      Nested p opens i ((opens j).toList ++ xs) k

/-- One more level of calls takes no answer away. -/
theorem within_succ {n : Nat} (h : p.within n i = some a) : p.within (n + 1) i = some a := by
  induction n generalizing i a with
  | zero => cases h
  | succ n ih => exact Plan.run?_mono (fun _ _ => ih) h

/-- With more room the same answers are found. -/
theorem within_mono {n m : Nat} (hle : n ≤ m) (h : p.within n i = some a) : p.within m i = some a := by
  induction hle with
  | refl => exact h
  | step _ ih => exact within_succ ih

/-- There is at most one answer. -/
theorem Returns.unique (ha : p.Returns i a) (hb : p.Returns i b) : a = b := by
  obtain ⟨n, hn⟩ := ha
  obtain ⟨m, hm⟩ := hb
  have hn' := within_mono (Nat.le_max_left n m) hn
  have hm' := within_mono (Nat.le_max_right n m) hm
  exact Option.some.inj (hn'.symm.trans hm')

/-- A plan can be carried out with room enough for each of its calls. -/
theorem exists_run? {f : ι → α} {plan : Plan ι α}
    (h : ∀ j, plan.Makes (fun i a => f i = a) j → p.Returns j (f j)) :
    ∃ n, plan.run? (p.within n) = some (plan.run f) := by
  induction plan with
  | done a => exact ⟨0, rfl⟩
  | ask i next ih =>
    obtain ⟨n, hn⟩ := h i .ask
    obtain ⟨m, hm⟩ := ih (f i) fun j hj => h j (.later rfl hj)
    refine ⟨max n m, Option.bind_eq_some_iff.2 ⟨f i, within_mono (Nat.le_max_left n m) hn, ?_⟩⟩
    exact Plan.run?_mono (fun _ _ => within_mono (Nat.le_max_right n m)) hm

/-- **Ending.**  A function that solves a procedure tells its answers, if every call that is made is
    smaller than the call that makes it, by two numbers of which the first counts first. -/
theorem returns_of_size {f : ι → α} (hf : ∀ i, (p i).run f = f i) (size : ι → Nat × Nat)
    (hcalls : ∀ i j, (p i).Makes (fun i a => f i = a) j → Prod.Lex (· < ·) (· < ·) (size j) (size i))
    (i : ι) :
    p.Returns i (f i) := by
  have hwf : WellFounded fun j i => Prod.Lex (· < ·) (· < ·) (size j) (size i) :=
    InvImage.wf size (Prod.lex Nat.lt_wfRel Nat.lt_wfRel).wf
  induction i using hwf.induction with
  | _ i ih =>
    obtain ⟨n, hn⟩ := exists_run? fun j hj => ih j (hcalls i j hj)
    exact ⟨n + 1, hn.trans (congrArg some (hf i))⟩

end Procedure

end Reckoner
