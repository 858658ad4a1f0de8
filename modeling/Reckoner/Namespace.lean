/-
  Namespaces.  A namespace binds names, each at most once; binding a name again replaces what it had.
  Its entries are kept in rising order of the names, and the order is part of the type, so a namespace is
  determined by what `find?` says of every name and is listed in one way only.
-/
namespace Reckoner

/-- Names bound to things of type `α`, in rising order of the names. -/
structure Namespace (α : Type) where
  entries : List (String × α)
  rising : entries.Pairwise fun a b => a.1 < b.1

namespace Namespace

variable {α β : Type}

/-- The namespace that binds nothing. -/
def empty : Namespace α := ⟨[], .nil⟩

instance : EmptyCollection (Namespace α) := ⟨empty⟩

instance : Inhabited (Namespace α) := ⟨empty⟩

/-- The bound names, rising. -/
def names (ns : Namespace α) : List String := ns.entries.map (·.1)

/-- How many names are bound. -/
def size (ns : Namespace α) : Nat := ns.entries.length

/-- What the first entry for `x` holds. -/
def lookupIn (x : String) : List (String × α) → Option α
  | [] => none
  | (y, b) :: r => if x = y then some b else lookupIn x r

/-- What `x` is bound to. -/
def find? (ns : Namespace α) (x : String) : Option α := lookupIn x ns.entries

/-- Whether `x` is bound. -/
def contains (ns : Namespace α) (x : String) : Bool := (ns.find? x).isSome

/-- Put an entry in its place, or in the place of the entry for the same name. -/
def insertIn (x : String) (a : α) : List (String × α) → List (String × α)
  | [] => [(x, a)]
  | (y, b) :: r =>
    if x < y then (x, a) :: (y, b) :: r
    else if x = y then (x, a) :: r
    else (y, b) :: insertIn x a r

theorem mem_insertIn {x : String} {a : α} {p : String × α} :
    ∀ {es : List (String × α)}, p ∈ insertIn x a es → p = (x, a) ∨ p ∈ es
  | [], h => by simp [insertIn] at h; exact Or.inl h
  | (y, b) :: r, h => by
    unfold insertIn at h
    split at h
    · rcases List.mem_cons.1 h with h | h
      · exact Or.inl h
      · exact Or.inr h
    · split at h
      · rcases List.mem_cons.1 h with h | h
        · exact Or.inl h
        · exact Or.inr (List.mem_cons_of_mem _ h)
      · rcases List.mem_cons.1 h with h | h
        · exact Or.inr (h ▸ List.mem_cons_self)
        · rcases mem_insertIn h with h | h
          · exact Or.inl h
          · exact Or.inr (List.mem_cons_of_mem _ h)

theorem lt_of_not_lt {x y : String} (h : ¬x < y) (hne : x ≠ y) : y < x :=
  String.not_le.1 fun hle => hne (String.le_antisymm hle (String.not_lt.1 h))

theorem pairwise_insertIn {x : String} {a : α} :
    ∀ {es : List (String × α)}, es.Pairwise (fun a b => a.1 < b.1) →
      (insertIn x a es).Pairwise fun a b => a.1 < b.1
  | [], _ => by simp [insertIn]
  | (y, b) :: r, h => by
    have hy := (List.pairwise_cons.1 h).1
    have hr := (List.pairwise_cons.1 h).2
    unfold insertIn
    split
    · rename_i hlt
      refine List.pairwise_cons.2 ⟨fun p hp => ?_, h⟩
      rcases List.mem_cons.1 hp with rfl | hp
      · exact hlt
      · exact String.lt_trans hlt (hy p hp)
    · split
      · rename_i heq
        exact List.pairwise_cons.2 ⟨fun p hp => heq ▸ hy p hp, hr⟩
      · rename_i hnlt hne
        refine List.pairwise_cons.2 ⟨fun p hp => ?_, pairwise_insertIn hr⟩
        rcases mem_insertIn hp with rfl | hp
        · exact lt_of_not_lt hnlt hne
        · exact hy p hp

/-- Bind `x` to `a`, in place of what it was bound to. -/
def bind (ns : Namespace α) (x : String) (a : α) : Namespace α :=
  ⟨insertIn x a ns.entries, pairwise_insertIn ns.rising⟩

/-- Replace every bound thing by its image. -/
def map (f : α → β) (ns : Namespace α) : Namespace β :=
  ⟨ns.entries.map fun p => (p.1, f p.2), by
    rw [List.pairwise_map]; exact ns.rising⟩

/-- What is found for a name stands beside it in the list. -/
theorem mem_of_lookupIn {x : String} {a : α} :
    ∀ {es : List (String × α)}, lookupIn x es = some a → (x, a) ∈ es
  | [], h => by simp [lookupIn] at h
  | (y, b) :: r, h => by
    unfold lookupIn at h
    split at h
    · rename_i heq
      cases h
      exact heq ▸ List.mem_cons_self
    · exact List.mem_cons_of_mem _ (mem_of_lookupIn h)

/-- A bound name is among the names. -/
theorem mem_names_of_find? {ns : Namespace α} {x : String} {a : α} (h : ns.find? x = some a) :
    x ∈ ns.names :=
  List.mem_map.2 ⟨(x, a), mem_of_lookupIn h, rfl⟩

end Namespace

end Reckoner
