/-
  Opening computations that can fail.  A chain of steps succeeds only if each step does; the first two
  facts turn such a success into the successes of the steps.
-/
namespace Reckoner

variable {ε α β : Type}

/-- A step and what follows it succeed only if the step does and what follows does with its answer. -/
theorem exists_of_bind_ok {o : Except ε α} {f : α → Except ε β} {b : β} (h : (o >>= f) = .ok b) :
    ∃ a, o = .ok a ∧ f a = .ok b := by
  cases o with
  | error c => cases h
  | ok a => exact ⟨a, rfl, h⟩

/-- The image of an outcome is a success only if the outcome is. -/
theorem exists_of_map_ok {o : Except ε α} {f : α → β} {b : β} (h : o.map f = .ok b) :
    ∃ a, o = .ok a ∧ f a = b := by
  cases o with
  | error c => cases h
  | ok a => exact ⟨a, rfl, Except.ok.inj h⟩

/-- The image of an outcome is the failure that the outcome is. -/
theorem map_eq_error_iff {o : Except ε α} {f : α → β} {c : ε} : o.map f = .error c ↔ o = .error c := by
  cases o with
  | error c' => rw [Except.map, Except.error.injEq, Except.error.injEq]
  | ok a => exact ⟨by rintro ⟨⟩, by rintro ⟨⟩⟩

/-- An outcome that has an answer is the success with it. -/
theorem eq_ok_of_toOption {o : Except ε α} {a : α} (h : o.toOption = some a) : o = .ok a := by
  cases o with
  | error c => cases h
  | ok b => exact congrArg Except.ok (Option.some.inj h)

/-- A success stays one when failures are worded anew, and there are no others. -/
theorem eq_ok_of_mapError {δ : Type} {o : Except ε α} {f : ε → δ} {a : α} (h : o.mapError f = .ok a) :
    o = .ok a := by
  cases o with
  | error c => cases h
  | ok b => exact congrArg Except.ok (Except.ok.inj h)

end Reckoner
