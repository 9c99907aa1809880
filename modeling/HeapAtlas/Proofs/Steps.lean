/-! Steps that may fail: what it takes that one after another succeeds. -/

namespace HeapAtlas

/-- Two steps succeed when the first does and the second does on its result. -/
theorem bind_eq_ok_iff {ε α β : Type} {first : Except ε α} {next : α → Except ε β} {result : β} :
    (first >>= next) = .ok result ↔ ∃ value, first = .ok value ∧ next value = .ok result := by
  -- A failure of the first step is the result of both, so that nothing succeeds with it.
  cases first <;> simp [bind, Except.bind]

/-- A changed result is one that was there before the change. -/
theorem map_eq_ok_iff {ε α β : Type} {first : Except ε α} {f : α → β} {result : β} :
    first.map f = .ok result ↔ ∃ value, first = .ok value ∧ f value = result := by
  -- A failure stays a failure, however results are changed.
  cases first <;> simp [Except.map]

/-- A step whose failures are told in other terms succeeds when it did before. -/
theorem mapError_eq_ok_iff {ε δ α : Type} {step : Except ε α} {f : ε → δ} {result : α} :
    step.mapError f = .ok result ↔ step = .ok result := by
  cases step with
  | error fault => exact ⟨nofun, nofun⟩
  | ok value =>
    show Except.ok value = Except.ok result ↔ Except.ok value = Except.ok result
    rw [Except.ok.injEq, Except.ok.injEq]

/-- What stands behind a check succeeds when the check is passed. -/
theorem guard_eq_ok_iff {ε α : Type} {bad : Prop} [Decidable bad] {fault : ε} {next : Except ε α}
    {result : α} :
    (if bad then .error fault else next) = .ok result ↔ ¬bad ∧ next = .ok result := by
  split <;> simp_all

/-- A step that cannot fail after another changes the result of that one. -/
theorem bind_ok_eq_map {ε α β : Type} (first : Except ε α) (f : α → β) :
    (first.bind fun value => .ok (f value)) = first.map f := by
  cases first <;> rfl

end HeapAtlas
