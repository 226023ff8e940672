import Mathlib.Tactic.Common

/-! # Computations that can fail

A computation made of steps succeeds exactly when each of its steps does; the lemmas
take such a computation apart.
-/

namespace Foundation

variable {ε α β : Type*}

/-- A computation goes on with what its first step yields. -/
@[simp] theorem ok_bind {first second : Type} (value : first) (next : first → Except ε second) :
    (Except.ok value >>= next) = next value := rfl

theorem map_eq_ok {result : Except ε α} {change : α → β} {image : β} :
    result.map change = .ok image ↔ ∃ value, result = .ok value ∧ change value = image := by
  cases result with
  | error failure => simp [Except.map]
  | ok value => simp [Except.map]

theorem bind_eq_ok {first : Except ε α} {next : α → Except ε β} {last : β} :
    first.bind next = .ok last ↔ ∃ value, first = .ok value ∧ next value = .ok last := by
  cases first with
  | error failure => simp [Except.bind]
  | ok value => simp [Except.bind]

end Foundation
