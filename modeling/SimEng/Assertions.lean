/-!
# SimEng — assertions as errors

The models write the source's assertions, and the steps whose behaviour the
source leaves undefined, as errors of the `Except` monad. A computation that
succeeds is taken apart by these two lemmas rather than by unfolding `bind`.
-/

namespace SimEng

theorem bind_eq_ok {ε α β : Type} {x : Except ε α} {f : α → Except ε β} {b : β} :
    x >>= f = .ok b ↔ ∃ a, x = .ok a ∧ f a = .ok b := by
  cases x <;> simp [bind, Except.bind]

theorem map_eq_ok {ε α β : Type} {x : Except ε α} {f : α → β} {b : β} :
    x.map f = .ok b ↔ ∃ a, x = .ok a ∧ f a = b := by
  cases x <;> simp [Except.map]

end SimEng
