import Mathlib.Algebra.Order.Ring.Nat
import Mathlib.Logic.Function.Basic

/-!
# Computations that may fail

What a successful `Except` computation was made of.
-/

namespace Base

variable {ε α β γ δ : Type} {x : Except ε α} {a : α} {b : β} {f : α → β}

theorem bind_ok {f : α → Except ε β} : (x >>= f) = .ok b ↔ ∃ a, x = .ok a ∧ f a = .ok b := by
  cases x <;> simp [bind, Except.bind]

/-- A check that fails before going on. -/
theorem guard_ok {c : Prop} [Decidable c] {e : ε} {k : α → Except ε β} {x : Except ε β} :
    (if c then (.error e : Except ε α) >>= k else x) = .ok b ↔ ¬c ∧ x = .ok b := by
  split <;> simp [*, bind, Except.bind]

theorem map_ok : x.map f = .ok b ↔ ∃ a, x = .ok a ∧ f a = b := by
  cases x <;> simp [Except.map]

/-- Whether a computation succeeds does not depend on what is made of its result. -/
theorem map_succeeds {g : α → γ} (done : x.map f = .ok b) : ∃ c, x.map g = .ok c := by
  obtain ⟨a, ran, -⟩ := map_ok.1 done
  exact ⟨g a, map_ok.2 ⟨a, ran, rfl⟩⟩

theorem mapError_ok {f : ε → δ} : x.mapError f = .ok a ↔ x = .ok a := by
  cases x <;> simp [Except.mapError]

theorem forM_ok {f : α → Except ε Unit} {l : List α} : l.forM f = .ok () ↔ ∀ a ∈ l, f a = .ok () := by
  induction l with
  | nil => simp [List.forM, pure, Except.pure]
  | cons a l ih =>
    change (f a >>= fun _ => l.forM f) = .ok () ↔ _
    rw [bind_ok, List.forall_mem_cons, ← ih]
    constructor
    · rintro ⟨⟨⟩, first, rest⟩
      exact ⟨first, rest⟩
    · rintro ⟨first, rest⟩
      exact ⟨(), first, rest⟩

/-- An error of `x` gets `text` in front. -/
def context (text : String) (x : Except String α) : Except String α := x.mapError (text ++ ·)

theorem context_ok {text : String} {x : Except String α} : context text x = .ok a ↔ x = .ok a :=
  mapError_ok

end Base
