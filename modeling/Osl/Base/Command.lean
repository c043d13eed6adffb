import Osl.Base.Outcome

/-!
# Commands that may fail after changing the state

`Command σ α` is a computation on a state `σ` that returns a value or an error
text. An error keeps what was changed before it. `exec` runs a command; the
lemmas below say what each combinator does, so that a proof about a command
never looks at the monad.
-/

namespace Base

abbrev Command (σ α : Type) := ExceptT String (StateM σ) α

namespace Command

variable {σ α β : Type} {s' s : σ} {f : σ → σ} {k : α → Command σ β} {c : Command σ α} {r : Except String β}
  {x : Except String α} {a : α}

def exec (c : Command σ α) (s : σ) : Except String α × σ := c s

/-- `let _ = c;`: the outcome is dropped, its effect stays. -/
def ignore (c : Command σ α) : Command σ Unit := fun s => (.ok (), (exec c s).2)

@[simp] theorem exec_pure : exec (pure a) s = (.ok a, s) := rfl

@[simp] theorem exec_throw {e : String} : exec (throw e : Command σ α) s = (.error e, s) := rfl

@[simp] theorem exec_lift : exec (liftM x : Command σ α) s = (x, s) := rfl

@[simp] theorem exec_get : exec (get : Command σ σ) s = (.ok s, s) := rfl

@[simp] theorem exec_modify : exec (modify f : Command σ Unit) s = (.ok (), f s) := rfl

@[simp] theorem exec_ignore (c : Command σ α) (s : σ) : exec (ignore c) s = (.ok (), (exec c s).2) := rfl

/-- Peels a command that ended in `r` apart: it failed at once, or its first part
succeeded and the rest ended in `r`. -/
theorem exec_bind :
    exec (c >>= k) s = (r, s') ↔
      (∃ e, r = .error e ∧ exec c s = (.error e, s')) ∨
        ∃ a t, exec c s = (.ok a, t) ∧ exec (k a) t = (r, s') := by
  have step : exec (c >>= k) s = ExceptT.bindCont k (exec c s).1 (exec c s).2 := rfl
  rw [step]
  rcases exec c s with ⟨e | a, t⟩
  · have fails : (ExceptT.bindCont k (.error e) t : Except String β × σ) = (.error e, t) := rfl
    rw [fails]
    constructor
    · rintro ⟨⟩
      exact .inl ⟨e, rfl, rfl⟩
    · rintro (⟨e, rfl, ⟨⟩⟩ | ⟨a, t, ⟨⟩, -⟩)
      rfl
  · constructor
    · intro rest
      exact .inr ⟨a, t, rfl, rest⟩
    · rintro (⟨e, -, ⟨⟩⟩ | ⟨a, t, ⟨⟩, rest⟩)
      exact rest

theorem exec_get_bind {k : σ → Command σ β} : exec (get >>= k) s = exec (k s) s := rfl

theorem exec_modify_bind {k : Unit → Command σ β} :
    exec (modify f >>= k) s = exec (k ()) (f s) := rfl

/-- A computation without effect fails in the state it started in. -/
theorem exec_lift_bind :
    exec ((liftM x : Command σ α) >>= k) s = (r, s') ↔
      (∃ e, x = .error e ∧ r = .error e ∧ s' = s) ∨ ∃ a, x = .ok a ∧ exec (k a) s = (r, s') := by
  rw [exec_bind, exec_lift]
  constructor
  · rintro (⟨e, rfl, ⟨⟩⟩ | ⟨a, t, ⟨⟩, rest⟩)
    · exact .inl ⟨e, rfl, rfl, rfl⟩
    · exact .inr ⟨a, rfl, rest⟩
  · rintro (⟨e, rfl, rfl, rfl⟩ | ⟨a, rfl, rest⟩)
    · exact .inl ⟨e, rfl, rfl⟩
    · exact .inr ⟨a, s, rfl, rest⟩

theorem exec_lift_ok (ok : x = .ok a) : exec ((liftM x : Command σ α) >>= k) s = exec (k a) s := by
  subst ok
  rfl

theorem exec_bind_ok {b : β} :
    exec (c >>= k) s = (.ok b, s') ↔ ∃ a t, exec c s = (.ok a, t) ∧ exec (k a) t = (.ok b, s') := by
  rw [exec_bind]
  simp

end Command

end Base
