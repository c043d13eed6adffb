import Osl.Base.Run

/-!
# Tasks that share a state

Any number of tasks, each between two atomic steps of its own, share one state; between two
steps of a task anything may happen. The rule is that of Owicki and Gries: what is asserted
of a task is established by its own steps and kept by everybody else's (`World.Sound.run`).
-/

namespace Base

/-- How a task with a given number starts on a request, what its next step does, and the
changes of the shared state that come from elsewhere. -/
structure System where
  Shared : Type
  Local : Type
  Request : Type
  Outside : Type
  start : Nat → Request → Local
  step : Local → Shared → Local × Shared
  outside : Outside → Shared → Shared

structure World (S : System) where
  shared : S.Shared
  tasks : List S.Local

inductive Event (S : System) where
  | arrive (request : S.Request)
  | turn (number : Nat)
  | outside (change : S.Outside)

namespace World

variable {S : System} {I : S.Shared → Prop} {A : Nat → S.Local → S.Shared → Prop} {C : World S → Event S → Prop}
  {w : World S}

def step (w : World S) : Event S → World S
  | .arrive r => { w with tasks := w.tasks ++ [S.start w.tasks.length r] }
  | .turn i =>
    match w.tasks[i]? with
    | none => w
    | some l => ⟨(S.step l w.shared).2, w.tasks.set i (S.step l w.shared).1⟩
  | .outside change => { w with shared := S.outside change w.shared }

/-- The invariant of the shared state and the assertion about every task. -/
structure Sound (I : S.Shared → Prop) (A : Nat → S.Local → S.Shared → Prop) (w : World S) : Prop where
  shared : I w.shared
  tasks : ∀ (i : Nat) (l : S.Local), w.tasks[i]? = some l → A i l w.shared

theorem Sound.arrive (sound : w.Sound I A) (r : S.Request)
    (start : A w.tasks.length (S.start w.tasks.length r) w.shared) : (w.step (.arrive r)).Sound I A := by
  refine ⟨sound.shared, fun i l found => ?_⟩
  rcases Nat.lt_trichotomy i w.tasks.length with old | rfl | beyond
  · exact sound.tasks i l (by rwa [step, List.getElem?_append_left old] at found)
  · rw [step, List.getElem?_concat_length, Option.some.injEq] at found
    rwa [← found]
  · rw [step, List.getElem?_eq_none (by simp; omega)] at found
    cases found

theorem Sound.turn {i : Nat} (sound : w.Sound I A)
    (own : ∀ l, w.tasks[i]? = some l → I (S.step l w.shared).2 ∧ A i (S.step l w.shared).1 (S.step l w.shared).2 ∧
      ∀ j m, j ≠ i → w.tasks[j]? = some m → A j m (S.step l w.shared).2) : (w.step (.turn i)).Sound I A := by
  cases here : w.tasks[i]? with
  | none => simpa [step, here] using sound
  | some l =>
    obtain ⟨inv, next, others⟩ := own l here
    have turned : w.step (.turn i) = ⟨(S.step l w.shared).2, w.tasks.set i (S.step l w.shared).1⟩ := by simp [step, here]
    rw [turned]
    refine ⟨inv, fun j m found => ?_⟩
    rcases eq_or_ne i j with rfl | other
    · rw [List.getElem?_set_self (List.getElem?_eq_some_iff.1 here).1, Option.some.injEq] at found
      rwa [← found]
    · exact others j m other.symm (by rwa [List.getElem?_set_ne other] at found)

/-- The rule, for runs whose steps meet the side condition `C`. -/
theorem Sound.run {s : S.Shared} (inv : I s) (start : ∀ i r s, I s → A i (S.start i r) s)
    (own : ∀ (w : World S) i l, w.Sound I A → C w (.turn i) → w.tasks[i]? = some l →
      I (S.step l w.shared).2 ∧ A i (S.step l w.shared).1 (S.step l w.shared).2 ∧
        ∀ j m, j ≠ i → w.tasks[j]? = some m → A j m (S.step l w.shared).2)
    (outside : ∀ (w : World S) change, w.Sound I A → C w (.outside change) →
      I (S.outside change w.shared) ∧ ∀ j m, w.tasks[j]? = some m → A j m (S.outside change w.shared))
    {events : List (Event S)} (all : AllSteps step C ⟨s, []⟩ events) : (Base.run step ⟨s, []⟩ events).Sound I A := by
  refine run_invariant_of (fun w e sound ok => ?_) ⟨inv, by simp⟩ all
  cases e with
  | arrive r => exact sound.arrive r (start _ r _ sound.shared)
  | turn i => exact sound.turn fun l found => own w i l sound ok found
  | outside change => exact ⟨(outside w change sound ok).1, (outside w change sound ok).2⟩

end World

end Base
