import Mathlib.Algebra.Order.Ring.Nat
import Mathlib.Data.List.Sort

/-!
# Runs of a step function

A component is modelled by a total step function `σ → α → σ`; a run is a fold
over its actions. Every safety result is then an instance of one of four
rules: an invariant kept by each step (`run_invariant`), an invariant kept by
the steps that meet a side condition on the state before them
(`run_invariant_of`), a property that holds along the run exactly when the
side condition does (`run_prefix_iff`), and a preorder between the first and the last state
(`run_rel`).
-/

namespace Base

variable {σ α : Type*} {step : σ → α → σ} {C D : σ → α → Prop} {s : σ} {acts more : List α} {A : α → Prop} {I P : σ → Prop}

/-- The state after the actions `acts`, taken in order from `s`. -/
def run (step : σ → α → σ) (s : σ) (acts : List α) : σ :=
  acts.foldl step s

@[simp] theorem run_nil (s : σ) : run step s [] = s := rfl

@[simp] theorem run_cons (s : σ) (a : α) (acts : List α) :
    run step s (a :: acts) = run step (step s a) acts := rfl

theorem run_append (s : σ) (acts more : List α) : run step s (acts ++ more) = run step (run step s acts) more :=
  List.foldl_append

theorem run_snoc {a : α} : run step s (acts ++ [a]) = step (run step s acts) a := by
  rw [run_append]; rfl

/-- Every step of the run meets `C`, read at the state before the step. -/
def AllSteps (step : σ → α → σ) (C : σ → α → Prop) : σ → List α → Prop
  | _, [] => True
  | s, a :: acts => C s a ∧ AllSteps step C (step s a) acts

instance AllSteps.decidable [∀ s a, Decidable (C s a)] :
    ∀ (s : σ) (acts : List α), Decidable (AllSteps step C s acts)
  | _, [] => .isTrue trivial
  | s, a :: acts =>
    @instDecidableAnd (C s a) (AllSteps step C (step s a) acts) _ (AllSteps.decidable (step s a) acts)

theorem allSteps_append :
    AllSteps step C s (acts ++ more) ↔
      AllSteps step C s acts ∧ AllSteps step C (run step s acts) more := by
  induction acts generalizing s with
  | nil => simp [AllSteps]
  | cons a acts ih => simp [AllSteps, ih, and_assoc]

theorem allSteps_of_forall (all : ∀ a ∈ acts, ∀ s, C s a) : AllSteps step C s acts := by
  induction acts generalizing s with
  | nil => trivial
  | cons a acts ih => exact ⟨all a (by simp) s, ih fun b mem => all b (List.mem_cons_of_mem _ mem)⟩

theorem AllSteps.and_forall (h : AllSteps step C s acts)
    (all : ∀ a ∈ acts, A a) : AllSteps step (fun s a => A a ∧ C s a) s acts := by
  induction acts generalizing s with
  | nil => trivial
  | cons a acts ih =>
    exact ⟨⟨all a List.mem_cons_self, h.1⟩, ih h.2 fun b mem => all b (List.mem_cons_of_mem a mem)⟩

theorem AllSteps.and (h : AllSteps step C s acts) (h' : AllSteps step D s acts) :
    AllSteps step (fun s a => C s a ∧ D s a) s acts := by
  induction acts generalizing s with
  | nil => trivial
  | cons a acts ih => exact ⟨⟨h.1, h'.1⟩, ih h.2 h'.2⟩

theorem AllSteps.mono (imp : ∀ s a, C s a → D s a) (h : AllSteps step C s acts) : AllSteps step D s acts := by
  induction acts generalizing s with
  | nil => trivial
  | cons a acts ih => exact ⟨imp _ _ h.1, ih h.2⟩

/-- The invariant rule. -/
theorem run_invariant (kept : ∀ s a, I s → I (step s a)) (start : I s) (acts : List α) : I (run step s acts) := by
  induction acts generalizing s with
  | nil => exact start
  | cons a acts ih => exact ih (kept s a start)

/-- The invariant rule for steps under a side condition. -/
theorem run_invariant_of (kept : ∀ s a, I s → C s a → I (step s a)) (start : I s)
    (all : AllSteps step C s acts) : I (run step s acts) := by
  induction acts generalizing s with
  | nil => exact start
  | cons a acts ih => exact ih (kept s a start all.1) all.2

/-- Each step of a run under a side condition has what the invariant gives it. -/
theorem AllSteps.of_invariant (kept : ∀ s a, I s → C s a → I (step s a))
    (gives : ∀ s a, I s → C s a → D s a) (start : I s) (all : AllSteps step C s acts) : AllSteps step D s acts := by
  induction acts generalizing s with
  | nil => trivial
  | cons a acts ih => exact ⟨gives s a start all.1, ih (kept s a start all.1) all.2⟩

/-- If, from a state with `P`, a step keeps `P` exactly when it meets `C`, then
`P` holds all along a run exactly when every step of it meets `C`. Both may use
an invariant, which only has to be kept while `P` holds, may speak of the number of
steps, and may be about runs of at most `N` actions of a kind `A`. -/
theorem run_prefix_iff_within {I : Nat → σ → Prop} {N : Nat}
    (kept : ∀ n s a, n < N → A a → I n s → P s → I (n + 1) (step s a))
    (one : ∀ n s a, n < N → A a → I n s → P s → (P (step s a) ↔ C s a)) {n : Nat} (inv : I n s) (start : P s)
    (kind : ∀ a ∈ acts, A a) (short : n + acts.length ≤ N) :
    (∀ pre, pre <+: acts → P (run step s pre)) ↔ AllSteps step C s acts := by
  induction acts generalizing n s with
  | nil => simp [AllSteps, start]
  | cons a acts ih =>
    have room : n < N := by
      rw [List.length_cons] at short
      omega
    have head : A a := kind a List.mem_cons_self
    have tail : ∀ b ∈ acts, A b := fun b mem => kind b (List.mem_cons_of_mem a mem)
    have short' : n + 1 + acts.length ≤ N := by
      rw [List.length_cons] at short
      omega
    have inv' := kept n s a room head inv start
    constructor
    · intro all
      have next : P (step s a) := all [a] (by simp)
      refine ⟨(one n s a room head inv start).1 next, (ih inv' next tail short').1 fun pre hp => ?_⟩
      exact all (a :: pre) (by simpa using hp)
    · rintro ⟨c, rest⟩ pre hp
      have next : P (step s a) := (one n s a room head inv start).2 c
      cases pre with
      | nil => exact start
      | cons b pre =>
        obtain ⟨rfl, below⟩ := List.cons_prefix_cons.1 hp
        exact (ih inv' next tail short').2 rest pre below

theorem run_prefix_iff (kept : ∀ s a, I s → P s → I (step s a))
    (one : ∀ s a, I s → P s → (P (step s a) ↔ C s a)) (inv : I s) (start : P s) (acts : List α) :
    (∀ pre, pre <+: acts → P (run step s pre)) ↔ AllSteps step C s acts :=
  run_prefix_iff_within (A := fun _ => True) (I := fun _ => I) (n := 0) (fun _ s a _ _ => kept s a)
    (fun _ s a _ _ => one s a) inv start (fun _ _ => trivial) (Nat.zero_add _).le

/-- The monotonicity rule: a preorder every step goes up in relates the two
ends of a run. The step may use an invariant. -/
theorem run_rel {R : σ → σ → Prop} (refl : ∀ s, R s s)
    (trans : ∀ s t u, R s t → R t u → R s u) (kept : ∀ s a, I s → I (step s a))
    (up : ∀ s a, I s → R s (step s a)) (start : I s) (acts : List α) : R s (run step s acts) := by
  induction acts generalizing s with
  | nil => exact refl s
  | cons a acts ih => exact trans _ _ _ (up s a start) (ih (kept s a start))

end Base
