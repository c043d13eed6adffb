import Mathlib.Algebra.Order.Ring.Nat
import Mathlib.Logic.Function.Basic

/-!
# Processes that may be cut off

A process works on a state that outlives it. Each durable write takes effect at
once and in whole; a run is given the number of writes it may make and is cut off
at the next one. The rules come in two forms: `Triple` for what holds however a
run ends, and `Sure` for a process that can only be stopped by being cut off.
-/

namespace Base

inductive Stop (ε : Type) where
  | crash
  | failed (e : ε)

/-- State and writes left, before and after. -/
def Process (ε σ α : Type) : Type := σ → Nat → Except (Stop ε) α × σ × Nat

namespace Process

variable {ε σ α β : Type} {P P' E E' : σ → Prop} {Q Q' : α → σ → Prop} {R : β → σ → Prop} {a : α}
  {m m' : Process ε σ α} {f g : α → Process ε σ β} {e : ε} {x : Except ε α} {t s s' t' : σ}

def andThen (m : Process ε σ α) (f : α → Process ε σ β) : Process ε σ β := fun s n =>
  match m s n with
  | (.ok a, s', n') => f a s' n'
  | (.error e, s', n') => (.error e, s', n')

instance : Monad (Process ε σ) where
  pure a := fun s n => (.ok a, s, n)
  bind := andThen

def observe (f : σ → α) : Process ε σ α := fun s n => (.ok (f s), s, n)

def fail (e : ε) : Process ε σ α := fun s n => (.error (.failed e), s, n)

def attempt : Except ε α → Process ε σ α
  | .ok a => pure a
  | .error e => fail e

def durable (f : σ → σ) : Process ε σ Unit := fun s n =>
  match n with
  | 0 => (.error .crash, s, 0)
  | n + 1 => (.ok (), f s, n)

/-- A change of what the process itself holds; it cannot be cut off. -/
def note (f : σ → σ) : Process ε σ Unit := fun s n => (.ok (), f s, n)

/-! ## However a run ends -/

/-- From `P`, a run that returns `a` ends in `Q a`; one that fails or is cut off, in `E`. -/
def Triple (P : σ → Prop) (m : Process ε σ α) (Q : α → σ → Prop) (E : σ → Prop) : Prop :=
  ∀ s n, P s → (∀ a s' n', m s n = (.ok a, s', n') → Q a s') ∧ ∀ e s' n', m s n = (.error e, s', n') → E s'

theorem Triple.pure (post : ∀ s, P s → Q a s) : Triple P (Pure.pure a : Process ε σ α) Q E := by
  intro s n pre
  constructor
  · rintro _ _ _ ⟨⟩
    exact post s pre
  · rintro _ _ _ ⟨⟩

theorem Triple.bind (first : Triple P m Q E) (second : ∀ a, Triple (Q a) (f a) R E) : Triple P (m >>= f) R E := by
  intro s n pre
  obtain ⟨ok, bad⟩ := first s n pre
  have unfolded : (m >>= f) s n = andThen m f s n := rfl
  rw [unfolded, andThen]
  rcases ran : m s n with ⟨e | a, s', n'⟩
  · constructor
    · rintro _ _ _ ⟨⟩
    · rintro _ _ _ ⟨⟩
      exact bad _ _ _ ran
  · exact second a s' n' (ok a s' n' ran)

theorem Triple.observe {f : σ → α} (post : ∀ s, P s → Q (f s) s) : Triple P (observe f : Process ε σ α) Q E := by
  intro s n pre
  constructor
  · rintro _ _ _ ⟨⟩
    exact post s pre
  · rintro _ _ _ ⟨⟩

theorem Triple.fail (bad : ∀ s, P s → E s) : Triple P (fail e : Process ε σ α) Q E := by
  intro s n pre
  constructor
  · rintro _ _ _ ⟨⟩
  · rintro _ _ _ ⟨⟩
    exact bad s pre

theorem Triple.attempt (post : ∀ a s, x = .ok a → P s → Q a s) (bad : ∀ s, P s → E s) :
    Triple P (attempt x : Process ε σ α) Q E := by
  cases x with
  | ok a => exact Triple.pure fun s => post a s rfl
  | error e => exact Triple.fail bad

section
variable {f : σ → σ} {Q : Unit → σ → Prop} (post : ∀ s, P s → Q () (f s))
include post

theorem Triple.durable (bad : ∀ s, P s → E s) : Triple P (durable f : Process ε σ Unit) Q E := by
  intro s n pre
  cases n with
  | zero =>
    constructor
    · rintro _ _ _ ⟨⟩
    · rintro _ _ _ ⟨⟩
      exact bad s pre
  | succ n =>
    constructor
    · rintro _ _ _ ⟨⟩
      exact post s pre
    · rintro _ _ _ ⟨⟩

theorem Triple.note : Triple P (note f : Process ε σ Unit) Q E := by
  intro s n pre
  constructor
  · rintro _ _ _ ⟨⟩
    exact post s pre
  · rintro _ _ _ ⟨⟩

end

theorem Triple.mono (triple : Triple P m Q E)
    (pre : ∀ s, P' s → P s) (post : ∀ a s, Q a s → Q' a s) (bad : ∀ s, E s → E' s) : Triple P' m Q' E' := by
  intro s n before
  obtain ⟨ok, stop⟩ := triple s n (pre s before)
  exact ⟨fun a s' n' ran => post a s' (ok a s' n' ran), fun e s' n' ran => bad s' (stop e s' n' ran)⟩

/-- A fact about the state before may be taken out of the precondition. -/
theorem Triple.intro (each : ∀ t, P t → Triple (fun s => s = t) m Q E) : Triple P m Q E := by
  intro s n pre
  exact each s pre s n rfl

theorem Triple.start (triple : Triple P m Q E) (pre : P t) : Triple (fun s => s = t) m Q E :=
  fun s n same => triple s n (same ▸ pre)

/-- After a look at the state, the state is the one looked at. -/
theorem Triple.observe_bind {f : σ → α} (each : ∀ t, P t → Triple (fun s => s = t) (g (f t)) R E) :
    Triple P (Process.observe f >>= g) R E :=
  fun s n pre => each s pre s n rfl

theorem Triple.attempt_bind (each : ∀ a, x = .ok a → Triple P (g a) R E) (bad : ∀ s, P s → E s) :
    Triple P (Process.attempt x >>= g) R E := by
  cases x with
  | ok a => exact each a rfl
  | error e => exact Triple.bind (Triple.fail (Q := fun _ _ => False) bad) fun _ _ _ no => no.elim

/-- What is known before a run is known after it. -/
theorem Triple.known (fact : Prop) : Triple (fun _ => fact) m (fun _ _ => fact) fun _ => True :=
  fun _ _ known => ⟨fun _ _ _ _ => known, fun _ _ _ _ => trivial⟩

/-- The process keeps `P` as long as it runs, and `E` when it stops. -/
def Keeps (P E : σ → Prop) (m : Process ε σ α) : Prop := Triple P m (fun _ => P) E

theorem Keeps.pure : Keeps P E (Pure.pure a : Process ε σ α) := Triple.pure fun _ pre => pre

theorem Keeps.bind (first : Keeps P E m) (second : ∀ a, Keeps P E (f a)) : Keeps P E (m >>= f) :=
  Triple.bind first second

theorem Keeps.observe {f : σ → α} : Keeps P E (Process.observe f : Process ε σ α) := Triple.observe fun _ pre => pre

theorem Keeps.fail (stop : ∀ s, P s → E s) : Keeps P E (Process.fail e : Process ε σ α) := Triple.fail stop

theorem Keeps.attempt (stop : ∀ s, P s → E s) : Keeps P E (Process.attempt x : Process ε σ α) :=
  Triple.attempt (fun _ _ _ pre => pre) stop

theorem Keeps.state (keeps : Keeps P P m) (pre : P s) (n : Nat) : P (m s n).2.1 := by
  obtain ⟨ok, stopped⟩ := keeps s n pre
  rcases ran : m s n with ⟨e | a, s', n'⟩
  · exact stopped e s' n' ran
  · exact ok a s' n' ran

/-! ## Runs that succeed unless they are cut off -/

/-- From `P`, the process makes some number of writes and returns in `Q`; cut off
before that, it stops in `E`. -/
def Sure (P : σ → Prop) (m : Process ε σ α) (Q : α → σ → Prop) (E : σ → Prop) : Prop :=
  ∀ s, P s → ∃ a s' k, Q a s' ∧ (∀ n, m s (n + k) = (.ok a, s', n)) ∧
    ∀ n < k, ∃ t, m s n = (.error .crash, t, 0) ∧ E t

theorem Sure.pure (post : ∀ s, P s → Q a s) : Sure P (Pure.pure a : Process ε σ α) Q E :=
  fun s pre => ⟨a, s, 0, post s pre, fun _ => rfl, fun n lt => absurd lt (Nat.not_lt_zero n)⟩

theorem Sure.bind (first : Sure P m Q E) (second : ∀ a, Sure (Q a) (f a) R E) : Sure P (m >>= f) R E := by
  intro s pre
  obtain ⟨a, t, j, mid, ran, cut⟩ := first s pre
  obtain ⟨b, u, k, post, ran', cut'⟩ := second a t mid
  have unfolded : ∀ n, (m >>= f) s n = andThen m f s n := fun _ => rfl
  refine ⟨b, u, k + j, post, fun n => ?_, fun n lt => ?_⟩
  · rw [unfolded, andThen, ← Nat.add_assoc, ran (n + k)]
    exact ran' n
  · rw [unfolded, andThen]
    rcases Nat.lt_or_ge n j with early | late
    · obtain ⟨v, stopped, bad⟩ := cut n early
      rw [stopped]
      exact ⟨v, rfl, bad⟩
    · -- The first part is over; what is left of the budget goes to the second.
      obtain ⟨v, stopped, bad⟩ := cut' (n - j) (by omega)
      have split : m s n = (.ok a, t, n - j) := by
        have whole := ran (n - j)
        rwa [Nat.sub_add_cancel late] at whole
      rw [split]
      exact ⟨v, stopped, bad⟩

theorem Sure.attempt (ok : x = .ok a) (post : ∀ s, P s → Q a s) : Sure P (Process.attempt x : Process ε σ α) Q E := by
  subst ok
  exact Sure.pure post

section
variable {f : σ → σ} {Q : Unit → σ → Prop} (post : ∀ s, P s → Q () (f s))
include post

theorem Sure.durable (bad : ∀ s, P s → E s) : Sure P (Process.durable f : Process ε σ Unit) Q E := by
  intro s pre
  refine ⟨(), f s, 1, post s pre, fun _ => rfl, fun n lt => ⟨s, ?_, bad s pre⟩⟩
  obtain rfl : n = 0 := by omega
  rfl

theorem Sure.note : Sure P (Process.note f : Process ε σ Unit) Q E :=
  fun s pre => ⟨(), f s, 0, post s pre, fun _ => rfl, fun n lt => absurd lt (Nat.not_lt_zero n)⟩

end

/-- After a look at the state, the state is the one looked at. -/
theorem Sure.observe_bind {f : σ → α}
    (each : ∀ t, P t → Sure (fun s => s = t) (g (f t)) R E) : Sure P (Process.observe f >>= g) R E :=
  fun s pre => each s pre s rfl

theorem Sure.attempt_bind (ok : x = .ok a) (next : Sure P (g a) R E) : Sure P (Process.attempt x >>= g) R E := by
  subst ok
  exact next

theorem Sure.intro (each : ∀ t, P t → Sure (fun s => s = t) m Q E) : Sure P m Q E :=
  fun s pre => each s pre s rfl

/-! From one state. -/

theorem Sure.start (sure : Sure P m Q E) (pre : P t) : Sure (fun s => s = t) m Q E := by
  rintro s rfl
  exact sure s pre

theorem Sure.returns (post : Q a t) : Sure (fun s => s = t) (Pure.pure a : Process ε σ α) Q E :=
  Sure.pure fun _ same => same ▸ post

theorem Sure.writes {f : σ → σ} {Q : Unit → σ → Prop} (post : Q () (f t)) (bad : E t) :
    Sure (fun s => s = t) (Process.durable f : Process ε σ Unit) Q E :=
  Sure.durable (fun _ same => same ▸ post) fun _ same => same ▸ bad

section
variable {g : Unit → Process ε σ β} {f : σ → σ} (next : Sure (fun s => s = f t) (g ()) R E)
include next

theorem Sure.note_bind : Sure (fun s => s = t) (Process.note f >>= g) R E := by
  rintro s rfl
  exact next _ rfl

theorem Sure.write_bind (bad : E t) : Sure (fun s => s = t) (Process.durable f >>= g) R E :=
  Sure.bind (Sure.writes rfl bad) fun _ => next

end

theorem Sure.mono (sure : Sure P m Q E)
    (pre : ∀ s, P' s → P s) (post : ∀ a s, Q a s → Q' a s) (bad : ∀ s, E s → E' s) : Sure P' m Q' E' := by
  intro s before
  obtain ⟨a, s', k, after, ran, cut⟩ := sure s (pre s before)
  refine ⟨a, s', k, post a s' after, ran, fun n lt => ?_⟩
  obtain ⟨t, stopped, was⟩ := cut n lt
  exact ⟨t, stopped, bad t was⟩

theorem Sure.weaken (sure : Sure P m Q E) (bad : ∀ s, E s → E' s) : Sure P m Q E' :=
  sure.mono (fun _ pre => pre) (fun _ _ post => post) bad

/-- A process whose first write is made goes on as another. -/
theorem Sure.of_begun (none : m t 0 = (.error .crash, t, 0))
    (begun : ∀ n, m t (n + 1) = m' t' n) (rest : Sure (fun s => s = t') m' Q E) :
    Sure (fun s => s = t) m Q fun s => s = t ∨ E s := by
  rintro s rfl
  obtain ⟨a, s', k, post, ran, cut⟩ := rest t' rfl
  refine ⟨a, s', k + 1, post, fun n => (begun (n + k)).trans (ran n), fun n lt => ?_⟩
  cases n with
  | zero => exact ⟨s, none, .inl rfl⟩
  | succ n =>
    obtain ⟨u, stopped, bad⟩ := cut n (Nat.lt_of_succ_lt_succ lt)
    exact ⟨u, (begun n).trans stopped, .inr bad⟩

theorem Sure.triple (sure : Sure P m Q E) : Triple P m Q E := by
  intro s n pre
  obtain ⟨a, s', k, post, ran, cut⟩ := sure s pre
  rcases Nat.lt_or_ge n k with early | late
  · obtain ⟨t, stopped, bad⟩ := cut n early
    rw [stopped]
    constructor
    · rintro _ _ _ ⟨⟩
    · rintro _ _ _ ⟨⟩
      exact bad
  · have whole := ran (n - k)
    rw [Nat.sub_add_cancel late] at whole
    rw [whole]
    constructor
    · rintro _ _ _ ⟨⟩
      exact post
    · rintro _ _ _ ⟨⟩

/-- Two runs that go the same way go on the same way. -/
theorem bind_congr {n n' : Nat} (same : m s n = m' s' n') : (m >>= f) s n = (m' >>= f) s' n' := by
  have unfolded : ∀ (m : Process ε σ α) s n, (m >>= f) s n = andThen m f s n := fun _ _ _ => rfl
  rw [unfolded, unfolded, andThen, andThen, same]

theorem bind_error {n n' : Nat} {e : Stop ε} (stopped : m s n = (.error e, s', n'))
    (f : α → Process ε σ β) : (m >>= f) s n = (.error e, s', n') := by
  have unfolded : (m >>= f) s n = andThen m f s n := rfl
  rw [unfolded, andThen, stopped]

theorem bind_ran {n n' : Nat} (ran : m s n = (.ok a, s', n')) : (m >>= f) s n = f a s' n' := by
  have unfolded : (m >>= f) s n = andThen m f s n := rfl
  rw [unfolded, andThen, ran]

/-- Writes made one after the other, cut off after any number of them. -/
theorem forM_durable (f : β → σ → σ) (items : List β) (s : σ) (n : Nat) :
    (items.forM fun item => (durable (f item) : Process ε σ Unit)) s n =
      if n < items.length then (.error .crash, (items.take n).foldl (fun s item => f item s) s, 0)
      else (.ok (), items.foldl (fun s item => f item s) s, n - items.length) := by
  induction items generalizing s n with
  | nil => rfl
  | cons item items ih =>
    cases n with
    | zero => rfl
    | succ n =>
      have unfolded : ((item :: items).forM fun item => (durable (f item) : Process ε σ Unit)) s (n + 1) =
          (items.forM fun item => (durable (f item) : Process ε σ Unit)) (f item s) n := rfl
      rw [unfolded, ih, List.take_succ_cons, List.foldl_cons, List.foldl_cons, List.length_cons, Nat.add_sub_add_right]
      simp only [Nat.add_lt_add_iff_right]

/-! ## The writes of a run -/

section Writes

variable {ω : Type} {apply : ω → σ → σ} {ops ops' : List ω} {r : Except ε α} {op : ω} {b : Except ε β}

/-- The state after the writes `ops`. -/
def afterWrites (apply : ω → σ → σ) (s : σ) (ops : List ω) : σ := ops.foldl (fun s op => apply op s) s

@[simp] theorem afterWrites_nil : afterWrites apply s [] = s := rfl

@[simp] theorem afterWrites_cons (op : ω) : afterWrites apply s (op :: ops) = afterWrites apply (apply op s) ops := rfl

theorem afterWrites_append : afterWrites apply s (ops ++ ops') = afterWrites apply (afterWrites apply s ops) ops' :=
  List.foldl_append

/-- The process makes the writes `ops` one after the other and then ends with `r`, if it is not cut off. -/
def Makes (apply : ω → σ → σ) (m : Process ε σ α) (s : σ) (ops : List ω) (r : Except ε α) : Prop :=
  ∀ n, m s n = if n < ops.length then (.error .crash, afterWrites apply s (ops.take n), 0)
    else (r.mapError .failed, afterWrites apply s ops, n - ops.length)

theorem Makes.pure : Makes apply (Pure.pure a : Process ε σ α) s [] (.ok a) := fun _ => rfl

theorem Makes.fail : Makes apply (fail e : Process ε σ α) s [] (.error e) := fun _ => rfl

theorem Makes.durable : Makes apply (durable (apply op) : Process ε σ Unit) s [op] (.ok ()) := by
  intro n
  cases n with
  | zero => rfl
  | succ n => exact (if_neg (by simp)).symm

theorem Makes.bind (first : Makes apply m s ops (.ok a))
    (second : Makes apply (f a) (afterWrites apply s ops) ops' b) : Makes apply (m >>= f) s (ops ++ ops') b := by
  intro n
  rw [List.length_append]
  rcases Nat.lt_or_ge n ops.length with early | late
  · rw [if_pos (by omega), List.take_append_of_le_length early.le]
    refine bind_error ?_ f
    rw [first n, if_pos early]
  · have ran : m s n = (.ok a, afterWrites apply s ops, n - ops.length) := by
      rw [first n, if_neg (by omega)]
      rfl
    rw [bind_ran ran, second (n - ops.length), afterWrites_append, List.take_append, List.take_of_length_le late,
      afterWrites_append]
    by_cases cut : n < ops.length + ops'.length
    · rw [if_pos cut, if_pos (by omega)]
    · rw [if_neg cut, if_neg (by omega), Nat.sub_sub]

theorem Makes.durable_bind {f : Unit → Process ε σ β}
    (rest : Makes apply (f ()) (apply op s) ops b) : Makes apply (Process.durable (apply op) >>= f) s (op :: ops) b :=
  Makes.bind Makes.durable rest

theorem Makes.then_fail (first : Makes apply m s ops (.ok a)) :
    Makes apply (m >>= fun _ => (Process.fail e : Process ε σ β)) s ops (.error e) := by
  rw [← List.append_nil ops]
  exact Makes.bind first Makes.fail

/-- A process that fails does not go on. -/
theorem Makes.bind_error (first : Makes apply m s ops (.error e)) : Makes apply (m >>= f) s ops (.error e) := by
  intro n
  have ran := first n
  split at ran
  case isTrue cut => rw [if_pos cut, Process.bind_error ran f]
  case isFalse whole => exact (Process.bind_error ran f).trans (if_neg whole).symm

theorem Makes.observe_bind {f : σ → α} (rest : Makes apply (g (f s)) s ops b) :
    Makes apply (observe f >>= g) s ops b :=
  rest

/-- Cut off or not, a run leaves the state after some of its writes. -/
theorem Makes.state (makes : Makes apply m s ops r) (n : Nat) : (m s n).2.1 = afterWrites apply s (ops.take n) := by
  rw [makes n]
  split
  case isTrue cut => rfl
  case isFalse whole => rw [List.take_of_length_le (by omega)]

/-- A loop that makes the writes of those of its items that have any. -/
theorem Makes.forM {f : β → Process ε σ Unit} {write : β → ω} {p : β → Bool}
    (skips : ∀ item, p item = false → f item = Pure.pure ()) (writes : ∀ item, p item = true → f item = Process.durable (apply (write item)))
    (items : List β) (s : σ) : Makes apply (items.forM f) s ((items.filter p).map write) (.ok ()) := by
  induction items generalizing s with
  | nil => exact Makes.pure
  | cons item items ih =>
    cases kept : p item with
    | false =>
      rw [List.filter_cons_of_neg (by simp [kept])]
      show Makes apply (f item >>= fun _ => items.forM f) s _ _
      rw [skips item kept]
      exact Makes.bind Makes.pure (ih s)
    | true =>
      rw [List.filter_cons_of_pos kept, List.map_cons]
      show Makes apply (f item >>= fun _ => items.forM f) s _ _
      rw [writes item kept]
      exact Makes.bind Makes.durable (ih _)

end Writes

/-- One run of it. -/
theorem Sure.cases (sure : Sure P m Q E) (pre : P s) (n : Nat) :
    (∃ a s' n', m s n = (.ok a, s', n') ∧ Q a s') ∨ ∃ t, m s n = (.error .crash, t, 0) ∧ E t := by
  obtain ⟨a, s', k, post, ran, cut⟩ := sure s pre
  rcases Nat.lt_or_ge n k with early | late
  · exact .inr (cut n early)
  · have whole := ran (n - k)
    rw [Nat.sub_add_cancel late] at whole
    exact .inl ⟨a, s', n - k, whole, post⟩

end Process

end Base
