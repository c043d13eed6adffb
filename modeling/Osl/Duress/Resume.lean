import Mathlib.Data.List.Induction
import Osl.Duress.Engine

/-!
# What a resumed wipe makes up for

`execute` leaves out every step the journal names, whatever its outcome. So a failed
step, once recorded, is never tried again and its journal never removed; the same
goes for a journal cut off between truncation and write, which no longer parses.
As long as no run does either, each resume attempts every open step, and the
journal goes exactly when all steps are settled.
-/

namespace Osl.Duress

open Base WipeStep
open Process (Sure observe fail durable note)

variable {σ : Type} {l new : List (WipeStep × StepOutcome)} {x : WipeStep × StepOutcome} {s : WipeStep} {w : World σ}
  {j₀ j : DuressJournal} {rest steps : List WipeStep}

/-! ## Attempts -/

/-- The outcome of the last attempt of a step. -/
def latest (attempts : List (WipeStep × StepOutcome)) (s : WipeStep) : Option StepOutcome :=
  (attempts.reverse.find? (·.1 = s)).map Prod.snd

theorem latest_snoc :
    latest (l ++ [x]) s = if x.1 = s then some x.2 else latest l s := by
  rw [latest, List.reverse_append, List.reverse_singleton, List.singleton_append, List.find?_cons]
  by_cases same : x.1 = s
  · simp [same]
  · simp [same, latest]

theorem latest_append_of_notMem (other : s ∉ new.map Prod.fst) :
    latest (l ++ new) s = latest l s := by
  induction new using List.reverseRecOn with
  | nil => rw [List.append_nil]
  | append_singleton new x ih =>
    rw [List.map_append, List.mem_append, not_or] at other
    rw [← List.append_assoc, latest_snoc, if_neg, ih other.1]
    rintro rfl
    exact other.2 (by simp)

theorem latest_append_of_mem (distinct : (new.map Prod.fst).Nodup)
    (mem : x ∈ new) : latest (l ++ new) x.1 = some x.2 := by
  obtain ⟨before, after, rfl⟩ := List.append_of_mem mem
  have other : x.1 ∉ after.map Prod.fst := by
    rw [List.map_append, List.map_cons] at distinct
    exact (List.nodup_cons.1 (List.nodup_append.1 distinct).2.1).1
  rw [show l ++ (before ++ x :: after) = (l ++ before ++ [x]) ++ after by simp, latest_append_of_notMem other,
    latest_snoc, if_pos rfl]

/-- The last attempt of the step succeeded or was skipped. -/
def Settled (w : World σ) (s : WipeStep) : Prop := ∃ o, latest w.attempts s = some o ∧ o.isFailed = false

/-- Between the two states the step was attempted. -/
def Attempted (w w' : World σ) (s : WipeStep) : Prop :=
  ∃ new, w'.attempts = w.attempts ++ new ∧ s ∈ new.map Prod.fst

/-! ## One run -/

/-- The steps a run has to make. -/
def DuressJournal.pending (j : DuressJournal) (steps : List WipeStep) : List WipeStep := steps.filter (· ∉ j.steps)

/-- Since `w` with journal `j₀`, the loop went through `steps` and holds `j`. -/
def Progress (w : World σ) (j₀ : DuressJournal) (steps : List WipeStep) (j : DuressJournal) (s : World σ) : Prop :=
  ∃ new, s.attempts = w.attempts ++ new ∧ new.map Prod.fst = j₀.pending steps ∧
    j = ⟨j₀.completed ++ new, j₀.startedAtUnixSeconds⟩ ∧ s.journal = some (.whole j)

/-- Cut off: the last attempt may be missing from the journal, or the journal be empty. -/
def Cut (w : World σ) (j₀ : DuressJournal) (s : World σ) : Prop :=
  ∃ new, s.attempts = w.attempts ++ new ∧ new.map Prod.fst <+: j₀.pending ordered ∧
    (s.journal = some .empty ∨ ∃ recorded, recorded <+: new ∧
      s.journal = some (.whole ⟨j₀.completed ++ recorded, j₀.startedAtUnixSeconds⟩))

/-- Through all steps: the journal is left exactly if it holds a failure. -/
def Finished (w : World σ) (j₀ : DuressJournal) (report : DuressReport) (s : World σ) : Prop :=
  ∃ new, s.attempts = w.attempts ++ new ∧ new.map Prod.fst = j₀.pending ordered ∧
    report = ⟨j₀.completed ++ new, true⟩ ∧
    s.journal = if (j₀.completed ++ new).any (·.2.isFailed) then
      some (.whole ⟨j₀.completed ++ new, j₀.startedAtUnixSeconds⟩) else none

theorem pending_append (j : DuressJournal) (steps more : List WipeStep) :
    j.pending (steps ++ more) = j.pending steps ++ j.pending more := List.filter_append ..

theorem Progress.cut {s : World σ}
    (reached : Progress w j₀ steps j s) (split : steps ++ rest = ordered) : Cut w j₀ s := by
  obtain ⟨new, attempts, names, rfl, journal⟩ := reached
  refine ⟨new, attempts, ?_, .inr ⟨new, List.prefix_refl _, journal⟩⟩
  rw [names, ← split, pending_append]
  exact List.prefix_append _ _

variable (E : DuressEngine σ) {a : Action σ} {now n : Nat} {t : World σ} {report : DuressReport}
  {alreadyDone : List WipeStep}

theorem attemptStep_sure {step : WipeStep} :
    Sure (fun s => s = t) (E.attemptStep step)
      (fun o s => s.attempts = t.attempts ++ [(step, o)] ∧ s.journal = t.journal) fun s => s = t := by
  apply Sure.observe_bind
  rintro _ rfl
  exact Sure.write_bind (Sure.returns ⟨rfl, rfl⟩) rfl

theorem writeJournal_sure :
    Sure (fun s => s = t) (writeJournal j) (fun _ s => s = { t with journal := some (.whole j) })
      fun s => s = t ∨ s = { t with journal := some .empty } :=
  Sure.write_bind (Sure.writes rfl (.inr rfl)) (.inl rfl)

/-- The loop, from any point of it. -/
theorem runSteps_sure (split : steps ++ rest = ordered) (reached : Progress w j₀ steps j t) :
    Sure (fun s => s = t) (E.runSteps j₀.steps rest j) (fun j' s => Progress w j₀ ordered j' s) (Cut w j₀) := by
  induction rest generalizing steps j t with
  | nil =>
    rw [List.append_nil] at split
    subst split
    exact Sure.returns reached
  | cons step rest ih =>
    have split' : (steps ++ [step]) ++ rest = ordered := by rw [← split]; simp
    rw [DuressEngine.runSteps]
    by_cases done : step ∈ j₀.steps
    · rw [if_pos done]
      refine ih split' ?_
      obtain ⟨new, attempts, names, recorded⟩ := reached
      refine ⟨new, attempts, ?_, recorded⟩
      rw [pending_append, names]
      simp [DuressJournal.pending, done]
    · rw [if_neg done]
      refine Sure.bind ((attemptStep_sure E).weaken fun s same => same ▸ reached.cut split) fun outcome => ?_
      obtain ⟨new, attempts, names, rfl, journal⟩ := reached
      have names' : (new ++ [(step, outcome)]).map Prod.fst = j₀.pending (steps ++ [step]) := by
        rw [pending_append, List.map_append, names]
        simp [DuressJournal.pending, done]
      have before : (new ++ [(step, outcome)]).map Prod.fst <+: j₀.pending ordered := by
        rw [names', ← split', pending_append j₀ (steps ++ [step])]
        exact List.prefix_append _ _
      refine Sure.intro fun u made => ?_
      obtain ⟨made, same⟩ := made
      rw [attempts, List.append_assoc] at made
      refine Sure.bind ((writeJournal_sure).weaken ?_) fun _ => ?_
      · rintro s (rfl | rfl)
        · exact ⟨_, made, before, .inr ⟨new, List.prefix_append _ _, same.trans journal⟩⟩
        · exact ⟨_, made, before, .inl rfl⟩
      · exact ih split' ⟨_, made, names', by rw [List.append_assoc], rfl⟩

theorem all_isTerminal {completed : List (WipeStep × StepOutcome)} : completed.all (·.2.isTerminal) = true := by
  rw [List.all_eq_true]
  rintro ⟨_, o⟩ _
  cases o <;> rfl

/-- The loop and the sweep that follows it. -/
theorem afterJournal_sure (journal : w.journal = some (.whole j₀)) :
    Sure (fun s => s = w) (do
        let journal ← E.runSteps j₀.steps ordered j₀
        let allTerminal := journal.completed.all (·.2.isTerminal)
        let anyFailed := journal.completed.any (·.2.isFailed)
        if allTerminal && !anyFailed then removeJournalIfPresent
        pure ⟨journal.completed, allTerminal⟩)
      (Finished w j₀) (Cut w j₀) := by
  have start : Progress w j₀ [] j₀ w := ⟨[], (List.append_nil _).symm, rfl, by rw [List.append_nil], journal⟩
  refine Sure.bind (runSteps_sure E (List.nil_append _) start) fun j => ?_
  simp only [all_isTerminal, Bool.true_and]
  refine Sure.intro fun t reached => ?_
  have cut := reached.cut (List.append_nil _)
  obtain ⟨new, attempts, names, rfl, whole⟩ := reached
  by_cases failed : (j₀.completed ++ new).any (·.2.isFailed) = true
  · simp only [failed]
    exact Sure.returns ⟨new, attempts, names, rfl, by rw [if_pos failed]; exact whole⟩
  · simp only [failed]
    exact Sure.write_bind (Sure.returns ⟨new, attempts, names, rfl, by rw [if_neg failed]⟩) cut

/-- A run that finds a journal. -/
theorem execute_sure (journal : w.journal = some (.whole j₀)) :
    Sure (fun s => s = w) (E.execute now) (Finished w j₀) (Cut w j₀) := by
  refine Sure.bind (Q := fun j s => j = j₀ ∧ s = w) ?_ ?_
  · apply Sure.observe_bind
    rintro _ rfl
    rw [journal]
    exact Sure.returns ⟨rfl, rfl⟩
  · intro j
    refine Sure.intro ?_
    rintro _ ⟨rfl, rfl⟩
    exact afterJournal_sure E journal

/-- The state with a journal just started. -/
def World.started (w : World σ) (now : Nat) : World σ :=
  { w with journal := some (.whole ⟨[], now⟩), attempts := [] }

/-- A run that finds none. -/
theorem execute_init_sure (none : w.journal = none) :
    Sure (fun s => s = w) (E.execute now) (Finished (w.started now) ⟨[], now⟩)
      fun s => s.journal = Option.none ∨ s.journal = some .empty ∨ Cut (w.started now) ⟨[], now⟩ s := by
  refine Sure.bind (Q := fun j s => j = ⟨[], now⟩ ∧ s = w.started now) ?_ ?_
  · apply Sure.observe_bind
    rintro _ rfl
    rw [none]
    apply Sure.note_bind
    refine Sure.bind ((writeJournal_sure).weaken ?_) fun _ => Sure.pure fun _ same => ⟨rfl, same⟩
    rintro s (rfl | rfl)
    · exact .inl none
    · exact .inr (.inl rfl)
  · intro j
    refine Sure.intro ?_
    rintro _ ⟨rfl, rfl⟩
    exact (afterJournal_sure E rfl).weaken fun _ cut => .inr (.inr cut)

/-- A run that finds an empty file. -/
theorem execute_empty (empty : w.journal = some .empty) :
    ∃ e, E.execute now w n = (.error (.failed e), w, n) := by
  rcases w with ⟨o, journal, attempts⟩
  cases empty
  exact ⟨_, rfl⟩

/-! ## Resumed runs -/

theorem resume_none (none : w.journal = none) : E.resumeIfPending now w n = (.ok .none, w, n) := by
  rcases w with ⟨o, journal, attempts⟩
  cases none
  rfl

theorem resume_pending (found : w.journal ≠ none) :
    E.resumeIfPending now w n = (E.execute now >>= fun report => pure (some report)) w n := by
  obtain ⟨o, _ | file, attempts⟩ := w
  · exact absurd rfl found
  · rfl

theorem resume_empty (empty : w.journal = some .empty) :
    ∃ e, E.resumeIfPending now w n = (.error (.failed e), w, n) := by
  obtain ⟨e, stopped⟩ := execute_empty E empty
  exact ⟨e, by rw [resume_pending E (by simp [empty]), Process.bind_error stopped]⟩

theorem resume_world (journal : w.journal = some (.whole j)) :
    (E.resumeIfPending now w n).2.1 = (E.execute now w n).2.1 := by
  rw [resume_pending E (by simp [journal])]
  rcases ran : E.execute now w n with ⟨e | report, s, n'⟩
  · rw [Process.bind_error ran]
  · rw [Process.bind_ran ran]
    rfl

theorem resume_sure (journal : w.journal = some (.whole j₀)) :
    Sure (fun s => s = w) (E.resumeIfPending now) (fun _ s => ∃ report, Finished w j₀ report s) (Cut w j₀) := by
  apply Sure.observe_bind
  rintro _ rfl
  rw [journal]
  exact Sure.bind (execute_sure E journal) fun report => Sure.pure fun _ finished => ⟨report, finished⟩

/-- What a run left, as far as the journal goes. -/
inductive Ran (w : World σ) (s : World σ) : Prop where
  | idle (journal : s.journal = w.journal) (attempts : s.attempts = w.attempts)
  | finished (j₀ : DuressJournal) (report : DuressReport) (journal : w.journal = some (.whole j₀))
    (done : Finished w j₀ report s)
  | cut (j₀ : DuressJournal) (journal : w.journal = some (.whole j₀)) (stopped : Cut w j₀ s)
  | begun (absent : w.journal = none) (now : Nat) (rest : s.journal = none ∨ s.journal = some .empty ∨
      (∃ report, Finished (w.started now) ⟨[], now⟩ report s) ∨ Cut (w.started now) ⟨[], now⟩ s)

theorem step_ran : Ran w (step E w a) := by
  cases a with
  | outside o => exact .idle rfl rfl
  | execute now n =>
    rcases found : w.journal with _ | _ | j₀
    · rcases (execute_init_sure E found).cases rfl n with ⟨report, s, n', ran, done⟩ | ⟨s, ran, cut⟩
      · rw [step, ran]
        exact .begun found now (.inr (.inr (.inl ⟨report, done⟩)))
      · rw [step, ran]
        rcases cut with none | empty | cut
        · exact .begun found now (.inl none)
        · exact .begun found now (.inr (.inl empty))
        · exact .begun found now (.inr (.inr (.inr cut)))
    · obtain ⟨e, ran⟩ := execute_empty E found
      rw [step, ran]
      exact .idle rfl rfl
    · rcases (execute_sure E found).cases rfl n with ⟨report, s, n', ran, done⟩ | ⟨s, ran, cut⟩
      · rw [step, ran]
        exact .finished j₀ report found done
      · rw [step, ran]
        exact .cut j₀ found cut
  | resumeIfPending now n =>
    rcases found : w.journal with _ | _ | j₀
    · rw [step, resume_none E found]
      exact .idle rfl rfl
    · obtain ⟨e, ran⟩ := resume_empty E found
      rw [step, ran]
      exact .idle rfl rfl
    · rcases (resume_sure E found).cases rfl n with ⟨_, s, n', ran, report, done⟩ | ⟨s, ran, cut⟩
      · rw [step, ran]
        exact .finished j₀ report found done
      · rw [step, ran]
        exact .cut j₀ found cut

/-! ## The journal and the attempts -/

/-- The journal holds the outcome of the last attempt of every step it names. -/
def Consistent (w : World σ) : Prop :=
  ∀ j, w.journal = some (.whole j) → ∀ x ∈ j.completed, latest w.attempts x.1 = some x.2

theorem mem_pending : s ∈ j.pending ordered ↔ s ∉ j.steps := by
  rw [DuressJournal.pending, List.mem_filter, decide_eq_true_eq]
  exact and_iff_right s.mem_ordered

theorem latest_of_recorded {attempts : List (WipeStep × StepOutcome)}
    (was : ∀ x ∈ j₀.completed, latest attempts x.1 = some x.2) (names : new.map Prod.fst <+: j₀.pending ordered) :
    ∀ x ∈ j₀.completed ++ new, latest (attempts ++ new) x.1 = some x.2 := by
  intro x mem
  rcases List.mem_append.1 mem with old | made
  · rw [latest_append_of_notMem, was x old]
    intro again
    exact mem_pending.1 (names.subset again) (List.mem_map_of_mem old)
  · exact latest_append_of_mem (names.sublist.nodup (nodup_ordered.filter _)) made

section
variable {s : World σ} (was : ∀ x ∈ j₀.completed, latest w.attempts x.1 = some x.2)
include was

theorem Finished.consistent (done : Finished w j₀ report s) : Consistent s := by
  obtain ⟨new, attempts, names, _, journal⟩ := done
  intro j found
  rw [journal] at found
  split at found
  · cases found
    rw [attempts]
    exact latest_of_recorded was (names ▸ List.prefix_refl _)
  · cases found

theorem Cut.consistent (cut : Cut w j₀ s) : Consistent s := by
  obtain ⟨new, attempts, names, empty | ⟨recorded, before, journal⟩⟩ := cut
  · intro j found
    rw [empty] at found
    cases found
  · intro j found x mem
    rw [journal] at found
    cases found
    rw [attempts]
    refine latest_of_recorded was names x ?_
    rcases List.mem_append.1 mem with old | made
    · exact List.mem_append_left _ old
    · exact List.mem_append_right _ (before.subset made)

end

theorem step_consistent (w : World σ) (a : Action σ) (consistent : Consistent w) : Consistent (step E w a) := by
  have nothing : ∀ {s : World σ}, s.journal = none ∨ s.journal = some .empty → Consistent s := by
    rintro s (none | empty) j found
    · rw [none] at found
      cases found
    · rw [empty] at found
      cases found
  cases step_ran E with
  | idle journal attempts =>
    intro j found
    rw [attempts]
    exact consistent j (journal ▸ found)
  | finished j₀ report journal done => exact done.consistent (consistent j₀ journal)
  | cut j₀ journal stopped => exact stopped.consistent (consistent j₀ journal)
  | begun none now rest =>
    have blank : ∀ x ∈ (⟨[], now⟩ : DuressJournal).completed, latest (w.started now).attempts x.1 = some x.2 := by
      rintro x ⟨⟩
    rcases rest with none | empty | ⟨report, done⟩ | cut
    · exact nothing (.inl none)
    · exact nothing (.inr empty)
    · exact done.consistent blank
    · exact cut.consistent blank

/-! ## Spoiled journals -/

/-- The journal is empty or holds a failure. -/
def Spoiled (w : World σ) : Prop :=
  w.journal = some .empty ∨ ∃ j, w.journal = some (.whole j) ∧ ∃ x ∈ j.completed, x.2.isFailed = true

def JournalFile.isSpoiled : JournalFile → Bool
  | .empty => true
  | .whole j => j.completed.any (·.2.isFailed)

theorem spoiled_iff : Spoiled w ↔ w.journal.any JournalFile.isSpoiled = true := by
  rcases found : w.journal with _ | _ | j
  · simp [Spoiled, found]
  · simp [Spoiled, found, JournalFile.isSpoiled]
  · simp [Spoiled, found, JournalFile.isSpoiled]

instance : Decidable (Spoiled w) := decidable_of_iff _ spoiled_iff.symm

/-- **No run mends a spoiled journal.** -/
theorem step_spoiled (spoiled : Spoiled w) : Spoiled (step E w a) := by
  rcases spoiled with empty | ⟨j, whole, x, mem, failed⟩
  · cases step_ran E with
    | idle journal attempts => exact .inl (journal.trans empty)
    | finished j₀ report journal done => cases empty.symm.trans journal
    | cut j₀ journal stopped => cases empty.symm.trans journal
    | begun none now rest => cases empty.symm.trans none
  · cases step_ran E with
    | idle journal attempts => exact .inr ⟨j, journal.trans whole, x, mem, failed⟩
    | finished j₀ report journal done =>
      cases whole.symm.trans journal
      obtain ⟨new, _, _, _, left⟩ := done
      rw [if_pos (List.any_eq_true.2 ⟨x, List.mem_append_left _ mem, failed⟩)] at left
      exact .inr ⟨_, left, x, List.mem_append_left _ mem, failed⟩
    | cut j₀ journal stopped =>
      cases whole.symm.trans journal
      obtain ⟨new, _, _, empty | ⟨recorded, _, left⟩⟩ := stopped
      · exact .inl empty
      · exact .inr ⟨_, left, x, List.mem_append_left _ mem, failed⟩
    | begun none now rest => cases whole.symm.trans none

/-! ## What spoils a journal -/

/-- `n` actions into the loop over `steps`, no failure has been recorded and the journal
is not truncated. -/
def StepsSafe (E : DuressEngine σ) (alreadyDone : List WipeStep) : List WipeStep → σ → Nat → Prop
  | [], _, _ => True
  | step :: rest, o, n =>
    if step ∈ alreadyDone then StepsSafe E alreadyDone rest o n
    else
      n < 2 ∨ 3 ≤ n ∧ (E.runStep step o).1.isFailed = false ∧
        StepsSafe E alreadyDone rest (E.runStep step o).2 (n - 3)

/-- From a journal that is not spoiled: the run records no failure, and is not cut off
between truncation and write of the journal. -/
def Safe (E : DuressEngine σ) (w : World σ) : Action σ → Prop
  | .outside _ => True
  | .execute _ n =>
    match w.journal with
    | none => n = 0 ∨ 2 ≤ n ∧ StepsSafe E [] ordered w.outside (n - 2)
    | some .empty => True
    | some (.whole j) => StepsSafe E j.steps ordered w.outside n
  | .resumeIfPending _ n =>
    match w.journal with
    | some (.whole j) => StepsSafe E j.steps ordered w.outside n
    | _ => True

theorem spoiled_whole (journal : w.journal = some (.whole j)) :
    Spoiled w ↔ ∃ x ∈ j.completed, x.2.isFailed = true := by
  rw [Spoiled, journal]
  constructor
  · rintro (empty | ⟨j', same, failed⟩)
    · cases empty
    · cases same
      exact failed
  · intro failed
    exact .inr ⟨j, rfl, failed⟩

/-- One turn of the loop with its three actions. -/
theorem runSteps_cons (open_ : s ∉ alreadyDone) :
    E.runSteps alreadyDone (s :: rest) j w 0 = (.error .crash, w, 0) ∧
    (∃ w', E.runSteps alreadyDone (s :: rest) j w 1 = (.error .crash, w', 0) ∧ w'.journal = w.journal) ∧
    (∃ w', E.runSteps alreadyDone (s :: rest) j w 2 = (.error .crash, w', 0) ∧ w'.journal = some .empty) ∧
    ∀ n, E.runSteps alreadyDone (s :: rest) j w (n + 3) =
      E.runSteps alreadyDone rest { j with completed := j.completed ++ [(s, (E.runStep s w.outside).1)] }
        ⟨(E.runStep s w.outside).2,
          some (.whole { j with completed := j.completed ++ [(s, (E.runStep s w.outside).1)] }),
          w.attempts ++ [(s, (E.runStep s w.outside).1)]⟩ n := by
  rw [DuressEngine.runSteps, if_neg open_]
  exact ⟨rfl, ⟨_, rfl, rfl⟩, ⟨_, rfl, rfl⟩, fun _ => rfl⟩

section

variable (journal : w.journal = some (.whole j))
include journal

theorem runSteps_spoiled (spoiled : Spoiled w) (n : Nat) : Spoiled (E.runSteps alreadyDone rest j w n).2.1 := by
  induction rest generalizing j w n with
  | nil => exact spoiled
  | cons s rest ih =>
    by_cases done : s ∈ alreadyDone
    · rw [DuressEngine.runSteps, if_pos done]
      exact ih journal spoiled n
    obtain ⟨before, ⟨attempted, ran, kept⟩, ⟨truncated, ran', empty⟩, turn⟩ := runSteps_cons E done
    rcases n with _ | _ | _ | n
    · rw [before]
      exact spoiled
    · rw [ran]
      rwa [spoiled_whole (kept.trans journal), ← spoiled_whole journal]
    · rw [ran']
      exact .inl empty
    · rw [turn n]
      obtain ⟨x, mem, failed⟩ := (spoiled_whole journal).1 spoiled
      exact ih rfl ((spoiled_whole rfl).2 ⟨x, List.mem_append_left _ mem, failed⟩) n

/-- The loop spoils a clean journal exactly if it is not safe. -/
theorem runSteps_spoiled_iff (clean : ¬Spoiled w) (n : Nat) :
    ¬Spoiled (E.runSteps alreadyDone rest j w n).2.1 ↔ StepsSafe E alreadyDone rest w.outside n := by
  induction rest generalizing j w n with
  | nil => exact iff_of_true clean trivial
  | cons s rest ih =>
    rw [StepsSafe]
    by_cases done : s ∈ alreadyDone
    · rw [if_pos done, DuressEngine.runSteps, if_pos done]
      exact ih journal clean n
    rw [if_neg done]
    obtain ⟨before, ⟨attempted, ran, kept⟩, ⟨truncated, ran', empty⟩, turn⟩ := runSteps_cons E done
    rcases n with _ | _ | _ | n
    · rw [before]
      exact iff_of_true clean (.inl (by omega))
    · rw [ran]
      refine iff_of_true ?_ (.inl (by omega))
      rwa [spoiled_whole (kept.trans journal), ← spoiled_whole journal]
    · rw [ran']
      exact iff_of_false (not_not.2 (.inl empty)) (by omega)
    · rw [turn n]
      have shape : (n + 1 + 1 + 1 < 2 ∨ 3 ≤ n + 1 + 1 + 1 ∧ (E.runStep s w.outside).1.isFailed = false ∧
          StepsSafe E alreadyDone rest (E.runStep s w.outside).2 (n + 1 + 1 + 1 - 3)) ↔
          (E.runStep s w.outside).1.isFailed = false ∧ StepsSafe E alreadyDone rest (E.runStep s w.outside).2 n := by
        exact ⟨fun safe => (safe.resolve_left (by omega)).2, fun safe => .inr ⟨by omega, safe⟩⟩
      rw [shape]
      cases failed : (E.runStep s w.outside).1.isFailed with
      | true =>
        refine iff_of_false (not_not.2 ?_) fun safe => Bool.noConfusion safe.1
        exact runSteps_spoiled E rfl ((spoiled_whole rfl).2 ⟨_, List.mem_append_right _ List.mem_cons_self, failed⟩) n
      | false =>
        rw [and_iff_right rfl]
        refine ih rfl ?_ n
        rw [spoiled_whole rfl]
        rintro ⟨x, mem, bad⟩
        rcases List.mem_append.1 mem with old | new
        · exact clean ((spoiled_whole journal).2 ⟨x, old, bad⟩)
        · cases List.mem_singleton.1 new
          rw [failed] at bad
          cases bad

/-- The sweep does not change whether the journal is spoiled. -/
theorem sweep_spoiled_iff :
    Spoiled ((do
      let allTerminal := j.completed.all (·.2.isTerminal)
      let anyFailed := j.completed.any (·.2.isFailed)
      if allTerminal && !anyFailed then removeJournalIfPresent
      pure ⟨j.completed, allTerminal⟩ : Run σ DuressReport) w n).2.1 ↔ Spoiled w := by
  simp only [all_isTerminal, Bool.true_and]
  cases failed : j.completed.any (·.2.isFailed) with
  | true => exact Iff.rfl
  | false =>
    have clean : ¬Spoiled w := by
      rw [spoiled_whole journal, ← List.any_eq_true, failed]
      exact Bool.false_ne_true
    refine iff_of_false ?_ clean
    cases n with
    | zero => exact clean
    | succ n =>
      rintro (empty | ⟨j, whole, _⟩)
      · cases empty
      · cases whole

/-- From a journal just read or started. -/
theorem afterJournal_spoiled_iff (clean : ¬Spoiled w) :
    ¬Spoiled ((do
        let journal ← E.runSteps j.steps ordered j
        let allTerminal := journal.completed.all (·.2.isTerminal)
        let anyFailed := journal.completed.any (·.2.isFailed)
        if allTerminal && !anyFailed then removeJournalIfPresent
        pure ⟨journal.completed, allTerminal⟩ : Run σ DuressReport) w n).2.1 ↔
      StepsSafe E j.steps ordered w.outside n := by
  rw [← runSteps_spoiled_iff E journal clean n]
  have start : Progress w j [] j w := ⟨[], (List.append_nil _).symm, rfl, by rw [List.append_nil], journal⟩
  rcases (runSteps_sure E (List.nil_append _) start).cases rfl n with ⟨j', s, n', ran, reached⟩ | ⟨s, ran, _⟩
  · rw [Process.bind_ran ran, ran]
    obtain ⟨new, _, _, _, whole⟩ := reached
    exact not_congr (sweep_spoiled_iff whole)
  · rw [Process.bind_error ran, ran]

theorem execute_spoiled_iff (clean : ¬Spoiled w) {now : Nat} :
    ¬Spoiled (E.execute now w n).2.1 ↔ StepsSafe E j.steps ordered w.outside n := by
  have read : readOrInitJournal now w n = (.ok j, w, n) := by
    rcases w with ⟨o, file, attempts⟩
    cases journal
    rfl
  rw [DuressEngine.execute, Process.bind_ran read]
  exact afterJournal_spoiled_iff E journal clean

end

theorem execute_init_spoiled_iff (absent : w.journal = none) :
    ¬Spoiled (E.execute now w n).2.1 ↔ n = 0 ∨ 2 ≤ n ∧ StepsSafe E [] ordered w.outside (n - 2) := by
  rcases w with ⟨o, file, attempts⟩
  cases absent
  rcases n with _ | _ | n
  · have read : readOrInitJournal now ⟨o, none, attempts⟩ 0 = (.error .crash, ⟨o, none, []⟩, 0) := rfl
    refine iff_of_true ?_ (.inl rfl)
    rw [spoiled_iff]
    exact Bool.false_ne_true
  · have read : readOrInitJournal now ⟨o, none, attempts⟩ 1 = (.error .crash, ⟨o, some .empty, []⟩, 0) := rfl
    exact iff_of_false (not_not.2 (.inl rfl)) (by omega)
  · have read : readOrInitJournal now ⟨o, none, attempts⟩ (n + 2) =
        (.ok ⟨[], now⟩, ⟨o, some (.whole ⟨[], now⟩), []⟩, n) := rfl
    have clean : ¬Spoiled (⟨o, some (.whole ⟨[], now⟩), []⟩ : World σ) := by
      rw [spoiled_iff]
      exact Bool.false_ne_true
    refine (afterJournal_spoiled_iff E rfl clean).trans ?_
    exact ⟨fun safe => .inr ⟨by omega, safe⟩, fun safe => (safe.resolve_left (by omega)).2⟩

/-- **A run keeps a clean journal clean exactly if it is safe.** -/
theorem step_spoiled_iff (w : World σ) (a : Action σ) (clean : ¬Spoiled w) : ¬Spoiled (step E w a) ↔ Safe E w a := by
  cases a with
  | outside o => exact iff_of_true clean trivial
  | execute now n =>
    rcases found : w.journal with _ | _ | j
    · simp only [step, Safe, found]
      exact execute_init_spoiled_iff E found
    · exact absurd (.inl found) clean
    · simp only [step, Safe, found]
      exact execute_spoiled_iff E found clean
  | resumeIfPending now n =>
    rcases found : w.journal with _ | _ | j
    · simp only [step, Safe, found, resume_none E found]
      exact iff_of_true clean trivial
    · exact absurd (.inl found) clean
    · simp only [step, Safe, found, resume_world E found]
      exact execute_spoiled_iff E found clean

/-! ## Main result -/

/-- From a pending journal: every resume that is not cut off attempts each step that is
not settled; no run repeats a step recorded as wiped; the journal is removed exactly
when every step is settled; a resume without failures completes the wipe. -/
structure Resumes (E : DuressEngine σ) (w : World σ) : Prop where
  retried : ∀ now n, (E.resumeIfPending now w n).1 ≠ .error .crash →
    ∀ s, ¬Settled w s → Attempted w (step E w (.resumeIfPending now n)) s
  kept : ∀ a j s, w.journal = some (.whole j) → (s, .wiped) ∈ j.completed → ¬Attempted w (step E w a) s
  removed : ∀ a, (step E w a).journal = none → ∀ s, Settled (step E w a) s
  swept : ∀ now n, (E.resumeIfPending now w n).1 ≠ .error .crash →
    (∀ s, Settled (step E w (.resumeIfPending now n)) s) → (step E w (.resumeIfPending now n)).journal = none
  completes : ∀ now n, (E.resumeIfPending now w n).1 ≠ .error .crash →
    (∀ new, (step E w (.resumeIfPending now n)).attempts = w.attempts ++ new → ∀ x ∈ new, x.2.isFailed = false) →
    (step E w (.resumeIfPending now n)).journal = none

theorem attempted_iff {s : World σ} (made : s.attempts = w.attempts ++ new)
    {t : WipeStep} : Attempted w s t ↔ t ∈ new.map Prod.fst := by
  constructor
  · rintro ⟨new', made', mem⟩
    rwa [List.append_cancel_left (made'.symm.trans made)] at mem
  · intro mem
    exact ⟨new, made, mem⟩

/-- After all steps, the journal is gone exactly if every step is settled. -/
theorem Finished.settled_iff {s : World σ}
    (was : ∀ x ∈ j₀.completed, latest w.attempts x.1 = some x.2) (done : Finished w j₀ report s) :
    (∀ t, Settled s t) ↔ s.journal = none := by
  obtain ⟨new, attempts, names, _, journal⟩ := done
  have last := latest_of_recorded was (show new.map Prod.fst <+: _ from names ▸ List.prefix_refl _)
  rw [← attempts] at last
  rw [journal]
  constructor
  · intro settled
    rw [if_neg]
    rw [List.any_eq_true]
    rintro ⟨x, mem, failed⟩
    obtain ⟨o, outcome, fine⟩ := settled x.1
    rw [last x mem] at outcome
    cases outcome
    rw [failed] at fine
    cases fine
  · intro gone t
    split at gone
    · cases gone
    rename_i fine
    have named : ∃ x ∈ j₀.completed ++ new, x.1 = t := by
      by_cases old : t ∈ j₀.steps
      · obtain ⟨x, mem, same⟩ := List.mem_map.1 old
        exact ⟨x, List.mem_append_left _ mem, same⟩
      · rw [← mem_pending, ← names] at old
        obtain ⟨x, mem, same⟩ := List.mem_map.1 old
        exact ⟨x, List.mem_append_right _ mem, same⟩
    obtain ⟨x, mem, rfl⟩ := named
    refine ⟨x.2, last x mem, ?_⟩
    by_contra failed
    exact fine (List.any_eq_true.2 ⟨x, mem, Bool.eq_true_of_not_eq_false failed⟩)

theorem Cut.journal_ne {s : World σ} (cut : Cut w j₀ s) : s.journal ≠ none := by
  obtain ⟨new, _, _, empty | ⟨recorded, _, journal⟩⟩ := cut
  · rw [empty]
    rintro ⟨⟩
  · rw [journal]
    rintro ⟨⟩

/-- A run attempts no step that its journal names. -/
theorem step_spares (found : w.journal = some (.whole j₀)) (named : s ∈ j₀.steps) : ¬Attempted w (step E w a) s := by
  intro attempted
  cases step_ran E with
  | idle journal attempts =>
    rw [attempted_iff (attempts.trans (List.append_nil _).symm)] at attempted
    cases attempted
  | finished j report journal done =>
    cases found.symm.trans journal
    obtain ⟨new, made, names, _⟩ := done
    rw [attempted_iff made, names, mem_pending] at attempted
    exact attempted named
  | cut j journal stopped =>
    cases found.symm.trans journal
    obtain ⟨new, made, names, _⟩ := stopped
    rw [attempted_iff made] at attempted
    exact mem_pending.1 (names.subset attempted) named
  | begun absent now rest => cases found.symm.trans absent

/-- Whatever run removes the journal, every step is settled. -/
theorem settled_of_removed (consistent : Consistent w) (pending : w.journal ≠ none)
    (gone : (step E w a).journal = none) (s : WipeStep) : Settled (step E w a) s := by
  cases step_ran E with
  | idle journal attempts => exact absurd (journal.symm.trans gone) pending
  | finished j report journal done => exact (done.settled_iff (consistent j journal)).2 gone s
  | cut j journal stopped => exact absurd gone stopped.journal_ne
  | begun absent now rest => exact absurd absent pending

theorem resumes_of_unspoiled (consistent : Consistent w) (pending : w.journal ≠ none)
    (unspoiled : ¬Spoiled w) : Resumes E w := by
  rcases found : w.journal with _ | _ | j₀
  · exact absurd found pending
  · exact absurd (.inl found) unspoiled
  have clean : ∀ x ∈ j₀.completed, x.2.isFailed = false := by
    intro x mem
    by_contra failed
    exact unspoiled (.inr ⟨j₀, found, x, mem, Bool.eq_true_of_not_eq_false failed⟩)
  -- A run that returns has been through all steps.
  have through : ∀ now n, (E.resumeIfPending now w n).1 ≠ .error .crash →
      ∃ report, Finished w j₀ report (step E w (.resumeIfPending now n)) := by
    intro now n returned
    rcases (resume_sure E found).cases rfl n with ⟨_, s, n', ran, done⟩ | ⟨s, ran, _⟩
    · rw [step, ran]
      exact done
    · exact absurd (by rw [ran]) returned
  constructor
  · intro now n returned s unsettled
    obtain ⟨report, new, made, names, _⟩ := through now n returned
    rw [attempted_iff made, names, mem_pending]
    intro named
    obtain ⟨x, mem, rfl⟩ := List.mem_map.1 named
    exact unsettled ⟨x.2, consistent j₀ found x mem, clean x mem⟩
  · intro a j s whole mem
    exact step_spares E whole (List.mem_map_of_mem mem)
  · intro a gone
    exact settled_of_removed E consistent pending gone
  · intro now n returned settled
    obtain ⟨report, done⟩ := through now n returned
    exact (done.settled_iff (consistent j₀ found)).1 settled
  · intro now n returned fine
    obtain ⟨report, new, made, _, _, journal⟩ := through now n returned
    rw [journal, if_neg]
    rw [List.any_eq_true]
    rintro ⟨x, mem, failed⟩
    rcases List.mem_append.1 mem with old | recent
    · rw [clean x old] at failed
      cases failed
    · rw [fine new made x recent] at failed
      cases failed

theorem unspoiled_of_resumes (consistent : Consistent w) (resumes : Resumes E w) : ¬Spoiled w := by
  rintro (empty | ⟨j, whole, ⟨s, o⟩, mem, failed⟩)
  · -- Nothing is attempted, so every step must be settled already; but then the journal must go.
    obtain ⟨e, ran⟩ := resume_empty E empty
    have returned : (E.resumeIfPending 0 w 0).1 ≠ .error .crash := by
      rw [ran]
      rintro ⟨⟩
    have after : step E w (.resumeIfPending 0 0) = w := by rw [step, ran]
    have settled : ∀ s, Settled w s := by
      intro s
      by_contra unsettled
      have attempted := resumes.retried 0 0 returned s unsettled
      rw [after, attempted_iff (List.append_nil _).symm] at attempted
      cases attempted
    have gone := resumes.swept 0 0 returned (by rw [after]; exact settled)
    rw [after, empty] at gone
    cases gone
  · -- The failed step is not settled, and no run attempts it.
    obtain ⟨_, t, k, ⟨report, done⟩, ran, _⟩ := resume_sure E whole w rfl
    have returned : (E.resumeIfPending 0 w (0 + k)).1 ≠ .error .crash := by
      rw [ran 0]
      rintro ⟨⟩
    have unsettled : ¬Settled w s := by
      rintro ⟨o', last, fine⟩
      rw [consistent j whole _ mem] at last
      cases last
      rw [failed] at fine
      cases fine
    have attempted := resumes.retried 0 (0 + k) returned s unsettled
    rw [step, ran 0] at attempted
    obtain ⟨new, made, names, _⟩ := done
    rw [attempted_iff made, names, mem_pending] at attempted
    exact attempted (List.mem_map_of_mem mem)

/-- **A wipe is resumed properly exactly as long as its runs are safe.** -/
theorem resumes_iff_safe (E : DuressEngine σ) (o : σ) (acts : List (Action σ)) :
    (∀ pre, pre <+: acts → (run (step E) (.fresh o) pre).journal ≠ none → Resumes E (run (step E) (.fresh o) pre)) ↔
      AllSteps (step E) (Safe E) (.fresh o) acts := by
  have consistent : ∀ pre, Consistent (run (step E) (.fresh o) pre) :=
    run_invariant (step_consistent E) (by rintro j ⟨⟩)
  have unspoiled : (∀ pre, pre <+: acts → ¬Spoiled (run (step E) (.fresh o) pre)) ↔
      AllSteps (step E) (Safe E) (.fresh o) acts :=
    run_prefix_iff (I := fun _ => True) (fun _ _ _ _ => trivial) (fun w a _ clean => step_spoiled_iff E w a clean)
      trivial (by rw [spoiled_iff]; exact Bool.false_ne_true) acts
  rw [← unspoiled]
  refine forall_congr' fun pre => forall_congr' fun _ => ?_
  constructor
  · intro resumes spoiled
    refine unspoiled_of_resumes E (consistent pre) (resumes ?_) spoiled
    rcases spoiled with empty | ⟨j, whole, _⟩
    · rw [empty]
      rintro ⟨⟩
    · rw [whole]
      rintro ⟨⟩
  · intro clean pending
    exact resumes_of_unspoiled E (consistent pre) pending clean

/-- **A wipe with a spoiled journal is never resumed properly.** -/
theorem spoiled_never_resumes (o : σ) (acts more : List (Action σ)) (spoiled : Spoiled (run (step E) (.fresh o) acts)) :
    ¬Resumes E (run (step E) (.fresh o) (acts ++ more)) := by
  intro resumes
  have consistent : Consistent (run (step E) (.fresh o) (acts ++ more)) :=
    run_invariant (step_consistent E) (by rintro j ⟨⟩) _
  refine unspoiled_of_resumes E consistent resumes ?_
  rw [run_append]
  exact run_invariant (fun _ _ => step_spoiled E) spoiled more

/-! ## A locked keyring -/

/-- `outside` tells whether the keyring is locked; every other step succeeds. -/
def sampleEngine : DuressEngine Bool where
  paths := ⟨"identity.json", "password_marker.json", none⟩
  handlers := {}
  platform :=
    { evictTpmKey := fun locked => (.ok .evicted, locked)
      purgeKeyringEntry := fun locked => (if locked then .error "delete_credential: locked" else .ok (), locked)
      removeFile := fun _ locked => (.ok (), locked) }

/-- Cut off between truncating the journal and writing it. -/
theorem spoiled_never_resumes_cut :
    ¬Resumes sampleEngine (run (step sampleEngine) (.fresh false) [.execute 7 1, .resumeIfPending 8 100]) :=
  spoiled_never_resumes sampleEngine false [_] [_] (.inl rfl)

/-- Cut off after the third step and resumed, with the keyring open. -/
theorem interrupted_wipe_resumes :
    ∀ pre, pre <+: [.execute 7 9, .resumeIfPending 8 3] →
      (run (step sampleEngine) (.fresh false) pre).journal ≠ none →
      Resumes sampleEngine (run (step sampleEngine) (.fresh false) pre) := by
  refine (resumes_iff_safe sampleEngine false _).2 ⟨?_, ?_, trivial⟩
  · exact (step_spoiled_iff sampleEngine _ _ (by decide +kernel)).1 (by decide +kernel)
  · exact (step_spoiled_iff sampleEngine _ _ (by decide +kernel)).1 (by decide +kernel)

/-- The keyring is locked during the wipe and open ever after: no resume purges it. -/
theorem locked_keyring_never_purged :
    ¬∀ pre, pre <+: [.execute 7 100, .outside false] →
      (run (step sampleEngine) (.fresh true) pre).journal ≠ none →
      Resumes sampleEngine (run (step sampleEngine) (.fresh true) pre) := by
  intro all
  have spoiled : Spoiled (run (step sampleEngine) (.fresh true) [.execute 7 100, .outside false]) := by
    decide +kernel
  have pending : (run (step sampleEngine) (.fresh true) [.execute 7 100, .outside false]).journal ≠ none := by
    decide +kernel
  exact unspoiled_of_resumes sampleEngine (run_invariant (step_consistent sampleEngine) (by rintro j ⟨⟩) _)
    (all _ (List.prefix_refl _) pending) spoiled

end Osl.Duress
