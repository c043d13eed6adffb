import Mathlib.Data.List.TakeDrop
import Osl.Base.Ideal
import Osl.Base.Process
import Osl.Base.Run

/-!
# Crash-recoverable file replacement (`apps/osl-hub/src/atomic_file.rs`)

`write_recoverable` writes a temporary file, moves the present file aside as a backup
and the temporary file into its place; `read_recoverable` copies a backup back if there
is no primary. A call may be cut off before any of its file operations and inside the
copy of bytes. An operation that reports an error ends a call as a cut there does, so
only the refused commit, which is undone, is an outcome of its own.
-/

namespace Osl.Hub.AtomicFile

open Base Process Function

/-- The path itself, `temporary_path` and `backup_path`. -/
inductive Name where
  | primary
  | temporary
  | backup
  deriving DecidableEq

abbrev Disk := Name → Option Bytes

abbrev Io := Process String Disk

def removeIfPresent (p : Name) : Io Unit := durable fun d => update d p none

/-- `File::create`. -/
def create (p : Name) : Io Unit := durable fun d => update d p (some [])

def append (p : Name) (byte : Nat) (d : Disk) : Disk := update d p ((d p).map (· ++ [byte]))

def writeAll (p : Name) (bytes : Bytes) : Io Unit := bytes.forM fun byte => durable (append p byte)

/-- `std::fs::rename` of a file that is there. -/
def rename (p q : Name) : Io Unit := durable fun d => update (update d q (d p)) p none

/-- `std::fs::copy` of a file that holds `bytes`. -/
def copyOf (bytes : Bytes) (q : Name) : Io Unit := do
  create q
  writeAll q bytes

def readRecoverable : Io (Option Bytes) := do
  match ← observe (· .primary) with
  | some bytes => pure (some bytes)
  | none =>
    match ← observe (· .backup) with
    | some bytes => do
      copyOf bytes .primary
      removeIfPresent .backup
      pure (some bytes)
    | none => pure none

def stageTemporary (bytes : Bytes) : Io Unit := do
  removeIfPresent .temporary
  create .temporary
  writeAll .temporary bytes

/-- The renames; `refused` says that the one of the temporary file fails. -/
def install (label : String) (refused hadPrevious : Bool) : Io Unit := do
  if hadPrevious then rename .primary .backup
  if refused then
    if hadPrevious then rename .backup .primary
    removeIfPresent .temporary
    fail (label ++ " could not be committed")
  else
    rename .temporary .primary
    if hadPrevious then removeIfPresent .backup

def writeRecoverable (label : String) (bytes : Bytes) (refused : Bool) : Io Unit := do
  stageTemporary bytes
  removeIfPresent .backup
  let hadPrevious ← observe fun d => (d .primary).isSome
  install label refused hadPrevious

/-! ## One call -/

/-- What a read of the files returns. -/
def content (d : Disk) : Option Bytes := (d .primary).or (d .backup)

variable {d : Disk} {bytes held : Bytes} {label : String} {n : Nat} {refused : Bool}

theorem foldl_append (p : Name) (bytes : Bytes) (there : d p = some held) :
    bytes.foldl (fun d byte => append p byte d) d = update d p (some (held ++ bytes)) := by
  induction bytes generalizing d held with
  | nil =>
    rw [List.foldl_nil, List.append_nil, ← there, update_eq_self]
  | cons byte bytes ih =>
    have grown : append p byte d p = some (held ++ [byte]) := by
      unfold append
      rw [update_self, there]
      rfl
    rw [List.foldl_cons, ih grown, append, update_idem, List.append_assoc]
    rfl

theorem copyOf_run (bytes : Bytes) (q : Name) (d : Disk) (n : Nat) :
    copyOf bytes q d n =
      if n = 0 then (.error .crash, d, 0)
      else if n ≤ bytes.length then (.error .crash, update d q (some (bytes.take (n - 1))), 0)
      else (.ok (), update d q (some bytes), n - (bytes.length + 1)) := by
  cases n with
  | zero => rfl
  | succ n =>
    have begun : copyOf bytes q d (n + 1) = writeAll q bytes (update d q (some [])) n := rfl
    have empty : update d q (some ([] : Bytes)) q = some [] := update_self ..
    rw [begun, writeAll, forM_durable, foldl_append q _ empty, foldl_append q _ empty, update_idem, update_idem,
      if_neg (Nat.succ_ne_zero n), Nat.add_sub_cancel, Nat.add_sub_add_right]
    rfl

theorem stageTemporary_run :
    (n < bytes.length + 2 ∧ ∃ o, stageTemporary bytes d n = (.error .crash, update d .temporary o, 0)) ∨
      (bytes.length + 2 ≤ n ∧
        stageTemporary bytes d n = (.ok (), update d .temporary (some bytes), n - (bytes.length + 2))) := by
  cases n with
  | zero => exact .inl ⟨Nat.zero_lt_succ _, d .temporary, by rw [update_eq_self]; rfl⟩
  | succ n =>
    have begun : stageTemporary bytes d (n + 1) = copyOf bytes .temporary (update d .temporary none) n := rfl
    rw [begun, copyOf_run]
    split
    case isTrue => exact .inl ⟨by omega, none, rfl⟩
    rw [update_idem, update_idem]
    split
    case isTrue => exact .inl ⟨by omega, _, rfl⟩
    case isFalse => exact .inr ⟨by omega, by rw [Nat.add_sub_add_right]⟩

/-- What a write may do to the content. -/
inductive Wrote (d : Disk) (bytes : Bytes) : Except (Stop String) Unit → Disk → Prop where
  | completed {d' : Disk} (new : content d' = some bytes) : Wrote d bytes (.ok ()) d'
  | cut {d' : Disk} (either : content d' = content d ∨ content d' = some bytes) : Wrote d bytes (.error .crash) d'
  | undone {d' : Disk} (e : String) (same : content d' = content d) : Wrote d bytes (.error (.failed e)) d'

theorem content_of_primary (there : d .primary = some bytes) : content d = some bytes := by
  unfold content
  rw [there]
  rfl

theorem content_of_backup (gone : d .primary = none) : content d = d .backup := by
  unfold content
  rw [gone]
  rfl

section

variable (label : String) (bytes : Bytes) {refused : Bool} {old : Bytes}

theorem afterStaging :
    (removeIfPresent .backup >>= fun _ => observe (fun d => (d .primary).isSome) >>= install label refused)
      (update d .temporary (some bytes)) (n + 1) =
      install label refused (update (update d .temporary (some bytes)) .backup none .primary).isSome
        (update (update d .temporary (some bytes)) .backup none) n := rfl

/-- With a primary, every cut leaves the old content or the new one. -/
theorem install_over (there : d .primary = some old) (staged : d .temporary = some bytes) (refused : Bool) (n : Nat) :
    Wrote d bytes (install label refused true d n).1 (install label refused true d n).2.1 := by
  have before := content_of_primary there
  have kept : ∀ {d' : Disk}, content d' = some old → content d' = content d := fun same => same.trans before.symm
  cases refused with
  | true =>
    rcases n with _ | _ | _ | n
    · exact .cut (.inl rfl)
    · exact .cut (.inl (kept there))
    · exact .cut (.inl (kept (content_of_primary there)))
    · exact .undone _ (kept (content_of_primary there))
  | false =>
    rcases n with _ | _ | _ | n
    · exact .cut (.inl rfl)
    · exact .cut (.inl (kept there))
    · exact .cut (.inr (content_of_primary staged))
    · exact .completed (content_of_primary staged)

/-- A write over a primary keeps to it, wherever it is cut. -/
theorem writeRecoverable_over (there : d .primary = some old) :
    Wrote d bytes (writeRecoverable label bytes refused d n).1 (writeRecoverable label bytes refused d n).2.1 := by
  have same : ∀ {d' : Disk}, d' .primary = some old → content d' = content d := fun kept =>
    (content_of_primary kept).trans (content_of_primary there).symm
  unfold writeRecoverable
  rcases stageTemporary_run with ⟨-, o, stopped⟩ | ⟨-, staged⟩
  · rw [bind_error stopped]
    exact .cut (.inl (same there))
  rw [bind_ran staged]
  cases n - (bytes.length + 2) with
  | zero => exact .cut (.inl (same there))
  | succ m =>
    obtain ⟨ready, stage⟩ : ∃ ready, update (update d .temporary (some bytes)) .backup none = ready := ⟨_, rfl⟩
    have primary : ready .primary = some old := stage ▸ there
    have temporary : ready .temporary = some bytes := stage ▸ rfl
    rw [afterStaging, stage, primary, Option.isSome_some]
    have wrote := install_over label bytes primary temporary refused m
    have before : content ready = content d := same primary
    generalize install label refused true ready m = r at wrote
    obtain ⟨result, d', m'⟩ := r
    cases wrote with
    | completed new => exact .completed new
    | cut either => exact .cut (before ▸ either)
    | undone e kept => exact .undone e (kept.trans before)

/-- Without a primary the content, if there is any, is the backup. It is safe until the
backup is removed and lost from then until the temporary file is in place. -/
theorem writeRecoverable_first (gone : d .primary = none) (refused : Bool) (n : Nat) :
    (n ≤ bytes.length + 2 ∧
        ∃ d', writeRecoverable label bytes refused d n = (.error .crash, d', 0) ∧ content d' = content d) ∨
      (bytes.length + 2 < n ∧ (refused ∨ n = bytes.length + 3) ∧
        ∃ e d' n', writeRecoverable label bytes refused d n = (.error e, d', n') ∧ content d' = none) ∨
      (bytes.length + 3 < n ∧ ¬refused ∧
        ∃ d' n', writeRecoverable label bytes refused d n = (.ok (), d', n') ∧ content d' = some bytes) := by
  have same : ∀ {d' : Disk}, d' .primary = none → d' .backup = d .backup → content d' = content d := fun none kept =>
    (content_of_backup none).trans (kept.trans (content_of_backup gone).symm)
  have lost : ∀ {d' : Disk}, d' .primary = none → d' .backup = none → content d' = none := fun none kept =>
    (content_of_backup none).trans kept
  unfold writeRecoverable
  rcases stageTemporary_run with ⟨early, o, stopped⟩ | ⟨late, staged⟩
  · rw [bind_error stopped]
    exact .inl ⟨by omega, _, rfl, same gone rfl⟩
  obtain ⟨m, rfl⟩ := Nat.exists_eq_add_of_le late
  rw [Nat.add_sub_cancel_left] at staged
  rw [bind_ran staged]
  cases m with
  | zero => exact .inl ⟨by omega, _, rfl, same gone rfl⟩
  | succ m =>
    obtain ⟨ready, stage⟩ : ∃ ready, update (update d .temporary (some bytes)) .backup none = ready := ⟨_, rfl⟩
    have primary : ready .primary = none := stage ▸ gone
    have backup : ready .backup = none := stage ▸ rfl
    have temporary : ready .temporary = some bytes := stage ▸ rfl
    rw [afterStaging, stage, primary]
    right
    cases refused with
    | true =>
      refine .inl ⟨by omega, .inl rfl, ?_⟩
      cases m with
      | zero => exact ⟨_, _, _, rfl, lost primary backup⟩
      | succ m => exact ⟨_, _, _, rfl, lost primary backup⟩
    | false =>
      cases m with
      | zero => exact .inl ⟨by omega, .inr rfl, _, _, _, rfl, lost primary backup⟩
      | succ m => exact .inr ⟨by omega, Bool.false_ne_true, _, _, rfl, content_of_primary temporary⟩

end

/-- A copy that is needed is not cut off inside. -/
def CopyWhole (d : Disk) (n : Nat) : Prop := d .primary = none → ∀ bytes, d .backup = some bytes → n = 0 ∨ bytes.length < n

/-- What a read may do: it returns the content or is cut off, and changes the content only
when that is inside the copy. -/
inductive Read (d : Disk) (n : Nat) : Except (Stop String) (Option Bytes) → Disk → Prop where
  | returned {d' : Disk} {r : Option Bytes} (whole : CopyWhole d n) (same : content d' = content d) (value : r = content d) :
      Read d n (.ok r) d'
  | cut {d' : Disk} (whole : CopyWhole d n) (same : content d' = content d) {bytes : Bytes} (there : content d = some bytes)
      (short : n ≤ bytes.length + 1) : Read d n (.error .crash) d'
  | torn {d' : Disk} {bytes : Bytes} (primary : d .primary = none) (backup : d .backup = some bytes) (begun : 0 < n)
      (short : n ≤ bytes.length) (part : content d' = some (bytes.take (n - 1))) : Read d n (.error .crash) d'

theorem readRecoverable_run (d : Disk) (n : Nat) : Read d n (readRecoverable d n).1 (readRecoverable d n).2.1 := by
  cases primary : d .primary with
  | some bytes =>
    have whole : CopyWhole d n := fun gone => absurd (primary.symm.trans gone) (Option.some_ne_none _)
    have ran : readRecoverable d n = (.ok (content d), d, n) := by
      rw [content_of_primary primary]
      unfold readRecoverable
      rw [bind_ran (show observe (· .primary) d n = (.ok (some bytes), d, n) by rw [observe, primary])]
      rfl
    rw [ran]
    exact .returned whole rfl rfl
  | none =>
    have there := content_of_backup primary
    have looked : ∀ f : Option Bytes → Io (Option Bytes), (observe (· .primary) >>= f) d n = f none d n := fun f =>
      bind_ran (by rw [observe, primary])
    unfold readRecoverable
    rw [looked]
    dsimp only
    cases backup : d .backup with
    | none =>
      have whole : CopyWhole d n := fun _ bytes held => absurd (backup.symm.trans held) (Option.some_ne_none bytes).symm
      rw [bind_ran (show observe (· .backup) d n = (.ok none, d, n) by rw [observe, backup])]
      exact .returned whole rfl (there.trans backup).symm
    | some bytes =>
      rw [bind_ran (show observe (· .backup) d n = (.ok (some bytes), d, n) by rw [observe, backup])]
      dsimp only
      have before : content d = some bytes := there.trans backup
      have whole : (n = 0 ∨ bytes.length < n) → CopyWhole d n := fun place _ bytes' held =>
        Option.some.inj (backup.symm.trans held) ▸ place
      have copied := copyOf_run bytes .primary d n
      split at copied
      case isTrue none =>
        rw [bind_error copied]
        exact .cut (whole (.inl none)) rfl before (by omega)
      case isFalse some =>
        split at copied
        case isTrue short =>
          rw [bind_error copied]
          exact .torn primary backup (Nat.pos_of_ne_zero some) short rfl
        case isFalse long =>
          rw [bind_ran copied]
          generalize left : n - (bytes.length + 1) = m
          cases m with
          | zero => exact .cut (whole (.inr (Nat.not_le.1 long))) before.symm before (by omega)
          | succ m => exact .returned (whole (.inr (Nat.not_le.1 long))) before.symm before.symm

/-! ## Sequences of calls -/

/-- The files, the bytes of the last write that returned and those of the writes cut off since. -/
structure State where
  disk : Disk
  completed : Option Bytes
  interrupted : List Bytes

def start : State := ⟨fun _ => none, none, []⟩

/-- A call with the number of file operations it gets to do. -/
inductive Act where
  | write (label : String) (bytes : Bytes) (refused : Bool) (operations : Nat)
  | read (operations : Nat)

variable {s : State} {a : Act}

def step (s : State) : Act → State
  | .write label bytes refused n =>
    match writeRecoverable label bytes refused s.disk n with
    | (.ok (), disk, _) => ⟨disk, some bytes, []⟩
    | (.error .crash, disk, _) => ⟨disk, s.completed, bytes :: s.interrupted⟩
    | (.error (.failed _), disk, _) => { s with disk }
  | .read n => { s with disk := (readRecoverable s.disk n).2.1 }

/-- Of the last write that returned or of one cut off since. -/
def Recent (s : State) (r : Option Bytes) : Prop := r = s.completed ∨ ∃ bytes ∈ s.interrupted, r = some bytes

instance (s : State) (r : Option Bytes) : Decidable (Recent s r) := inferInstanceAs (Decidable (_ ∨ _))

/-- The call leaves the content as it was, or a write puts its own in place. -/
def Atomic (s : State) (a : Act) : Prop :=
  content (step s a).disk = content s.disk ∨ ∃ label bytes refused n, a = .write label bytes refused n ∧
    content (step s a).disk = some bytes

/-- While the backup is the only copy, a write is not cut off or refused between removing it
and putting the new file in place, and a read is not cut off inside the copy. -/
def Unbroken (s : State) : Act → Prop
  | .write _ bytes refused n =>
    s.disk .primary = none → s.disk .backup ≠ none → n ≤ bytes.length + 2 ∨ bytes.length + 3 < n ∧ refused = false
  | .read n => CopyWhole s.disk n

/-- The files after a write are those it left. -/
theorem step_write_disk :
    (step s (.write label bytes refused n)).disk = (writeRecoverable label bytes refused s.disk n).2.1 := by
  unfold step
  dsimp only
  split
  case h_1 ran => rw [ran]
  case h_2 ran => rw [ran]
  case h_3 ran => rw [ran]

theorem writes_of_unbroken (unbroken : Unbroken s (.write label bytes refused n)) :
    Wrote s.disk bytes (writeRecoverable label bytes refused s.disk n).1 (writeRecoverable label bytes refused s.disk n).2.1 := by
  cases primary : s.disk .primary with
  | some old => exact writeRecoverable_over label bytes primary
  | none =>
    rcases writeRecoverable_first label bytes primary refused n with ⟨-, d', ran, same⟩ | ⟨late, exposed, e, d', n', ran, lost⟩ |
      ⟨-, -, d', n', ran, new⟩
    · rw [ran]
      exact .cut (.inl same)
    · -- There was nothing to lose.
      have backup : s.disk .backup = none := by
        by_contra there
        rcases unbroken primary there with early | ⟨later, accepted⟩
        · omega
        · rcases exposed with refuses | cut
          · exact absurd accepted (by rw [refuses]; exact Bool.noConfusion)
          · omega
      have same : content d' = content s.disk := by rw [lost, content_of_backup primary, backup]
      rw [ran]
      cases e with
      | crash => exact .cut (.inl same)
      | failed e => exact .undone e same
    · rw [ran]
      exact .completed new

theorem lost_of_broken (broken : ¬Unbroken s (.write label bytes refused n)) :
    content s.disk ≠ none ∧ content (step s (.write label bytes refused n)).disk = none := by
  unfold Unbroken at broken
  push Not at broken
  obtain ⟨primary, backup, late, exposed⟩ := broken
  constructor
  · rw [content_of_backup primary]
    exact backup
  · rw [step_write_disk]
    rcases writeRecoverable_first label bytes primary refused n with ⟨early, -⟩ | ⟨-, -, e, d', n', ran, lost⟩ |
      ⟨later, accepted, -⟩
    · omega
    · rw [ran]
      exact lost
    · exact absurd (exposed later) (by simpa using accepted)

theorem read_keeps_iff :
    content (step s (.read n)).disk = content s.disk ↔ Unbroken s (.read n) := by
  have after : (step s (.read n)).disk = (readRecoverable s.disk n).2.1 := rfl
  have ran := readRecoverable_run s.disk n
  rw [after]
  generalize readRecoverable s.disk n = r at ran
  obtain ⟨result, d', n'⟩ := r
  cases ran with
  | returned whole same value => exact ⟨fun _ => whole, fun _ => same⟩
  | cut whole same there short => exact ⟨fun _ => whole, fun _ => same⟩
  | @torn _ bytes primary backup begun short part =>
    constructor
    · intro same
      rw [part, content_of_backup primary, backup, Option.some.injEq] at same
      have length := congrArg List.length same
      rw [List.length_take] at length
      omega
    · intro whole
      have place := whole primary bytes backup
      omega

theorem atomic_iff : Atomic s a ↔ Unbroken s a := by
  cases a with
  | write label bytes refused n =>
    constructor
    · intro atomic
      by_contra broken
      obtain ⟨there, lost⟩ := lost_of_broken broken
      rcases atomic with same | ⟨_, _, _, _, _, new⟩
      · exact there (same.symm.trans lost)
      · rw [lost] at new
        cases new
    · intro unbroken
      have wrote := writes_of_unbroken unbroken
      unfold Atomic
      rw [step_write_disk]
      generalize writeRecoverable label bytes refused s.disk n = r at wrote
      obtain ⟨result, d', n'⟩ := r
      cases wrote with
      | completed new => exact .inr ⟨_, _, _, _, rfl, new⟩
      | cut either =>
        rcases either with same | new
        · exact .inl same
        · exact .inr ⟨_, _, _, _, rfl, new⟩
      | undone e same => exact .inl same
  | read n =>
    rw [← read_keeps_iff]
    constructor
    · rintro (same | ⟨_, _, _, _, other, -⟩)
      · exact same
      · cases other
    · exact .inl

theorem Recent.step (recent : Recent s (content s.disk)) (unbroken : Unbroken s a) :
    Recent (step s a) (content (step s a).disk) := by
  cases a with
  | write label bytes refused n =>
    have wrote := writes_of_unbroken unbroken
    unfold AtomicFile.step
    dsimp only
    generalize writeRecoverable label bytes refused s.disk n = r at wrote
    obtain ⟨result, d', n'⟩ := r
    cases wrote with
    | completed new => exact .inl new
    | cut either =>
      rcases either with same | new
      · -- The content is as recent as before, with one more write cut off.
        rcases recent with old | ⟨bytes', mem, old⟩
        · exact .inl (same.trans old)
        · exact .inr ⟨bytes', List.mem_cons_of_mem _ mem, same.trans old⟩
      · exact .inr ⟨bytes, List.mem_cons_self, new⟩
    | undone e same =>
      rw [same]
      exact recent
  | read n =>
    rw [(read_keeps_iff).2 unbroken]
    exact recent

/-- A read of the files returns their content, if it is not cut off before. -/
theorem read_content :
    (∃ k, ∀ n, k ≤ n → (readRecoverable d n).1 = .ok (content d)) ∧
      ∀ n r, (readRecoverable d n).1 = .ok r → r = content d := by
  constructor
  · refine ⟨((content d).getD []).length + 2, fun n enough => ?_⟩
    have ran := readRecoverable_run d n
    generalize readRecoverable d n = r at ran
    obtain ⟨result, d', n'⟩ := r
    cases ran with
    | returned whole same value => rw [value]
    | cut whole same there short =>
      rw [there, Option.getD_some] at enough
      omega
    | torn primary backup begun short part =>
      rw [content_of_backup primary, backup, Option.getD_some] at enough
      omega
  · intro n r returned
    have ran := readRecoverable_run d n
    generalize readRecoverable d n = x at ran returned
    obtain ⟨result, d', n'⟩ := x
    subst returned
    cases ran with
    | returned whole same value => exact value

/-- Every call of a sequence leaves the content or puts its own in place exactly when none is
broken off while the backup is the only copy. Then a read returns the bytes of the last write
that returned or of one cut off since, and does return. -/
theorem recoverable_iff (acts : List Act) :
    (AllSteps step Atomic start acts ↔ AllSteps step Unbroken start acts) ∧
      (AllSteps step Unbroken start acts → ∃ r, Recent (run step start acts) r ∧
        (∃ k, ∀ n, k ≤ n → (readRecoverable (run step start acts).disk n).1 = .ok r) ∧
        ∀ n r', (readRecoverable (run step start acts).disk n).1 = .ok r' → r' = r) := by
  refine ⟨?_, fun unbroken => ?_⟩
  · exact ⟨AllSteps.mono fun s a => (atomic_iff).1, AllSteps.mono fun s a => (atomic_iff).2⟩
  · have recent : Recent (run step start acts) (content (run step start acts).disk) :=
      run_invariant_of (I := fun s : State => Recent s (content s.disk)) (fun _ _ recent => recent.step) (.inl rfl) unbroken
    obtain ⟨returns, only⟩ := read_content
    exact ⟨_, recent, returns, only⟩

/-- A write is cut off after it has moved the file aside. -/
def cutOff : List Act := [.write "state" [1, 2] false 9, .write "state" [3] false 5]

theorem recoverable_sample :
    AllSteps step Unbroken start cutOff ∧
      Recent (run step start cutOff) (some [1, 2]) ∧ (readRecoverable (run step start cutOff).disk 9).1 = .ok (some [1, 2]) := by
  have unbroken : AllSteps step Unbroken start cutOff :=
    ⟨fun _ there => absurd rfl there, fun gone => absurd gone (Option.some_ne_none [1, 2]), trivial⟩
  obtain ⟨r, recent, -, only⟩ := (recoverable_iff cutOff).2 unbroken
  obtain rfl : some [1, 2] = r := only 9 _ rfl
  exact ⟨unbroken, recent, rfl⟩

/-- The recovery copy stops half-way, and the next read returns the half. Or the next write is
cut off after it has removed the backup, and the next read returns nothing. -/
theorem torn_and_lost :
    ((readRecoverable (run step start (cutOff ++ [.read 2])).disk 9).1 = .ok (some [1]) ∧
      ¬Recent (run step start (cutOff ++ [.read 2])) (some [1])) ∧
    ((readRecoverable (run step start (cutOff ++ [.write "state" [4] false 4])).disk 9).1 = .ok none ∧
      (run step start (cutOff ++ [.write "state" [4] false 4])).completed = some [1, 2] ∧
      ¬Recent (run step start (cutOff ++ [.write "state" [4] false 4])) none) :=
  ⟨⟨rfl, by decide⟩, rfl, rfl, by decide⟩

end Osl.Hub.AtomicFile
