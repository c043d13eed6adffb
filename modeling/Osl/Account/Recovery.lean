import Osl.Account.Import

/-!
# What recovery leaves behind

Recovery reads the past off which copies exist, and two of its readings can be
wrong. A live file with neither a backup nor a staged copy is taken for a new
file and removed, although it may be an old one that was not backed up yet, or
one that an earlier recovery restored. And a stage without `.backup` is taken
for an import that had not begun, although an import into an empty account
never creates `.backup`. `Recoverable` excludes exactly these disks at the
moment recovery begins (`recovered_generation`).
-/

namespace Osl.Account

open Base Function

variable {i : Import} {d : Disk} {f : AccountFile} {todo backedUp installed : List AccountFile}
  {destinationEncrypted : Bool} {bytes : List UInt8} {pre : Files}

/-- The live files are one complete generation. -/
def OneGeneration (pre : Files) (i : Import) (d : Disk) : Prop :=
  d.live = pre ∨ d.live = i.content

/-- The condition on the disk recovery starts from. With `.backup` present,
every file of the old account still has its backup or its staged copy. Without
it, there was an old account, or no install is half done. -/
def Recoverable (pre : Files) (i : Import) (d : Disk) : Prop :=
  d.stage = true →
    (d.backupRoot = true → ∀ f, pre f ≠ none → d.backup f ≠ none ∨ d.staged f ≠ none) ∧
    (d.backupRoot = false → (∃ f, pre f ≠ none) ∨ OneGeneration pre i d)

/-- Disk facts that hold wherever the process stands. -/
structure Consistent (pre : Files) (i : Import) (d : Disk) : Prop where
  backup : ∀ f bytes, d.backup f = some bytes → pre f = some bytes
  untouched : ∀ f, d.staged f ≠ none → d.backup f = none → d.live f = pre f
  unbacked : d.backupRoot = false → ∀ f, d.backup f = none
  rootless : (∃ f, pre f ≠ none) → d.backupRoot = false → OneGeneration pre i d
  stageless : d.stage = false → OneGeneration pre i d

/-- While targets are moved to `.backup`: those in `todo` are still as they
were, the others are gone from the live directory. -/
structure BackingUp (pre : Files) (i : Import) (d : Disk) (todo backedUp : List AccountFile) : Prop where
  stage : d.stage = true
  nodup : todo.Nodup
  staged : d.staged = i.content
  ahead : ∀ f ∈ todo, d.live f = pre f ∧ d.backup f = none
  behind : ∀ f, f ∉ todo → d.live f = none
  rootless : d.backupRoot = false → backedUp = [] ∧ d.live = pre
  once : backedUp.Nodup
  moved : ∀ f ∈ backedUp, f ∉ todo ∧ d.backup f ≠ none

/-- While staged files are moved into place. -/
structure Installing (pre : Files) (i : Import) (d : Disk) (todo installed backedUp : List AccountFile) :
    Prop where
  stage : d.stage = true
  nodup : todo.Nodup
  ahead : ∀ f ∈ todo, d.live f = none ∧ d.staged f = i.content f
  behind : ∀ f, f ∉ todo → d.live f = i.content f ∧ d.staged f = none
  done : ∀ f ∈ installed, f ∉ todo
  rooted : (∃ f, pre f ≠ none) → d.backupRoot = true
  once : backedUp.Nodup
  moved : ∀ f ∈ backedUp, d.backup f ≠ none

structure RollingBack (pre : Files) (d : Disk) (installed backedUp : List AccountFile) : Prop where
  stage : d.stage = true
  done : ∀ f ∈ installed, d.staged f = none
  rooted : (∃ f, pre f ≠ none) → d.backupRoot = false → installed = [] ∧ backedUp = []
  once : backedUp.Nodup
  moved : ∀ f ∈ backedUp, d.backup f ≠ none

/-- While recovery visits the targets: those it has passed are as before the
import, and it will not mistake one ahead for a new file. -/
structure Recovering (pre : Files) (d : Disk) (todo : List AccountFile) : Prop where
  stage : d.stage = true
  rooted : d.backupRoot = true
  nodup : todo.Nodup
  behind : ∀ f, f ∉ todo → d.live f = pre f ∧ d.backup f = none
  ahead : ∀ f ∈ todo, pre f ≠ none → d.backup f ≠ none ∨ d.staged f ≠ none

/-- What holds at each point of the program. -/
def Pc.Inv (pre : Files) (i : Import) (d : Disk) : Pc → Prop
  | .backingUp todo backedUp => BackingUp pre i d todo backedUp
  | .installing todo installed backedUp => Installing pre i d todo installed backedUp
  | .rollingBack installed backedUp => RollingBack pre d installed backedUp
  | .cleaning => (∀ f, d.staged f = none) ∧ d.live = i.content
  | .returned _ => True
  | .recovering todo => Recovering pre d todo
  | .recoveryCleaning => OneGeneration pre i d ∧ ∀ f, d.backup f = none
  | .recovered => OneGeneration pre i d

/-- The invariant of the whole process. -/
structure Inv (pre : Files) (i : Import) (s : Proc) : Prop where
  consistent : Consistent pre i s.disk
  here : s.pc.Inv pre i s.disk

theorem inv_start : Inv pre i (start pre i) where
  consistent :=
    { backup := by rintro f bytes ⟨⟩
      untouched := fun _ _ _ => rfl
      unbacked := fun _ _ => rfl
      rootless := fun _ _ => .inl rfl
      stageless := by rintro ⟨⟩ }
  here :=
    { stage := rfl
      nodup := nodup_targets
      staged := rfl
      ahead := fun _ _ => ⟨rfl, rfl⟩
      behind := fun f out => absurd (mem_targets) out
      rootless := fun _ => ⟨rfl, rfl⟩
      once := .nil
      moved := by simp }

/-! ## The import's file list -/

theorem content_of_not_mem (out : f ∉ i.installOrder) : i.content f = none := by
  simp only [Import.installOrder, List.mem_append, List.mem_singleton, not_or] at out
  unfold Import.content
  rw [if_neg out.2, List.lookup_eq_none_iff]
  intro p mem
  have : f ≠ p.1 := by
    rintro rfl
    exact out.1 (List.mem_map_of_mem mem)
  simpa using this

theorem nodup_installOrder : i.installOrder.Nodup := by
  refine List.Nodup.append i.distinct (List.nodup_singleton _) ?_
  intro f mem last
  obtain ⟨p, hp, rfl⟩ := List.mem_map.1 mem
  obtain eq : p.1 = .identity := by simpa using last
  exact absurd (i.allowed p hp) (by rw [eq]; decide)

/-! ## Single file operations -/

section
variable (c : Consistent pre i d) (f)
include c

/-- A live file that its backup or the lack of a staged copy accounts for may
change, as long as `.backup` and the stage exist. -/
theorem Consistent.setLive {content : Option (List UInt8)} (stage : d.stage = true)
    (rooted : (∃ f, pre f ≠ none) → d.backupRoot = true) (free : d.staged f = none ∨ d.backup f ≠ none) :
    Consistent pre i { d with live := update d.live f content } where
  backup := c.backup
  untouched g staged unbacked := by
    have ne : g ≠ f := by
      rintro rfl
      rcases free with free | free
      · exact staged free
      · exact free unbacked
    simpa [ne] using c.untouched g staged unbacked
  unbacked := c.unbacked
  rootless old root := by simp [rooted old] at root
  stageless no := by simp [stage] at no

/-- A backup moved back restores the file. -/
theorem Consistent.restore (stage : d.stage = true) (backed : d.backup f ≠ none) :
    Consistent pre i { d with
      live := update d.live f (d.backup f)
      backup := update d.backup f none } where
  backup g bytes := by
    by_cases eq : g = f
    · simp [eq]
    · simpa [eq] using c.backup g bytes
  untouched g staged unbacked := by
    by_cases eq : g = f
    · obtain ⟨bytes, some⟩ := Option.ne_none_iff_exists'.1 backed
      simp [eq, some, c.backup f bytes some]
    · simp only [update_of_ne eq] at unbacked ⊢
      exact c.untouched g staged unbacked
  unbacked root := absurd (c.unbacked root f) backed
  rootless _ root := absurd (c.unbacked root f) backed
  stageless no := by simp [stage] at no

theorem Consistent.unstage : Consistent pre i { d with staged := update d.staged f none } :=
  { c with
    untouched := fun g staged unbacked => by
      have ne : g ≠ f := by
        rintro rfl
        simp at staged
      exact c.untouched g (by simpa [ne] using staged) unbacked }

theorem Consistent.dropBackup (free : d.staged f = none ∨ d.backup f = none) :
    Consistent pre i { d with backup := update d.backup f none } where
  backup g bytes := by
    by_cases eq : g = f
    · simp [eq]
    · simpa [eq] using c.backup g bytes
  untouched g staged unbacked := by
    by_cases eq : g = f
    · rcases free with free | free
      · exact absurd (eq ▸ free) staged
      · exact c.untouched g staged (eq ▸ free)
    · exact c.untouched g staged (by simpa [eq] using unbacked)
  unbacked root g := by
    by_cases eq : g = f
    · simp [eq]
    · simpa [eq] using c.unbacked root g
  rootless := c.rootless
  stageless := c.stageless

end

/-! ## One step of each loop -/

theorem BackingUp.skip (h : BackingUp pre i d (f :: todo) backedUp) (absent : d.live f = none) :
    BackingUp pre i d todo backedUp :=
  { h with
    nodup := (List.nodup_cons.1 h.nodup).2
    ahead := fun g mem => h.ahead g (List.mem_cons_of_mem _ mem)
    behind := fun g out => by
      by_cases eq : g = f
      · rw [eq]; exact absent
      · exact h.behind g (by simp [eq, out])
    moved := fun g mem => ⟨fun mem' => (h.moved g mem).1 (List.mem_cons_of_mem _ mem'), (h.moved g mem).2⟩ }

theorem BackingUp.move
    (h : BackingUp pre i d (f :: todo) backedUp) (present : d.live f ≠ none) (root : d.backupRoot = true) :
    BackingUp pre i { d with
      live := update d.live f none
      backup := update d.backup f (d.live f) } todo (f :: backedUp) := by
  obtain ⟨notMem, nodup⟩ := List.nodup_cons.1 h.nodup
  refine { h with
    nodup
    ahead := fun g mem => ?_
    behind := fun g out => ?_
    rootless := fun no => absurd (root.symm.trans no) (by decide)
    once := List.nodup_cons.2 ⟨fun mem => (h.moved f mem).1 (by simp), h.once⟩
    moved := fun g mem => ?_ }
  · have ne : g ≠ f := fun eq => notMem (eq ▸ mem)
    simpa [ne] using h.ahead g (List.mem_cons_of_mem _ mem)
  · by_cases eq : g = f
    · simp [eq]
    · simpa [eq] using h.behind g (by simp [eq, out])
  · by_cases eq : g = f
    · subst eq
      exact ⟨notMem, by simpa using present⟩
    · obtain ⟨out, some⟩ := h.moved g (by simpa [eq] using mem)
      exact ⟨fun mem' => out (List.mem_cons_of_mem _ mem'), by simpa [eq] using some⟩

theorem Consistent.move (c : Consistent pre i d) (live : d.live f = pre f)
    (present : d.live f ≠ none) (stage : d.stage = true) (root : d.backupRoot = true) :
    Consistent pre i { d with
      live := update d.live f none
      backup := update d.backup f (d.live f) } where
  backup g bytes := by
    by_cases eq : g = f
    · simp [eq, live]
    · simpa [eq] using c.backup g bytes
  untouched g staged unbacked := by
    by_cases eq : g = f
    · simp only [eq, update_self] at unbacked
      exact absurd unbacked present
    · simp only [update_of_ne eq] at unbacked ⊢
      exact c.untouched g staged unbacked
  unbacked no := absurd (root.symm.trans no) (by decide)
  rootless _ no := absurd (root.symm.trans no) (by decide)
  stageless no := absurd (stage.symm.trans no) (by decide)

/-- With everything moved out of the way, installing can begin. -/
theorem BackingUp.finish (h : BackingUp pre i d [] backedUp) : Installing pre i d i.installOrder [] backedUp where
  stage := h.stage
  nodup := nodup_installOrder
  ahead f _ := ⟨h.behind f (by simp), congrFun h.staged f⟩
  behind f out := by
    rw [h.behind f (by simp), h.staged, content_of_not_mem out]
    exact ⟨rfl, rfl⟩
  done := by simp
  rooted := by
    -- without `.backup` nothing was moved, so there was no old account
    rintro ⟨f, old⟩
    by_contra no
    have same := (h.rootless (by simpa using no)).2
    exact old (by rw [← same]; exact h.behind f (by simp))
  once := h.once
  moved f mem := (h.moved f mem).2

theorem inv_backUp (c : Consistent pre i d) (h : BackingUp pre i d todo backedUp) :
    Inv pre i (backUpExisting destinationEncrypted i d todo backedUp) := by
  cases todo with
  | nil => exact ⟨c, h.finish⟩
  | cons f todo =>
    simp only [backUpExisting]
    split
    · rename_i absent
      exact ⟨c, h.skip absent⟩
    rename_i present
    split
    · refine ⟨c, ⟨h.stage, by simp, fun _ no => ⟨rfl, (h.rootless no).1⟩, h.once, ?_⟩⟩
      exact fun g mem => (h.moved g mem).2
    split
    · refine ⟨⟨c.backup, c.untouched, ?_, ?_, c.stageless⟩, { h with rootless := ?_ }⟩
      all_goals simp
    · rename_i root
      have root : d.backupRoot = true := by simpa using root
      exact ⟨c.move (h.ahead f (by simp)).1 present h.stage root, h.move present root⟩

theorem Installing.move (h : Installing pre i d (f :: todo) installed backedUp) (found : d.staged f = some bytes) :
    Installing pre i { d with
      live := update d.live f (some bytes)
      staged := update d.staged f none } todo (f :: installed) backedUp := by
  obtain ⟨notMem, nodup⟩ := List.nodup_cons.1 h.nodup
  refine { h with
    nodup
    ahead := fun g mem => ?_
    behind := fun g out => ?_
    done := fun g mem => ?_ }
  · have ne : g ≠ f := fun eq => notMem (eq ▸ mem)
    simpa [ne] using h.ahead g (List.mem_cons_of_mem _ mem)
  · by_cases eq : g = f
    · subst eq
      have content := (h.ahead g (by simp)).2
      simp [← content, found]
    · simpa [eq] using h.behind g (by simp [eq, out])
  · rcases List.mem_cons.1 mem with rfl | mem
    · exact notMem
    · exact fun mem' => h.done g mem (List.mem_cons_of_mem _ mem')

/-- An install that stops half-way has `.backup` to roll back from, unless there
was no old account. -/
theorem Installing.abort (h : Installing pre i d todo installed backedUp) : RollingBack pre d installed backedUp where
  stage := h.stage
  done f mem := (h.behind f (h.done f mem)).2
  rooted old no := absurd ((h.rooted old).symm.trans no) (by decide)
  once := h.once
  moved := h.moved

theorem inv_install (c : Consistent pre i d) (h : Installing pre i d todo installed backedUp) :
    Inv pre i (installStaged d todo installed backedUp) := by
  cases todo with
  | nil => exact ⟨c, fun f => (h.behind f (by simp)).2, funext fun f => (h.behind f (by simp)).1⟩
  | cons f todo =>
    simp only [installStaged]
    split
    · rename_i bytes found
      exact ⟨(c.unstage f).setLive f h.stage h.rooted (.inl (by simp)), h.move found⟩
    · exact ⟨c, h.abort⟩

theorem inv_rollback (c : Consistent pre i d)
    (h : RollingBack pre d installed backedUp) : Inv pre i (rollback d installed backedUp) := by
  have rooted : installed ≠ [] ∨ backedUp ≠ [] → (∃ f, pre f ≠ none) → d.backupRoot = true := by
    intro pending old
    by_contra no
    obtain ⟨rfl, rfl⟩ := h.rooted old (by simpa using no)
    simp at pending
  match installed, backedUp with
  | f :: installed, backedUp =>
    have rooted := rooted (.inl (by simp))
    refine ⟨c.setLive f h.stage rooted (.inl (h.done f (by simp))), { h with
      done := fun g mem => h.done g (List.mem_cons_of_mem _ mem)
      rooted := fun old no => absurd ((rooted old).symm.trans no) (by decide) }⟩
  | [], f :: backedUp =>
    have rooted := rooted (.inr (by simp))
    obtain ⟨notMem, once⟩ := List.nodup_cons.1 h.once
    refine ⟨c.restore f h.stage (h.moved f (by simp)), { h with
      rooted := fun old no => absurd ((rooted old).symm.trans no) (by decide)
      once
      moved := fun g mem => ?_ }⟩
    have ne : g ≠ f := fun eq => notMem (eq ▸ mem)
    simpa [rollback, ne] using h.moved g (List.mem_cons_of_mem _ mem)
  | [], [] => exact ⟨c, trivial⟩

section
variable (h : Recovering pre d (f :: todo))
include h

/-- Moving on past a target that is as it was. -/
theorem Recovering.pass (live : d.live f = pre f) (unbacked : d.backup f = none) : Recovering pre d todo :=
  { h with
    nodup := (List.nodup_cons.1 h.nodup).2
    behind := fun g out => by
      by_cases eq : g = f
      · rw [eq]; exact ⟨live, unbacked⟩
      · exact h.behind g (by simp [eq, out])
    ahead := fun g mem => h.ahead g (List.mem_cons_of_mem _ mem) }

/-- Removing the live copy of the target recovery stands at. -/
theorem Recovering.clear : Recovering pre { d with live := update d.live f none } (f :: todo) :=
  { h with
    behind := fun g out => by
      have ne : g ≠ f := by
        rintro rfl
        simp at out
      simpa [ne] using h.behind g out }

theorem Recovering.restore (old : pre f = some bytes) :
    Recovering pre { d with
      live := update d.live f (some bytes)
      backup := update d.backup f none } todo := by
  obtain ⟨notMem, nodup⟩ := List.nodup_cons.1 h.nodup
  refine { h with
    nodup
    behind := fun g out => ?_
    ahead := fun g mem => ?_ }
  · by_cases eq : g = f
    · simp [eq, old]
    · simpa [eq] using h.behind g (by simp [eq, out])
  · have ne : g ≠ f := fun eq => notMem (eq ▸ mem)
    simpa [ne] using h.ahead g (List.mem_cons_of_mem _ mem)

end

theorem inv_recover (c : Consistent pre i d) (h : Recovering pre d todo) :
    Inv pre i (recoverOrphanedAccountImports d todo) := by
  cases todo with
  | nil =>
    exact ⟨c, .inl (funext fun f => (h.behind f (by simp)).1), fun f => (h.behind f (by simp)).2⟩
  | cons f todo =>
    simp only [recoverOrphanedAccountImports]
    split
    · rename_i bytes backed
      have some : d.backup f ≠ none := by simp [backed]
      split
      · exact ⟨c.setLive f h.stage (fun _ => h.rooted) (.inr some), h.clear⟩
      · exact ⟨backed ▸ c.restore f h.stage some, h.restore (c.backup f bytes backed)⟩
    · rename_i unbacked
      split
      · -- no copy anywhere: the file did not exist before the import
        rename_i fresh
        have absent : pre f = none := by
          by_contra old
          rcases h.ahead f (by simp) old with backed | staged
          · exact backed unbacked
          · exact staged fresh.1
        exact ⟨c.setLive f h.stage (fun _ => h.rooted) (.inl fresh.1),
          h.clear.pass (by simp [absent]) unbacked⟩
      · rename_i kept
        refine ⟨c, h.pass ?_ unbacked⟩
        by_cases staged : d.staged f = none
        · have gone : d.live f = none := by
            by_contra live
            exact kept ⟨staged, live⟩
          rw [gone]
          by_contra old
          rcases h.ahead f (by simp) (Ne.symm old) with backed | again
          · exact backed unbacked
          · exact again staged
        · exact c.untouched f staged unbacked

/-! ## Cleaning up and starting over -/

theorem remove_live {r : Removal} : (d.remove r).live = d.live := by
  cases r <;> simp only [Disk.remove] <;> split <;> rfl

/-- Removing the stage's contents in any order, once no staged file has a backup. -/
theorem Consistent.remove (c : Consistent pre i d) (r : Removal) (one : OneGeneration pre i d)
    (free : ∀ f, d.staged f = none ∨ d.backup f = none) : Consistent pre i (d.remove r) := by
  cases r with
  | staged f => exact c.unstage f
  | backup f => exact c.dropBackup f (free f)
  | backupRoot =>
    simp only [Disk.remove]
    split
    · rename_i empty
      refine { c with unbacked := fun _ f => ?_, rootless := fun _ _ => one }
      simpa using List.all_eq_true.1 empty f (mem_targets)
    · exact c
  | stage =>
    simp only [Disk.remove]
    split
    · exact { c with stageless := fun _ => one }
    · exact c

theorem remove_none {copy : Disk → Files} (sub : copy = Disk.staged ∨ copy = Disk.backup) (r : Removal)
    (none : ∀ f, copy d f = none) (f : AccountFile) : copy (d.remove r) f = Option.none := by
  rcases sub with rfl | rfl
  all_goals
    cases r with
    | staged g | backup g =>
      simp only [Disk.remove]
      by_cases eq : f = g <;> simp [eq, none]
    | backupRoot | stage =>
      simp only [Disk.remove]
      split <;> exact none f

theorem inv_boot (c : Consistent pre i d) (ok : Recoverable pre i d) : Inv pre i (boot d) := by
  unfold boot
  split
  · rename_i no
    exact ⟨c, c.stageless (by simpa using no)⟩
  rename_i stage
  have stage : d.stage = true := by simpa using stage
  obtain ⟨copies, half⟩ := ok stage
  split
  · rename_i no
    have no : d.backupRoot = false := by simpa using no
    refine ⟨c, ?_, c.unbacked no⟩
    rcases half no with old | one
    · exact c.rootless old no
    · exact one
  · rename_i root
    have root : d.backupRoot = true := by simpa using root
    exact ⟨c, stage, root, nodup_targets, fun f out => absurd (mem_targets) out,
      fun f _ => copies root f⟩

/-- The condition on an action: the process dies only on a recoverable disk. -/
def DiesRecoverably (pre : Files) (i : Import) (s : Proc) (act : Act) : Prop :=
  act = .restart → Recoverable pre i s.disk

theorem Inv.step {s : Proc} (h : Inv pre i s) (act : Act)
    (ok : DiesRecoverably pre i s act) : Inv pre i (s.step destinationEncrypted i act) := by
  obtain ⟨pc, d⟩ := s
  obtain ⟨c, here⟩ := h
  cases act with
  | restart => exact inv_boot c (ok rfl)
  | fault =>
    simp only [Proc.step]
    split
    · rename_i backedUp
      have h : BackingUp pre i d _ backedUp := here
      exact ⟨c, h.stage, by simp, fun _ no => ⟨rfl, (h.rootless no).1⟩, h.once,
        fun g mem => (h.moved g mem).2⟩
    · exact ⟨c, Installing.abort here⟩
    · exact ⟨c, here⟩
  | removal r =>
    simp only [Proc.step]
    split
    · obtain ⟨empty, live⟩ := here
      have c' := c.remove r (.inr live) fun f => .inl (empty f)
      refine ⟨c', ?_⟩
      split
      · exact ⟨remove_none (.inl rfl) r empty, (remove_live).trans live⟩
      · trivial
    · obtain ⟨one, empty⟩ := here
      have c' := c.remove r one fun f => .inr (empty f)
      have one' : OneGeneration pre i (d.remove r) := by
        unfold OneGeneration
        rw [remove_live]
        exact one
      refine ⟨c', ?_⟩
      split
      · exact ⟨one', remove_none (.inr rfl) r empty⟩
      · exact one'
    · exact ⟨c, here⟩
  | step =>
    cases pc with
    | backingUp todo backedUp => exact inv_backUp c here
    | installing todo installed backedUp => exact inv_install c here
    | rollingBack installed backedUp => exact inv_rollback c here
    | recovering todo => exact inv_recover c here
    | cleaning | returned _ | recoveryCleaning | recovered => exact ⟨c, here⟩

/-- Whatever the import, wherever the process dies and however often: if each
death leaves a recoverable disk, then once recovery has finished the account
directory holds exactly the old files or exactly the imported ones. -/
theorem recovered_generation (pre : Files) (i : Import) (destinationEncrypted : Bool) (acts : List Act)
    (deaths : AllSteps (Proc.step destinationEncrypted i) (DiesRecoverably pre i) (start pre i) acts)
    (finished : (run (Proc.step destinationEncrypted i) (start pre i) acts).pc = .recovered) :
    (run (Proc.step destinationEncrypted i) (start pre i) acts).disk.live = pre ∨
      (run (Proc.step destinationEncrypted i) (start pre i) acts).disk.live = i.content := by
  have h := run_invariant_of (I := Inv pre i) (fun _ act h ok => h.step act ok) (inv_start) deaths
  have here := h.here
  rw [finished] at here
  exact here

/-- An export of nothing but an identity. -/
def identityOnly : Import := ⟨[], [9], by simp, by simp⟩

/-- Recovery after the first backup, with an empty export: two steps of the
commit, a death, one step a target, and the removal of the stage. -/
def dieAfterFirstBackup : List Act :=
  [.step, .step] ++ .restart :: (List.replicate 13 .step ++
    [.removal .backupRoot, .removal (.staged .identity), .removal .stage])

/-- One old file: it is backed up when the process dies, and comes back. -/
theorem recovered_one_file :
    let pre : Files := fun f => if f = .peerMap then some [1] else none
    (run (Proc.step true identityOnly) (start pre identityOnly) dieAfterFirstBackup).disk.live = pre ∨
      (run (Proc.step true identityOnly) (start pre identityOnly) dieAfterFirstBackup).disk.live =
        identityOnly.content := by
  intro pre
  refine recovered_generation pre identityOnly true dieAfterFirstBackup ?_ (by decide)
  refine (allSteps_append).2 ⟨allSteps_of_forall (by simp [DiesRecoverably]), ?_,
    allSteps_of_forall (by simp [DiesRecoverably])⟩
  intro _ _
  refine ⟨fun _ f old => .inl ?_, fun no => absurd no (by decide)⟩
  cases f <;> revert old <;> decide

/-- Two old files: the second one is not backed up yet when the process dies, and
recovery removes it as if the import had brought it. -/
theorem recovered_two_files_loses_one :
    let pre : Files := fun f =>
      if f = .peerMap then some [1] else if f = .whitelistState then some [2] else none
    let s := run (Proc.step true identityOnly) (start pre identityOnly) dieAfterFirstBackup
    s.pc = .recovered ∧ s.disk.live .peerMap ≠ identityOnly.content .peerMap ∧
      s.disk.live .whitelistState = none ∧ pre .whitelistState = some [2] := by
  decide

end Osl.Account
