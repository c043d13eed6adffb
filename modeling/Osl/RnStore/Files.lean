import Osl.Base.Files
import Osl.Base.Ideal
import Osl.Base.Run

/-!
# State files of a peer (`atomic_write` of `crates/ipc/src/wire_rn.rs`)

A peer's session, pin and pin floor lie in three files that differ in their
extension. `atomic_write` creates a temporary file, writes and syncs it and renames
it over the target. The temporary name is the target's with its extension replaced,
the same for all three, so calls that overlap share one temporary file.
-/

namespace Osl.RnStore

open Base FileSystem

/-- A file of the store's directory. -/
structure Path where
  stem : String
  extension : String
  deriving DecidableEq

def Path.withExtension (p : Path) (extension : String) : Path := { p with extension }

inductive Target where
  | session
  | pin
  | pinFloor
  deriving DecidableEq

def Target.extension : Target → String
  | .session => "session"
  | .pin => "pin"
  | .pinFloor => "pin-floor"

/-- `session_path`, `pin_path` and `pin_floor_path`; `peer_key` is a hex digest. -/
def targetPath (peerKey : String) (t : Target) : Path := ⟨peerKey, t.extension⟩

def tmpPath (peerKey : String) (t : Target) : Path := (targetPath peerKey t).withExtension "tmp"

variable {peerKey : String} {file i j : Nat}

theorem tmpPath_eq {t : Target} : tmpPath peerKey t = ⟨peerKey, "tmp"⟩ := rfl

theorem targetPath_ne_tmp (t : Target) : targetPath peerKey t ≠ ⟨peerKey, "tmp"⟩ := by
  cases t <;> simp [targetPath, Target.extension]

theorem targetPath_inj {t t' : Target} (same : targetPath peerKey t = targetPath peerKey t') :
    t = t' := by
  cases t <;> cases t' <;> simp [targetPath, Target.extension] at same ⊢

abbrev Files := FileSystem Path Nat

/-- The arguments of one `atomic_write`. -/
structure Call where
  target : Target
  bytes : Bytes

/-- The operation a call has done last. `create_dir_all` and the directory sync
change no file. -/
inductive Stage where
  | begun
  | created (file : Nat)
  | written (file : Nat)
  | synced
  | returned (ok : Bool)
  deriving DecidableEq

/-- Between creating the temporary file and renaming it. -/
def Stage.active : Stage → Bool
  | .begun | .returned _ => false
  | .created _ | .written _ | .synced => true

/-- The open file whose content is not yet on the disk. -/
def Stage.unsynced : Stage → Option Nat
  | .created file | .written file => some file
  | .begun | .synced | .returned _ => none

variable {first files : Files} {stage : Stage} {c : Call}

section

variable (peerKey : String)

/-- The next operation of a call. -/
def advance (files : Files) (c : Call) : Stage → Files × Stage
  | .begun => (files.create (tmpPath peerKey c.target), .created (files.opened (tmpPath peerKey c.target)))
  | .created file => (files.write file c.bytes, .written file)
  | .written _ => (files, .synced)
  | .synced =>
    match files.rename (tmpPath peerKey c.target) (targetPath peerKey c.target) with
    | some renamed => (renamed, .returned true)
    | none => (files.remove (tmpPath peerKey c.target), .returned false)
  | .returned ok => (files, .returned ok)

/-- The next operation reports an error; a failed write has written `n` bytes. Only a
failed rename cleans up. -/
def fail (files : Files) (c : Call) (n : Nat) : Stage → Files × Stage
  | .begun => (files, .returned false)
  | .created file => (files.write file (c.bytes.take n), .returned false)
  | .written _ => (files, .returned false)
  | .synced => (files.remove (tmpPath peerKey c.target), .returned false)
  | .returned ok => (files, .returned ok)

structure State where
  files : Files
  calls : List (Call × Stage)
  started : List Call

def State.init (files : Files) : State := ⟨files, [], []⟩

inductive Action where
  | start (c : Call)
  | advance (i : Nat)
  | fail (i n : Nat)
  | crash (torn : Nat → Bytes)

/-- Apply an operation to the `i`-th call. -/
def State.apply (s : State) (i : Nat) (operation : Files → Call → Stage → Files × Stage) : State :=
  match s.calls[i]? with
  | none => s
  | some (c, stage) =>
    { s with files := (operation s.files c stage).1, calls := s.calls.set i (c, (operation s.files c stage).2) }

/-- What an unsynced file holds after a crash is not determined. -/
def State.crash (s : State) (torn : Nat → Bytes) : State where
  files.dir := s.files.dir
  files.data file := if s.calls.any (fun call => call.2.unsynced = some file) then torn file else s.files.data file
  files.fresh := s.files.fresh
  calls := []
  started := s.started

def step (s : State) : Action → State
  | .start c => { s with calls := s.calls ++ [(c, .begun)], started := s.started ++ [c] }
  | .advance i => s.apply i (advance peerKey)
  | .fail i n => s.apply i fun files c => fail peerKey files c n
  | .crash torn => s.crash torn

/-- Every target holds what it held at first or what a call was to write to it. -/
def Intact (first : Files) (s : State) : Prop :=
  ∀ t, s.files.read (targetPath peerKey t) = first.read (targetPath peerKey t) ∨
    ∃ c ∈ s.started, c.target = t ∧ s.files.read (targetPath peerKey t) = some c.bytes

end

variable {s : State}

/-- A call creates the temporary file only while no other call is between creating and
renaming it. -/
def Exclusive (s : State) : Action → Prop
  | .advance i => s.calls[i]?.map Prod.snd = some .begun → ∀ call ∈ s.calls, call.2.active = false
  | _ => True

instance (s : State) (a : Action) : Decidable (Exclusive s a) :=
  match a with
  | .advance i => inferInstanceAs (Decidable (s.calls[i]?.map Prod.snd = some .begun → ∀ call ∈ s.calls, call.2.active = false))
  | .start _ | .fail _ _ | .crash _ => .isTrue trivial

/-- What the temporary file holds for the call that has it. -/
def Holds (peerKey : String) (files : Files) (c : Call) : Stage → Prop
  | .created file => files.dir ⟨peerKey, "tmp"⟩ = some file ∧ files.data file = []
  | .written file => files.dir ⟨peerKey, "tmp"⟩ = some file ∧ files.data file = c.bytes
  | .synced => ∃ file, files.dir ⟨peerKey, "tmp"⟩ = some file ∧ files.data file = c.bytes
  | .begun | .returned _ => True

theorem Holds.of_inactive (inactive : stage.active = false) : Holds peerKey files c stage := by
  cases stage with
  | begun => trivial
  | returned ok => trivial
  | created file => cases inactive
  | written file => cases inactive
  | synced => cases inactive

theorem Holds.unsynced (holds : Holds peerKey files c stage)
    (opened : stage.unsynced = some file) : files.dir ⟨peerKey, "tmp"⟩ = some file := by
  cases stage with
  | created f =>
    cases opened
    exact holds.1
  | written f =>
    cases opened
    exact holds.1
  | begun => cases opened
  | synced => cases opened
  | returned ok => cases opened

/-- The temporary file belongs to the one active call. -/
structure Held (peerKey : String) (first : Files) (s : State) : Prop where
  sound : s.files.Sound
  intact : Intact peerKey first s
  known : ∀ call ∈ s.calls, call.1 ∈ s.started
  holds : ∀ call ∈ s.calls, Holds peerKey s.files call.1 call.2
  alone : ∀ {i j : Nat} {call other : Call × Stage}, i ≠ j → s.calls[i]? = some call → s.calls[j]? = some other →
    call.2.active = false ∨ other.2.active = false

/-- What an operation of the call `c` may do to the files: at most `c`'s own target
changes, to `c`'s bytes. -/
structure Contained (peerKey : String) (c : Call) (files files' : Files) (stage' : Stage) : Prop where
  sound : files'.Sound
  targets : ∀ t, files'.read (targetPath peerKey t) = files.read (targetPath peerKey t) ∨
    c.target = t ∧ files'.read (targetPath peerKey t) = some c.bytes
  holds : Holds peerKey files' c stage'

section

variable (sound : files.Sound)
include sound

theorem Contained.refl (c : Call) (holds : Holds peerKey files c stage) : Contained peerKey c files files stage :=
  ⟨sound, fun _ => .inl rfl, holds⟩

theorem Contained.write (named : files.dir ⟨peerKey, "tmp"⟩ = some file) {bytes : Bytes} {stage' : Stage}
    (holds : Holds peerKey (files.write file bytes) c stage') :
    Contained peerKey c files (files.write file bytes) stage' :=
  ⟨sound.write file bytes, fun t => .inl (sound.write_read named (targetPath_ne_tmp t)), holds⟩

/-- The target of `c` holds its bytes; the other targets hold what they held. -/
structure Wrote (peerKey : String) (c : Call) (before after : Files) : Prop where
  sound : after.Sound
  target : after.read (targetPath peerKey c.target) = some c.bytes
  others : ∀ t, t ≠ c.target → after.read (targetPath peerKey t) = before.read (targetPath peerKey t)

theorem advance_synced (holds : Holds peerKey files c .synced) :
    ∃ after, advance peerKey files c .synced = (after, .returned true) ∧ Wrote peerKey c files after := by
  obtain ⟨file, named, content⟩ := holds
  have other : targetPath peerKey c.target ≠ ⟨peerKey, "tmp"⟩ := targetPath_ne_tmp c.target
  obtain ⟨after, renamed⟩ : ∃ after, files.rename ⟨peerKey, "tmp"⟩ (targetPath peerKey c.target) = some after :=
    ⟨_, rename_eq named⟩
  obtain ⟨target, rest⟩ := rename_read named other renamed
  refine ⟨after, ?_, sound.rename other renamed, by rw [target, content], fun t apart => ?_⟩
  · rw [advance, tmpPath_eq, renamed]
  · exact rest _ (fun same => apart (targetPath_inj same)) (targetPath_ne_tmp t)

/-- Up to the rename no target changes. -/
theorem advance_untouched (c : Call) (holds : Holds peerKey files c stage) (early : stage ≠ .synced) (t : Target) :
    (advance peerKey files c stage).1.read (targetPath peerKey t) = files.read (targetPath peerKey t) := by
  cases stage with
  | begun => exact sound.create_read (targetPath_ne_tmp t)
  | created file => exact sound.write_read holds.1 (targetPath_ne_tmp t)
  | written file => rfl
  | synced => exact absurd rfl early
  | returned ok => rfl

theorem advance_contained (c : Call) (holds : Holds peerKey files c stage) :
    Contained peerKey c files (advance peerKey files c stage).1 (advance peerKey files c stage).2 := by
  cases stage with
  | begun =>
    refine ⟨sound.create _, fun t => .inl (advance_untouched sound c holds nofun t), ?_⟩
    exact ⟨create_dir_self, Function.update_self ..⟩
  | created file => exact .write sound holds.1 ⟨holds.1, write_data_self holds.2⟩
  | written file => exact .refl sound c ⟨file, holds⟩
  | synced =>
    obtain ⟨after, outcome, wrote⟩ := advance_synced sound holds
    rw [outcome]
    refine ⟨wrote.sound, fun t => ?_, trivial⟩
    by_cases own : c.target = t
    · subst own
      exact .inr ⟨rfl, wrote.target⟩
    · exact .inl (wrote.others t (Ne.symm own))
  | returned ok => exact .refl sound c trivial

theorem fail_contained {c : Call} {n : Nat} (holds : Holds peerKey files c stage) :
    Contained peerKey c files (fail peerKey files c n stage).1 (fail peerKey files c n stage).2 := by
  cases stage with
  | begun => exact .refl sound c trivial
  | created file => exact .write sound holds.1 trivial
  | written file => exact .refl sound c trivial
  | synced => exact ⟨sound.remove _, fun t => .inl (remove_read_of_ne files (targetPath_ne_tmp t)), trivial⟩
  | returned ok => exact .refl sound c trivial

end

theorem getElem?_set_cases {α : Type} {l : List α} {a x : α} (there : (l.set i a)[j]? = some x) :
    j = i ∧ x = a ∨ j ≠ i ∧ l[j]? = some x := by
  by_cases same : j = i
  · subst same
    rw [List.getElem?_set_self'] at there
    obtain ⟨_, _, rfl⟩ := Option.map_eq_some_iff.1 there
    exact .inl ⟨rfl, rfl⟩
  · rw [List.getElem?_set_ne (Ne.symm same)] at there
    exact .inr ⟨same, there⟩

section

variable (held : Held peerKey first s) {operation : Files → Call → Stage → Files × Stage} {other : Call × Stage}
include held

/-- An operation of one call, while the others are inactive or do not see it. -/
theorem Held.apply (contained : ∀ c stage, Holds peerKey s.files c stage →
      Contained peerKey c s.files (operation s.files c stage).1 (operation s.files c stage).2)
    (unseen : ∀ c stage, s.calls[i]? = some (c, stage) →
      (∀ j other, j ≠ i → s.calls[j]? = some other → other.2.active = false) ∨
        (operation s.files c stage).1 = s.files ∧ (operation s.files c stage).2.active = false) :
    Held peerKey first (s.apply i operation) := by
  unfold State.apply
  cases there : s.calls[i]? with
  | none => exact held
  | some call =>
    obtain ⟨c, stage⟩ := call
    have mem : (c, stage) ∈ s.calls := List.mem_of_getElem? there
    obtain ⟨sound, targets, holds⟩ := contained c stage (held.holds _ mem)
    refine ⟨sound, fun t => ?_, fun call callMem => ?_, fun call callMem => ?_, ?_⟩
    · rcases targets t with same | ⟨own, new⟩
      · dsimp only
        rw [same]
        exact held.intact t
      · exact .inr ⟨c, held.known _ mem, own, new⟩
    · rcases List.mem_or_eq_of_mem_set callMem with old | rfl
      · exact held.known call old
      · exact held.known (c, stage) mem
    · obtain ⟨j, at_⟩ := List.mem_iff_getElem?.1 callMem
      rcases getElem?_set_cases at_ with ⟨_, rfl⟩ | ⟨other, old⟩
      · exact holds
      · rcases unseen c stage there with inactive | ⟨same, _⟩
        · exact .of_inactive (inactive j call other old)
        · dsimp only
          rw [same]
          exact held.holds call (List.mem_of_getElem? old)
    · intro j k call other apart first second
      rcases getElem?_set_cases first with ⟨rfl, rfl⟩ | ⟨notHere, old⟩
      · rcases getElem?_set_cases second with ⟨rfl, _⟩ | ⟨notHere, old⟩
        · exact absurd rfl apart
        · rcases unseen c stage there with inactive | ⟨_, inactive⟩
          · exact .inr (inactive k other notHere old)
          · exact .inl inactive
      · rcases getElem?_set_cases second with ⟨rfl, rfl⟩ | ⟨notHere', old'⟩
        · rcases unseen c stage there with inactive | ⟨_, inactive⟩
          · exact .inl (inactive j call notHere old)
          · exact .inr inactive
        · exact held.alone apart old old'

theorem Held.others (there : s.calls[i]? = some (c, stage)) (active : stage.active = true) {j : Nat}
    (apart : j ≠ i) (there' : s.calls[j]? = some other) : other.2.active = false := by
  rcases held.alone apart there' there with inactive | inactive
  · exact inactive
  · cases active.symm.trans inactive

theorem Held.advance (exclusive : Exclusive s (.advance i)) : Held peerKey first (s.apply i (advance peerKey)) := by
  refine held.apply (fun c stage => advance_contained held.sound c) fun c stage there => ?_
  cases stage with
  | begun => exact .inl fun j other _ there' => exclusive (by rw [there]; rfl) other (List.mem_of_getElem? there')
  | created file => exact .inl fun j other => held.others there rfl
  | written file => exact .inl fun j other => held.others there rfl
  | synced => exact .inl fun j other => held.others there rfl
  | returned ok => exact .inr ⟨rfl, rfl⟩

theorem Held.fail (i n : Nat) : Held peerKey first (s.apply i fun files c => fail peerKey files c n) := by
  refine held.apply (fun c stage => fail_contained held.sound) fun c stage there => ?_
  cases stage with
  | begun => exact .inr ⟨rfl, rfl⟩
  | created file => exact .inl fun j other => held.others there rfl
  | written file => exact .inr ⟨rfl, rfl⟩
  | synced => exact .inl fun j other => held.others there rfl
  | returned ok => exact .inr ⟨rfl, rfl⟩

theorem Held.start (c : Call) : Held peerKey first (step peerKey s (.start c)) := by
  have origin : ∀ {j : Nat} {call : Call × Stage}, (s.calls ++ [(c, Stage.begun)])[j]? = some call → call = (c, .begun) ∨
      s.calls[j]? = some call := by
    intro j call there
    rw [List.getElem?_append] at there
    split at there
    · exact .inr there
    · exact .inl (List.mem_singleton.1 (List.mem_of_getElem? there))
  refine ⟨held.sound, fun t => ?_, fun call mem => ?_, fun call mem => ?_, ?_⟩
  · rcases held.intact t with same | ⟨c', mem, own, content⟩
    · exact .inl same
    · exact .inr ⟨c', List.mem_append_left _ mem, own, content⟩
  · rcases List.mem_append.1 mem with old | new
    · exact List.mem_append_left _ (held.known call old)
    · cases List.mem_singleton.1 new
      exact List.mem_append_right _ (List.mem_singleton_self c)
  · rcases List.mem_append.1 mem with old | new
    · exact held.holds call old
    · cases List.mem_singleton.1 new
      trivial
  · intro j k call other apart first second
    rcases origin first with rfl | old
    · exact .inl rfl
    · rcases origin second with rfl | old'
      · exact .inr rfl
      · exact held.alone apart old old'

/-- A crash tears the temporary file at most. -/
theorem Held.crash (torn : Nat → Bytes) : Held peerKey first (s.crash torn) := by
  have targets : ∀ t, (s.crash torn).files.read (targetPath peerKey t) = s.files.read (targetPath peerKey t) := by
    intro t
    show (s.files.dir _).map _ = (s.files.dir _).map _
    cases named : s.files.dir (targetPath peerKey t) with
    | none => rfl
    | some file =>
      refine congrArg some (if_neg ?_)
      intro unsynced
      obtain ⟨call, mem, opened⟩ := List.any_eq_true.1 unsynced
      have tmp := (held.holds call mem).unsynced (of_decide_eq_true opened)
      exact targetPath_ne_tmp t (held.sound.single named tmp)
  refine ⟨⟨held.sound.single, held.sound.used⟩, fun t => ?_, fun call mem => ?_, fun call mem => ?_, fun _ there => ?_⟩
  · rw [targets]
    exact held.intact t
  · cases mem
  · cases mem
  · cases there

theorem Held.step {a : Action} (exclusive : Exclusive s a) : Held peerKey first (step peerKey s a) := by
  cases a with
  | start c => exact held.start c
  | advance i => exact held.advance exclusive
  | fail i n => exact held.fail i n
  | crash torn => exact held.crash torn

end

/-- If no call creates the temporary file while another one has it, then whatever the
schedule, the errors and the crashes, no target holds anything but its old content or
one that a call was to write to it. -/
theorem atomic_write_keeps_targets_intact (first : Files) (sound : first.Sound) (acts : List Action)
    (exclusive : AllSteps (step peerKey) Exclusive (.init first) acts) :
    Intact peerKey first (run (step peerKey) (.init first) acts) := by
  have start : Held peerKey first (.init first) :=
    ⟨sound, fun _ => .inl rfl, fun _ mem => (List.not_mem_nil mem).elim, fun _ mem => (List.not_mem_nil mem).elim,
      fun _ there => by cases there⟩
  exact (run_invariant_of (fun _ _ held => held.step) start exclusive).intact

/-- A directory with no file in it. -/
def noFiles : Files := ⟨fun _ => none, fun _ => [], 0⟩

theorem noFiles_sound : noFiles.Sound := by
  constructor
  · intro p q file there
    cases there
  · intro p file there
    cases there

def savedSession : Call := ⟨.session, [1, 2, 3]⟩

def raisedPin : Call := ⟨.pin, [4, 5]⟩

/-- A session save, then a pin write that a crash cuts off after its write. -/
def saveThenPin : List Action :=
  [.start savedSession, .start raisedPin, .advance 0, .advance 0, .advance 0, .advance 0, .advance 1, .advance 1,
    .crash fun _ => [9]]

theorem saveThenPin_intact : Intact "a1b2" noFiles (run (step "a1b2") (.init noFiles) saveThenPin) ∧
    (run (step "a1b2") (.init noFiles) saveThenPin).files.read (targetPath "a1b2" .session) = some [1, 2, 3] :=
  ⟨atomic_write_keeps_targets_intact noFiles noFiles_sound saveThenPin (by simp only [AllSteps, saveThenPin]; decide), by decide⟩

/-- The pin's write truncates the temporary file the session save has just synced; the
save then renames the empty file over the session. -/
theorem pin_write_empties_session :
    ¬ Intact "a1b2" noFiles (run (step "a1b2") (.init noFiles)
      [.start savedSession, .start raisedPin, .advance 0, .advance 0, .advance 0, .advance 1, .advance 0]) := by
  intro intact
  rcases intact .session with old | ⟨c, mem, own, content⟩
  · cases old
  · rcases List.mem_cons.1 mem with rfl | mem
    · cases content
    · cases List.mem_singleton.1 mem
      cases own

end Osl.RnStore
