import Mathlib.Logic.Function.Basic

/-!
# Files behind names

A directory maps names to files; an open file stays the same file when its name is
given to another one. `create` opens a name for writing and truncates what is
there, `write` writes at the start of an open file, `rename` moves a name over
another one.
-/

namespace Base

open Function

structure FileSystem (ν α : Type) where
  dir : ν → Option Nat
  data : Nat → List α
  fresh : Nat

namespace FileSystem

variable {ν α : Type} {p q : ν} {file : Nat} {bytes : List α} {fs : FileSystem ν α}

def read (fs : FileSystem ν α) (p : ν) : Option (List α) := (fs.dir p).map fs.data

/-- The file behind the name, a new one if there is none. -/
def opened (fs : FileSystem ν α) (p : ν) : Nat := (fs.dir p).getD fs.fresh

def write (fs : FileSystem ν α) (file : Nat) (bytes : List α) : FileSystem ν α :=
  { fs with data := update fs.data file (bytes ++ (fs.data file).drop bytes.length) }

/-- A file has one name. -/
structure Sound (fs : FileSystem ν α) : Prop where
  single : ∀ {p q file}, fs.dir p = some file → fs.dir q = some file → p = q
  used : ∀ {p file}, fs.dir p = some file → file < fs.fresh

theorem read_eq_none : fs.read p = none ↔ fs.dir p = none := Option.map_eq_none_iff

section

variable (sound : fs.Sound)
include sound

theorem Sound.opened_name (other : q ≠ p) : fs.dir q ≠ some (fs.opened p) := by
  intro named
  unfold opened at named
  cases found : fs.dir p with
  | none =>
    rw [found] at named
    exact absurd (sound.used named) (Nat.lt_irrefl _)
  | some file =>
    rw [found] at named
    exact other (sound.single named found)

theorem Sound.write (file : Nat) (bytes : List α) : (fs.write file bytes).Sound :=
  ⟨sound.single, sound.used⟩

/-- Writing to an open file shows under its name only. -/
theorem Sound.write_read (named : fs.dir p = some file) (other : q ≠ p) :
    (fs.write file bytes).read q = fs.read q := by
  show (fs.dir q).map _ = (fs.dir q).map _
  cases there : fs.dir q with
  | none => rfl
  | some file' =>
    refine congrArg some (update_of_ne ?_ ..)
    rintro rfl
    exact other (sound.single there named)

end

theorem write_data_self (empty : fs.data file = []) :
    (fs.write file bytes).data file = bytes := by
  rw [write]
  dsimp only
  rw [update_self, empty, List.drop_nil, List.append_nil]

variable [DecidableEq ν] {fs' fs : FileSystem ν α}

def create (fs : FileSystem ν α) (p : ν) : FileSystem ν α where
  dir := update fs.dir p (some (fs.opened p))
  data := update fs.data (fs.opened p) []
  fresh := if (fs.dir p).isSome then fs.fresh else fs.fresh + 1

def remove (fs : FileSystem ν α) (p : ν) : FileSystem ν α := { fs with dir := update fs.dir p none }

/-- Everything behind the name becomes `bytes`. -/
def replace (fs : FileSystem ν α) (p : ν) (bytes : List α) : FileSystem ν α := (fs.create p).write (fs.opened p) bytes

/-- Only if there is something to move. -/
def rename (fs : FileSystem ν α) (p q : ν) : Option (FileSystem ν α) :=
  (fs.dir p).map fun file => { fs with dir := update (update fs.dir q (some file)) p none }

theorem create_dir_self {p : ν} : (fs.create p).dir p = some (fs.opened p) :=
  update_self ..

theorem create_dir_of_ne (other : q ≠ p) : (fs.create p).dir q = fs.dir q :=
  update_of_ne other ..

/-- What other names hold stays. -/
theorem Sound.create_read (sound : fs.Sound) (other : q ≠ p) : (fs.create p).read q = fs.read q := by
  rw [read, read, create_dir_of_ne other]
  cases named : fs.dir q with
  | none => rfl
  | some file =>
    have kept : (fs.create p).data file = fs.data file := by
      refine update_of_ne ?_ ..
      rintro rfl
      exact sound.opened_name other named
    rw [Option.map_some, Option.map_some, kept]

theorem Sound.create (sound : fs.Sound) (p : ν) : (fs.create p).Sound := by
  have fresh : fs.fresh ≤ (fs.create p).fresh := by
    unfold FileSystem.create
    dsimp only
    split <;> omega
  constructor
  · intro q q' file named named'
    by_cases here : q = p
    · subst here
      by_cases here' : q' = q
      · exact here'.symm
      · rw [create_dir_of_ne here'] at named'
        rw [create_dir_self] at named
        exact absurd (named'.trans named.symm) (sound.opened_name here')
    · rw [create_dir_of_ne here] at named
      by_cases here' : q' = p
      · subst here'
        rw [create_dir_self] at named'
        exact absurd (named.trans named'.symm) (sound.opened_name here)
      · rw [create_dir_of_ne here'] at named'
        exact sound.single named named'
  · intro q file named
    by_cases here : q = p
    · subst here
      rw [create_dir_self] at named
      cases named
      unfold opened FileSystem.create
      cases found : fs.dir q with
      | none => simp
      | some file => simpa [found] using sound.used found
    · rw [create_dir_of_ne here] at named
      exact Nat.lt_of_lt_of_le (sound.used named) fresh

theorem Sound.replace (sound : fs.Sound) (p : ν) (bytes : List α) : (fs.replace p bytes).Sound :=
  (sound.create p).write _ bytes

theorem Sound.replace_read (sound : fs.Sound) (other : q ≠ p) (bytes : List α) : (fs.replace p bytes).read q = fs.read q :=
  ((sound.create p).write_read (create_dir_self) other).trans (sound.create_read other)

theorem rename_eq (named : fs.dir p = some file) : fs.rename p q =
    some { fs with dir := update (update fs.dir q (some file)) p none } := by
  rw [rename, named]
  rfl

/-- The names after a rename. -/
theorem rename_dir (named : fs.dir p = some file) (other : q ≠ p) (renamed : fs.rename p q = some fs') :
    fs'.dir q = some file ∧ fs'.dir p = none ∧ ∀ r, r ≠ q → r ≠ p → fs'.dir r = fs.dir r := by
  rw [rename_eq named] at renamed
  cases renamed
  dsimp only
  refine ⟨?_, update_self .., ?_⟩
  · rw [update_of_ne other, update_self]
  · intro r notTarget notSource
    rw [update_of_ne notSource, update_of_ne notTarget]

theorem rename_data (renamed : fs.rename p q = some fs') : fs'.data = fs.data ∧ fs'.fresh = fs.fresh := by
  obtain ⟨file, _, rfl⟩ := Option.map_eq_some_iff.1 renamed
  exact ⟨rfl, rfl⟩

theorem Sound.rename (sound : fs.Sound) (other : q ≠ p) (renamed : fs.rename p q = some fs') : fs'.Sound := by
  obtain ⟨file, named, _⟩ := Option.map_eq_some_iff.1 renamed
  obtain ⟨target, source, rest⟩ := rename_dir named other renamed
  have origin : ∀ {r file'}, fs'.dir r = some file' → (r = q ∧ file' = file) ∨ (r ≠ q ∧ r ≠ p ∧ fs.dir r = some file') := by
    intro r file' there
    by_cases here : r = q
    · subst here
      exact .inl ⟨rfl, Option.some.inj (there.symm.trans target)⟩
    by_cases here' : r = p
    · subst here'
      cases there.symm.trans source
    · exact .inr ⟨here, here', (rest r here here').symm.trans there⟩
  constructor
  · intro r r' file' there there'
    rcases origin there with ⟨rfl, rfl⟩ | ⟨notTarget, notSource, old⟩
    · rcases origin there' with ⟨rfl, _⟩ | ⟨_, notSource', old'⟩
      · rfl
      · exact absurd (sound.single old' named) notSource'
    · rcases origin there' with ⟨rfl, rfl⟩ | ⟨_, _, old'⟩
      · exact absurd (sound.single old named) notSource
      · exact sound.single old old'
  · intro r file' there
    rw [(rename_data renamed).2]
    rcases origin there with ⟨_, rfl⟩ | ⟨_, _, old⟩
    · exact sound.used named
    · exact sound.used old

theorem rename_read (named : fs.dir p = some file) (other : q ≠ p) (renamed : fs.rename p q = some fs') :
    fs'.read q = some (fs.data file) ∧ ∀ r, r ≠ q → r ≠ p → fs'.read r = fs.read r := by
  obtain ⟨target, _, rest⟩ := rename_dir named other renamed
  refine ⟨?_, fun r notTarget notSource => ?_⟩
  · rw [read, target, (rename_data renamed).1]
    rfl
  · rw [read, read, rest r notTarget notSource, (rename_data renamed).1]

theorem Sound.remove (sound : fs.Sound) (p : ν) : (fs.remove p).Sound := by
  have origin : ∀ {r file}, (fs.remove p).dir r = some file → fs.dir r = some file := by
    intro r file there
    by_cases here : r = p
    · subst here
      rw [FileSystem.remove] at there
      dsimp only at there
      rw [update_self] at there
      cases there
    · rw [FileSystem.remove] at there
      dsimp only at there
      rwa [update_of_ne here] at there
  exact ⟨fun there there' => sound.single (origin there) (origin there'), fun there => sound.used (origin there)⟩

theorem remove_read_self (fs : FileSystem ν α) (p : ν) : (fs.remove p).read p = none := by
  rw [read_eq_none]
  exact update_self ..

theorem remove_read_of_ne (fs : FileSystem ν α) (other : q ≠ p) : (fs.remove p).read q = fs.read q := by
  rw [read, read, FileSystem.remove]
  dsimp only
  rw [update_of_ne other]

end FileSystem

end Base
