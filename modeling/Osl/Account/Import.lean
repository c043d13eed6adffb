import Mathlib.Logic.Function.Basic
import Osl.Base.Run

/-!
# Account import and its recovery (`crates/ipc/src/commands.rs`)

`commit_staged_account_import` moves the live account files into a backup
directory inside the stage, then the staged files into place, and the caller
removes the stage. `recover_orphaned_account_imports` runs at start-up and
undoes an import it finds unfinished. Each rename, removal and directory
creation is one step, since the process can die between any two of them; the
existence checks in between read the disk and are part of the step they guard.

A disk holds three copies of each account file: live, staged and backed up.
File operations that fail are the `fault` action; a rollback's own operations
and recovery's succeed.
-/

namespace Osl.Account

open Base Function

/-- `OSL_EXPORT_FILES` and `identity.json`. -/
inductive AccountFile where
  | peerMap | whitelistState | senderKeyState | channels | burnedScopes | membership | scopeTtl
  | scopeBlobs | messagesSqlite | messagesSqliteWal | messagesSqliteShm | identity
  deriving DecidableEq, Repr

def oslExportFiles : List AccountFile :=
  [.peerMap, .whitelistState, .senderKeyState, .channels, .burnedScopes, .membership, .scopeTtl,
    .scopeBlobs, .messagesSqlite, .messagesSqliteWal, .messagesSqliteShm]

def targets : List AccountFile := oslExportFiles ++ [.identity]

theorem mem_targets {f : AccountFile} : f ∈ targets := by cases f <;> decide

theorem nodup_targets : targets.Nodup := by decide

def isStoreBackupFile (f : AccountFile) : Bool :=
  f == .messagesSqlite || f == .messagesSqliteWal || f == .messagesSqliteShm

/-- The message store may only be copied to an encrypted destination. -/
def guardBackupDestination (f : AccountFile) (destinationEncrypted : Bool) : Bool :=
  !isStoreBackupFile f || destinationEncrypted

abbrev Files := AccountFile → Option (List UInt8)

structure Disk where
  live : Files
  staged : Files
  backup : Files
  /-- The stage directory exists. -/
  stage : Bool
  /-- `.backup` exists inside it. -/
  backupRoot : Bool

/-- A decoded import: `decode_export_files` lets only export paths through, and
the paths of a JSON object are distinct. -/
structure Import where
  files : List (AccountFile × List UInt8)
  identity : List UInt8
  allowed : ∀ p ∈ files, p.1 ∈ oslExportFiles
  distinct : (files.map (·.1)).Nodup

def Import.content (i : Import) : Files := fun f =>
  if f = .identity then some i.identity else i.files.lookup f

/-- `staged_rel`: the order in which the files are installed. -/
def Import.installOrder (i : Import) : List AccountFile := i.files.map (·.1) ++ [.identity]

/-- Where the process stands. `backedUp` and `installed` list newest first, the
order in which a rollback visits them. -/
inductive Pc where
  | backingUp (todo backedUp : List AccountFile)
  | installing (todo installed backedUp : List AccountFile)
  | rollingBack (installed backedUp : List AccountFile)
  | cleaning
  | returned (ok : Bool)
  | recovering (todo : List AccountFile)
  | recoveryCleaning
  | recovered
  deriving DecidableEq

structure Proc where
  pc : Pc
  disk : Disk

/-- The disk and process when the stage is complete and the commit begins. -/
def start (pre : Files) (i : Import) : Proc where
  pc := .backingUp targets []
  disk := ⟨pre, i.content, fun _ => none, true, false⟩

/-- The first loop of `commit_staged_account_import`: move existing targets into
`.backup`, which the first one creates. -/
def backUpExisting (destinationEncrypted : Bool) (i : Import) (d : Disk) :
    List AccountFile → List AccountFile → Proc
  | [], backedUp => ⟨.installing i.installOrder [] backedUp, d⟩
  | f :: todo, backedUp =>
    if d.live f = none then ⟨.backingUp todo backedUp, d⟩
    else if !guardBackupDestination f destinationEncrypted then ⟨.rollingBack [] backedUp, d⟩
    else if !d.backupRoot then ⟨.backingUp (f :: todo) backedUp, { d with backupRoot := true }⟩
    else
      ⟨.backingUp todo (f :: backedUp), { d with
        live := update d.live f none
        backup := update d.backup f (d.live f) }⟩

/-- Its second loop: move the staged files into place. -/
def installStaged (d : Disk) : List AccountFile → List AccountFile → List AccountFile → Proc
  | [], _, _ => ⟨.cleaning, d⟩
  | f :: todo, installed, backedUp =>
    match d.staged f with
    | some bytes =>
      ⟨.installing todo (f :: installed) backedUp, { d with
        live := update d.live f (some bytes)
        staged := update d.staged f none }⟩
    | none => ⟨.rollingBack installed backedUp, d⟩

/-- Its `rollback`: remove what was installed, then
move the backups back. -/
def rollback (d : Disk) : List AccountFile → List AccountFile → Proc
  | f :: installed, backedUp =>
    ⟨.rollingBack installed backedUp, { d with live := update d.live f none }⟩
  | [], f :: backedUp =>
    ⟨.rollingBack [] backedUp, { d with
      live := update d.live f (d.backup f)
      backup := update d.backup f none }⟩
  | [], [] => ⟨.returned false, d⟩

/-- The next file operation of `recover_orphaned_account_imports`. -/
def recoverOrphanedAccountImports (d : Disk) : List AccountFile → Proc
  | [] => ⟨.recoveryCleaning, d⟩
  | f :: todo =>
    match d.backup f with
    | some bytes =>
      if d.live f ≠ none then
        ⟨.recovering (f :: todo), { d with live := update d.live f none }⟩
      else
        ⟨.recovering todo, { d with
          live := update d.live f (some bytes)
          backup := update d.backup f none }⟩
    | none =>
      if d.staged f = none ∧ d.live f ≠ none then
        ⟨.recovering todo, { d with live := update d.live f none }⟩
      else ⟨.recovering todo, d⟩

/-- What start-up finds: no stage, a stage without backups, or an import to undo. -/
def boot (d : Disk) : Proc :=
  if !d.stage then ⟨.recovered, d⟩
  else if !d.backupRoot then ⟨.recoveryCleaning, d⟩
  else ⟨.recovering targets, d⟩

/-- One removal inside `remove_dir_all(stage)`, whose order is the directory's. -/
inductive Removal where
  | staged (f : AccountFile)
  | backup (f : AccountFile)
  | backupRoot
  | stage

/-- A directory goes only once it is empty. -/
def Disk.remove (d : Disk) : Removal → Disk
  | .staged f => { d with staged := update d.staged f none }
  | .backup f => { d with backup := update d.backup f none }
  | .backupRoot =>
    if targets.all fun f => (d.backup f).isNone then { d with backupRoot := false } else d
  | .stage =>
    if (targets.all fun f => (d.staged f).isNone) && !d.backupRoot then { d with stage := false } else d

inductive Act where
  | step
  /-- The next directory creation or rename of the commit fails. -/
  | fault
  | removal (r : Removal)
  /-- The process dies and the next start-up begins recovery. -/
  | restart

def Proc.step (destinationEncrypted : Bool) (i : Import) (s : Proc) : Act → Proc
  | .restart => boot s.disk
  | .fault =>
    match s.pc with
    | .backingUp (_ :: _) backedUp => { s with pc := .rollingBack [] backedUp }
    | .installing (_ :: _) installed backedUp => { s with pc := .rollingBack installed backedUp }
    | _ => s
  | .removal r =>
    match s.pc with
    | .cleaning => ⟨if (s.disk.remove r).stage then .cleaning else .returned true, s.disk.remove r⟩
    | .recoveryCleaning =>
      ⟨if (s.disk.remove r).stage then .recoveryCleaning else .recovered, s.disk.remove r⟩
    | _ => s
  | .step =>
    match s.pc with
    | .backingUp todo backedUp => backUpExisting destinationEncrypted i s.disk todo backedUp
    | .installing todo installed backedUp => installStaged s.disk todo installed backedUp
    | .rollingBack installed backedUp => rollback s.disk installed backedUp
    | .recovering todo => recoverOrphanedAccountImports s.disk todo
    | .cleaning | .returned _ | .recoveryCleaning | .recovered => s

end Osl.Account
