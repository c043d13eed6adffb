import Osl.Base.Process
import Osl.Base.Run

/-!
# The duress engine (`crates/keystore/src/duress.rs`)

A wipe is a fixed sequence of steps. After each attempt the engine writes its
outcome to the journal file, and a run that finds a journal leaves out the steps
named in it. What the steps act on is a state of its own, `outside`; the platform
calls and the handlers are arbitrary functions on it. A run may be cut off after
any action; `std::fs::write` truncates the file before it writes.
-/

namespace Osl.Duress

open Base

/-- In declaration order. -/
inductive WipeStep where
  | tpmEvict
  | keyringPurge
  | localCacheDir
  | anonymousCredentials
  | prekeyFile
  | prekeys
  | doubleRatchet
  | senderKeys
  | peerRatchets
  | inMemoryZeroize
  | passwordHashes
  | unregisterAccount
  | identityFile
  | stripOpsecFiles
  deriving DecidableEq, Repr

/-- In execution order. -/
def WipeStep.ordered : List WipeStep :=
  [.tpmEvict, .keyringPurge, .identityFile, .passwordHashes, .unregisterAccount, .prekeyFile, .localCacheDir,
    .anonymousCredentials, .prekeys, .doubleRatchet, .senderKeys, .peerRatchets, .inMemoryZeroize, .stripOpsecFiles]

theorem WipeStep.mem_ordered (s : WipeStep) : s ∈ ordered := by
  cases s <;> decide

theorem WipeStep.nodup_ordered : ordered.Nodup := by decide

inductive StepOutcome where
  | wiped
  | alreadyClean
  | skipped (reason : String)
  | failed (error : String)
  deriving DecidableEq, Repr

def StepOutcome.isFailed : StepOutcome → Bool
  | .failed _ => true
  | _ => false

inductive DuressError where
  | io (msg : String)
  | sealer (msg : String)
  | journal (msg : String)
  | handler (msg : String)
  deriving DecidableEq, Repr

def DuressError.toText : DuressError → String
  | .io msg => "io: " ++ msg
  | .sealer msg => "sealer: " ++ msg
  | .journal msg => "journal: " ++ msg
  | .handler msg => "handler: " ++ msg

inductive KeystoreError where
  | transport (msg : String)
  deriving DecidableEq, Repr

/-- `From<DuressError> for KeystoreError`. -/
def DuressError.toKeystore (e : DuressError) : KeystoreError := .transport ("duress: " ++ e.toText)

inductive TpmEvictOutcome where
  | evicted
  | noTpmNothingToEvict

/-- `std::io::Error`, as `delete_file_idempotent` tells errors apart. -/
inductive IoError where
  | notFound
  | other (msg : String)

/-! ## Steps -/

section

variable (σ : Type)

abbrev WipeFn := σ → Except DuressError Unit × σ

structure DuressHandlers where
  purgeKeyring : Option (WipeFn σ) := none
  wipeLocalCacheDir : Option (WipeFn σ) := none
  wipeAnonymousCredentials : Option (WipeFn σ) := none
  wipePrekeys : Option (WipeFn σ) := none
  wipeDoubleRatchet : Option (WipeFn σ) := none
  wipeSenderKeys : Option (WipeFn σ) := none
  wipePeerRatchets : Option (WipeFn σ) := none
  zeroizeInMemory : Option (WipeFn σ) := none
  stripOpsecFiles : Option (WipeFn σ) := none
  unregisterAccount : Option (WipeFn σ) := none

structure DuressPaths where
  identityFile : String
  passwordFile : String
  prekeyFile : Option String

/-- The calls of the engine that are not handlers; a sealer error is its text. -/
structure Platform where
  evictTpmKey : σ → Except String TpmEvictOutcome × σ
  purgeKeyringEntry : σ → Except String Unit × σ
  removeFile : String → σ → Except IoError Unit × σ

structure DuressEngine where
  paths : DuressPaths
  handlers : DuressHandlers σ
  platform : Platform σ

end

variable {σ : Type}

def mapTpmEvictResult : Except String TpmEvictOutcome → StepOutcome
  | .ok .evicted => .wiped
  | .ok .noTpmNothingToEvict => .alreadyClean
  | .error e => .failed e

def handlerOutcome : Except DuressError Unit → StepOutcome
  | .ok _ => .wiped
  | .error e => .failed e.toText

def runHandler (handler : Option (WipeFn σ)) (skipReason : String) (o : σ) : StepOutcome × σ :=
  match handler with
  | some f => (handlerOutcome (f o).1, (f o).2)
  | none => (.skipped skipReason, o)

namespace DuressEngine

variable (E : DuressEngine σ)

def runKeyringPurge (o : σ) : StepOutcome × σ :=
  match E.handlers.purgeKeyring with
  | some handler => (handlerOutcome (handler o).1, (handler o).2)
  | none =>
    match E.platform.purgeKeyringEntry o with
    | (.ok _, o') => (.wiped, o')
    | (.error e, o') => (.failed e, o')

def deleteFileIdempotent (path : String) (o : σ) : StepOutcome × σ :=
  match E.platform.removeFile path o with
  | (.ok _, o') => (.wiped, o')
  | (.error .notFound, o') => (.alreadyClean, o')
  | (.error (.other e), o') => (.failed ("remove_file failed: " ++ e), o')

def runStep (step : WipeStep) (o : σ) : StepOutcome × σ :=
  match step with
  | .tpmEvict => (mapTpmEvictResult (E.platform.evictTpmKey o).1, (E.platform.evictTpmKey o).2)
  | .keyringPurge => E.runKeyringPurge o
  | .identityFile => E.deleteFileIdempotent E.paths.identityFile o
  | .passwordHashes => E.deleteFileIdempotent E.paths.passwordFile o
  | .unregisterAccount => runHandler E.handlers.unregisterAccount
      ("account unregister not wired — caller must bind a signed keyserver unregister callback before local " ++
        "identity material is burned") o
  | .prekeyFile =>
    match E.paths.prekeyFile with
    | some path => E.deleteFileIdempotent path o
    | none => (.skipped ("DuressPaths::prekey_file not supplied — caller must set the path to the sealed " ++
        "\x60prekeys.json\x60 for B4's prekey-bundle blob to be deleted at duress time"), o)
  | .localCacheDir => runHandler E.handlers.wipeLocalCacheDir
      "local cache wipe handler not wired (caller passes dir path via DuressHandlers::wipe_local_cache_dir)" o
  | .anonymousCredentials => runHandler E.handlers.wipeAnonymousCredentials
      "anonymous credentials wipe deferred — feature lands in v2.3+" o
  | .prekeys => runHandler E.handlers.wipePrekeys
      ("in-memory PrekeyState wipe handler not wired — caller sets DuressHandlers::wipe_prekeys to drop the live " ++
        "state (the on-disk file is handled by the PrekeyFile step)") o
  | .doubleRatchet => runHandler E.handlers.wipeDoubleRatchet
      ("Double Ratchet wipe deferred — wired by future ratchet registry (per-peer state has no top-level home in v1 " ++
        "alpha)") o
  | .senderKeys => runHandler E.handlers.wipeSenderKeys
      "sender-keys wipe deferred — wired by future per-channel sender-keys registry" o
  | .peerRatchets => runHandler E.handlers.wipePeerRatchets
      "per-peer ratchet wipe deferred — same registry as DoubleRatchet step" o
  | .inMemoryZeroize => runHandler E.handlers.zeroizeInMemory
      ("in-memory zeroize handler not wired — caller's drop handlers are the canonical path; this is the documented " ++
        "last-resort hook") o
  | .stripOpsecFiles => runHandler E.handlers.stripOpsecFiles
      "OPSEC file strip not wired — caller passes injection script paths via DuressHandlers::strip_opsec_files" o

end DuressEngine

/-! ## Journal -/

structure DuressJournal where
  completed : List (WipeStep × StepOutcome)
  startedAtUnixSeconds : Nat
  deriving DecidableEq

def DuressJournal.steps (j : DuressJournal) : List WipeStep := j.completed.map Prod.fst

/-- What the journal file holds: nothing yet, or the JSON text of a journal. -/
inductive JournalFile where
  | empty
  | whole (j : DuressJournal)
  deriving DecidableEq

/-- `attempts` are those since the journal was started; the engine does not see them. -/
structure World (σ : Type) where
  outside : σ
  journal : Option JournalFile
  attempts : List (WipeStep × StepOutcome)

abbrev Run (σ α : Type) := Process KeystoreError (World σ) α

open Process (observe fail durable note)

def writeJournal (j : DuressJournal) : Run σ Unit := do
  durable fun w => { w with journal := some .empty }
  durable fun w => { w with journal := some (.whole j) }

def readOrInitJournal (now : Nat) : Run σ DuressJournal := do
  match ← observe (·.journal) with
  | some (.whole j) => pure j
  | some .empty => fail (DuressError.journal "parse: EOF while parsing a value at line 1 column 0").toKeystore
  | none =>
    note fun w => { w with attempts := [] }
    writeJournal ⟨[], now⟩
    pure ⟨[], now⟩

def removeJournalIfPresent : Run σ Unit := durable fun w => { w with journal := none }

structure DuressReport where
  steps : List (WipeStep × StepOutcome)
  completed : Bool
  deriving DecidableEq

/-- Matches every outcome, the failed ones too. -/
def StepOutcome.isTerminal : StepOutcome → Bool
  | .wiped | .alreadyClean | .skipped _ | .failed _ => true

namespace DuressEngine

variable (E : DuressEngine σ)

/-- One step, recorded among the attempts. -/
def attemptStep (step : WipeStep) : Run σ StepOutcome := do
  let ran ← observe fun w => E.runStep step w.outside
  durable fun w => { w with outside := ran.2, attempts := w.attempts ++ [(step, ran.1)] }
  pure ran.1

/-- The loop of `execute`. `report_steps` is always the journal's list. -/
def runSteps (alreadyDone : List WipeStep) : List WipeStep → DuressJournal → Run σ DuressJournal
  | [], journal => pure journal
  | step :: rest, journal =>
    if step ∈ alreadyDone then runSteps alreadyDone rest journal
    else do
      let outcome ← E.attemptStep step
      let journal := { journal with completed := journal.completed ++ [(step, outcome)] }
      writeJournal journal
      runSteps alreadyDone rest journal

def execute (now : Nat) : Run σ DuressReport := do
  let started ← readOrInitJournal now
  let journal ← E.runSteps started.steps WipeStep.ordered started
  let allTerminal := journal.completed.all (·.2.isTerminal)
  let anyFailed := journal.completed.any (·.2.isFailed)
  if allTerminal && !anyFailed then removeJournalIfPresent
  pure ⟨journal.completed, allTerminal⟩

def resumeIfPending (now : Nat) : Run σ (Option DuressReport) := do
  if (← observe (·.journal)).isNone then pure none
  else
    let report ← E.execute now
    pure (some report)

end DuressEngine

/-! ## Histories -/

/-- A run at time `now` that is cut off after `writes` actions, or whatever happens
outside between two runs (a handler cut off halfway, a lock released). -/
inductive Action (σ : Type) where
  | execute (now writes : Nat)
  | resumeIfPending (now writes : Nat)
  | outside (o : σ)

def step (E : DuressEngine σ) (w : World σ) : Action σ → World σ
  | .execute now writes => (E.execute now w writes).2.1
  | .resumeIfPending now writes => (E.resumeIfPending now w writes).2.1
  | .outside o => { w with outside := o }

def World.fresh (o : σ) : World σ := ⟨o, none, []⟩

end Osl.Duress
