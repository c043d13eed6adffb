import Osl.Base.Process
import Osl.Base.TreeMap
import Osl.Bytes

/-!
# Identity slots on disk

`identity_registry.rs` keeps each identity in a directory of its own under
`hub-identities` and names the active one in a marker file. An account from before there
were slots lies flat in the base directory; `migrate_flat_account_to_slot` moves its files
one by one into a staging directory, renames that to the slot, and writes the marker. At
start-up only the marker and the directories are looked at.

A file operation takes effect in whole or not at all; the process may be stopped before any
of them, and any of them may be refused.
-/

namespace Osl.Hub.IdentitySlots

open Base Process Std Function

/-- `ACCOUNT_ARTIFACTS`. -/
inductive Artifact
  | identity | prekeys | peerMap | whitelistState | senderKeyState | channels | burnedScopes | membership | scopeTtl
  | scopeBlobs | pendingRotation | pendingInvitations | hubLocalProtected | hubPeople | hubProfile
  | hubSecurityPreferences | store
deriving DecidableEq

/-- In the order they are moved. -/
def accountArtifacts : List Artifact :=
  [.identity, .prekeys, .peerMap, .whitelistState, .senderKeyState, .channels, .burnedScopes, .membership, .scopeTtl,
    .scopeBlobs, .pendingRotation, .pendingInvitations, .hubLocalProtected, .hubPeople, .hubProfile,
    .hubSecurityPreferences, .store]

theorem mem_accountArtifacts (a : Artifact) : a ∈ accountArtifacts := by
  cases a <;> decide

theorem accountArtifacts_nodup : accountArtifacts.Nodup := by decide

/-- The account files of a directory, with what they hold. -/
abbrev Folder := Artifact → Option (List UInt8)

/-- `hub-active-identity` with the extensions it is written under; a file that is no text
holds no slot id either. -/
structure Markers where
  path : Option Text
  tmp : Option Text
  backup : Option Text

/-- The base directory, the directories under `hub-identities` and the marker. -/
structure Disk where
  flat : Folder
  dirs : ExtTreeMap Text Folder
  marker : Markers

/-! ## Selecting at start-up -/

def validateSlotId (value : Text) : Bool :=
  "id-".toList.isPrefixOf value && byteLen value ≤ 64 && value.all fun c => c.isAlphanum || c = '-' || c = '_'

/-- `char::is_whitespace`. -/
def isWhitespace (c : Char) : Bool :=
  (9 ≤ c.toNat && c.toNat ≤ 13) || (0x2000 ≤ c.toNat && c.toNat ≤ 0x200a)
    || c.toNat ∈ [0x20, 0x85, 0xa0, 0x1680, 0x2028, 0x2029, 0x202f, 0x205f, 0x3000]

def trim (t : Text) : Text := ((t.dropWhile isWhitespace).reverse.dropWhile isWhitespace).reverse

def readMarkerFile (file : Option Text) : Option Text :=
  file.bind fun value => if validateSlotId (trim value) then some (trim value) else none

/-- `read_active_marker`, which also falls back on the backup. -/
def readActiveMarker (m : Markers) : Option Text := (readMarkerFile m.path).or (readMarkerFile m.backup)

/-- A file `identity.json` is in the directory of the slot. -/
def Disk.complete (d : Disk) (slot : Text) : Bool := (d.dirs[slot]?.bind (· .identity)).isSome

def singleRecoverableSlot (d : Disk) : Option Text :=
  if (d.flat .identity).isSome then none
  else
    match d.dirs.keys.filter fun slot => validateSlotId slot && d.complete slot with
    | [only] => some only
    | _ => none

def selectSlotFromDisk (d : Disk) : Option Text :=
  ((readActiveMarker d.marker).filter d.complete).or (singleRecoverableSlot d)

/-- What `read_active_marker` leaves of a marker that was found in the backup. -/
def restoreMarker (m : Markers) : Markers :=
  if (readMarkerFile m.path).isNone && (readMarkerFile m.backup).isSome then { m with path := m.backup, backup := none } else m

/-- `select_active_identity_before_bootstrap`: the active account directory. -/
def selectActiveIdentityBeforeBootstrap (d : Disk) : Folder × Disk :=
  ( match selectSlotFromDisk d with
    | some slot => (d.dirs[slot]?).getD fun _ => none
    | none => d.flat,
    { d with marker := restoreMarker d.marker })

/-! ## Migrating -/

/-- The file operations of a migration. -/
inductive Op
  | createStage | stash (a : Artifact) | unstash (a : Artifact) | commit | uncommit | removeStage
  | createTmp | writeTmp | removeBackup | moveAside | install | restoreBackup | removeTmp | removePath

/-- A rename under `hub-identities`. -/
def Disk.renameDir (d : Disk) (source target : Text) : Disk :=
  match d.dirs[source]? with
  | some folder => { d with dirs := (d.dirs.erase source).insert target folder }
  | none => d

def Markers.apply (slot : Text) (m : Markers) : Op → Markers
  | .createTmp => { m with tmp := some [] }
  | .writeTmp => { m with tmp := some slot }
  | .removeBackup => { m with backup := none }
  | .moveAside =>
    match m.path with
    | some value => { m with path := none, backup := some value }
    | none => m
  | .install => { m with path := m.tmp, tmp := none }
  | .restoreBackup =>
    match m.backup with
    | some value => { m with path := some value, backup := none }
    | none => m
  | .removeTmp => { m with tmp := none }
  | .removePath => { m with path := none }
  | _ => m

/-- What an operation does. A rename whose source is not there does nothing. -/
def apply (slot stage : Text) (op : Op) (d : Disk) : Disk :=
  match op with
  | .createStage => { d with dirs := d.dirs.insert stage fun _ => none }
  | .stash a =>
    match d.dirs[stage]? with
    | some folder =>
      { d with flat := update d.flat a none, dirs := d.dirs.insert stage (update folder a (d.flat a)) }
    | none => d
  | .unstash a =>
    match d.dirs[stage]? with
    | some folder =>
      if (folder a).isSome then
        { d with flat := update d.flat a (folder a), dirs := d.dirs.insert stage (update folder a none) }
      else d
    | none => d
  | .commit => d.renameDir stage slot
  | .uncommit => d.renameDir slot stage
  | .removeStage => { d with dirs := d.dirs.erase stage }
  | _ => { d with marker := d.marker.apply slot op }

inductive MarkerFault
  | create | write | sync | removeBackup | moveAside | install
deriving DecidableEq

def MarkerFault.message : MarkerFault → String
  | .create => "OSL active identity marker could not be written"
  | .write => "OSL active identity marker could not be written"
  | .sync => "OSL active identity marker could not be synchronized"
  | .removeBackup => "OSL stale identity marker backup could not be removed"
  | .moveAside => "OSL prior identity marker could not be preserved"
  | .install => "OSL active identity marker could not be committed"

/-- Which operations are refused, and whether the reload comes up with another identity. -/
structure Faults where
  create : Bool
  /-- The text of the error, of the rename into the staging directory or of its parent. -/
  move : Artifact → Option String
  back : Artifact → Bool
  commit : Option String
  marker : Option MarkerFault
  reload : Bool
  unmark : Bool
  restage : Bool

abbrev Io := Process String Disk

/-- `.{slot_id}.migrate-{pid}.tmp`. -/
def stageName (slot : Text) (pid : Nat) : Text :=
  '.' :: slot ++ ".migrate-".toList ++ Nat.toDigits 10 pid ++ ".tmp".toList

section Migration

variable (slot stage : Text) (f : Faults)

def write (op : Op) : Io Unit := durable (apply slot stage op)

/-- `rollback_moved` and the removal of the staging directory after it. -/
def rollBack (moved : List Artifact) : Io Unit := do
  moved.reverse.forM fun a => if f.back a then pure () else write slot stage (.unstash a)
  write slot stage .removeStage

/-- The loop over the artifacts; `moved` are those that are staged. -/
def moveArtifacts : List Artifact → List Artifact → Io (List Artifact)
  | [], moved => pure moved
  | a :: rest, moved => do
    if ← observe fun d => (d.flat a).isNone then moveArtifacts rest moved
    else
      match f.move a with
      | some error => do
        rollBack slot stage f moved
        fail error
      | none => do
        write slot stage (.stash a)
        moveArtifacts rest (moved ++ [a])

def writeActiveMarker (fault : Option MarkerFault) : Io (Except String Unit) := do
  if fault = some .create then return .error MarkerFault.create.message
  write slot stage .createTmp
  if fault = some .write then return .error MarkerFault.write.message
  write slot stage .writeTmp
  if fault = some .sync then return .error MarkerFault.sync.message
  if fault = some .removeBackup then return .error MarkerFault.removeBackup.message
  write slot stage .removeBackup
  if fault = some .moveAside then return .error MarkerFault.moveAside.message
  write slot stage .moveAside
  if fault = some .install then
    write slot stage .restoreBackup
    write slot stage .removeTmp
    return .error MarkerFault.install.message
  write slot stage .install
  write slot stage .removeBackup
  return .ok ()

def removeActiveMarker : Io Unit := do
  if f.unmark then return ()
  write slot stage .removePath
  write slot stage .removeTmp
  write slot stage .removeBackup

/-- The slot is renamed back and what was moved is put back. -/
def undo (moved : List Artifact) : Io Unit := do
  if f.restage then pure () else write slot stage .uncommit
  rollBack slot stage f moved

/-- From the rename of the staging directory on. -/
def settle (moved : List Artifact) : Io Unit := do
  write slot stage .commit
  match ← writeActiveMarker slot stage f.marker with
  | .error error => do
    undo slot stage f moved
    fail error
  | .ok () =>
    if f.reload then do
      removeActiveMarker slot stage f
      undo slot stage f moved
      fail "OSL identity migration failed closed during reload"
    else pure ()

/-- From the look for the sealed identity on. -/
def commitStage (moved : List Artifact) : Io Unit := do
  if ← observe fun d => (d.dirs[stage]?.bind (· .identity)).isNone then do
    rollBack slot stage f moved
    fail "OSL identity migration found no sealed identity"
  else
    match f.commit with
    | some error => do
      rollBack slot stage f moved
      fail error
    | none => settle slot stage f moved

/-- From the creation of the staging directory on. -/
def migrate : Io Unit := do
  write slot stage .createStage
  let moved ← moveArtifacts slot stage f accountArtifacts []
  commitStage slot stage f moved

end Migration

def migrateFlatAccountToSlot (slot : Text) (pid : Nat) (f : Faults) : Io Unit := do
  if validateSlotId slot = false then fail "OSL identity slot id is invalid"
  else if ← observe (·.dirs.contains slot) then fail "OSL target identity slot already exists"
  else if ← observe (·.dirs.contains (stageName slot pid)) then
    fail "OSL identity migration has an unfinished prior transaction"
  else if f.create then fail "OSL identity migration could not start"
  else migrate slot (stageName slot pid) f

end Osl.Hub.IdentitySlots
