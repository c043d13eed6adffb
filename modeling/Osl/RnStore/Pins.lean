import Osl.Base.Fixed
import Osl.Base.Outcome
import Osl.Base.Process
import Osl.RnStore.Files

/-!
# Version pins (`crates/ipc/src/wire_rn.rs`)

A peer that has spoken OSL-RN is pinned to it: `select_wire_version` then never
falls back to the legacy wire. The pin lies in two files, the pin and the pin
floor, so that the loss or the reset of one of them does not unpin the peer.
-/

namespace Osl.RnStore

open Base Process FileSystem

def legacyWireVersionV3 : Nat := 0x03

def wireVersionRn : Nat := 0x10

def pinBlobVersion : Nat := 1

def maxPinFileBytes : Nat := 4 * 1024

def rnCapWireRn : Nat := 1

inductive RnError where
  | pinnedToRn
  | rnRequiredButUnsupported
  | protocol (msg : String)
  | skippedCacheTooLarge (got max : Nat)
  | storage (msg : String)
  deriving DecidableEq

structure RnPeerPin where
  minWireVersion : Nat
  deriving DecidableEq

namespace RnPeerPin

def unknown : RnPeerPin := ⟨legacyWireVersionV3⟩

def raiseToRn (pin : RnPeerPin) : RnPeerPin := if pin.minWireVersion < wireVersionRn then ⟨wireVersionRn⟩ else pin

def isPinnedToRn (pin : RnPeerPin) : Bool := wireVersionRn ≤ pin.minWireVersion

def validated (pin : RnPeerPin) : Except RnError RnPeerPin :=
  if pin.minWireVersion = legacyWireVersionV3 ∨ pin.minWireVersion = wireVersionRn then .ok pin
  else .error (.storage "pin file carries an unrecognised minimum wire version")

theorem validated_ok {pin pin' : RnPeerPin} (ok : pin.validated = .ok pin') :
    pin' = pin ∧ (pin = unknown ∨ pin = ⟨wireVersionRn⟩) := by
  unfold validated at ok
  split at ok
  case isTrue known =>
    cases ok
    exact ⟨rfl, known.imp (congrArg mk) (congrArg mk)⟩
  case isFalse => cases ok

end RnPeerPin

inductive PeerCapabilities where
  | absent
  | unverified
  | verified (bits : Nat)

def PeerCapabilities.bitmap : PeerCapabilities → Nat
  | .verified bits => bits
  | .absent | .unverified => 0

def PeerCapabilities.supportsRn (c : PeerCapabilities) : Bool := c.bitmap &&& rnCapWireRn ≠ 0

inductive RnPolicy where
  | opportunistic
  | required

inductive SelectedVersion where
  | legacyV3
  | rn
  deriving DecidableEq

def selectWireVersion (pin : RnPeerPin) (capabilities : PeerCapabilities) (policy : RnPolicy) :
    Except RnError SelectedVersion :=
  if pin.isPinnedToRn then
    if capabilities.supportsRn then .ok .rn else .error .pinnedToRn
  else
    match policy, capabilities.supportsRn with
    | _, true => .ok .rn
    | .required, false => .error .rnRequiredButUnsupported
    | .opportunistic, false => .ok .legacyV3

variable {pin : RnPeerPin}

/-- The downgrade guarantee of the selection itself. -/
theorem selectWireVersion_pinned (pinned : pin.isPinnedToRn = true) (capabilities : PeerCapabilities)
    (policy : RnPolicy) : selectWireVersion pin capabilities policy ≠ .ok .legacyV3 := by
  unfold selectWireVersion
  rw [if_pos pinned]
  split <;> simp

/-! ## Files -/

structure PinFile where
  version : Nat
  pin : RnPeerPin

/-- What is written for a raised pin and for its floor. -/
def PinFile.raised : PinFile := ⟨pinBlobVersion, ⟨wireVersionRn⟩⟩

/-- `serde_json`; of its round trip only the raised pin is needed. -/
structure PinCodec where
  toVec : PinFile → Bytes
  fromSlice : Bytes → Except String PinFile
  fromSlice_raised : fromSlice (toVec .raised) = .ok .raised
  raised_le : (toVec .raised).length ≤ maxPinFileBytes

def readBounded (files : Files) (path : Path) (max : Nat) (what : String) : Except RnError (Option Bytes) :=
  match files.read path with
  | none => .ok none
  | some bytes =>
    if max < bytes.length then
      .error (.storage (what ++ " file is " ++ toString bytes.length ++ " bytes, over the " ++ toString max ++ "-byte bound"))
    else .ok (some bytes)

section

variable (C : PinCodec) (peerKey : String)

def loadPinFile (files : Files) (path : Path) (what : String) : Except RnError (Option RnPeerPin) := do
  match ← readBounded files path maxPinFileBytes what with
  | none => .ok none
  | some bytes =>
    let file ← (C.fromSlice bytes).mapError fun e => .storage ("parse " ++ what ++ ": " ++ e)
    if file.version ≠ pinBlobVersion then
      .error (.storage (what ++ " version " ++ toString file.version ++ " != " ++ toString pinBlobVersion))
    else file.pin.validated.map some

def loadPinFloor (files : Files) : Except RnError (Option RnPeerPin) := do
  match ← loadPinFile C files (targetPath peerKey .pinFloor) "pin floor" with
  | none => .ok none
  | some floor =>
    if floor.isPinnedToRn then .ok (some floor)
    else .error (.storage "pin floor file is below the RN downgrade floor")

def loadPin (files : Files) : Except RnError RnPeerPin := do
  let pin ← loadPinFile C files (targetPath peerKey .pin) "pin"
  let floor ← loadPinFloor C peerKey files
  match pin, floor with
  | some pin, some floor =>
    if pin.minWireVersion < floor.minWireVersion then
      .error (.storage "pin file is below the persisted RN downgrade floor")
    else .ok pin
  | some pin, none => .ok pin
  | none, some floor => .ok floor
  | none, none => .ok .unknown

/-- One file operation of an `atomic_write`. -/
def operation (c : Call) (stage : Stage) : Process RnError Files Stage := do
  let after ← observe fun files => advance peerKey files c stage
  durable fun _ => after.1
  pure after.2

/-- An operation that fails stops the call as a crash before it does. -/
def atomicWrite (c : Call) : Process RnError Files Unit := do
  let created ← operation peerKey c .begun
  let written ← operation peerKey c created
  let synced ← operation peerKey c written
  match ← operation peerKey c synced with
  | .returned true => pure ()
  | _ => Process.fail (.storage "rename state file: No such file or directory (os error 2)")

def persistPinFloorToRn : Process RnError Files Unit := atomicWrite peerKey ⟨.pinFloor, C.toVec .raised⟩

def raisePinToRn : Process RnError Files RnPeerPin := do
  let loaded ← observe (loadPin C peerKey)
  let pin ← attempt loaded
  if pin.isPinnedToRn then
    persistPinFloorToRn C peerKey
    pure pin
  else
    persistPinFloorToRn C peerKey
    atomicWrite peerKey ⟨.pin, C.toVec ⟨pinBlobVersion, pin.raiseToRn⟩⟩
    pure pin.raiseToRn

/-- What happens to a peer's files; a call may be cut off after any of its operations. -/
inductive Event where
  | raise (operations : Nat)
  | saveSession (blob : Bytes) (operations : Nat)
  | deleteSession
  | lose (t : Target)
  | reset (t : Target) (content : Bytes)

def happen (files : Files) : Event → Files
  | .raise operations => (raisePinToRn C peerKey files operations).2.1
  | .saveSession blob operations => (atomicWrite peerKey ⟨.session, blob⟩ files operations).2.1
  | .deleteSession => files.remove (targetPath peerKey .session)
  | .lose t => files.remove (targetPath peerKey t)
  | .reset t content => files.replace (targetPath peerKey t) content

/-- The wire a send takes. -/
def sendVersion (files : Files) (capabilities : PeerCapabilities) (policy : RnPolicy) :
    Except RnError SelectedVersion := do
  let pin ← loadPin C peerKey files
  selectWireVersion pin capabilities policy

end

/-- Not the loss or the reset of `t`. -/
def Event.Spares (t : Target) : Event → Prop
  | .lose t' | .reset t' _ => t' ≠ t
  | .raise _ | .saveSession _ _ | .deleteSession => True

variable {C : PinCodec} {peerKey : String} {files before after : Files} {t : Target}

/-! ## One write -/

structure Untouched (peerKey : String) (before after : Files) : Prop where
  sound : after.Sound
  same : ∀ t, after.read (targetPath peerKey t) = before.read (targetPath peerKey t)

def Stage.done : Stage → Nat
  | .begun => 0
  | .created _ => 1
  | .written _ => 2
  | .synced => 3
  | .returned _ => 4

/-- Before its `k`-th operation, `k` at most 3, the call has changed no target. -/
def Midway (peerKey : String) (before : Files) (c : Call) (k : Nat) (stage : Stage) (files : Files) : Prop :=
  stage.done = k ∧ Untouched peerKey before files ∧ Holds peerKey files c stage

variable {c : Call}

theorem operation_midway {k : Nat} (early : k < 3) (stage : Stage) :
    Sure (Midway peerKey before c k stage) (operation peerKey c stage) (Midway peerKey before c (k + 1))
      (Untouched peerKey before) := by
  refine Sure.observe_bind fun files ⟨done, untouched, holds⟩ => ?_
  have notSynced : stage ≠ .synced := by
    rintro rfl
    have three : k = 3 := done.symm
    omega
  have contained := advance_contained untouched.sound c holds
  have untouched' : Untouched peerKey before (advance peerKey files c stage).1 :=
    ⟨contained.sound, fun t => (advance_untouched untouched.sound c holds notSynced t).trans (untouched.same t)⟩
  have done' : (advance peerKey files c stage).2.done = k + 1 := by
    rw [← done]
    cases stage with
    | begun => rfl
    | created file => rfl
    | written file => rfl
    | synced => exact absurd rfl notSynced
    | returned ok =>
      have four : k = 4 := done.symm
      omega
  refine Sure.bind (Sure.durable (Q := fun _ f => f = (advance peerKey files c stage).1) ?_ ?_) fun _ =>
    Sure.pure ?_
  · exact fun _ _ => rfl
  · rintro _ rfl
    exact untouched
  · rintro _ rfl
    exact ⟨done', untouched', contained.holds⟩

theorem atomicWrite_sure (sound : before.Sound) (c : Call) :
    Sure (fun files => files = before) (atomicWrite peerKey c) (fun _ => Wrote peerKey c before)
      (Untouched peerKey before) := by
  have start : ∀ files, files = before → Midway peerKey before c 0 .begun files := by
    rintro _ rfl
    exact ⟨rfl, ⟨sound, fun _ => rfl⟩, trivial⟩
  refine Sure.bind ((operation_midway (by omega) .begun).mono start (fun _ _ => id) fun _ => id) fun created => ?_
  refine Sure.bind (operation_midway (by omega) created) fun written => ?_
  refine Sure.bind (operation_midway (by omega) written) fun synced => ?_
  refine Sure.intro fun files ⟨done, untouched, holds⟩ => ?_
  obtain rfl : synced = .synced := by cases synced <;> cases done; rfl
  obtain ⟨after, outcome, wrote⟩ := advance_synced untouched.sound holds
  have whole : Wrote peerKey c before after :=
    ⟨wrote.sound, wrote.target, fun t apart => (wrote.others t apart).trans (untouched.same t)⟩
  refine Sure.bind (Q := fun stage f => stage = .returned true ∧ f = after) ?_ fun stage => ?_
  · refine Sure.observe_bind ?_
    rintro _ rfl
    rw [outcome]
    refine Sure.bind (Sure.durable (Q := fun _ f => f = after) ?_ ?_) fun _ => Sure.pure ?_
    · exact fun _ _ => rfl
    · rintro _ rfl
      exact untouched
    · rintro _ rfl
      exact ⟨rfl, rfl⟩
  · refine Sure.intro fun f ⟨returned, same⟩ => ?_
    subst returned same
    exact Sure.pure fun _ same => same ▸ whole

/-! ## Reading pins -/

/-- The file `t` holds a raised pin. -/
def HasPin (C : PinCodec) (peerKey : String) (t : Target) (files : Files) : Prop :=
  ∃ bytes, files.read (targetPath peerKey t) = some bytes ∧ bytes.length ≤ maxPinFileBytes ∧
    C.fromSlice bytes = .ok .raised

theorem HasPin.of_read (has : HasPin C peerKey t before)
    (same : after.read (targetPath peerKey t) = before.read (targetPath peerKey t)) : HasPin C peerKey t after := by
  obtain ⟨bytes, there, short, parsed⟩ := has
  exact ⟨bytes, same.trans there, short, parsed⟩

theorem HasPin.of_raised (there : files.read (targetPath peerKey t) = some (C.toVec .raised)) : HasPin C peerKey t files :=
  ⟨_, there, C.raised_le, C.fromSlice_raised⟩

theorem HasPin.present (has : HasPin C peerKey t files) : files.read (targetPath peerKey t) ≠ none := by
  obtain ⟨bytes, there, _⟩ := has
  rw [there]
  exact Option.some_ne_none bytes

theorem loadPinFile_of_hasPin (has : HasPin C peerKey t files) (what : String) :
    loadPinFile C files (targetPath peerKey t) what = .ok (some ⟨wireVersionRn⟩) := by
  obtain ⟨bytes, there, short, parsed⟩ := has
  unfold loadPinFile readBounded
  rw [there]
  dsimp only
  rw [if_neg (by omega)]
  refine bind_ok.2 ⟨some bytes, rfl, bind_ok.2 ⟨.raised, mapError_ok.2 parsed, ?_⟩⟩
  rfl

theorem loadPinFile_of_none (absent : files.read (targetPath peerKey t) = none) (what : String) :
    loadPinFile C files (targetPath peerKey t) what = .ok none := by
  unfold loadPinFile readBounded
  rw [absent]
  rfl

variable {what : String}

/-- A file that is read is absent or holds a pin that was never raised or a raised one. -/
theorem loadPinFile_ok {found : Option RnPeerPin} (ok : loadPinFile C files (targetPath peerKey t) what = .ok found) :
    found = none ∧ files.read (targetPath peerKey t) = none ∨ found = some .unknown ∨
      found = some ⟨wireVersionRn⟩ ∧ HasPin C peerKey t files := by
  unfold loadPinFile readBounded at ok
  cases there : files.read (targetPath peerKey t) with
  | none =>
    rw [there] at ok
    cases ok
    exact .inl ⟨rfl, rfl⟩
  | some bytes =>
    rw [there] at ok
    dsimp only at ok
    obtain ⟨read, bounded, ok⟩ := bind_ok.1 ok
    split at bounded
    case isTrue => cases bounded
    rename_i short
    cases bounded
    obtain ⟨file, parsed, ok⟩ := bind_ok.1 ok
    split at ok
    case isTrue => cases ok
    rename_i version
    obtain ⟨pin, valid, rfl⟩ := map_ok.1 ok
    obtain ⟨rfl, known | known⟩ := RnPeerPin.validated_ok valid
    · exact .inr (.inl (congrArg some known))
    · refine .inr (.inr ⟨congrArg some known, bytes, there, by omega, ?_⟩)
      rw [mapError_ok.1 parsed]
      have raised : file = ⟨file.version, file.pin⟩ := rfl
      rw [raised, not_not.1 version, known]
      rfl

theorem loadPinFloor_ok {found : Option RnPeerPin} (ok : loadPinFloor C peerKey files = .ok found) :
    found = none ∧ files.read (targetPath peerKey .pinFloor) = none ∨
      found = some ⟨wireVersionRn⟩ ∧ HasPin C peerKey .pinFloor files := by
  obtain ⟨loaded, file, ok⟩ := bind_ok.1 ok
  rcases loadPinFile_ok file with ⟨rfl, absent⟩ | rfl | ⟨rfl, has⟩
  · cases ok
    exact .inl ⟨rfl, absent⟩
  · cases ok
  · cases ok
    exact .inr ⟨rfl, has⟩

/-- One raised file is enough: the pin is raised or the load fails. -/
theorem loadPin_pinned (kind : t ≠ .session) (has : HasPin C peerKey t files)
    (ok : loadPin C peerKey files = .ok pin) : pin.isPinnedToRn = true := by
  obtain ⟨loaded, file, ok⟩ := bind_ok.1 ok
  obtain ⟨floor, floorFile, ok⟩ := bind_ok.1 ok
  cases t with
  | session => exact absurd rfl kind
  | pin =>
    cases file.symm.trans (loadPinFile_of_hasPin has "pin")
    rcases loadPinFloor_ok floorFile with ⟨rfl, _⟩ | ⟨rfl, _⟩
    · cases ok
      rfl
    · cases ok
      rfl
  | pinFloor =>
    cases floorFile.symm.trans (bind_ok.2 ⟨_, loadPinFile_of_hasPin has "pin floor", rfl⟩)
    rcases loadPinFile_ok file with ⟨rfl, _⟩ | rfl | ⟨rfl, _⟩
    · cases ok
      rfl
    · cases ok
    · cases ok
      rfl

/-- Where a pin comes from: a raised pin file, a floor without a pin file, or neither of
the two. -/
inductive Found (C : PinCodec) (peerKey : String) (files : Files) (pin : RnPeerPin) : Prop where
  | file (pinned : pin.isPinnedToRn = true) (has : HasPin C peerKey .pin files)
  | floor (pinned : pin.isPinnedToRn = true) (noPin : files.read (targetPath peerKey .pin) = none)
      (present : files.read (targetPath peerKey .pinFloor) ≠ none)
  | unpinned (low : ¬pin.isPinnedToRn = true) (noFloor : files.read (targetPath peerKey .pinFloor) = none)

theorem loadPin_found (ok : loadPin C peerKey files = .ok pin) : Found C peerKey files pin := by
  have loads := ok
  obtain ⟨loaded, file, ok⟩ := bind_ok.1 ok
  obtain ⟨floor, floorFile, ok⟩ := bind_ok.1 ok
  rcases loadPinFloor_ok floorFile with ⟨rfl, noFloor⟩ | ⟨rfl, has⟩
  · rcases loadPinFile_ok file with ⟨rfl, _⟩ | rfl | ⟨rfl, has⟩
    · cases ok
      exact .unpinned nofun noFloor
    · cases ok
      exact .unpinned nofun noFloor
    · cases ok
      exact .file rfl has
  · have pinned := loadPin_pinned (t := .pinFloor) nofun has loads
    rcases loadPinFile_ok file with ⟨rfl, noPin⟩ | rfl | ⟨rfl, has'⟩
    · exact .floor pinned noPin has.present
    · cases ok
    · exact .file pinned has'

theorem loadPin_of_none (noPin : files.read (targetPath peerKey .pin) = none)
    (noFloor : files.read (targetPath peerKey .pinFloor) = none) : loadPin C peerKey files = .ok .unknown :=
  have floor : loadPinFloor C peerKey files = .ok none := bind_ok.2 ⟨none, loadPinFile_of_none noFloor "pin floor", rfl⟩
  bind_ok.2 ⟨none, loadPinFile_of_none noPin "pin", bind_ok.2 ⟨none, floor, rfl⟩⟩

/-! ## Raising -/

theorem raised_of_unpinned (unpinned : ¬pin.isPinnedToRn = true) :
    (⟨pinBlobVersion, pin.raiseToRn⟩ : PinFile) = .raised := by
  have below : pin.minWireVersion < wireVersionRn := by
    simpa [RnPeerPin.isPinnedToRn] using unpinned
  rw [RnPeerPin.raiseToRn, if_pos below]
  rfl

/-- `t` stays raised. -/
def Pinned (C : PinCodec) (peerKey : String) (t : Target) (files : Files) : Prop :=
  files.Sound ∧ HasPin C peerKey t files

theorem atomicWrite_pinned (own : c.target = t → c.bytes = C.toVec .raised) :
    Keeps (Pinned C peerKey t) (Pinned C peerKey t) (atomicWrite peerKey c) := by
  refine Triple.intro fun before ⟨sound, has⟩ => ?_
  refine (atomicWrite_sure sound c).triple.mono (fun _ => id) (fun _ after wrote => ?_) fun after untouched => ?_
  · refine ⟨wrote.sound, ?_⟩
    by_cases same : c.target = t
    · have content := wrote.target
      rw [own same, same] at content
      exact .of_raised content
    · exact has.of_read (wrote.others t (Ne.symm same))
  · exact ⟨untouched.sound, has.of_read (untouched.same t)⟩

theorem raisePinToRn_pinned : Keeps (Pinned C peerKey t) (Pinned C peerKey t) (raisePinToRn C peerKey) := by
  refine Keeps.bind Keeps.observe fun loaded => ?_
  refine Keeps.bind (Keeps.attempt fun _ => id) fun pin => ?_
  have floor : Keeps (Pinned C peerKey t) (Pinned C peerKey t) (persistPinFloorToRn C peerKey) :=
    atomicWrite_pinned fun _ => rfl
  split
  case isTrue => exact Keeps.bind floor fun _ => Keeps.pure
  case isFalse unpinned =>
    refine Keeps.bind floor fun _ => Keeps.bind ?_ fun _ => Keeps.pure
    exact atomicWrite_pinned fun _ => congrArg C.toVec (raised_of_unpinned unpinned)

theorem Pinned.happen (kind : t ≠ .session) (pinned : Pinned C peerKey t files) {e : Event} (spares : e.Spares t) :
    Pinned C peerKey t (happen C peerKey files e) := by
  have apart : ∀ {t'}, t' ≠ t → targetPath peerKey t ≠ targetPath peerKey t' :=
    fun other same => other (targetPath_inj same).symm
  obtain ⟨sound, has⟩ := pinned
  cases e with
  | raise operations => exact raisePinToRn_pinned.state ⟨sound, has⟩ operations
  | saveSession blob operations =>
    exact (atomicWrite_pinned fun same => absurd same.symm kind).state ⟨sound, has⟩ operations
  | deleteSession =>
    exact ⟨sound.remove _, has.of_read (remove_read_of_ne files (apart (Ne.symm kind)))⟩
  | lose t' => exact ⟨sound.remove _, has.of_read (remove_read_of_ne files (apart spares))⟩
  | reset t' content => exact ⟨sound.replace _ content, has.of_read (sound.replace_read (apart spares) content)⟩

/-- A raised file that is spared keeps the peer on OSL-RN. -/
theorem Pinned.sendVersion (kind : t ≠ .session) (pinned : Pinned C peerKey t files) (capabilities : PeerCapabilities)
    (policy : RnPolicy) : sendVersion C peerKey files capabilities policy ≠ .ok .legacyV3 := by
  intro legacy
  obtain ⟨pin, loaded, selected⟩ := bind_ok.1 legacy
  exact selectWireVersion_pinned (loadPin_pinned kind pinned.2 loaded) capabilities policy selected

/-- What a raise that returned has left. Found through its floor only, the pin is not
written again. -/
structure Raised (C : PinCodec) (peerKey : String) (before after : Files) : Prop where
  sound : after.Sound
  floor : HasPin C peerKey .pinFloor after
  pin : before.read (targetPath peerKey .pin) ≠ none ∨ before.read (targetPath peerKey .pinFloor) = none →
    HasPin C peerKey .pin after
  floorOnly : before.read (targetPath peerKey .pin) = none → before.read (targetPath peerKey .pinFloor) ≠ none →
    after.read (targetPath peerKey .pin) = none

theorem Raised.of_pinned (found : Found C peerKey before pin) (pinned : pin.isPinnedToRn = true)
    (wrote : Wrote peerKey ⟨.pinFloor, C.toVec .raised⟩ before after) : Raised C peerKey before after := by
  have kept : after.read (targetPath peerKey .pin) = before.read (targetPath peerKey .pin) := wrote.others .pin nofun
  refine ⟨wrote.sound, .of_raised wrote.target, fun condition => ?_, fun noPin _ => kept.trans noPin⟩
  cases found with
  | file _ has => exact has.of_read kept
  | floor _ noPin present => exact absurd condition (not_or.2 ⟨not_not.2 noPin, present⟩)
  | unpinned low _ => exact absurd pinned low

theorem Raised.of_unpinned (found : Found C peerKey before pin) (low : ¬pin.isPinnedToRn = true)
    {middle : Files} (wrote : Wrote peerKey ⟨.pinFloor, C.toVec .raised⟩ before middle)
    (wrote' : Wrote peerKey ⟨.pin, C.toVec .raised⟩ middle after) : Raised C peerKey before after := by
  refine ⟨wrote'.sound, ?_, fun _ => .of_raised wrote'.target, fun _ present => ?_⟩
  · exact (HasPin.of_raised wrote.target).of_read (wrote'.others .pinFloor nofun)
  · cases found with
    | file pinned _ => exact absurd pinned low
    | floor pinned _ _ => exact absurd pinned low
    | unpinned _ noFloor => exact absurd noFloor present

theorem raisePinToRn_raised (sound : before.Sound) :
    Triple (fun files => files = before) (raisePinToRn C peerKey) (fun _ => Raised C peerKey before)
      fun _ => True := by
  refine Triple.bind
    (Triple.observe (Q := fun loaded files => loaded = loadPin C peerKey before ∧ files = before) ?_) fun loaded => ?_
  · rintro _ rfl
    exact ⟨rfl, rfl⟩
  refine Triple.bind (Triple.attempt
    (Q := fun pin files => loadPin C peerKey before = .ok pin ∧ files = before) ?_ fun _ _ => trivial) fun pin => ?_
  · rintro pin _ ok ⟨same, rfl⟩
    exact ⟨same.symm.trans ok, rfl⟩
  refine Triple.intro fun files ⟨ok, same⟩ => ?_
  subst same
  have found := loadPin_found ok
  have floor : Triple (fun f => f = files) (persistPinFloorToRn C peerKey)
      (fun _ => Wrote peerKey ⟨.pinFloor, C.toVec .raised⟩ files) fun _ => True :=
    (atomicWrite_sure sound _).triple.mono (fun _ => id) (fun _ _ => id) fun _ _ => trivial
  split
  case isTrue pinned =>
    exact Triple.bind floor fun _ => Triple.pure fun after wrote => .of_pinned found pinned wrote
  rename_i low
  refine Triple.bind floor fun _ => Triple.intro fun middle wrote => ?_
  rw [raised_of_unpinned low]
  refine Triple.bind ((atomicWrite_sure wrote.sound ⟨.pin, C.toVec .raised⟩).triple.mono
    (fun _ => id) (fun _ _ => id) fun _ _ => trivial) fun _ => ?_
  exact Triple.pure fun after wrote' => .of_unpinned found low wrote wrote'

/-- After a raise has returned, no sequence of later raises, session saves and deletions,
each cut off anywhere, and of losses and resets of one of the two files brings the
legacy wire back, exactly if the raise did not find a floor without a pin file. -/
theorem raise_excludes_legacy_iff (C : PinCodec) (peerKey : String) (before after : Files) (sound : before.Sound)
    (operations left : Nat) (pin : RnPeerPin)
    (raised : raisePinToRn C peerKey before operations = (.ok pin, after, left)) :
    (∀ spared, spared ≠ .session → ∀ later : List Event, (∀ e ∈ later, e.Spares spared) → ∀ capabilities policy,
      sendVersion C peerKey (run (happen C peerKey) after later) capabilities policy ≠ .ok .legacyV3) ↔
    (before.read (targetPath peerKey .pin) ≠ none ∨ before.read (targetPath peerKey .pinFloor) = none) := by
  have result := (raisePinToRn_raised sound before operations rfl).1 pin after left raised
  constructor
  · intro never
    by_contra floorOnly
    obtain ⟨noPin, present⟩ := not_or.1 floorOnly
    -- The floor is lost; the pin file was never there.
    have apart : targetPath peerKey .pin ≠ targetPath peerKey .pinFloor := fun same => by cases targetPath_inj same
    have noPin' : (happen C peerKey after (.lose .pinFloor)).read (targetPath peerKey .pin) = none :=
      (remove_read_of_ne after apart).trans (result.floorOnly (not_not.1 noPin) present)
    have unknown := loadPin_of_none (C := C) noPin' (remove_read_self after _)
    refine never .pin nofun [.lose .pinFloor] ?_ .absent .opportunistic (bind_ok.2 ⟨_, unknown, rfl⟩)
    intro e mem
    cases List.mem_singleton.1 mem
    exact nofun
  · intro condition spared kind later spares capabilities policy
    have start : Pinned C peerKey spared after := by
      cases spared with
      | session => exact absurd rfl kind
      | pin => exact ⟨result.sound, result.pin condition⟩
      | pinFloor => exact ⟨result.sound, result.floor⟩
    have kept := run_invariant_of (C := fun _ e => Event.Spares spared e) (fun _ _ pinned => pinned.happen kind) start
      (allSteps_of_forall fun e mem _ => spares e mem)
    exact kept.sendVersion kind capabilities policy

/-- What `serde_json` writes for a pin. -/
def jsonText (version : String) : Bytes :=
  utf8 ("\x7b\"pin\":\x7b\"min_wire_version\":" ++ version ++ "\x7d,\"version\":1\x7d")

def sampleCodec : PinCodec where
  toVec file := jsonText (if file.pin.minWireVersion = wireVersionRn then "16" else "3")
  fromSlice bytes :=
    if bytes = jsonText "16" then .ok .raised
    else if bytes = jsonText "3" then .ok ⟨pinBlobVersion, .unknown⟩
    else .error "expected value at line 1 column 1"
  fromSlice_raised := if_pos rfl
  raised_le := by decide +kernel

theorem first_raise_excludes_legacy :
    ∃ after left, raisePinToRn sampleCodec "a1b2" noFiles 8 = (.ok ⟨wireVersionRn⟩, after, left) ∧
      ∀ spared, spared ≠ .session → ∀ later : List Event, (∀ e ∈ later, e.Spares spared) → ∀ capabilities policy,
        sendVersion sampleCodec "a1b2" (run (happen sampleCodec "a1b2") after later) capabilities policy ≠ .ok .legacyV3 := by
  refine ⟨_, _, rfl, ?_⟩
  exact (raise_excludes_legacy_iff sampleCodec "a1b2" noFiles _ noFiles_sound 8 _ _ rfl).2 (.inr rfl)

/-- The first raise stops between its two files, the second one returns, the floor is
lost. -/
theorem floor_loss_restores_legacy :
    ∃ after left, raisePinToRn sampleCodec "a1b2" (happen sampleCodec "a1b2" noFiles (.raise 4)) 4 =
        (.ok ⟨wireVersionRn⟩, after, left) ∧
      sendVersion sampleCodec "a1b2" (run (happen sampleCodec "a1b2") after [.lose .pinFloor]) .absent .opportunistic =
        .ok .legacyV3 :=
  ⟨_, _, rfl, rfl⟩

end Osl.RnStore
