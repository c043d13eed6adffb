import Osl.Base.Command
import Osl.Base.Ideal
import Osl.Base.Run

/-!
# The main password and the files at rest (`crates/ipc/src/main_password.rs`)

`password_marker.json` holds the hash of the main password and its salt. The
other half of the same Argon2id output gives the key that state files are
encrypted under; without a password a random key sealed by the device takes its
place. The process keeps the key in one slot.

A `Config` is the configuration directory with that slot. Its files are read and
written whole; input and output errors and the JSON form of the marker are left
out. Argon2id, AES-GCM, HMAC, base64, BIP39 and the device sealer enter through
`Platform`, and what a call draws at random is an argument.
-/

namespace Osl.Password

open Base Function

def passwordMinLen : Nat := 6
def passwordMaxLen : Nat := 128
def saltLen : Nat := 16
def hashLen : Nat := 32
def keyLen : Nat := 32
def nonceLen : Nat := 12
def tagLen : Nat := 16
def markerVersion : Nat := 2
def lockoutVersion : Nat := 1
def deviceBoundFallbackKeyVersion : Nat := 1
def encMagic : Bytes := label "OSL-ENC1"

@[ext]
structure Argon2Params where
  memoryKb : Nat
  iterations : Nat
  parallelism : Nat
  deriving DecidableEq

def Argon2Params.defaultProd : Argon2Params := ⟨65536, 3, 1⟩

structure Sealer where
  methodLabel : String
  /-- The first argument is the randomness of the seal. -/
  sealBytes : Bytes → Bytes → Except String Bytes
  unsealBytes : Bytes → Except String Bytes

structure Platform where
  argon2Params : Argon2Params → Except String Unit
  /-- Parameters, password and salt; 64 bytes. -/
  argon2id : Argon2Params → Bytes → Bytes → Except String Bytes
  gcm : Aead
  hmac : Bytes → Bytes → Bytes
  base64 : Codec
  bip39 : Bytes → Except String Bytes
  sealer : Sealer
  /-- The system's text for a file that is not there. -/
  notFound : String

/-- Each half of an Argon2id output determines what it was computed from, as an
HMAC does, and the device opens what it sealed. -/
structure Platform.Ideal (P : Platform) : Prop where
  argon2_hash : ∀ {p w s p' w' s' out out'}, P.argon2id p w s = .ok out → P.argon2id p' w' s' = .ok out' →
    out.take hashLen = out'.take hashLen → p = p' ∧ w = w' ∧ s = s'
  argon2_key : ∀ {p w s p' w' s' out out'}, P.argon2id p w s = .ok out → P.argon2id p' w' s' = .ok out' →
    out.drop hashLen = out'.drop hashLen → p = p' ∧ w = w' ∧ s = s'
  gcm : P.gcm.Ideal tagLen
  hmac_length : ∀ k m, (P.hmac k m).length = keyLen
  hmac_inj : ∀ {k m k' m'}, P.hmac k m = P.hmac k' m' → k = k' ∧ m = m'
  base64 : P.base64.Ideal
  unseal_seal : ∀ {r key sealed}, P.sealer.sealBytes r key = .ok sealed → P.sealer.unsealBytes sealed = .ok key

/-! ## On disk -/

structure PasswordMarker where
  version : Nat
  saltB64 : Bytes
  params : Argon2Params
  passwordHashB64 : Bytes
  phraseEncryptedB64 : Bytes
  phraseNonceB64 : Bytes
  phraseHashB64 : Option Bytes
  stealthPasswordHashB64 : Option Bytes
  burnPasswordHashB64 : Option Bytes
  duressPasswordHashB64 : Option Bytes
  deriving DecidableEq

structure LockoutState where
  version : Nat
  passwordFailedAttempts : Nat
  passwordLockedUntil : Option Int
  phraseFailedAttempts : Nat
  phraseLockedUntil : Option Int
  deriving DecidableEq

structure DeviceBoundFallbackStorageKey where
  version : Nat
  sealerMethod : String
  sealedKeyB64 : Bytes
  deriving DecidableEq

/-- The files that are read through `maybe_decrypt`. -/
inductive StateFile where
  | peerMap | whitelistState | burnedScopes | scopeTtl | scopeBlobs | senderKeyState | appPreferences
  | friendRequests | controlInboxDeadLetter
  deriving DecidableEq, Repr

abbrev Files := StateFile → Option Bytes

structure Config where
  files : Files
  marker : Option PasswordMarker
  fallback : Option DeviceBoundFallbackStorageKey
  lockout : LockoutState
  /-- `FILE_STORAGE_KEY`, the slot of the running process. -/
  slot : Option Bytes

/-- A fresh installation. -/
def Config.fresh : Config where
  files _ := none
  marker := none
  fallback := none
  lockout := ⟨lockoutVersion, 0, none, 0, none⟩
  slot := none

abbrev Cmd := Command Config

variable (P : Platform)

/-! ## Validation and key derivation -/

def validatePrintableAscii (password : Bytes) : Except String Unit :=
  if password.any fun b => b < 0x20 || 0x7E < b then
    .error "OSL: only standard keyboard characters allowed (space–tilde)"
  else .ok ()

def validatePassword (password : Bytes) : Except String Unit :=
  if password.length < passwordMinLen ∨ passwordMaxLen < password.length then
    .error "OSL: password must contain 6-128 characters"
  else validatePrintableAscii password

def derive (password salt : Bytes) (params : Argon2Params) : Except String Bytes := do
  context "OSL: argon2 params: " (P.argon2Params params)
  context "OSL: argon2: " (P.argon2id params password salt)

def hkdfExpand32 (prk info : Bytes) : Bytes := (P.hmac prk (info ++ [0x01])).take 32

def deriveFileStorageKey (argonTail : Bytes) : Bytes :=
  hkdfExpand32 P argonTail (label "OSL/file-storage/v2")

/-! ## Encryption at rest -/

def hasEncMagic (blob : Bytes) : Bool :=
  decide (encMagic.length ≤ blob.length) && blob.take encMagic.length == encMagic

def encryptAtRest (plaintext key nonce : Bytes) : Bytes :=
  encMagic ++ nonce ++ P.gcm.encrypt key nonce [] plaintext

def decryptAtRest (blob key : Bytes) : Except String Bytes :=
  if !hasEncMagic blob then .error "OSL: at-rest decrypt: missing OSL-ENC1 magic"
  else if blob.length < encMagic.length + nonceLen + tagLen then
    .error "OSL: at-rest decrypt: blob too short"
  else
    let nonce := (blob.drop encMagic.length).take nonceLen
    match P.gcm.decrypt key nonce [] (blob.drop (encMagic.length + nonceLen)) with
    | some plain => .ok plain
    | none => .error "OSL: at-rest decrypt: aead::Error"

/-! ## The marker -/

/-- What `set_main_password` and `change_main_password` draw. -/
structure PasswordDraws where
  entropy : Bytes
  salt : Bytes
  phraseNonce : Bytes
  fileNonce : StateFile → Bytes
  salt_length : salt.length = saltLen
  fileNonce_length : ∀ f, (fileNonce f).length = nonceLen

def generatePhrase (d : PasswordDraws) : Except String Bytes := context "OSL: bip39: " (P.bip39 d.entropy)

def encryptPhrase (phrase key nonce : Bytes) : Bytes := P.gcm.encrypt key nonce [] phrase

def buildMarker (password phrase : Bytes) (d : PasswordDraws) : Except String PasswordMarker := do
  let derived ← derive P password d.salt .defaultProd
  let phraseDerived ← derive P phrase d.salt .defaultProd
  .ok {
    version := markerVersion
    saltB64 := P.base64.encode d.salt
    params := .defaultProd
    passwordHashB64 := P.base64.encode (derived.take hashLen)
    phraseEncryptedB64 := P.base64.encode (encryptPhrase P phrase (derived.drop hashLen) d.phraseNonce)
    phraseNonceB64 := P.base64.encode d.phraseNonce
    phraseHashB64 := some (P.base64.encode (phraseDerived.take hashLen))
    stealthPasswordHashB64 := none
    burnPasswordHashB64 := none
    duressPasswordHashB64 := none }

def verifyWithMarker (marker : PasswordMarker) (password : Bytes) : Except String Bytes := do
  let salt ← context "OSL: salt b64: " (P.base64.decode marker.saltB64)
  if salt.length ≠ saltLen then .error s!"OSL: salt wrong len: {salt.length} vs {saltLen}"
  else
    let derived ← derive P password salt marker.params
    let storedHash ← context "OSL: hash b64: " (P.base64.decode marker.passwordHashB64)
    if derived.take hashLen ≠ storedHash then .error "OSL: bad password"
    else .ok (derived.drop hashLen)

inductive GateMatch where
  | main (fileKey : Bytes)
  | stealth
  | duress
  | burn
  | wrong
  deriving DecidableEq

def decodeRole (text : String) : Option Bytes → Except String (Option Bytes)
  | some b64 => (context text (P.base64.decode b64)).map some
  | none => .ok none

def verifyGatePasswordWithMarker (marker : PasswordMarker) (password : Bytes) :
    Except String GateMatch := do
  let salt ← context "OSL: salt b64: " (P.base64.decode marker.saltB64)
  if salt.length ≠ saltLen then .error "OSL: salt wrong len"
  else
    let derived ← derive P password salt marker.params
    let mainHash ← context "OSL: main hash b64: " (P.base64.decode marker.passwordHashB64)
    let stealthHash ← decodeRole P "OSL: stealth hash b64: " marker.stealthPasswordHashB64
    let burnHash ← decodeRole P "OSL: burn hash b64: " marker.burnPasswordHashB64
    let duressHash ← decodeRole P "OSL: duress hash b64: " marker.duressPasswordHashB64
    let candidate := derived.take hashLen
    if candidate = mainHash then .ok (.main (deriveFileStorageKey P (derived.drop hashLen)))
    else if stealthHash = some candidate then .ok .stealth
    else if duressHash = some candidate then .ok .duress
    else if burnHash = some candidate then .ok .burn
    else .ok .wrong

/-- `read_marker`, given the file. -/
def readMarker (marker : Option PasswordMarker) : Except String PasswordMarker :=
  match marker with
  | none => .error ("OSL: read password_marker.json: " ++ P.notFound)
  | some m =>
    if m.version ≠ 1 ∧ m.version ≠ markerVersion then
      .error s!"OSL: password_marker.json version mismatch (got {m.version}, want 1 or {markerVersion})"
    else .ok m

def writeMarker (m : PasswordMarker) : Cmd Unit := modify fun s => { s with marker := some m }

def deleteMarker : Cmd Unit := modify fun s => { s with marker := none }

def setFileStorageKey (key : Option Bytes) : Cmd Unit := modify fun s => { s with slot := key }

/-- `reset_password_lockout`, then `reset_phrase_lockout`. -/
def resetLockouts : Cmd Unit := modify fun s => { s with lockout := ⟨lockoutVersion, 0, none, 0, none⟩ }

/-! ## The device-bound key -/

/-- The key in an existing `file_storage_key_fallback.json`. -/
def openDeviceBoundFallbackKey (dto : DeviceBoundFallbackStorageKey) : Except String Bytes := do
  if dto.version ≠ deviceBoundFallbackKeyVersion then
    .error s!"OSL: file_storage_key_fallback.json version mismatch (got {dto.version}, want {deviceBoundFallbackKeyVersion})"
  else if dto.sealerMethod ≠ P.sealer.methodLabel then
    .error "OSL: file_storage_key_fallback.json was sealed by a different device backend"
  else
    let sealed ← context "OSL: fallback storage key b64: " (P.base64.decode dto.sealedKeyB64)
    let opened ← context "OSL: unseal fallback storage key: " (P.sealer.unsealBytes sealed)
    if opened.length ≠ keyLen then .error "OSL: fallback storage key wrong length"
    else .ok opened

/-- What a write draws; the key only when there is neither a key nor a file with
one. -/
structure WriteDraws where
  fallbackKey : Bytes
  sealing : Bytes
  nonce : Bytes
  fallbackKey_length : fallbackKey.length = keyLen
  nonce_length : nonce.length = nonceLen

def createDeviceBoundFallbackKey (d : WriteDraws) : Cmd Bytes := do
  let sealed ← context "OSL: seal fallback storage key: " (P.sealer.sealBytes d.sealing d.fallbackKey)
  modify fun s => { s with
    fallback := some ⟨deviceBoundFallbackKeyVersion, P.sealer.methodLabel, P.base64.encode sealed⟩ }
  return d.fallbackKey

def ensureDeviceBoundFallbackFileStorageKey (d : WriteDraws) : Cmd Bytes := do
  let s ← get
  if s.marker.isSome then
    throw "OSL: main password marker exists; refusing device-bound fallback storage key"
  else
    let key ← match s.fallback with
      | some dto => liftM (openDeviceBoundFallbackKey P dto)
      | none => createDeviceBoundFallbackKey P d
    setFileStorageKey (some key)
    return key

def maybeEncrypt (plaintext : Bytes) (d : WriteDraws) : Cmd Bytes := do
  let s ← get
  let key ← match s.slot with
    | some key => pure key
    | none => ensureDeviceBoundFallbackFileStorageKey P d
  return encryptAtRest P plaintext key d.nonce

/-! ## Existing files -/

/-- The body of the loop of `encrypt_existing_state_files`. -/
def encryptExistingStateFile (key : Bytes) (nonce : StateFile → Bytes) (files : Files) (f : StateFile) :
    Files :=
  match files f with
  | none => files
  | some raw =>
    if hasEncMagic raw then files else update files f (some (encryptAtRest P raw key (nonce f)))

def encryptExistingStateFiles (key : Bytes) (nonce : StateFile → Bytes) : Cmd Unit :=
  modify fun s => { s with files :=
    [StateFile.peerMap, .whitelistState, .burnedScopes].foldl (encryptExistingStateFile P key nonce) s.files }

/-- The files that change and removal of the password go through. -/
def rotated : List StateFile := [.peerMap, .whitelistState]

/-- The body of the loop of `decrypt_existing_state_files`. -/
def decryptExistingStateFile (key : Bytes) (f : StateFile) : Cmd Unit := do
  let s ← get
  match s.files f with
  | none => pure ()
  | some raw =>
    if !hasEncMagic raw then pure ()
    else
      let plain ← decryptAtRest P raw key
      modify fun s => { s with files := update s.files f (some plain) }

def decryptExistingStateFiles (key : Bytes) : Cmd Unit := rotated.forM (decryptExistingStateFile P key)

/-- The body of the loop of `rotate_state_files`. -/
def rotateStateFile (oldKey newKey : Bytes) (nonce : StateFile → Bytes) (f : StateFile) : Cmd Unit := do
  let s ← get
  match s.files f with
  | none => pure ()
  | some raw =>
    let plain ← if hasEncMagic raw then liftM (decryptAtRest P raw oldKey) else pure raw
    modify fun s => { s with
      files := update s.files f (some (encryptAtRest P plain newKey (nonce f))) }

def rotateStateFiles (oldKey newKey : Bytes) (nonce : StateFile → Bytes) : Cmd Unit :=
  rotated.forM (rotateStateFile P oldKey newKey nonce)

/-! ## Commands -/

def setMainPassword (password : Bytes) (d : PasswordDraws) : Cmd Bytes := do
  validatePassword password
  let s ← get
  if s.marker.isSome then
    throw "OSL: a main password is already set — use change_main_password instead"
  else
    let phrase ← generatePhrase P d
    let marker ← buildMarker P password phrase d
    writeMarker marker
    resetLockouts
    let salt ← context "OSL: salt b64: " (P.base64.decode marker.saltB64)
    let derived ← derive P password salt marker.params
    let fileKey := deriveFileStorageKey P (derived.drop hashLen)
    encryptExistingStateFiles P fileKey d.fileNonce
    setFileStorageKey (some fileKey)
    return phrase

/-- `map_err(|_| "OSL: current password incorrect")` over the verification. -/
def verifyCurrent (marker : PasswordMarker) (current : Bytes) : Except String Bytes :=
  (verifyWithMarker P marker current).mapError fun _ => "OSL: current password incorrect"

def changeMainPassword (current new : Bytes) (d : PasswordDraws) : Cmd Bytes := do
  validatePassword new
  let s ← get
  let marker ← readMarker P s.marker
  let _ ← verifyCurrent P marker current
  let salt ← context "OSL: salt b64: " (P.base64.decode marker.saltB64)
  let oldDerived ← derive P current salt marker.params
  let oldFileKey := deriveFileStorageKey P (oldDerived.drop hashLen)
  let newPhrase ← generatePhrase P d
  let newMarker ← buildMarker P new newPhrase d
  -- the salt is the old marker's
  let newDerived ← derive P new salt newMarker.params
  let newFileKey := deriveFileStorageKey P (newDerived.drop hashLen)
  rotateStateFiles P oldFileKey newFileKey d.fileNonce
  writeMarker newMarker
  setFileStorageKey (some newFileKey)
  resetLockouts
  return newPhrase

def removeMainPassword (current : Bytes) : Cmd Unit := do
  let s ← get
  let marker ← readMarker P s.marker
  let _ ← verifyCurrent P marker current
  let salt ← context "OSL: salt b64: " (P.base64.decode marker.saltB64)
  let derived ← derive P current salt marker.params
  let fileKey := deriveFileStorageKey P (derived.drop hashLen)
  Command.ignore (decryptExistingStateFiles P fileKey)
  setFileStorageKey none
  deleteMarker
  resetLockouts

/-- A JSON document: its first byte is not that of the magic. -/
abbrev Json := { body : Bytes // hasEncMagic body = false }

/-- The writers of state files: a temporary file with `maybe_encrypt` of the body,
renamed over the target. -/
def writeStateFile (f : StateFile) (body : Json) (d : WriteDraws) : Cmd Unit := do
  let out ← maybeEncrypt P body.1 d
  modify fun s => { s with files := update s.files f (some out) }

/-- The gate outside a lockout window: only the main password installs a key. -/
def openGate (password : Bytes) : Cmd GateMatch := do
  let s ← get
  let marker ← readMarker P s.marker
  match ← verifyGatePasswordWithMarker P marker password with
  | .main fileKey =>
    setFileStorageKey (some fileKey)
    resetLockouts
    return .main fileKey
  | other => return other

inductive Op where
  | setMainPassword (password : Bytes) (d : PasswordDraws)
  | changeMainPassword (current new : Bytes) (d : PasswordDraws)
  | removeMainPassword (current : Bytes)
  | write (f : StateFile) (body : Json) (d : WriteDraws)
  /-- The password is entered at the gate. -/
  | unlock (password : Bytes)
  /-- The inactivity timer fires, or the process starts anew. -/
  | lock

/-- The state after a call, whether it succeeded or not. -/
def step (s : Config) : Op → Config
  | .setMainPassword password d => ((setMainPassword P password d).exec s).2
  | .changeMainPassword current new d => ((changeMainPassword P current new d).exec s).2
  | .removeMainPassword current => ((removeMainPassword P current).exec s).2
  | .write f body d => ((writeStateFile P f body d).exec s).2
  | .unlock password => ((openGate P password).exec s).2
  | .lock => ((setFileStorageKey none).exec s).2

end Osl.Password
