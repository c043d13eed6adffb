import Osl.Crypto.Primitives

/-!
# Sender keys (`crates/crypto/src/sender_keys.rs`)

One sending chain per device and group. Each chain key gives a header key, a message
key and the next chain key; a receiver finds the slot of a message by trying header
keys, first those it has cached and then those of at most 1001 slots ahead. Time is
in nanoseconds. The random nonces of a message are arguments.
-/

namespace Osl.SenderKeys

open Base Crypto

def chainInitInfo : Bytes := label "sender-keys/chain-init"
def chainStepInfo : Bytes := label "sender-keys/chain-step"
def msgKeyInfo : Bytes := label "sender-keys/msg-key"
def headerKeyInfo : Bytes := label "sender-keys/header-key"

def maxSkippedPerChain : Nat := 1000

def skippedKeyTtl : Nat := 30 * 24 * 60 * 60 * 10 ^ 9

def physicalDeviceIdBytes : Nat := 32

def headerBytes : Nat := physicalDeviceIdBytes + 16

structure PhysicalDeviceId where
  bytes : Bytes
  length_bytes : bytes.length = physicalDeviceIdBytes
  present : bytes.all (· = 0) = false
  deriving DecidableEq

def PhysicalDeviceId.fromBytes (bytes : Bytes) (sized : bytes.length = physicalDeviceIdBytes) : Result PhysicalDeviceId :=
  if h : bytes.all (· = 0) = false then .ok ⟨bytes, sized, h⟩
  else .error (.internal "sender keys: physical_device_id binding absent")

structure Header where
  physicalDeviceId : PhysicalDeviceId
  chainId : Nat
  n : Nat
  prevChainLength : Nat
  sessionVersion : Nat

namespace Header

def toBytes (h : Header) : Bytes :=
  h.physicalDeviceId.bytes ++ (be32 h.chainId ++ (be32 h.n ++ (be32 h.prevChainLength ++ be32 h.sessionVersion)))

def fromBytes (bytes : Bytes) : Result Header :=
  if sized : bytes.length = headerBytes then do
    let device ← PhysicalDeviceId.fromBytes (bytes.take physicalDeviceIdBytes) (by
      rw [List.length_take, sized]
      rfl)
    .ok {
      physicalDeviceId := device
      chainId := ofBe32 ((bytes.drop 32).take 4)
      n := ofBe32 ((bytes.drop 36).take 4)
      prevChainLength := ofBe32 ((bytes.drop 40).take 4)
      sessionVersion := ofBe32 ((bytes.drop 44).take 4) }
  else
    .error (.internal ("sender keys header: wrong length (got " ++ toString bytes.length ++ ", want " ++
      toString headerBytes ++ ")"))

/-- All four counters are `u32`. -/
structure Fits (h : Header) : Prop where
  chainId : h.chainId ≤ u32Max
  n : h.n ≤ u32Max
  prevChainLength : h.prevChainLength ≤ u32Max
  sessionVersion : h.sessionVersion ≤ u32Max

theorem length_toBytes (h : Header) : h.toBytes.length = headerBytes := by
  simp only [toBytes, List.length_append, length_be32, h.physicalDeviceId.length_bytes]
  rfl

theorem fromBytes_toBytes {h : Header} (fits : h.Fits) : fromBytes h.toBytes = .ok h := by
  have device : PhysicalDeviceId.fromBytes h.physicalDeviceId.bytes h.physicalDeviceId.length_bytes =
      .ok h.physicalDeviceId := dif_pos h.physicalDeviceId.present
  have front : h.toBytes.take physicalDeviceIdBytes = h.physicalDeviceId.bytes :=
    List.take_left' h.physicalDeviceId.length_bytes
  have drop : ∀ k, h.toBytes.drop (32 + k) =
      (be32 h.chainId ++ (be32 h.n ++ (be32 h.prevChainLength ++ be32 h.sessionVersion))).drop k := by
    intro k
    have rest : h.toBytes.drop 32 = _ := List.drop_left' h.physicalDeviceId.length_bytes
    rw [← List.drop_drop, rest]
  have parts : (h.toBytes.drop 32).take 4 = be32 h.chainId ∧ (h.toBytes.drop 36).take 4 = be32 h.n ∧
      (h.toBytes.drop 40).take 4 = be32 h.prevChainLength ∧ (h.toBytes.drop 44).take 4 = be32 h.sessionVersion := by
    refine ⟨?_, ?_, ?_, ?_⟩
    · exact congrArg (List.take 4) (drop 0)
    · exact congrArg (List.take 4) (drop 4)
    · exact congrArg (List.take 4) (drop 8)
    · exact congrArg (List.take 4) (drop 12)
  unfold fromBytes
  rw [dif_pos h.length_toBytes]
  simp only [front, device, parts, ofBe32_be32 fits.chainId, ofBe32_be32 fits.n, ofBe32_be32 fits.prevChainLength,
    ofBe32_be32 fits.sessionVersion]
  rfl

end Header

/-- `LP(x)`. -/
def writeLp (bytes : Bytes) : Bytes := be32 bytes.length ++ bytes

structure SenderContext where
  senderIkX25519Pub : Bytes
  senderIkMlkemPub : Bytes
  groupId : Bytes
  sessionVersion : Nat
  version_le : sessionVersion ≤ u32Max

/-- `canonical_ad_sender_keys`, its last four arguments from the header. -/
def canonicalAdSenderKeys (ctx : SenderContext) (device : PhysicalDeviceId) (h : Header) : Bytes :=
  writeLp ctx.senderIkX25519Pub ++ writeLp ctx.senderIkMlkemPub ++ writeLp device.bytes ++ writeLp ctx.groupId ++
    writeLp (be32 h.chainId) ++ writeLp (be32 h.n) ++ writeLp (be32 h.prevChainLength) ++ writeLp (be32 h.sessionVersion)

structure EncryptedMessage where
  headerNonce : Bytes
  encHeader : Bytes
  messageNonce : Bytes
  ciphertext : Bytes

structure SkippedKey where
  chainId : Nat
  n : Nat
  headerKey : Bytes
  messageKey : Bytes
  insertedAt : Nat
  deriving DecidableEq

namespace SkippedKeyCache

/-- A clock that went back expires nothing. -/
def fresh (now : Nat) (k : SkippedKey) : Bool := now < k.insertedAt ∨ now - k.insertedAt < skippedKeyTtl

def sweepExpired (now : Nat) (keys : List SkippedKey) : List SkippedKey := keys.filter (fresh now)

def expired (now : Nat) (keys : List SkippedKey) : List SkippedKey := keys.filter fun k => !fresh now k

/-- The cache after the insertion, and what was evicted for it. -/
def insert (keys : List SkippedKey) (entry : SkippedKey) : List SkippedKey × List SkippedKey :=
  if maxSkippedPerChain ≤ keys.length then (keys.drop 1 ++ [entry], keys.take 1) else (keys ++ [entry], [])

def insertAll : List SkippedKey → List SkippedKey → List SkippedKey × List SkippedKey
  | keys, [] => (keys, [])
  | keys, entry :: rest =>
    let (keys, evicted) := insert keys entry
    let (keys, more) := insertAll keys rest
    (keys, evicted ++ more)

end SkippedKeyCache

section

variable (P : Primitives)

def deriveCk0 (root : Bytes) (chainId : Nat) : Bytes := derive32 P root (toLe 4 chainId) chainInitInfo

/-- `SenderChainKey::message_key`, `header_key` and `advance`. -/
def messageKey (ck : Bytes) : Bytes := derive32 P [] ck msgKeyInfo

@[inherit_doc messageKey]
def headerKey (ck : Bytes) : Bytes := derive32 P [] ck headerKeyInfo

@[inherit_doc messageKey]
def advance (ck : Bytes) : Bytes := derive32 P [] ck chainStepInfo

/-! ## Sending -/

structure SenderChain where
  physicalDeviceId : PhysicalDeviceId
  rotationRoot : Bytes
  chainId : Nat
  ck : Bytes
  n : Nat
  prevChainLength : Nat
  chainStartedAt : Nat
  lastKnownMembers : List Bytes
  lastSkdmEmitAt : Nat

structure MessageNonces where
  header : Bytes
  message : Bytes

namespace SenderChain

/-- `new_for_physical_device`; `root` is the random rotation root. -/
def new (device : PhysicalDeviceId) (root : Bytes) (now : Nat) : SenderChain :=
  ⟨device, root, 0, deriveCk0 P root 0, 0, 0, now, [], now⟩

def rotate (s : SenderChain) (root : Bytes) (now : Nat) : Result SenderChain :=
  if s.chainId = u32Max then .error (.internal "sender keys: chain_id overflow on rotate")
  else .ok {
    s with
    rotationRoot := root, chainId := s.chainId + 1, ck := deriveCk0 P root (s.chainId + 1), n := 0
    prevChainLength := s.n, chainStartedAt := now, lastKnownMembers := [], lastSkdmEmitAt := now }

def nextHeader (s : SenderChain) (ctx : SenderContext) : Header :=
  ⟨s.physicalDeviceId, s.chainId, s.n, s.prevChainLength, ctx.sessionVersion⟩

/-- A message under the keys of `ck`. -/
def sealWith (ctx : SenderContext) (ck : Bytes) (header : Header) (nonces : MessageNonces) (plaintext : Bytes) :
    EncryptedMessage :=
  let encHeader := aeadSeal P (headerKey P ck) nonces.header [] header.toBytes
  let fullAd := canonicalAdSenderKeys ctx header.physicalDeviceId header ++ encHeader
  ⟨nonces.header, encHeader, nonces.message, aeadSeal P (messageKey P ck) nonces.message fullAd plaintext⟩

/-- The chain key has moved on even if the counter cannot. -/
def encrypt (s : SenderChain) (plaintext : Bytes) (ctx : SenderContext) (nonces : MessageNonces) :
    SenderChain × Result EncryptedMessage :=
  if s.n = u32Max then ({ s with ck := advance P s.ck }, .error (.internal "sender keys: n overflow"))
  else
    ({ s with ck := advance P s.ck, n := s.n + 1 }, .ok (sealWith P ctx s.ck (s.nextHeader ctx) nonces plaintext))

end SenderChain

/-! ## Receiving -/

structure ReceiverChain where
  physicalDeviceId : PhysicalDeviceId
  chainId : Nat
  ck : Bytes
  n : Nat
  skipped : List SkippedKey

/-- What the forward search found: the keys and header of the slot, and the slots
before it. -/
structure Slot where
  header : Header
  ck : Bytes
  n : Nat
  skipped : List SkippedKey

/-- The outcome of `decrypt_at`; `dropped` are the keys that left the cache unused. -/
structure Decrypted where
  receiver : ReceiverChain
  dropped : List SkippedKey
  result : Result Bytes

/-- The header of a message, if `hk` opens it. -/
def openHeader (hk : Bytes) (msg : EncryptedMessage) : Option Header :=
  match aeadOpen P hk msg.headerNonce [] msg.encHeader with
  | .ok bytes => (Header.fromBytes bytes).toOption
  | .error _ => none

namespace ReceiverChain

def install (chainId : Nat) (root : Bytes) (device : PhysicalDeviceId) : ReceiverChain :=
  ⟨device, chainId, deriveCk0 P root chainId, 0, []⟩

def rotateTo (r : ReceiverChain) (chainId : Nat) (root : Bytes) : ReceiverChain :=
  { r with chainId, ck := deriveCk0 P root chainId, n := 0 }

/-- The checks both paths make of an opened header. -/
def checkHeader (r : ReceiverChain) (ctx : SenderContext) (header : Header) : Result Unit :=
  if header.sessionVersion ≠ ctx.sessionVersion then
    .error (.internal ("sender keys decrypt: session_version mismatch (header=" ++ toString header.sessionVersion ++
      ", expected=" ++ toString ctx.sessionVersion ++ ")"))
  else if header.physicalDeviceId ≠ r.physicalDeviceId then
    .error (.internal "sender keys decrypt: physical_device_id binding mismatch")
  else .ok ()

/-- The checks of the forward search at slot `n`. -/
def checkSlot (r : ReceiverChain) (ctx : SenderContext) (n : Nat) (header : Header) : Result Unit := do
  r.checkHeader ctx header
  if header.chainId ≠ r.chainId then
    .error (.internal ("sender keys decrypt: header chain_id " ++ toString header.chainId ++
      " disagrees with receiver chain " ++ toString r.chainId ++ " (HK collision or malformed header)"))
  else if header.n ≠ n then
    .error (.internal ("sender keys decrypt: header n " ++ toString header.n ++ " disagrees with tentative slot " ++
      toString n ++ " (malformed header)"))
  else .ok ()

/-- The key cached for a slot that is passed over. -/
def skippedKey (chainId : Nat) (ck : Bytes) (n now : Nat) : SkippedKey :=
  ⟨chainId, n, headerKey P ck, messageKey P ck, now⟩

/-- At most `fuel` slots from `n` on; `passed` are the slots before. -/
def search (r : ReceiverChain) (msg : EncryptedMessage) (ctx : SenderContext) (now : Nat) :
    Nat → Bytes → Nat → List SkippedKey → Result Slot
  | 0, _, _, _ =>
    .error (.internal ("sender keys decrypt: no matching slot within MAX_SKIPPED_PER_CHAIN (" ++
      toString maxSkippedPerChain ++ ") iterations (replay, oversized gap, unknown chain, or tampered header)"))
  | fuel + 1, ck, n, passed =>
    match openHeader P (headerKey P ck) msg with
    | some header => (r.checkSlot ctx n header).map fun _ => ⟨header, ck, n, passed⟩
    | none =>
      if n = u32Max then .error (.internal "sender keys: n overflow during forward search")
      else r.search msg ctx now fuel (advance P ck) (n + 1) (passed ++ [skippedKey P r.chainId ck n now])

/-- The message under an opened header. -/
def openBody (r : ReceiverChain) (msg : EncryptedMessage) (ctx : SenderContext) (mk : Bytes) (header : Header) :
    Result Bytes :=
  aeadOpen P mk msg.messageNonce (canonicalAdSenderKeys ctx r.physicalDeviceId header ++ msg.encHeader) msg.ciphertext

/-- The header `entry` opens, if it names `entry`'s own slot. -/
def matchEntry (msg : EncryptedMessage) (entry : SkippedKey) : Option Header :=
  (openHeader P entry.headerKey msg).filter fun header => header.chainId = entry.chainId ∧ header.n = entry.n

/-- The first entry that matches is used, and removed if the message opens. -/
def tryDecryptSkipped (r : ReceiverChain) (msg : EncryptedMessage) (ctx : SenderContext) :
    Result (Option (Bytes × List SkippedKey)) :=
  match r.skipped.find? fun entry => (matchEntry P msg entry).isSome with
  | none => .ok none
  | some entry =>
    match matchEntry P msg entry with
    | none => .ok none
    | some header => do
      r.checkHeader ctx header
      let plaintext ← r.openBody P msg ctx entry.messageKey header
      .ok (some (plaintext, r.skipped.eraseP fun entry => (matchEntry P msg entry).isSome))

def swept (r : ReceiverChain) (now : Nat) : ReceiverChain :=
  { r with skipped := SkippedKeyCache.sweepExpired now r.skipped }

/-- The forward search and what follows it; `expired` has left the cache already. -/
def decryptForward (r : ReceiverChain) (msg : EncryptedMessage) (ctx : SenderContext) (now : Nat) (expired : List SkippedKey) :
    Decrypted :=
  match r.search P msg ctx now (maxSkippedPerChain + 1) r.ck r.n [] with
  | .error e => ⟨r, expired, .error e⟩
  | .ok slot =>
    match r.openBody P msg ctx (messageKey P slot.ck) slot.header with
    | .error e => ⟨r, expired, .error e⟩
    | .ok plaintext =>
      if slot.n = u32Max then ⟨r, expired, .error (.internal "sender keys: n overflow on commit")⟩
      else
        let (skipped, evicted) := SkippedKeyCache.insertAll r.skipped slot.skipped
        ⟨{ r with ck := advance P slot.ck, n := slot.n + 1, skipped }, expired ++ evicted, .ok plaintext⟩

def decryptAt (r : ReceiverChain) (msg : EncryptedMessage) (ctx : SenderContext) (now : Nat) : Decrypted :=
  let expired := SkippedKeyCache.expired now r.skipped
  match (r.swept now).tryDecryptSkipped P msg ctx with
  | .error e => ⟨r.swept now, expired, .error e⟩
  | .ok (some (plaintext, skipped)) => ⟨{ r.swept now with skipped }, expired, .ok plaintext⟩
  | .ok none => (r.swept now).decryptForward P msg ctx now expired

end ReceiverChain

end

end Osl.SenderKeys
