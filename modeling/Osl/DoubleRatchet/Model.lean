import Osl.Crypto.Primitives

/-!
# The v=4 Double Ratchet (`crates/crypto/src/ratchet.rs`)

Double Ratchet with encrypted headers: a header that opens under `hkr` is of the
present receiving chain, one that opens under `nhkr` starts a new one. Time is in
nanoseconds. The random secret of a new key pair and the nonces of a message are
arguments.
-/

namespace Osl.DoubleRatchet

open Base Crypto

def sharedHkaInfo : Bytes := label "discord-privacy-client/ratchet/init-hka/v1"
def sharedNhkbInfo : Bytes := label "discord-privacy-client/ratchet/init-nhkb/v1"
def rootKdfHeInfo : Bytes := label "discord-privacy-client/ratchet/root-kdf-he/v1"
def chainAdvanceInfo : Bytes := label "discord-privacy-client/ratchet/chain-step/v1"
def messageKeyInfo : Bytes := label "discord-privacy-client/ratchet/msg-key/v1"
def pqxdhInfo : Bytes := label "discord-privacy-client/pqxdh/v1"

def maxSkippedPerChain : Nat := 1000

def skippedKeyTtl : Nat := 30 * 24 * 60 * 60 * 10 ^ 9

def headerBytes : Nat := 32 + 4 + 4 + 4

section

variable (P : Primitives)

/-- The field of `SessionKey` is private, and only `derive_sk` makes one. -/
structure SessionKey where
  bytes : Bytes
  derived : ∃ ikm, bytes = derive32 P [] ikm pqxdhInfo

/-- `derive_sk` with `pqxdh_combine_stub`. -/
def deriveSk (dh1 dh2 dh3 : Bytes) (dh4 : Option Bytes) (ssPq : Bytes) : SessionKey P :=
  ⟨derive32 P [] (dh1 ++ dh2 ++ dh3 ++ dh4.getD [] ++ ssPq) pqxdhInfo, _, rfl⟩

/-- `ChainKey::message_key` and `advance`. -/
def messageKey (ck : Bytes) : Bytes := derive32 P [] ck messageKeyInfo

@[inherit_doc messageKey]
def advance (ck : Bytes) : Bytes := derive32 P [] ck chainAdvanceInfo

structure RootStep where
  rootKey : Bytes
  chainKey : Bytes
  headerKey : Bytes

def kdfRkHe (rootKey dhOut : Bytes) : RootStep :=
  let bytes := P.hkdf.derive rootKey dhOut rootKdfHeInfo 96
  ⟨block 0 bytes, block 1 bytes, block 2 bytes⟩

end

structure Header where
  dhPub : Bytes
  prevChainLength : Nat
  counter : Nat
  sessionVersion : Nat

namespace Header

def toBytes (h : Header) : Bytes := h.dhPub ++ (be32 h.prevChainLength ++ (be32 h.counter ++ be32 h.sessionVersion))

def fromBytes (bytes : Bytes) : Result Header :=
  if bytes.length ≠ headerBytes then
    .error (.internal ("ratchet header: wrong length (got " ++ toString bytes.length ++ ", want " ++ toString headerBytes ++ ")"))
  else .ok {
    dhPub := bytes.take 32
    prevChainLength := ofBe32 ((bytes.drop 32).take 4)
    counter := ofBe32 ((bytes.drop 36).take 4)
    sessionVersion := ofBe32 ((bytes.drop 40).take 4) }

theorem fromBytes_toBytes {h : Header} (key : h.dhPub.length = 32) (prev : h.prevChainLength ≤ u32Max)
    (counter : h.counter ≤ u32Max) (version : h.sessionVersion ≤ u32Max) : fromBytes h.toBytes = .ok h := by
  have drop : ∀ k, h.toBytes.drop (32 + k) = (be32 h.prevChainLength ++ (be32 h.counter ++ be32 h.sessionVersion)).drop k := by
    intro k
    have rest : h.toBytes.drop 32 = _ := List.drop_left' key
    rw [← List.drop_drop, rest]
  have sized : ¬h.toBytes.length ≠ headerBytes := by
    simp only [toBytes, List.length_append, length_be32, key]
    decide
  have parts : h.toBytes.take 32 = h.dhPub ∧ (h.toBytes.drop 32).take 4 = be32 h.prevChainLength ∧
      (h.toBytes.drop 36).take 4 = be32 h.counter ∧ (h.toBytes.drop 40).take 4 = be32 h.sessionVersion :=
    ⟨List.take_left' key, congrArg (List.take 4) (drop 0), congrArg (List.take 4) (drop 4), congrArg (List.take 4) (drop 8)⟩
  unfold fromBytes
  rw [if_neg sized]
  simp only [parts, ofBe32_be32 prev, ofBe32_be32 counter, ofBe32_be32 version]

end Header

structure SessionContext where
  localIkX25519Pub : Bytes
  localIkMlkemPub : Bytes
  peerIkX25519Pub : Bytes
  peerIkMlkemPub : Bytes
  conversationId : Bytes
  sessionVersion : Nat

/-- `LP(x)`. -/
def writeLp (bytes : Bytes) : Bytes := be32 bytes.length ++ bytes

def canonicalAd (senderIkX25519 senderIkMlkem recipientIkX25519 recipientIkMlkem conversationId : Bytes)
    (messageOrdinal prevChainLength sessionVersion : Nat) : Bytes :=
  writeLp senderIkX25519 ++ writeLp senderIkMlkem ++ writeLp recipientIkX25519 ++ writeLp recipientIkMlkem ++
    writeLp conversationId ++ writeLp (be32 messageOrdinal) ++ writeLp (be32 prevChainLength) ++ writeLp (be32 sessionVersion)

def renderOutboundAd (ctx : SessionContext) (h : Header) : Bytes :=
  canonicalAd ctx.localIkX25519Pub ctx.localIkMlkemPub ctx.peerIkX25519Pub ctx.peerIkMlkemPub ctx.conversationId h.counter
    h.prevChainLength h.sessionVersion

def renderInboundAd (ctx : SessionContext) (h : Header) : Bytes :=
  canonicalAd ctx.peerIkX25519Pub ctx.peerIkMlkemPub ctx.localIkX25519Pub ctx.localIkMlkemPub ctx.conversationId h.counter
    h.prevChainLength h.sessionVersion

structure EncryptedMessage where
  headerNonce : Bytes
  encHeader : Bytes
  messageNonce : Bytes
  ciphertext : Bytes

structure SkippedKey where
  hk : Bytes
  counter : Nat
  messageKey : Bytes
  insertedAt : Nat

namespace SkippedKeyCache

/-- A clock that went back expires nothing. -/
def sweepExpired (now : Nat) (keys : List SkippedKey) : List SkippedKey :=
  keys.filter fun k => now < k.insertedAt ∨ now - k.insertedAt < skippedKeyTtl

def insert (keys : List SkippedKey) (entry : SkippedKey) : List SkippedKey :=
  (if maxSkippedPerChain ≤ keys.length then keys.drop 1 else keys) ++ [entry]

end SkippedKeyCache

end Osl.DoubleRatchet

namespace Osl

open Base Crypto DoubleRatchet

structure DoubleRatchet where
  rootKey : Bytes
  dhsSecret : Bytes
  dhsPub : Bytes
  dhr : Option Bytes
  sendingChain : Option Bytes
  sendingCounter : Nat
  receivingChain : Option Bytes
  receivingCounter : Nat
  prevSendingCount : Nat
  hks : Option Bytes
  hkr : Option Bytes
  nhks : Bytes
  nhkr : Bytes
  skipped : List SkippedKey
  ctx : SessionContext

namespace DoubleRatchet

variable (P : Primitives)

/-- `secret` is the generated one. -/
def newInitiator (sk : SessionKey P) (peerInitialRatchetPub : Bytes) (ctx : SessionContext) (secret : Bytes) :
    Result DoubleRatchet := do
  let dh ← diffieHellman P secret peerInitialRatchetPub
  let step := kdfRkHe P sk.bytes dh
  .ok {
    rootKey := step.rootKey, dhsSecret := secret, dhsPub := P.x25519.pub secret, dhr := some peerInitialRatchetPub
    sendingChain := some step.chainKey, sendingCounter := 0, receivingChain := none, receivingCounter := 0
    prevSendingCount := 0, hks := some (derive32 P [] sk.bytes sharedHkaInfo), hkr := none, nhks := step.headerKey
    nhkr := derive32 P [] sk.bytes sharedNhkbInfo, skipped := [], ctx }

def newResponder (sk : SessionKey P) (initialRatchetSecret : Bytes) (ctx : SessionContext) : DoubleRatchet where
  rootKey := sk.bytes
  dhsSecret := initialRatchetSecret
  dhsPub := P.x25519.pub initialRatchetSecret
  dhr := none
  sendingChain := none
  sendingCounter := 0
  receivingChain := none
  receivingCounter := 0
  prevSendingCount := 0
  hks := none
  hkr := none
  nhks := derive32 P [] sk.bytes sharedNhkbInfo
  nhkr := derive32 P [] sk.bytes sharedHkaInfo
  skipped := []
  ctx := ctx

/-! ## Sending -/

structure MessageNonces where
  header : Bytes
  message : Bytes

def nextHeader (s : DoubleRatchet) : Header := ⟨s.dhsPub, s.prevSendingCount, s.sendingCounter, s.ctx.sessionVersion⟩

/-- A message under header key `hk` and the message key of `ck`. -/
def sealWith (ctx : SessionContext) (hk ck : Bytes) (header : Header) (nonces : MessageNonces) (plaintext : Bytes) :
    EncryptedMessage :=
  let encHeader := aeadSeal P hk nonces.header [] header.toBytes
  ⟨nonces.header, encHeader, nonces.message,
    aeadSeal P (messageKey P ck) nonces.message (renderOutboundAd ctx header ++ encHeader) plaintext⟩

/-- The chain key has moved on even if the counter cannot. -/
def encrypt (s : DoubleRatchet) (plaintext : Bytes) (nonces : MessageNonces) : DoubleRatchet × Result EncryptedMessage :=
  match s.sendingChain with
  | none =>
    (s, .error (.internal
      "ratchet encrypt: no sending chain (responder must receive at least one message before sending)"))
  | some cks =>
    match s.hks with
    | none =>
      (s, .error (.internal
        "ratchet encrypt: no sending header key (responder must receive at least one message before sending)"))
    | some hks =>
      if s.sendingCounter = u32Max then
        ({ s with sendingChain := some (advance P cks) }, .error (.internal "ratchet: sending counter overflow"))
      else
        ({ s with sendingChain := some (advance P cks), sendingCounter := s.sendingCounter + 1 },
          .ok (sealWith P s.ctx hks cks s.nextHeader nonces plaintext))

/-! ## Receiving -/

/-- The header of a message, if `hk` opens it. -/
def openHeader (hk : Bytes) (msg : EncryptedMessage) : Option Header :=
  match aeadOpen P hk msg.headerNonce [] msg.encHeader with
  | .ok bytes => (Header.fromBytes bytes).toOption
  | .error _ => none

/-- The message under an opened header. -/
def openBody (s : DoubleRatchet) (msg : EncryptedMessage) (mk : Bytes) (header : Header) : Result Bytes :=
  aeadOpen P mk msg.messageNonce (renderInboundAd s.ctx header ++ msg.encHeader) msg.ciphertext

def checkVersion (s : DoubleRatchet) (header : Header) : Result Unit :=
  if header.sessionVersion ≠ s.ctx.sessionVersion then
    .error (.internal ("ratchet decrypt: session_version mismatch (header=" ++ toString header.sessionVersion ++
      ", expected=" ++ toString s.ctx.sessionVersion ++ ")"))
  else .ok ()

/-- The header `entry` opens, if it names `entry`'s own slot. -/
def matchEntry (msg : EncryptedMessage) (entry : SkippedKey) : Option Header :=
  (openHeader P entry.hk msg).filter fun header => header.counter = entry.counter

/-- The first entry that matches is used, and removed if the message opens. -/
def tryDecryptSkipped (s : DoubleRatchet) (msg : EncryptedMessage) : Result (Option (Bytes × List SkippedKey)) :=
  match s.skipped.findIdx? fun entry => (matchEntry P msg entry).isSome with
  | none => .ok none
  | some idx =>
    match s.skipped[idx]? with
    | none => .ok none
    | some entry =>
      match matchEntry P msg entry with
      | none => .ok none
      | some header => do
        s.checkVersion header
        let plaintext ← s.openBody P msg entry.messageKey header
        .ok (some (plaintext, s.skipped.eraseIdx idx))

/-- A receiving chain part of the way: the keys left behind, the chain key and the counter. -/
structure Tentative where
  skipped : List SkippedKey
  chain : Bytes
  counter : Nat

/-- Passes over `gap` slots, cached under `hk`. -/
def skipKeys (hk : Bytes) (now : Nat) : Nat → Tentative → Result Tentative
  | 0, t => .ok t
  | gap + 1, t =>
    if t.counter = u32Max then .error (.internal "ratchet: receiving counter overflow")
    else skipKeys hk now gap
      ⟨t.skipped ++ [⟨hk, t.counter, messageKey P t.chain, now⟩], advance P t.chain, t.counter + 1⟩

def decryptSameChain (s : DoubleRatchet) (msg : EncryptedMessage) (header : Header) (now : Nat) :
    DoubleRatchet × Result Bytes :=
  if header.counter < s.receivingCounter then
    (s, .error (.internal ("ratchet decrypt: counter " ++ toString header.counter ++ " < receiving_counter " ++
      toString s.receivingCounter ++ " (replay or evicted/expired skipped key)")))
  else if maxSkippedPerChain < header.counter - s.receivingCounter then
    (s, .error (.internal ("ratchet decrypt: gap of " ++ toString (header.counter - s.receivingCounter) ++
      " skipped messages exceeds cap " ++ toString maxSkippedPerChain)))
  else
    match s.receivingChain, s.hkr with
    | none, _ => (s, .error (.internal "ratchet decrypt: same-chain path with no receiving chain (impossible)"))
    | some _, none => (s, .error (.internal "ratchet decrypt: same-chain path with no HKr (impossible)"))
    | some chain, some hkr =>
      match skipKeys P hkr now (header.counter - s.receivingCounter) ⟨[], chain, s.receivingCounter⟩ with
      | .error e => (s, .error e)
      | .ok t =>
        match s.openBody P msg (messageKey P t.chain) header with
        | .error e => (s, .error e)
        | .ok plaintext =>
          if t.counter = u32Max then (s, .error (.internal "ratchet: receiving counter overflow"))
          else
            ({ s with
                receivingChain := some (advance P t.chain)
                receivingCounter := t.counter + 1
                skipped := t.skipped.foldl SkippedKeyCache.insert s.skipped },
              .ok plaintext)

/-- The keys left on the old receiving chain. -/
def drainChain (s : DoubleRatchet) (header : Header) (now : Nat) : Result (List SkippedKey) :=
  match s.receivingChain, s.hkr with
  | some chain, some hkr =>
    (skipKeys P hkr now (header.prevChainLength - s.receivingCounter) ⟨[], chain, s.receivingCounter⟩).map Tentative.skipped
  | _, _ => .ok []

/-- The two root steps to the peer's new key. -/
def rootSteps (s : DoubleRatchet) (header : Header) (secret : Bytes) : Result (RootStep × RootStep) := do
  let dh1 ← diffieHellman P s.dhsSecret header.dhPub
  let step1 := kdfRkHe P s.rootKey dh1
  let dh2 ← diffieHellman P secret header.dhPub
  .ok (step1, kdfRkHe P step1.rootKey dh2)

def decryptDhStep (s : DoubleRatchet) (msg : EncryptedMessage) (header : Header) (now : Nat) (secret : Bytes) :
    DoubleRatchet × Result Bytes :=
  if s.receivingChain.isSome ∧ maxSkippedPerChain < header.prevChainLength - s.receivingCounter then
    (s, .error (.internal ("ratchet decrypt: would skip " ++ toString (header.prevChainLength - s.receivingCounter) ++
      " keys on previous chain (cap " ++ toString maxSkippedPerChain ++ ")")))
  else if maxSkippedPerChain < header.counter then
    (s, .error (.internal ("ratchet decrypt: would skip " ++ toString header.counter ++ " keys on new chain (cap " ++
      toString maxSkippedPerChain ++ ")")))
  else
    match s.drainChain P header now with
    | .error e => (s, .error e)
    | .ok old =>
      match s.rootSteps P header secret with
      | .error e => (s, .error e)
      | .ok (step1, step2) =>
        -- The new `hkr` is the old `nhkr`.
        match skipKeys P s.nhkr now header.counter ⟨old, step1.chainKey, 0⟩ with
        | .error e => (s, .error e)
        | .ok t =>
          match s.openBody P msg (messageKey P t.chain) header with
          | .error e => (s, .error e)
          | .ok plaintext =>
            if t.counter = u32Max then (s, .error (.internal "ratchet: receiving counter overflow"))
            else
              ({ s with
                  prevSendingCount := s.sendingCounter
                  sendingCounter := 0
                  receivingCounter := t.counter + 1
                  dhr := some header.dhPub
                  rootKey := step2.rootKey
                  dhsSecret := secret
                  dhsPub := P.x25519.pub secret
                  sendingChain := some step2.chainKey
                  receivingChain := some (advance P t.chain)
                  hks := some s.nhks
                  hkr := some s.nhkr
                  nhks := step2.headerKey
                  nhkr := step1.headerKey
                  skipped := t.skipped.foldl SkippedKeyCache.insert s.skipped },
                .ok plaintext)

/-- Which key opens the header: `HKr`, or else `NHKr`, which says a step is due. -/
def findHeader (s : DoubleRatchet) (msg : EncryptedMessage) : Result (Header × Bool) :=
  match s.hkr.bind fun hkr => openHeader P hkr msg with
  | some header => .ok (header, false)
  | none =>
    match aeadOpen P s.nhkr msg.headerNonce [] msg.encHeader with
    | .error _ =>
      .error (.internal "ratchet decrypt: header AEAD failed (neither HKr nor NHKr could open the wire header)")
    | .ok bytes => (Header.fromBytes bytes).map fun header => (header, true)

def swept (s : DoubleRatchet) (now : Nat) : DoubleRatchet :=
  { s with skipped := SkippedKeyCache.sweepExpired now s.skipped }

/-- What `decrypt_at` does after the sweep and the cache. -/
def decryptFresh (s : DoubleRatchet) (msg : EncryptedMessage) (now : Nat) (secret : Bytes) : DoubleRatchet × Result Bytes :=
  match s.findHeader P msg with
  | .error e => (s, .error e)
  | .ok (header, isDhStep) =>
    match s.checkVersion header with
    | .error e => (s, .error e)
    | .ok () => if isDhStep then s.decryptDhStep P msg header now secret else s.decryptSameChain P msg header now

/-- `secret` is the one generated if a step is due. -/
def decryptAt (s : DoubleRatchet) (msg : EncryptedMessage) (now : Nat) (secret : Bytes) : DoubleRatchet × Result Bytes :=
  match (s.swept now).tryDecryptSkipped P msg with
  | .error e => (s.swept now, .error e)
  | .ok (some (plaintext, skipped)) => ({ s.swept now with skipped }, .ok plaintext)
  | .ok none => (s.swept now).decryptFresh P msg now secret

end DoubleRatchet

end Osl
