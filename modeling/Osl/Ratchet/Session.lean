import Osl.Ratchet.Handshake
import Osl.Ratchet.Pq
import Osl.Ratchet.Skipped

/-!
# The session (`crates/osl-ratchet-next/src/session.rs`)

The header-encrypted Double Ratchet with the hybrid root step. A wire is `DPC0::`
and the base64 of

```text
version=0x10 (1) | flags (1) | [preamble] | header_nonce (12) | header_ct (varint length) | body_ct
```

Decrypting works on a copy of the session that is committed once the body opens,
so a failed call returns no session at all. The calls that make root steps also
return what they folded into the root (`RootArgs`), which the code does not keep.
-/

namespace Osl.Ratchet

open Base

variable (P : Primitives)

/-! ## Wire format -/

def wireVersionRn : Nat := 0x10
def rnFlagBootstrap : Nat := 0x01
def rnFlagReservedMask : Nat := 0xfe
def wirePrefix : Bytes := label "DPC0::"
def maxWireBytes : Nat := 64 * 1024
def maxHeaderCtBytes : Nat := 1024

structure Opened where
  msgType : Nat
  plaintext : Bytes
  deriving DecidableEq

structure RatchetHeader where
  msgType : Nat
  dhPub : Bytes
  pn : Nat
  n : Nat
  pqHave : Nat
  mixEpoch : Nat
  fragment : Option Fragment
  deriving DecidableEq

namespace RatchetHeader

def encode (h : RatchetHeader) : Result Bytes := do
  let fragment ← match h.fragment with
    | some f => (f.encode).map (1 :: ·)
    | none => .ok [0]
  .ok (h.msgType :: (h.dhPub ++ Writer.varint h.pn ++ Writer.varint h.n ++ Writer.varint h.pqHave ++
    Writer.varint h.mixEpoch ++ fragment))

def decodeFragment : Reader (Option Fragment) := do
  let flag ← Reader.u8
  if flag = 0 then return none
  else if flag = 1 then
    let f ← Fragment.decode
    return some f
  else throw (.malformed "bad fragment flag")

def decode (bytes : Bytes) : Result RatchetHeader :=
  let read : Reader RatchetHeader := do
    let msgType ← Reader.u8
    let dhPub ← Reader.array x25519Pub
    let pn ← Reader.varint
    let n ← Reader.varint
    let pqHave ← Reader.varint
    let mixEpoch ← Reader.varint
    let fragment ← decodeFragment
    Reader.finish
    return ⟨msgType, dhPub, pn, n, pqHave, mixEpoch, fragment⟩
  (read bytes).map (·.1)

end RatchetHeader

/-- The regions of a wire: the bytes under the header's tag, those under the
body's, and the two ciphertexts. -/
structure ParsedWire where
  prefixBytes : Bytes
  preamble : Option Preamble
  headerNonce : Bytes
  headerCt : Bytes
  preBody : Bytes
  bodyCt : Bytes

/-- What of `raw` was read when `rest` is left. -/
def readPart (raw rest : Bytes) : Bytes := raw.take (raw.length - rest.length)

namespace ParsedWire

/-- What follows version, flags and preamble. -/
def readRest (raw : Bytes) (preamble : Option Preamble) : Reader ParsedWire := do
  let prefixBytes := readPart raw (← get)
  let headerNonce ← Reader.array headerNonceWire
  let headerCtLen ← Reader.varint
  if headerCtLen > maxHeaderCtBytes then throw (.policyBound "header ciphertext too large")
  let headerCt ← Reader.take headerCtLen
  let preBody := readPart raw (← get)
  let bodyCt ← Reader.take (← get).length
  if bodyCt.length < aeadTag then throw (.malformed "body shorter than an AEAD tag")
  Reader.finish
  return ⟨prefixBytes, preamble, headerNonce, headerCt, preBody, bodyCt⟩

def readPreamble (flags : Nat) : Reader (Option Preamble) :=
  if flags &&& rnFlagBootstrap ≠ 0 then do
    let preamble ← Preamble.decode
    return some preamble
  else return none

def parse (raw : Bytes) : Result ParsedWire :=
  match raw with
  | [] => .error (.malformed "empty blob")
  | version :: _ =>
    if version ≠ wireVersionRn then .error (.wrongVersion version wireVersionRn)
    else
      let read : Reader ParsedWire := do
        let _ ← Reader.u8
        let flags ← Reader.u8
        if flags &&& rnFlagReservedMask ≠ 0 then throw (.malformed "reserved OSL-RN flag bits set")
        let preamble ← readPreamble flags
        readRest raw preamble
      (read raw).map (·.1)

end ParsedWire

def decodeWire (wire : Bytes) : Result Bytes :=
  if !wirePrefix.isPrefixOf wire then .error .badPrefix
  else
    let body := wire.drop wirePrefix.length
    if body.length > maxWireBytes * 2 then .error (.policyBound "wire blob exceeds budget")
    else
      match P.base64.decode body with
      | .error _ => .error .base64
      | .ok raw =>
        if raw.length > maxWireBytes then .error (.policyBound "wire blob exceeds budget") else .ok raw

/-! ## The session -/

structure SessionParams where
  pq : PqParams
  skip : SkipParams
  deriving Inhabited

structure Session where
  role : Role
  sessionId : Bytes
  root : Bytes
  dhs : Bytes
  dhsPub : Bytes
  dhr : Option Bytes
  cks : Option Bytes
  hks : Option Bytes
  nhks : Bytes
  ckr : Option Bytes
  hkr : Option Bytes
  nhkr : Bytes
  ns : Nat
  nr : Nat
  pn : Nat
  sendMixEpoch : Nat
  pq : PqRatchet
  skipped : SkippedKeys
  bootstrap : Option Preamble

/-- Which candidate header key opened a message. -/
inductive Opener where
  | current
  | next
  | stored (hk : Bytes)

namespace Session

/-- The first root step makes the initiator's sending chain. -/
def initiateBound (localIdentity : Bytes) (peer : PeerBundle) (binding : Option Bytes) (params : SessionParams)
    (hsRng rng : Rng) : Result (Session × List RootArgs) := do
  let (hs, preamble, peerRatchet) ← Handshake.initiateBound P localIdentity peer binding hsRng
  let pq ← PqRatchet.new .initiator params.pq hs.pqEpoch0
  let skipped ← SkippedKeys.new params.skip
  let mix := pq.mixTarget
  let pqSecrets ← pq.peekMix mix
  let dhOut ← dh P rng.x25519 peerRatchet
  let args : RootArgs := ⟨dhOut, pqSecrets, mix⟩
  let step := rootStep P hs.root args
  .ok ({
    role := .initiator, sessionId := hs.sessionId, root := step.rootKey
    dhs := rng.x25519, dhsPub := P.x25519.pub rng.x25519, dhr := some peerRatchet
    cks := some step.chainKey, hks := some hs.initiatorHeaderKey, nhks := step.headerKey
    ckr := none, hkr := none, nhkr := hs.responderHeaderKey
    ns := 0, nr := 0, pn := 0, sendMixEpoch := mix
    pq := pq.commitMix mix, skipped, bootstrap := some preamble }, [args])

def fromHandshakeResponder (hs : HandshakeOutput) (signedPrekey : Bytes) (params : SessionParams) :
    Result Session := do
  let pq ← PqRatchet.new .responder params.pq hs.pqEpoch0
  let skipped ← SkippedKeys.new params.skip
  .ok {
    role := .responder, sessionId := hs.sessionId, root := hs.root
    dhs := signedPrekey, dhsPub := P.x25519.pub signedPrekey, dhr := none
    cks := none, hks := none, nhks := hs.responderHeaderKey
    ckr := none, hkr := none, nhkr := hs.initiatorHeaderKey
    ns := 0, nr := 0, pn := 0, sendMixEpoch := 0
    pq, skipped, bootstrap := none }

/-! ### Encrypting -/

/-- The header of the next message, and the epoch ratchet after it. -/
def nextHeader (s : Session) (msgType : Nat) (rng : Rng) : PqRatchet × RatchetHeader :=
  let (pq, fragment) := s.pq.onSend P rng
  (pq, ⟨msgType, s.dhsPub, s.pn, s.ns, pq.pqHave, s.sendMixEpoch, fragment⟩)

/-- Version, flags and, until the initiator has heard back, the preamble. -/
def wireHead (bootstrap : Option Preamble) : Bytes :=
  match bootstrap with
  | some preamble => wireVersionRn :: rnFlagBootstrap :: preamble.encode
  | none => [wireVersionRn, 0]

/-- On an error the epoch ratchet has still moved on, and with the last one the
sending chain as well. -/
def encrypt (s : Session) (msgType : Nat) (plaintext : Bytes) (rng : Rng) : Session × Result Bytes :=
  match s.cks with
  | none => (s, .error (.internal "no sending chain yet"))
  | some cks =>
  match s.hks with
  | none => (s, .error (.internal "no sending header key"))
  | some hks =>
  if s.ns = u32Max then (s, .error (.policyBound "sending counter exhausted"))
  else
    let (pq, header) := s.nextHeader P msgType rng
    let s := { s with pq }
    let (messageKey, nextCk) := chainStep P cks
    match header.encode with
    | .error e => (s, .error e)
    | .ok headerPt =>
    let head := wireHead s.bootstrap
    let headerCt := P.aead.encrypt hks (headerNonce rng.nonce) (adHeader ++ head) headerPt
    if headerCt.length > maxHeaderCtBytes then (s, .error (.policyBound "header too large"))
    else
      match Writer.varBytes headerCt with
      | .error e => (s, .error e)
      | .ok framedCt =>
      let preBody := head ++ rng.nonce ++ framedCt
      let raw := preBody ++ P.aead.encrypt messageKey (bodyNonce P messageKey) (adBody ++ preBody) plaintext
      let s := { s with cks := some nextCk, ns := satAdd 32 s.ns 1 }
      if raw.length > maxWireBytes then (s, .error (.policyBound "message exceeds wire budget"))
      else (s, .ok (wirePrefix ++ P.base64.encode raw))

/-! ### Decrypting -/

/-- The header keys to try, in order. -/
def candidates (s : Session) : List (Opener × Bytes) :=
  (s.hkr.map (Opener.current, ·)).toList ++ [(.next, s.nhkr)] ++
    (s.skipped.headerKeys.filter fun hk => some hk ≠ s.hkr).map fun hk => (.stored hk, hk)

/-- The first candidate that opens the header decides. -/
def openHeader (nonce ad headerCt : Bytes) : List (Opener × Bytes) → Result (Opener × RatchetHeader)
  | [] => .error .authFailed
  | (which, hk) :: rest =>
    match aeadOpen P hk nonce ad headerCt with
    | .ok headerPt => do
      let header ← RatchetHeader.decode headerPt
      .ok (which, header)
    | .error _ => openHeader nonce ad headerCt rest

/-- Store the next `gap` message keys of a chain; the store, the chain key and the
counter after them. -/
def skipKeys (hk : Bytes) : Nat → SkippedKeys → Bytes → Nat → SkippedKeys × Bytes × Nat
  | 0, skipped, ck, counter => (skipped, ck, counter)
  | gap + 1, skipped, ck, counter =>
    let (messageKey, next) := chainStep P ck
    skipKeys hk gap (skipped.insert hk counter messageKey) next (satAdd 32 counter 1)

def messageKeyInCurrentChain (s : Session) (hk : Bytes) (n : Nat) : Result (Session × Bytes) :=
  if n < s.nr then
    match s.skipped.take hk n with
    | some (messageKey, skipped) => .ok ({ s with skipped }, messageKey)
    | none => .error .authFailed
  else do
    s.skipped.checkSkip (n - s.nr)
    match s.ckr with
    | none => .error (.internal "no receiving chain")
    | some ck =>
      let (skipped, ck, counter) := skipKeys P hk (n - s.nr) s.skipped ck s.nr
      let (messageKey, next) := chainStep P ck
      .ok ({ s with skipped, ckr := some next, nr := satAdd 32 counter 1 }, messageKey)

/-- Store what is left of the chain being closed, up to its length `pn`. -/
def drainChain (s : Session) (pn : Nat) : SkippedKeys :=
  match s.ckr, s.hkr with
  | some ck, some hk => (skipKeys P hk (pn - s.nr) s.skipped ck s.nr).1
  | _, _ => s.skipped

/-- The peer's new chain first, then one of ours. -/
def dhRatchet (s : Session) (header : RatchetHeader) (rng : Rng) : Result (Session × List RootArgs) := do
  if s.ckr.isSome then s.skipped.checkSkip (header.pn - s.nr)
  s.skipped.checkSkip header.n
  let skipped := s.drainChain P header.pn
  let (taken, pq) ← s.pq.takeMix header.mixEpoch
  let dh1 ← dh P s.dhs header.dhPub
  let args1 : RootArgs := ⟨dh1, taken, header.mixEpoch⟩
  let s1 := rootStep P s.root args1
  let mix := pq.mixTarget
  let peeked ← pq.peekMix mix
  let dh2 ← dh P rng.x25519 header.dhPub
  let args2 : RootArgs := ⟨dh2, peeked, mix⟩
  let s2 := rootStep P s1.rootKey args2
  .ok ({ s with
    skipped, pq := pq.commitMix mix, root := s2.rootKey
    pn := s.ns, ns := 0, nr := 0
    hks := some s.nhks, hkr := some s.nhkr, dhr := some header.dhPub
    ckr := some s1.chainKey, nhkr := s1.headerKey
    dhs := rng.x25519, dhsPub := P.x25519.pub rng.x25519
    cks := some s2.chainKey, nhks := s2.headerKey, sendMixEpoch := mix }, [args1, args2])

/-- What an authenticated header says about the epochs. -/
def absorbPq (pq : PqRatchet) (header : RatchetHeader) (rng : Rng) : Result PqRatchet :=
  let pq := pq.onPeerHave header.pqHave
  match header.fragment with
  | some f => pq.onFragment P f rng
  | none => .ok pq

/-- Advance to the message key for `header`. -/
def advanceFor (s : Session) (which : Opener) (header : RatchetHeader) (rng : Rng) :
    Result (Session × Bytes × List RootArgs) := do
  let pq ← absorbPq P s.pq header rng
  let s := { s with pq }
  match which with
  | .stored hk =>
    match s.skipped.take hk header.n with
    | some (messageKey, skipped) => .ok ({ s with skipped }, messageKey, [])
    | none => .error .authFailed
  | .current =>
    match s.hkr with
    | none => .error (.internal "current chain without key")
    | some hk => do
      let (s, messageKey) ← s.messageKeyInCurrentChain P hk header.n
      .ok (s, messageKey, [])
  | .next => do
    let (s, args) ← s.dhRatchet P header rng
    match s.hkr with
    | none => .error (.internal "ratchet left no header key")
    | some hk => do
      let (s, messageKey) ← s.messageKeyInCurrentChain P hk header.n
      .ok (s, messageKey, args)

def openParsed (s : Session) (parsed : ParsedWire) (rng : Rng) : Result (Session × Opened × List RootArgs) := do
  let (which, header) ← openHeader P (headerNonce parsed.headerNonce) (adHeader ++ parsed.prefixBytes)
    parsed.headerCt s.candidates
  let (s, messageKey, args) ← s.advanceFor P which header rng
  let plaintext ← aeadOpen P messageKey (bodyNonce P messageKey) (adBody ++ parsed.preBody) parsed.bodyCt
  .ok ({ s with skipped := s.skipped.advanceTick, bootstrap := none }, ⟨header.msgType, plaintext⟩, args)

def decrypt (s : Session) (wire : Bytes) (rng : Rng) : Result (Session × Opened × List RootArgs) := do
  let raw ← decodeWire P wire
  let parsed ← ParsedWire.parse raw
  s.openParsed P parsed rng

/-- The responder's session for a bootstrap message, before opening it. -/
def forBootstrap (l : LocalPrekeys) (parsed : ParsedWire) (binding : Option Bytes) (params : SessionParams) :
    Result Session :=
  match parsed.preamble with
  | none => .error (.malformed "accept requires a bootstrap message")
  | some preamble => do
    let hs ← Handshake.respondBound P l preamble binding
    fromHandshakeResponder P hs l.signedPrekey params

def acceptBound (l : LocalPrekeys) (wire : Bytes) (binding : Option Bytes) (params : SessionParams) (rng : Rng) :
    Result (Session × Opened × List RootArgs) := do
  let raw ← decodeWire P wire
  let parsed ← ParsedWire.parse raw
  let s ← forBootstrap P l parsed binding params
  s.openParsed P parsed rng

end Session

end Osl.Ratchet
