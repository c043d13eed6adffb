import Osl.Ratchet.Primitives

/-!
# The handshake (`crates/osl-ratchet-next/src/handshake.rs`)

PQXDH: up to four Diffie-Hellman legs and one ML-KEM encapsulation into one key,
from which the first root key, both header keys and epoch 0's secret are expanded.
-/

namespace Osl.Ratchet

open Base

structure PeerBundle where
  identity : Bytes
  signedPrekey : Bytes
  oneTimePrekey : Option (Nat × Bytes)
  pqPrekey : Bytes

structure LocalPrekeys where
  identity : Bytes
  signedPrekey : Bytes
  oneTimePrekeys : List (Nat × Bytes)
  pqPrekey : Bytes

def LocalPrekeys.opk (l : LocalPrekeys) (id : Nat) : Option Bytes :=
  (l.oneTimePrekeys.find? (·.1 = id)).map (·.2)

structure Preamble where
  initiatorIdentity : Bytes
  initiatorEphemeral : Bytes
  oneTimePrekeyId : Nat
  kemCiphertext : Bytes
  deriving DecidableEq

namespace Preamble

def encode (p : Preamble) : Bytes :=
  p.initiatorIdentity ++ p.initiatorEphemeral ++ Writer.varint p.oneTimePrekeyId ++ p.kemCiphertext

def decode : Reader Preamble := do
  let initiatorIdentity ← Reader.array x25519Pub
  let initiatorEphemeral ← Reader.array x25519Pub
  let oneTimePrekeyId ← Reader.varint
  let kemCiphertext ← Reader.array mlkemCt
  return ⟨initiatorIdentity, initiatorEphemeral, oneTimePrekeyId, kemCiphertext⟩

end Preamble

structure HandshakeOutput where
  root : Bytes
  initiatorHeaderKey : Bytes
  responderHeaderKey : Bytes
  pqEpoch0 : Bytes
  sessionId : Bytes

variable (P : Primitives)

def expand (sk : Bytes) : HandshakeOutput :=
  let hks := P.hkdf.derive [] sk labelHeaderInit 64
  { root := P.hkdf.derive [] sk labelHandshake 32
    initiatorHeaderKey := block 0 hks
    responderHeaderKey := block 1 hks
    pqEpoch0 := P.hkdf.derive [] sk labelPqEpoch0 32
    sessionId := P.hkdf.derive [] sk labelSessionId 16 }

def handshakeInfo (binding : Option Bytes) : Bytes := labelHandshake ++ binding.getD []

def handshakeKey (dh1 dh2 dh3 : Bytes) (dh4 : Option Bytes) (ss : Bytes) (binding : Option Bytes) : Bytes :=
  P.hkdf.derive [] (dh1 ++ dh2 ++ dh3 ++ dh4.getD [] ++ ss) (handshakeInfo binding) 32

namespace Handshake

/-- The output, the preamble for the first messages, and the peer's ratchet key. -/
def initiateBound (localIdentity : Bytes) (peer : PeerBundle) (binding : Option Bytes) (rng : Rng) :
    Result (HandshakeOutput × Preamble × Bytes) := do
  let dh1 ← dh P localIdentity peer.signedPrekey
  let dh2 ← dh P rng.x25519 peer.identity
  let dh3 ← dh P rng.x25519 peer.signedPrekey
  let dh4 ← match peer.oneTimePrekey with
    | some (_, opk) => (dh P rng.x25519 opk).map some
    | none => .ok none
  let (ct, ss) := P.mlkem.encap peer.pqPrekey rng.encaps
  let preamble : Preamble :=
    ⟨P.x25519.pub localIdentity, P.x25519.pub rng.x25519, (peer.oneTimePrekey.map (·.1)).getD 0, ct⟩
  .ok (expand P (handshakeKey P dh1 dh2 dh3 dh4 ss binding), preamble, peer.signedPrekey)

/-- A one-time prekey id of 0 means none. -/
def respondBound (l : LocalPrekeys) (preamble : Preamble) (binding : Option Bytes) :
    Result HandshakeOutput := do
  let dh1 ← dh P l.signedPrekey preamble.initiatorIdentity
  let dh2 ← dh P l.identity preamble.initiatorEphemeral
  let dh3 ← dh P l.signedPrekey preamble.initiatorEphemeral
  let dh4 ← if preamble.oneTimePrekeyId ≠ 0 then
      match l.opk preamble.oneTimePrekeyId with
      | none => .error (.malformed "unknown one-time prekey id")
      | some opk => (dh P opk preamble.initiatorEphemeral).map some
    else .ok none
  let ss := P.mlkem.decap l.pqPrekey preamble.kemCiphertext
  .ok (expand P (handshakeKey P dh1 dh2 dh3 dh4 ss binding))

end Handshake

end Osl.Ratchet
