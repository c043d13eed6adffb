import Osl.Base.Ideal
import Osl.Base.Slice

/-!
# The shipping crypto crate (`crates/crypto/src`)

The wrappers the v=3 envelope is built from: X25519 with its all-zero check,
AES-256-GCM, HKDF and the PQXDH handshake without one-time prekeys published.
The primitives themselves and base64 are third-party code and enter through
`Crypto`; `Crypto.Ideal` collects what the documentation of the envelope
assumes of them.
-/

namespace Osl.Wire

open Base

structure Crypto where
  gcm : Aead
  hkdf : Kdf
  x25519 : Dh
  mlkem : Kem
  sha256 : Bytes → Bytes
  base64 : Codec

def tagSize : Nat := 16
def nonceSize : Nat := 12
def keySize : Nat := 32
def encapsulationKeySize : Nat := 1184
def ciphertextSize : Nat := 1088

structure Crypto.Ideal (C : Crypto) : Prop where
  gcm : C.gcm.Ideal tagSize
  hkdf : C.hkdf.Ideal
  x25519 : C.x25519.Ideal
  mlkem : C.mlkem.Ideal encapsulationKeySize ciphertextSize
  sha256 : ∀ bytes, (C.sha256 bytes).length = 32
  base64 : C.base64.Ideal

def symbolicCrypto : Crypto where
  gcm := symbolicAead tagSize
  hkdf := symbolicKdf
  x25519 := symbolicDh
  mlkem := symbolicKem encapsulationKeySize ciphertextSize
  sha256 := tagged 32
  base64 := symbolicCodec

theorem symbolicCrypto_ideal : symbolicCrypto.Ideal where
  gcm := symbolicAead_ideal (by decide)
  hkdf := symbolicKdf_ideal
  x25519 := symbolicDh_ideal
  mlkem := symbolicKem_ideal (by decide) (by decide)
  sha256 := length_tagged (by decide)
  base64 := symbolicCodec_ideal

inductive CryptoError where
  | aeadFailure
  | internal (msg : String)
  deriving DecidableEq, Repr

/-- `#[error(..)]` of the crate's error type. -/
def CryptoError.display : CryptoError → String
  | .aeadFailure => "AEAD operation failed (wrong key, nonce, AD, or tampered ciphertext)"
  | .internal msg => "internal crypto error: " ++ msg

variable (C : Crypto)

def diffieHellman (secret peer : Bytes) : Except CryptoError Bytes :=
  let shared := C.x25519.shared secret peer
  if shared = List.replicate 32 0 then
    .error (.internal "X25519 produced all-zero shared secret (low-order peer point)")
  else .ok shared

/-- 32 bytes never exceed what HKDF can expand. -/
def derive32 (salt ikm info : Bytes) : Bytes := C.hkdf.derive salt ikm info 32

def gcmOpen (key nonce ad ciphertext : Bytes) : Except CryptoError Bytes :=
  if ciphertext.length < tagSize then .error .aeadFailure
  else
    match C.gcm.decrypt key nonce ad ciphertext with
    | some plaintext => .ok plaintext
    | none => .error .aeadFailure

/-! ## PQXDH -/

structure InitiatorHandshake where
  ekX25519Pub : Bytes
  mlkemCiphertext : Bytes
  noOpk : Bool
  opkId : Option Nat
  deriving DecidableEq

def pqxdhInfo : Bytes := label "discord-privacy-client/pqxdh/v1"

def deriveSk (dh1 dh2 dh3 : Bytes) (dh4 : Option Bytes) (ssPq : Bytes) : Bytes :=
  derive32 C [] (dh1 ++ dh2 ++ dh3 ++ dh4.getD [] ++ ssPq) pqxdhInfo

/-- The randomness of one handshake: the ephemeral secret and the encapsulation
seed. -/
structure HandshakeRng where
  ephemeral : Bytes
  encaps : Bytes

def initiate (rng : HandshakeRng) (senderIkSecret recipientIkPub recipientSpkPub : Bytes)
    (recipientOpk : Option (Nat × Bytes)) (recipientMlkemPub : Bytes) :
    Except CryptoError (Bytes × InitiatorHandshake) := do
  let dh1 ← diffieHellman C senderIkSecret recipientSpkPub
  let dh2 ← diffieHellman C rng.ephemeral recipientIkPub
  let dh3 ← diffieHellman C rng.ephemeral recipientSpkPub
  let dh4 ← match recipientOpk with
    | some (_, opkPub) => (diffieHellman C rng.ephemeral opkPub).map some
    | none => .ok none
  let (ct, ss) := C.mlkem.encap recipientMlkemPub rng.encaps
  .ok (deriveSk C dh1 dh2 dh3 dh4 ss,
    ⟨C.x25519.pub rng.ephemeral, ct, dh4.isNone, recipientOpk.map (·.1)⟩)

def respond (recipientIkSecret recipientSpkSecret : Bytes) (recipientOpkSecret : Option Bytes)
    (recipientMlkemSecret senderIkPub : Bytes) (handshake : InitiatorHandshake) :
    Except CryptoError Bytes := do
  if handshake.noOpk then
    if handshake.opkId.isSome ∨ recipientOpkSecret.isSome then
      .error (.internal
        "PQXDH respond: handshake.no_opk is true but opk_id or opk_secret was supplied")
  else if handshake.opkId.isNone ∨ recipientOpkSecret.isNone then
    .error (.internal "PQXDH respond: handshake.no_opk is false but opk_id or opk_secret is missing")
  let dh1 ← diffieHellman C recipientSpkSecret senderIkPub
  let dh2 ← diffieHellman C recipientIkSecret handshake.ekX25519Pub
  let dh3 ← diffieHellman C recipientSpkSecret handshake.ekX25519Pub
  let dh4 ← match recipientOpkSecret with
    | some opkSecret => (diffieHellman C opkSecret handshake.ekX25519Pub).map some
    | none => .ok none
  .ok (deriveSk C dh1 dh2 dh3 dh4 (C.mlkem.decap recipientMlkemSecret handshake.mlkemCiphertext))

end Osl.Wire
