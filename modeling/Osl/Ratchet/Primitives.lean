import Osl.Ratchet.Codec

/-!
# Primitives and key schedule (`crates/osl-ratchet-next/src/primitives.rs`, `kdf.rs`)

X25519, ML-KEM-768, HKDF, XChaCha20-Poly1305 and base64 are third-party code and
enter through `Primitives`. HKDF is only ever asked for at most 96 bytes and
sealing only refuses messages no buffer holds, so both are total here.
-/

namespace Osl.Ratchet

open Base

structure Primitives where
  hkdf : Kdf
  x25519 : Dh
  mlkem : Kem
  aead : Aead
  base64 : Codec

def x25519Pub : Nat := 32
def aeadKey : Nat := 32
def aeadNonce : Nat := 24
def aeadTag : Nat := 16
def headerNonceWire : Nat := 12
def mlkemEk : Nat := 1184
def mlkemCt : Nat := 1088

/-- Ideal AEAD, injective KDF, correct KEM and Diffie-Hellman. -/
structure Primitives.Ideal (P : Primitives) : Prop where
  hkdf : P.hkdf.Ideal
  x25519 : P.x25519.Ideal
  mlkem : P.mlkem.Ideal mlkemEk mlkemCt
  aead : P.aead.Ideal aeadTag
  base64 : P.base64.Ideal

def symbolicPrimitives : Primitives where
  hkdf := symbolicKdf
  x25519 := symbolicDh
  mlkem := symbolicKem mlkemEk mlkemCt
  aead := symbolicAead aeadTag
  base64 := symbolicCodec

theorem symbolicPrimitives_ideal : symbolicPrimitives.Ideal where
  hkdf := symbolicKdf_ideal
  x25519 := symbolicDh_ideal
  mlkem := symbolicKem_ideal (by decide) (by decide)
  aead := symbolicAead_ideal (by decide)
  base64 := symbolicCodec_ideal

/-- What one call may draw from its generator. A call that draws two X25519 key
pairs takes two of these. -/
structure Rng where
  x25519 : Bytes
  kemKey : Bytes
  encaps : Bytes
  nonce : Bytes
  nonce_length : nonce.length = headerNonceWire

variable (P : Primitives)

def dh (secret peer : Bytes) : Result Bytes :=
  let shared := P.x25519.shared secret peer
  if shared = List.replicate 32 0 then .error .degenerateDh else .ok shared

def aeadOpen (key nonce ad ciphertext : Bytes) : Result Bytes :=
  match P.aead.decrypt key nonce ad ciphertext with
  | some plaintext => .ok plaintext
  | none => .error .authFailed

/-! ## Key schedule -/

def labelHandshake : Bytes := label "OSL-RN/v1/pqxdh-root"
def labelRoot : Bytes := label "OSL-RN/v1/root"
def labelMk : Bytes := label "OSL-RN/v1/message-key"
def labelCk : Bytes := label "OSL-RN/v1/chain-key"
def labelBodyNonce : Bytes := label "OSL-RN/v1/body-nonce"
def labelHeaderInit : Bytes := label "OSL-RN/v1/header-key-init"
def labelSessionId : Bytes := label "OSL-RN/v1/session-id"
def labelPqEpoch0 : Bytes := label "OSL-RN/v1/pq-epoch-0"

def ikmMk : Bytes := label "mk"
def ikmCk : Bytes := label "ck"
def ikmNonce : Bytes := label "nonce"

def adHeader : Bytes := label "OSL-RN/v1/header"
def adBody : Bytes := label "OSL-RN/v1/body"

def headerNoncePrefix : Bytes := label "OSL-RN/hdr" ++ [0, 1]

/-- `u32::to_le_bytes`. -/
def le32 (n : Nat) : Bytes := [n % 256, n / 2 ^ 8 % 256, n / 2 ^ 16 % 256, n / 2 ^ 24 % 256]

structure RootStep where
  rootKey : Bytes
  chainKey : Bytes
  headerKey : Bytes

/-- What a root step folds into the root key. -/
structure RootArgs where
  dhOut : Bytes
  pqSecrets : List Bytes
  mixEpoch : Nat
  deriving DecidableEq, Inhabited

def rootStep (rootKey : Bytes) (args : RootArgs) : RootStep :=
  let okm := P.hkdf.derive rootKey (args.dhOut ++ args.pqSecrets.flatten) (labelRoot ++ le32 args.mixEpoch) 96
  ⟨block 0 okm, block 1 okm, block 2 okm⟩

/-- The message key and the next chain key. -/
def chainStep (chainKey : Bytes) : Bytes × Bytes :=
  (P.hkdf.derive chainKey ikmMk labelMk 32, P.hkdf.derive chainKey ikmCk labelCk 32)

def bodyNonce (messageKey : Bytes) : Bytes := P.hkdf.derive messageKey ikmNonce labelBodyNonce aeadNonce

def headerNonce (wire : Bytes) : Bytes := headerNoncePrefix ++ wire

variable {P}

theorem dh_ok (ideal : P.Ideal) (secret peer : Bytes) : dh P secret peer = .ok (P.x25519.shared secret peer) := by
  exact if_neg (ideal.x25519.nonzero secret peer)

theorem aeadOpen_eq_ok_iff (ideal : P.Ideal) {key nonce ad ciphertext m : Bytes} :
    aeadOpen P key nonce ad ciphertext = .ok m ↔ ciphertext = P.aead.encrypt key nonce ad m := by
  rw [← ideal.aead.decrypt_iff]
  unfold aeadOpen
  cases P.aead.decrypt key nonce ad ciphertext <;> simp

/-- A ciphertext opens under its own key, nonce and associated data. -/
theorem aeadOpen_encrypt (ideal : P.Ideal) (key nonce ad m : Bytes) :
    aeadOpen P key nonce ad (P.aead.encrypt key nonce ad m) = .ok m :=
  (aeadOpen_eq_ok_iff ideal).2 rfl

/-- ... and under no other key. -/
theorem aeadOpen_other_key (ideal : P.Ideal) {key key' : Bytes} (other : key' ≠ key) (nonce ad m : Bytes) :
    aeadOpen P key' nonce ad (P.aead.encrypt key nonce ad m) = .error .authFailed := by
  unfold aeadOpen
  cases h : P.aead.decrypt key' nonce ad (P.aead.encrypt key nonce ad m) with
  | none => rfl
  | some m' => exact absurd (ideal.aead.inj ((ideal.aead.decrypt_iff ..).1 h)).1.symm other

end Osl.Ratchet
