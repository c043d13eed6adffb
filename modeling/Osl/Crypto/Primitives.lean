import Osl.Base.Fixed

/-!
# Primitives of `crates/crypto`

X25519, HKDF-SHA256 and XChaCha20-Poly1305 are third-party code and enter through
`Primitives`. HKDF is only asked for lengths it can give and sealing only refuses
messages no buffer holds, so both are total here.
-/

namespace Osl.Crypto

open Base

structure Primitives where
  hkdf : Kdf
  aead : Aead
  x25519 : Dh

def tagSize : Nat := 16

def nonceSize : Nat := 24

def u32Max : Nat := 2 ^ 32 - 1

structure Primitives.Ideal (P : Primitives) : Prop where
  hkdf : P.hkdf.Ideal
  aead : P.aead.Ideal tagSize
  x25519 : P.x25519.Ideal

def symbolicPrimitives : Primitives := ⟨symbolicKdf, symbolicAead tagSize, symbolicDh⟩

theorem symbolicPrimitives_ideal : symbolicPrimitives.Ideal where
  hkdf := symbolicKdf_ideal
  aead := symbolicAead_ideal (by decide)
  x25519 := symbolicDh_ideal

inductive Error where
  | aeadFailure
  | internal (msg : String)
  deriving DecidableEq

abbrev Result := Except Error

variable (P : Primitives)

/-- `hkdf::derive_32`. -/
def derive32 (salt ikm info : Bytes) : Bytes := P.hkdf.derive salt ikm info 32

/-- `aead::seal`. -/
def aeadSeal (key nonce ad plaintext : Bytes) : Bytes := P.aead.encrypt key nonce ad plaintext

/-- `aead::open`. -/
def aeadOpen (key nonce ad ciphertext : Bytes) : Result Bytes :=
  if ciphertext.length < tagSize then .error .aeadFailure
  else
    match P.aead.decrypt key nonce ad ciphertext with
    | some plaintext => .ok plaintext
    | none => .error .aeadFailure

/-- `x25519::diffie_hellman`, which refuses an all-zero secret. -/
def diffieHellman (secret peerPublic : Bytes) : Result Bytes :=
  if P.x25519.shared secret peerPublic = List.replicate 32 0 then
    .error (.internal "X25519 produced all-zero shared secret (low-order peer point)")
  else .ok (P.x25519.shared secret peerPublic)

/-- `u32::to_be_bytes`. -/
def be32 (n : Nat) : Bytes := (toLe 4 n).reverse

/-- `u32::from_be_bytes`. -/
def ofBe32 (bytes : Bytes) : Nat := ofLe bytes.reverse

variable {P} {bytes : Bytes} {n : Nat}

section
variable (ideal : P.Ideal)
include ideal

theorem derive32_inj {s i f s' i' f' : Bytes} (same : derive32 P s i f = derive32 P s' i' f') :
    s = s' ∧ i = i' ∧ f = f' := by
  have first : ∀ s i f, block 0 (derive32 P s i f) = derive32 P s i f := fun s i f =>
    List.take_of_length_le (ideal.hkdf.length s i f 32).le
  have blocks : block 0 (P.hkdf.derive s i f 32) = block 0 (P.hkdf.derive s' i' f' 32) :=
    (first s i f).trans (same.trans (first s' i' f').symm)
  obtain ⟨salt, ikm, info, _⟩ := ideal.hkdf.inj le_rfl le_rfl blocks
  exact ⟨salt, ikm, info⟩

theorem aeadOpen_ok_iff {key nonce ad ciphertext m : Bytes} :
    aeadOpen P key nonce ad ciphertext = .ok m ↔ ciphertext = aeadSeal P key nonce ad m := by
  rw [aeadSeal, ← ideal.aead.decrypt_iff]
  unfold aeadOpen
  split
  case isTrue short =>
    constructor
    · intro h
      cases h
    · intro h
      have long := ideal.aead.length key nonce ad m
      rw [← (ideal.aead.decrypt_iff ..).1 h] at long
      omega
  case isFalse => cases P.aead.decrypt key nonce ad ciphertext <;> simp

theorem aeadOpen_aeadSeal (key nonce ad m : Bytes) : aeadOpen P key nonce ad (aeadSeal P key nonce ad m) = .ok m :=
  (aeadOpen_ok_iff ideal).2 rfl

theorem aeadOpen_other_key {key key' : Bytes} (other : key' ≠ key) (nonce nonce' ad ad' m : Bytes) :
    ∃ e, aeadOpen P key' nonce' ad' (aeadSeal P key nonce ad m) = .error e := by
  cases opened : aeadOpen P key' nonce' ad' (aeadSeal P key nonce ad m) with
  | error e => exact ⟨e, rfl⟩
  | ok m' => exact absurd (ideal.aead.inj ((aeadOpen_ok_iff ideal).1 opened)).1.symm other

theorem diffieHellman_eq (secret peerPublic : Bytes) :
    diffieHellman P secret peerPublic = .ok (P.x25519.shared secret peerPublic) :=
  if_neg (ideal.x25519.nonzero secret peerPublic)

end

@[simp] theorem length_be32 : (be32 n).length = 4 := by
  rw [be32, List.length_reverse, length_toLe]

theorem ofBe32_be32 (fits : n ≤ u32Max) : ofBe32 (be32 n) = n := by
  have small : n < 256 ^ 4 := by
    unfold u32Max at fits
    omega
  rw [ofBe32, be32, List.reverse_reverse, ofLe_toLe small]

theorem be32_ofBe32 (size : bytes.length = 4) (small : ∀ b ∈ bytes, b < 256) : be32 (ofBe32 bytes) = bytes := by
  have back := @toLe_ofLe bytes.reverse fun b mem => small b (List.mem_reverse.1 mem)
  rw [List.length_reverse, size] at back
  rw [be32, ofBe32, back, List.reverse_reverse]

theorem ofBe32_le (size : bytes.length = 4) (small : ∀ b ∈ bytes, b < 256) : ofBe32 bytes ≤ u32Max := by
  have lt := @ofLe_lt bytes.reverse fun b mem => small b (List.mem_reverse.1 mem)
  rw [List.length_reverse, size] at lt
  unfold ofBe32 u32Max
  omega

end Osl.Crypto
