import Mathlib.Logic.Equiv.List
import Mathlib.Data.List.Sort

/-!
# Ideal cryptography over symbolic bytes

Interfaces for an AEAD, a key-derivation function, a Diffie-Hellman group, a KEM
and a text encoding, each with the laws of its ideal version, and a model of
those laws.

The ideal laws ask more than 256 byte values can give: a tag of fixed length
cannot determine key, nonce and message. A symbol of a byte string is therefore
any natural number. Lengths are exact; only the alphabet is larger.
-/

namespace Base

abbrev Bytes := List Nat

/-- The bytes of an ASCII constant. -/
def label (s : String) : Bytes := s.toList.map (·.toNat)

/-! ## Interfaces and laws -/

/-- Arguments are key, nonce, associated data and text. -/
structure Aead where
  encrypt : Bytes → Bytes → Bytes → Bytes → Bytes
  decrypt : Bytes → Bytes → Bytes → Bytes → Option Bytes

/-- Only what was sealed opens, and a ciphertext determines how it was sealed. -/
structure Aead.Ideal (A : Aead) (tag : Nat) : Prop where
  decrypt_iff : ∀ k n ad c m, A.decrypt k n ad c = some m ↔ c = A.encrypt k n ad m
  length : ∀ k n ad m, (A.encrypt k n ad m).length = m.length + tag
  inj : ∀ {k n ad m k' n' ad' m'}, A.encrypt k n ad m = A.encrypt k' n' ad' m' →
    k = k' ∧ n = n' ∧ ad = ad' ∧ m = m'

/-- An all-zero block was sealed by nobody. -/
def Aead.ZeroFree (A : Aead) : Prop := ∀ k n ad m j, ad ≠ [] → A.encrypt k n ad m ≠ List.replicate j 0

/-- Arguments are salt, input key material, info and output length. -/
structure Kdf where
  derive : Bytes → Bytes → Bytes → Nat → Bytes

/-- The `j`-th 32-byte block. -/
def block (j : Nat) (bytes : Bytes) : Bytes := (bytes.drop (32 * j)).take 32

/-- No two derivations share a 32-byte output block. -/
structure Kdf.Ideal (K : Kdf) : Prop where
  length : ∀ s i f n, (K.derive s i f n).length = n
  inj : ∀ {s i f n j s' i' f' n' j'}, 32 * (j + 1) ≤ n → 32 * (j' + 1) ≤ n' →
    block j (K.derive s i f n) = block j' (K.derive s' i' f' n') → s = s' ∧ i = i' ∧ f = f' ∧ j = j'

structure Dh where
  pub : Bytes → Bytes
  shared : Bytes → Bytes → Bytes

/-- A shared secret determines the unordered pair of public points. -/
structure Dh.Ideal (D : Dh) : Prop where
  comm : ∀ a b, D.shared a (D.pub b) = D.shared b (D.pub a)
  pub_length : ∀ a, (D.pub a).length = 32
  shared_length : ∀ a p, (D.shared a p).length = 32
  nonzero : ∀ a p, D.shared a p ≠ List.replicate 32 0
  inj : ∀ {a p b q}, D.shared a p = D.shared b q →
    (D.pub a = D.pub b ∧ p = q) ∨ (D.pub a = q ∧ p = D.pub b)

/-- `encap` gives the ciphertext and the secret. -/
structure Kem where
  pub : Bytes → Bytes
  encap : Bytes → Bytes → Bytes × Bytes
  decap : Bytes → Bytes → Bytes

/-- Decapsulation gives an encapsulated secret only for its own ciphertext and key. -/
structure Kem.Ideal (K : Kem) (ekLength ctLength : Nat) : Prop where
  pub_length : ∀ dk, (K.pub dk).length = ekLength
  ct_length : ∀ ek r, (K.encap ek r).1.length = ctLength
  secret_length : ∀ ek r, (K.encap ek r).2.length = 32
  decap_length : ∀ dk ct, (K.decap dk ct).length = 32
  correct : ∀ dk r, K.decap dk (K.encap (K.pub dk) r).1 = (K.encap (K.pub dk) r).2
  separate : ∀ {dk ct ek r}, K.decap dk ct = (K.encap ek r).2 → ek = K.pub dk ∧ ct = (K.encap ek r).1
  inj : ∀ {ek r ek' r'}, (K.encap ek r).2 = (K.encap ek' r').2 → ek = ek' ∧ r = r'

/-- A binary-to-text encoding; decoding may fail with a message. -/
structure Codec where
  encode : Bytes → Bytes
  decode : Bytes → Except String Bytes

/-- Padded base64: four characters for each three bytes begun. -/
structure Codec.Ideal (C : Codec) : Prop where
  decode_encode : ∀ bytes, C.decode (C.encode bytes) = .ok bytes
  length : ∀ bytes, (C.encode bytes).length = 4 * ((bytes.length + 2) / 3)

/-- Only encodings decode: no spare bits, no other padding. -/
def Codec.Strict (C : Codec) : Prop := ∀ text bytes, C.decode text = .ok bytes → text = C.encode bytes

/-! ## A model of the laws -/

open Encodable

/-- `size` symbols, the first of which names `x`. -/
def tagged {α : Type} [Encodable α] (size : Nat) (x : α) : Bytes := encode x :: List.replicate (size - 1) 0

variable {α : Type} {size tag : Nat} {C : Codec}

theorem tagged_inj [Encodable α] {x y : α} (h : tagged size x = tagged size y) : x = y :=
  encode_injective (List.cons.inj h).1

theorem length_tagged [Encodable α] (pos : 0 < size) (x : α) : (tagged size x).length = size := by
  simp [tagged]
  omega

def symbolicAead (tag : Nat) : Aead where
  encrypt k n ad m := tagged tag (k, n, ad, m) ++ m
  decrypt k n ad c :=
    if c = tagged tag (k, n, ad, c.drop tag) ++ c.drop tag then some (c.drop tag) else none

theorem symbolicAead_ideal (pos : 0 < tag) : (symbolicAead tag).Ideal tag where
  decrypt_iff k n ad c m := by
    have drop : ∀ m, (tagged tag (k, n, ad, m) ++ m).drop tag = m := by
      intro m
      rw [List.drop_append_of_le_length (by rw [length_tagged pos]), List.drop_eq_nil_of_le]
      · rfl
      · rw [length_tagged pos]
    simp only [symbolicAead]
    constructor
    · split
      · rename_i whole
        rintro ⟨⟩
        exact whole
      · rintro ⟨⟩
    · rintro rfl
      rw [drop, if_pos rfl]
  length k n ad m := by
    simp only [symbolicAead, List.length_append, length_tagged pos]
    omega
  inj {k n ad m k' n' ad' m'} h := by
    have heads := (List.cons.inj h).1
    have eq : (k, n, ad, m) = (k', n', ad', m') := encode_injective heads
    simpa using eq

theorem symbolicAead_zeroFree : (symbolicAead tag).ZeroFree := by
  intro k n ad m j nonempty same
  have head : encode (k, n, ad, m) ∈ List.replicate j 0 := by
    rw [← same]
    exact List.mem_cons_self
  have zero := List.eq_of_mem_replicate head
  rw [encode_prod_val, encode_prod_val, encode_prod_val] at zero
  have inner := Nat.right_le_pair (encode k) (Nat.pair (encode n)
    (Nat.pair (encode ad) (encode m)))
  have inner' := Nat.right_le_pair (encode n) (Nat.pair (encode ad) (encode m))
  have inner'' := Nat.left_le_pair (encode ad) (encode m)
  have code : encode ad = 0 := by omega
  cases ad with
  | nil => exact nonempty rfl
  | cons x ad => rw [encode_list_cons] at code; cases code

def symbolicKdf : Kdf where
  derive s i f n := (List.range n).map fun p => if p % 32 = 0 then encode (s, i, f, p / 32) else 0

theorem symbolicKdf_ideal : symbolicKdf.Ideal where
  length s i f n := by simp [symbolicKdf]
  inj {s i f n j s' i' f' n' j'} fits fits' h := by
    have first : ∀ {s i f n j}, 32 * (j + 1) ≤ n →
        (block j (symbolicKdf.derive s i f n))[0]? = some (encode (s, i, f, j)) := by
      intro s i f n j fits
      have lt : 32 * j < n := by omega
      simp [block, symbolicKdf, lt]
    have heads := (first fits).symm.trans ((congrArg (·[0]?) h).trans (first fits'))
    have eq := encode_injective (Option.some.inj heads)
    simpa using eq

def symbolicDh : Dh where
  pub a := tagged 32 a
  shared a p :=
    let x := encode (tagged 32 a)
    let y := encode p
    (encode (min x y, max x y) + 1) :: List.replicate 31 0

theorem symbolicDh_ideal : symbolicDh.Ideal where
  comm a b := by simp only [symbolicDh, min_comm, max_comm]
  pub_length a := length_tagged (by decide) a
  shared_length a p := by simp [symbolicDh]
  nonzero a p := by simp [symbolicDh, List.replicate_succ]
  inj {a p b q} h := by
    have pair := encode_injective (Nat.succ.inj (List.cons.inj h).1)
    obtain ⟨lo, hi⟩ := Prod.mk.inj pair
    have cases : (encode (tagged 32 a) = encode (tagged 32 b) ∧
        encode p = encode q) ∨
        (encode (tagged 32 a) = encode q ∧
          encode p = encode (tagged 32 b)) := by
      omega
    rcases cases with ⟨left, right⟩ | ⟨left, right⟩
    · exact .inl ⟨encode_injective left, encode_injective right⟩
    · exact .inr ⟨encode_injective left, encode_injective right⟩

/-- Secrets of honest encapsulations are odd, those of implicit rejection even. -/
def symbolicKem (ekLength ctLength : Nat) : Kem where
  pub dk := tagged ekLength dk
  encap ek r := (tagged ctLength (ek, r), (2 * encode (ek, r) + 1) :: List.replicate 31 0)
  decap dk ct :=
    match (ct.head?.bind fun e => (decode e : Option (Bytes × Bytes))) with
    | some (ek, r) =>
      if ek = tagged ekLength dk ∧ ct = tagged ctLength (ek, r) then
        (2 * encode (ek, r) + 1) :: List.replicate 31 0
      else (2 * encode (dk, ct)) :: List.replicate 31 0
    | none => (2 * encode (dk, ct)) :: List.replicate 31 0

theorem symbolicKem_ideal {ekLength ctLength : Nat} (ek : 0 < ekLength) (ct : 0 < ctLength) :
    (symbolicKem ekLength ctLength).Ideal ekLength ctLength where
  pub_length dk := length_tagged ek dk
  ct_length _ _ := length_tagged ct _
  secret_length _ _ := by simp [symbolicKem]
  decap_length dk c := by
    simp only [symbolicKem]
    split
    · split <;> simp
    · simp
  correct dk r := by simp [symbolicKem, tagged]
  separate {dk c e r} h := by
    simp only [symbolicKem] at h ⊢
    split at h
    · rename_i e' r' _
      split at h
      · rename_i whole
        have eq := (List.cons.inj h).1
        have pair : (e', r') = (e, r) := encode_injective (by omega)
        obtain ⟨rfl, rfl⟩ := Prod.mk.inj pair
        exact whole
      · have eq := (List.cons.inj h).1
        omega
    · have eq := (List.cons.inj h).1
      omega
  inj {e r e' r'} h := by
    have eq := (List.cons.inj h).1
    have pair : (e, r) = (e', r') := encode_injective (by omega)
    exact Prod.mk.inj pair

def symbolicCodec : Codec where
  encode bytes := if bytes = [] then [] else tagged (4 * ((bytes.length + 2) / 3)) bytes
  decode text :=
    match text with
    | [] => .ok []
    | e :: _ =>
      match (decode e : Option Bytes) with
      | some bytes => .ok bytes
      | none => .error "invalid symbol"

theorem symbolicCodec_ideal : symbolicCodec.Ideal where
  decode_encode bytes := by
    by_cases h : bytes = [] <;> simp [symbolicCodec, tagged, h]
  length bytes := by
    by_cases h : bytes = []
    · simp [symbolicCodec, h]
    · have pos : 0 < bytes.length := List.length_pos_iff.2 h
      simp only [symbolicCodec, if_neg h]
      exact length_tagged (by omega) bytes

/-- `C` that compares what it decodes with what it would have encoded. -/
def Codec.checked (C : Codec) : Codec where
  encode := C.encode
  decode text :=
    match C.decode text with
    | .ok bytes => if text = C.encode bytes then .ok bytes else .error "not an encoding"
    | .error e => .error e

theorem Codec.Ideal.checked (ideal : C.Ideal) : C.checked.Ideal where
  decode_encode bytes := by
    unfold Codec.checked
    dsimp only
    rw [ideal.decode_encode]
    exact if_pos rfl
  length := ideal.length

theorem Codec.checked_strict : C.checked.Strict := by
  intro text bytes decoded
  unfold Codec.checked at decoded
  dsimp only at decoded
  split at decoded
  case h_2 => cases decoded
  case h_1 bytes' _ =>
    split at decoded
    case isFalse => cases decoded
    case isTrue same =>
      cases decoded
      exact same

end Base
