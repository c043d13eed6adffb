import Osl.Ratchet.Handshake

/-!
# The key schedule of a run

All keys a session ever uses are functions of the handshake key `sk` and of the
inputs of its root steps, in order. Root step `k` makes chain `k`, whose messages
are keyed by `mkAt`, and the header key of chain `k + 2`; the handshake makes those
of the first two chains. An injective KDF never gives one key twice: header keys
differ between chains (`hkAt_inj`), message keys between messages (`mkAt_inj`).
-/

namespace Osl.Ratchet

open Base

variable (P : Primitives) (sk : Bytes) (roots : List RootArgs)

/-- The root key before root step `k`. -/
def rootAt : Nat → Bytes
  | 0 => (expand P sk).root
  | k + 1 => (rootStep P (rootAt k) (roots.getD k default)).rootKey

def stepAt (k : Nat) : RootStep := rootStep P (rootAt P sk roots k) (roots.getD k default)

/-- The header key of chain `k`. -/
def hkAt : Nat → Bytes
  | 0 => (expand P sk).initiatorHeaderKey
  | 1 => (expand P sk).responderHeaderKey
  | k + 2 => (stepAt P sk roots k).headerKey

/-- The chain key of chain `k` before message `n`. -/
def ckAt (k : Nat) : Nat → Bytes
  | 0 => (stepAt P sk roots k).chainKey
  | n + 1 => (chainStep P (ckAt k n)).2

/-- The key of message `n` of chain `k`. -/
def mkAt (k n : Nat) : Bytes := (chainStep P (ckAt P sk roots k n)).1

theorem rootAt_succ (k : Nat) : rootAt P sk roots (k + 1) = (stepAt P sk roots k).rootKey := rfl

theorem chainStep_ckAt (k n : Nat) :
    chainStep P (ckAt P sk roots k n) = (mkAt P sk roots k n, ckAt P sk roots k (n + 1)) := rfl

variable {P sk roots}

/-! ## Later root steps change nothing -/

section
variable (more : List RootArgs) {k : Nat}

theorem rootAt_append (known : k ≤ roots.length) : rootAt P sk (roots ++ more) k = rootAt P sk roots k := by
  induction k with
  | zero => rfl
  | succ k ih =>
    rw [rootAt, rootAt, ih (by omega), List.getD_append _ _ _ _ (by omega)]

theorem stepAt_append (known : k < roots.length) : stepAt P sk (roots ++ more) k = stepAt P sk roots k := by
  unfold stepAt
  rw [rootAt_append more known.le, List.getD_append _ _ _ _ known]

theorem hkAt_append (known : k ≤ roots.length + 1) : hkAt P sk (roots ++ more) k = hkAt P sk roots k := by
  match k with
  | 0 => rfl
  | 1 => rfl
  | k + 2 =>
    rw [hkAt, hkAt, stepAt_append more (by omega)]

theorem ckAt_append (known : k < roots.length) (n : Nat) : ckAt P sk (roots ++ more) k n = ckAt P sk roots k n := by
  induction n with
  | zero => rw [ckAt, ckAt, stepAt_append more known]
  | succ n ih => rw [ckAt, ckAt, ih]

theorem mkAt_append (known : k < roots.length) (n : Nat) : mkAt P sk (roots ++ more) k n = mkAt P sk roots k n := by
  unfold mkAt
  rw [ckAt_append more known]

end

/-- The step that `args` makes on top of `roots`. -/
theorem stepAt_snoc {args : RootArgs} {more : List RootArgs} :
    stepAt P sk (roots ++ args :: more) roots.length = rootStep P (rootAt P sk roots roots.length) args := by
  unfold stepAt
  rw [rootAt_append _ le_rfl]
  simp

/-! ## No key twice -/

theorem labelHandshake_ne_root {mix : Nat} : labelHandshake ≠ labelRoot ++ le32 mix := by
  intro h
  have := congrArg List.length h
  simp [le32, labelHandshake, labelRoot, label] at this

section
variable (ideal : P.Ideal)
include ideal

/-- Two 32-byte blocks of derivations are equal only in the same place. -/
theorem derive_block_inj {s i f s' i' f' : Bytes} {n n' j j' : Nat} (fits : 32 * (j + 1) ≤ n)
    (fits' : 32 * (j' + 1) ≤ n') (h : block j (P.hkdf.derive s i f n) = block j' (P.hkdf.derive s' i' f' n')) :
    s = s' ∧ f = f' ∧ j = j' := by
  obtain ⟨salt, -, info, place⟩ := ideal.hkdf.inj fits fits' h
  exact ⟨salt, info, place⟩

/-- A 32-byte derivation is its own first block. -/
theorem derive_eq_block (s i f : Bytes) : P.hkdf.derive s i f 32 = block 0 (P.hkdf.derive s i f 32) := by
  simp [block, ideal.hkdf.length]

theorem rootAt_inj {j k : Nat} (h : rootAt P sk roots j = rootAt P sk roots k) : j = k := by
  have fresh : ∀ k, rootAt P sk roots 0 ≠ rootAt P sk roots (k + 1) := by
    intro k h
    simp only [rootAt, expand, rootStep] at h
    rw [derive_eq_block ideal] at h
    exact labelHandshake_ne_root (derive_block_inj ideal (by decide) (by decide) h).2.1
  induction j generalizing k with
  | zero =>
    cases k with
    | zero => rfl
    | succ k => exact absurd h (fresh k)
  | succ j ih =>
    cases k with
    | zero => exact absurd h.symm (fresh j)
    | succ k =>
      rw [ih (derive_block_inj ideal (by decide) (by decide) h).1]

theorem hkAt_inj {j k : Nat} (h : hkAt P sk roots j = hkAt P sk roots k) : j = k := by
  match j, k with
  | 0, 0 => rfl
  | 1, 1 => rfl
  | 0, 1 | 1, 0 | 0, k + 2 | 1, k + 2 | j + 2, 0 | j + 2, 1 =>
    have place := (derive_block_inj ideal (by decide) (by decide) h).2.2
    omega
  | j + 2, k + 2 =>
    rw [rootAt_inj ideal (derive_block_inj ideal (by decide) (by decide) h).1]

theorem ckAt_zero_ne {j k n : Nat} : ckAt P sk roots j 0 ≠ ckAt P sk roots k (n + 1) := by
  intro h
  simp only [ckAt, stepAt, rootStep, chainStep] at h
  rw [derive_eq_block ideal] at h
  have place := (derive_block_inj ideal (by decide) (by decide) h).2.2
  omega

theorem ckAt_inj {j k m n : Nat} (h : ckAt P sk roots j m = ckAt P sk roots k n) : j = k ∧ m = n := by
  induction m generalizing n with
  | zero =>
    cases n with
    | zero =>
      exact ⟨rootAt_inj ideal (derive_block_inj ideal (by decide) (by decide) h).1, rfl⟩
    | succ n => exact absurd h (ckAt_zero_ne ideal)
  | succ m ih =>
    cases n with
    | zero => exact absurd h.symm (ckAt_zero_ne ideal)
    | succ n =>
      simp only [ckAt, chainStep] at h
      rw [derive_eq_block ideal, derive_eq_block ideal (ckAt P sk roots k n)] at h
      obtain ⟨rfl, rfl⟩ := ih (derive_block_inj ideal (by decide) (by decide) h).1
      exact ⟨rfl, rfl⟩

theorem mkAt_inj {j k m n : Nat} (h : mkAt P sk roots j m = mkAt P sk roots k n) : j = k ∧ m = n := by
  simp only [mkAt, chainStep] at h
  rw [derive_eq_block ideal, derive_eq_block ideal (ckAt P sk roots k n)] at h
  exact ckAt_inj ideal (derive_block_inj ideal (by decide) (by decide) h).1

end

end Osl.Ratchet
