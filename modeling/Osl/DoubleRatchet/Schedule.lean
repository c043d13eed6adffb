import Mathlib.Logic.Function.Iterate
import Osl.DoubleRatchet.Model

/-!
# Where a key stands

The `k`-th root key comes from `k` root steps, and chain `k` starts from the step
after it. Injectivity of the KDF makes the place of a message key a function of the
key: no key stands at two places of the schedule of one session key.
-/

namespace Osl.DoubleRatchet

open Base Crypto Function

section

variable (P : Primitives) (sk : SessionKey P)

inductive RootAt : Nat → Bytes → Prop where
  | start : RootAt 0 sk.bytes
  | step {k : Nat} {rk : Bytes} (before : RootAt k rk) (dh : Bytes) : RootAt (k + 1) (kdfRkHe P rk dh).rootKey

/-- `ck` is the key of slot `n` of chain `k`. -/
def ChainKeyAt (k n : Nat) (ck : Bytes) : Prop :=
  ∃ rk dh, RootAt P sk k rk ∧ ck = (advance P)^[n] (kdfRkHe P rk dh).chainKey

/-- `key` is the message key of slot `n` of chain `k`. -/
def MessageKeyAt (k n : Nat) (key : Bytes) : Prop := ∃ ck, ChainKeyAt P sk k n ck ∧ key = messageKey P ck

end

variable {P : Primitives} {sk : SessionKey P} {k k' n n' now gap c : Nat} {key ck rk hk : Bytes}

theorem derive32_ne_block (ideal : P.Ideal) {salt ikm info salt' ikm' info' : Bytes} {j len : Nat}
    (fits : 32 * (j + 1) ≤ len) (other : info ≠ info') : derive32 P salt ikm info ≠ block j (P.hkdf.derive salt' ikm' info' len) := by
  intro same
  have first : block 0 (derive32 P salt ikm info) = derive32 P salt ikm info :=
    List.take_of_length_le (ideal.hkdf.length salt ikm info 32).le
  exact other (ideal.hkdf.inj le_rfl fits (first.trans same)).2.2.1

theorem RootAt.unique (ideal : P.Ideal) (here : RootAt P sk k rk) (there : RootAt P sk k' rk) : k = k' := by
  have labels : pqxdhInfo ≠ rootKdfHeInfo := by decide
  obtain ⟨ikm, derived⟩ := sk.derived
  -- The session key is no output of a root step.
  have first : ∀ rk dh, sk.bytes ≠ (kdfRkHe P rk dh).rootKey := fun rk dh =>
    derived ▸ derive32_ne_block ideal (by decide) labels
  induction here generalizing k' with
  | start =>
    generalize same : sk.bytes = rk at there
    cases there with
    | start => rfl
    | step before dh => exact absurd same (first _ dh)
  | @step k rk before dh ih =>
    generalize same : (kdfRkHe P rk dh).rootKey = rk' at there
    cases there with
    | start => exact absurd same.symm (first _ dh)
    | step before' dh' =>
      obtain ⟨rfl, -⟩ := ideal.hkdf.inj (by decide) (by decide) same
      rw [ih before']

theorem ChainKeyAt.advance (here : ChainKeyAt P sk k n ck) (gap : Nat) :
    ChainKeyAt P sk k (n + gap) ((DoubleRatchet.advance P)^[gap] ck) := by
  obtain ⟨rk, dh, root, rfl⟩ := here
  refine ⟨rk, dh, root, ?_⟩
  rw [Nat.add_comm, iterate_add_apply]

theorem ChainKeyAt.unique (ideal : P.Ideal) (here : ChainKeyAt P sk k n ck) (there : ChainKeyAt P sk k' n' ck) :
    k = k' ∧ n = n' := by
  have labels : chainAdvanceInfo ≠ rootKdfHeInfo := by decide
  obtain ⟨rk, dh, root, rfl⟩ := here
  obtain ⟨rk', dh', root', same⟩ := there
  induction n generalizing n' with
  | zero =>
    cases n' with
    | zero =>
      obtain ⟨rfl, -⟩ := ideal.hkdf.inj (by decide) (by decide) same
      exact ⟨root.unique ideal root', rfl⟩
    | succ n' =>
      rw [iterate_succ_apply'] at same
      exact absurd same.symm (derive32_ne_block ideal (by decide) labels)
  | succ n ih =>
    rw [iterate_succ_apply'] at same
    cases n' with
    | zero => exact absurd same (derive32_ne_block ideal (by decide) labels)
    | succ n' =>
      rw [iterate_succ_apply'] at same
      obtain ⟨chains, slots⟩ := ih (derive32_inj ideal same).2.1
      exact ⟨chains, congrArg Nat.succ slots⟩

theorem MessageKeyAt.unique (ideal : P.Ideal) (here : MessageKeyAt P sk k n key) (there : MessageKeyAt P sk k' n' key) :
    k = k' ∧ n = n' := by
  obtain ⟨ck, chain, rfl⟩ := here
  obtain ⟨ck', chain', same⟩ := there
  obtain rfl := (derive32_inj ideal same).2.1
  exact chain.unique ideal chain'

/-! ## Passing over slots -/

/-- The entries for `gap` slots from `c` on. -/
def passed (P : Primitives) (hk : Bytes) (now : Nat) : Bytes → Nat → Nat → List SkippedKey
  | _, _, 0 => []
  | ck, c, gap + 1 => ⟨hk, c, messageKey P ck, now⟩ :: passed P hk now (advance P ck) (c + 1) gap

theorem skipKeys_ok {t t' : Tentative} (skipped : skipKeys P hk now gap t = .ok t') :
    t' = ⟨t.skipped ++ passed P hk now t.chain t.counter gap, (advance P)^[gap] t.chain, t.counter + gap⟩ := by
  induction gap generalizing t with
  | zero =>
    cases skipped
    rw [passed, List.append_nil]
    rfl
  | succ gap ih =>
    rw [skipKeys] at skipped
    split at skipped
    case isTrue => cases skipped
    case isFalse =>
      rw [ih skipped, passed, iterate_succ_apply]
      rw [List.append_assoc, List.singleton_append, Nat.add_assoc, Nat.add_comm 1]

theorem mem_passed {e : SkippedKey} (mem : e ∈ passed P hk now ck c gap) (here : ChainKeyAt P sk k c ck) :
    c ≤ e.counter ∧ e.counter < c + gap ∧ MessageKeyAt P sk k e.counter e.messageKey := by
  induction gap generalizing ck c with
  | zero => cases mem
  | succ gap ih =>
    rcases List.mem_cons.1 mem with rfl | later
    · exact ⟨Nat.le_refl c, Nat.lt_add_of_pos_right (Nat.succ_pos gap), ck, here, rfl⟩
    · obtain ⟨low, high, key⟩ := ih later (here.advance 1)
      exact ⟨by omega, by omega, key⟩

theorem passed_nodup (ideal : P.Ideal) (here : ChainKeyAt P sk k c ck) :
    ((passed P hk now ck c gap).map SkippedKey.messageKey).Nodup := by
  induction gap generalizing ck c with
  | zero => exact List.nodup_nil
  | succ gap ih =>
    refine List.nodup_cons.2 ⟨fun mem => ?_, ih (here.advance 1)⟩
    obtain ⟨e, later, same⟩ := List.mem_map.1 mem
    obtain ⟨low, -, key⟩ := mem_passed later (here.advance 1)
    have slots := (key.unique ideal ⟨ck, here, same⟩).2
    omega

end Osl.DoubleRatchet
