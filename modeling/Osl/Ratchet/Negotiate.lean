import Osl.Ratchet.Runs

/-!
# The negotiation binding (`crates/osl-ratchet-next/src/negotiate.rs`)

A digest of what was negotiated goes into the handshake key. The encoding that is
hashed tells two negotiations apart that pass the checks, so sides that disagree in
any field share no key.
-/

namespace Osl.Ratchet

open Base Handshake

structure Negotiation where
  selectedVersion : Nat
  minAcceptableVersion : Nat
  responderIdentity : { key : Bytes // key.length = x25519Pub }
  responderMlkemEk : Bytes
  initiatorIdentity : { key : Bytes // key.length = x25519Pub }
  context : Bytes

def negotiationDomain : Bytes := label "OSL-RN/v1/negotiation/v1"

def maxContextBytes : Nat := 256

/-- `u32_be(len) || bytes`. -/
def lengthPrefixed (bytes : Bytes) : Bytes := (le32 (min bytes.length u32Max)).reverse ++ bytes

namespace Negotiation

/-- What is hashed. -/
def encoding (n : Negotiation) : Bytes :=
  lengthPrefixed negotiationDomain ++ [n.selectedVersion, n.minAcceptableVersion] ++ lengthPrefixed n.responderIdentity ++
    lengthPrefixed n.responderMlkemEk ++ lengthPrefixed n.initiatorIdentity ++ lengthPrefixed n.context

def digest (sha256 : Bytes → Bytes) (n : Negotiation) : Result Bytes :=
  if n.selectedVersion ≠ wireVersionRn then .error (.policyBound "negotiation: selected version is not OSL-RN")
  else if n.minAcceptableVersion < wireVersionRn then
    .error (.policyBound "negotiation: minimum acceptable version is below OSL-RN")
  else if n.minAcceptableVersion > n.selectedVersion then
    .error (.policyBound "negotiation: floor exceeds the selected version")
  else if n.responderMlkemEk.length ≠ mlkemEk then
    .error (.policyBound "negotiation: responder ML-KEM encapsulation key has the wrong length")
  else if n.context = [] ∨ n.context.length > maxContextBytes then
    .error (.policyBound "negotiation: context length out of range")
  else .ok (sha256 n.encoding)

variable {sha256 : Bytes → Bytes} {n n' : Negotiation} {d : Bytes}

theorem digest_ok (h : n.digest sha256 = .ok d) : n.responderMlkemEk.length = mlkemEk ∧ d = sha256 n.encoding := by
  unfold digest at h
  repeat' split at h
  case isFalse.isFalse.isFalse.isFalse.isFalse size _ =>
    cases h
    exact ⟨not_not.1 size, rfl⟩
  all_goals cases h

theorem lengthPrefixed_append_inj {a b x y : Bytes} (size : a.length = b.length)
    (same : lengthPrefixed a ++ x = lengthPrefixed b ++ y) : a = b ∧ x = y := by
  unfold lengthPrefixed at same
  rw [List.append_assoc, List.append_assoc, size] at same
  exact List.append_inj (List.append_cancel_left same) size

theorem encoding_inj (size : n.responderMlkemEk.length = n'.responderMlkemEk.length) (same : n.encoding = n'.encoding) :
    n = n' := by
  obtain ⟨selected, floor, ⟨responder, r⟩, ek, ⟨initiator, i⟩, context⟩ := n
  obtain ⟨selected', floor', ⟨responder', r'⟩, ek', ⟨initiator', i'⟩, context'⟩ := n'
  simp only [encoding, List.append_assoc, List.append_cancel_left_eq, List.cons_append, List.nil_append,
    List.cons.injEq] at same
  obtain ⟨rfl, rfl, same⟩ := same
  obtain ⟨rfl, keys⟩ := lengthPrefixed_append_inj (r.trans r'.symm) same
  obtain ⟨rfl, identity⟩ := lengthPrefixed_append_inj size keys
  obtain ⟨rfl, contexts⟩ := lengthPrefixed_append_inj (i.trans i'.symm) identity
  obtain ⟨-, rfl⟩ := List.append_inj contexts (by simp [le32])
  rfl

end Negotiation

variable {P : Primitives}

theorem derive_32_inj (ideal : P.Ideal) {i f i' f' : Bytes} (same : P.hkdf.derive [] i f 32 = P.hkdf.derive [] i' f' 32) :
    i = i' ∧ f = f' := by
  rw [derive_eq_block ideal, derive_eq_block ideal [] i'] at same
  obtain ⟨-, ikm, info, -⟩ := ideal.hkdf.inj (by decide) (by decide) same
  exact ⟨ikm, info⟩

/-- Both sides find one key under one binding; under the digests of two negotiations
they share no key. -/
theorem handshake_binds_negotiation (ideal : P.Ideal) (sha256 : Bytes → Bytes) (collisionFree : Function.Injective sha256)
    (peer : PeerBundle) (l : LocalPrekeys) (keys : Matching P peer l) (localIdentity : Bytes) (rng : Rng) :
    (∀ binding, ∃ hs pre ratchet, initiateBound P localIdentity peer binding rng = .ok (hs, pre, ratchet) ∧
      respondBound P l pre binding = .ok hs) ∧
    ∀ (n n' : Negotiation) (b b' : Bytes), n.digest sha256 = .ok b → n'.digest sha256 = .ok b' → n ≠ n' →
      ∃ hs hs' pre ratchet, initiateBound P localIdentity peer (some b) rng = .ok (hs, pre, ratchet) ∧
        respondBound P l pre (some b') = .ok hs' ∧ hs.root ≠ hs'.root ∧
        hs.initiatorHeaderKey ≠ hs'.initiatorHeaderKey ∧ hs.responderHeaderKey ≠ hs'.responderHeaderKey := by
  constructor
  · intro binding
    exact ⟨_, _, _, initiateBound_eq ideal .., respondBound_preamble ideal keys ..⟩
  · intro n n' b b' digest digest' differ
    obtain ⟨size, rfl⟩ := Negotiation.digest_ok digest
    obtain ⟨size', rfl⟩ := Negotiation.digest_ok digest'
    have apart : initiatorKey P localIdentity peer (some (sha256 n.encoding)) rng ≠
        initiatorKey P localIdentity peer (some (sha256 n'.encoding)) rng := by
      intro same
      have hashes := List.append_cancel_left (derive_32_inj ideal same).2
      exact differ (Negotiation.encoding_inj (size.trans size'.symm) (collisionFree hashes))
    refine ⟨_, _, _, _, initiateBound_eq ideal .., respondBound_preamble ideal keys .., fun same => ?_, fun same => ?_,
      fun same => ?_⟩
    · exact apart (derive_32_inj ideal same).1
    · exact apart (ideal.hkdf.inj (by decide) (by decide) same).2.1
    · exact apart (ideal.hkdf.inj (by decide) (by decide) same).2.1

/-- Two call paths of one pair of peers. -/
def sampleNegotiation (context : Bytes) : Negotiation :=
  ⟨wireVersionRn, wireVersionRn, ⟨List.replicate 32 1, rfl⟩, List.replicate mlkemEk 7, ⟨List.replicate 32 2, rfl⟩, context⟩

theorem handshake_binds_negotiation_sample :
    ∃ hs hs' pre ratchet, initiateBound symbolicPrimitives [10] sampleConfig.bundle
        (some (sampleNegotiation [1]).encoding) sampleRng = .ok (hs, pre, ratchet) ∧
      respondBound symbolicPrimitives sampleConfig.prekeys pre (some (sampleNegotiation [2]).encoding) = .ok hs' ∧
      hs.root ≠ hs'.root := by
  have accepted (context : Bytes) (some : context ≠ []) (short : context.length ≤ maxContextBytes) :
      (sampleNegotiation context).digest id = .ok (sampleNegotiation context).encoding := by
    simp [Negotiation.digest, sampleNegotiation, some, short]
  obtain ⟨hs, hs', pre, ratchet, sent, answered, roots, -⟩ := (handshake_binds_negotiation symbolicPrimitives_ideal id
    Function.injective_id _ _ sample_honest.keys [10] sampleRng).2 _ _ _ _ (accepted [1] (by decide) (by decide))
    (accepted [2] (by decide) (by decide)) (by simp [sampleNegotiation])
  exact ⟨hs, hs', pre, ratchet, sent, answered, roots⟩

end Osl.Ratchet
