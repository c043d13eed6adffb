import Osl.Ratchet.Chains

/-!
# New sessions

Both sides of the handshake expand one key (`respondBound_preamble`), and a new
session's keys stand at the head of the schedule of that key.
-/

namespace Osl.Ratchet

open Base SkippedKeys Session Handshake

variable {P : Primitives}

/-! ## The handshake -/

namespace Handshake

section
variable (P : Primitives) (localIdentity : Bytes) (peer : PeerBundle) (binding : Option Bytes) (rng : Rng)

/-- The initiator's handshake key. -/
def initiatorKey : Bytes :=
  handshakeKey P (P.x25519.shared localIdentity peer.signedPrekey) (P.x25519.shared rng.x25519 peer.identity)
    (P.x25519.shared rng.x25519 peer.signedPrekey)
    (peer.oneTimePrekey.map fun opk => P.x25519.shared rng.x25519 opk.2)
    (P.mlkem.encap peer.pqPrekey rng.encaps).2 binding

def preamble : Preamble :=
  ⟨P.x25519.pub localIdentity, P.x25519.pub rng.x25519, (peer.oneTimePrekey.map (·.1)).getD 0,
    (P.mlkem.encap peer.pqPrekey rng.encaps).1⟩

end

variable {localIdentity : Bytes} {peer : PeerBundle} {binding : Option Bytes} {rng : Rng} {l : LocalPrekeys}

theorem initiateBound_eq (ideal : P.Ideal) (localIdentity : Bytes) (peer : PeerBundle) (binding : Option Bytes)
    (rng : Rng) :
    initiateBound P localIdentity peer binding rng =
      .ok (expand P (initiatorKey P localIdentity peer binding rng), preamble P localIdentity peer rng,
        peer.signedPrekey) := by
  unfold initiateBound initiatorKey preamble
  simp only [dh_ok ideal]
  cases peer.oneTimePrekey <;> rfl

theorem preamble_valid (ideal : P.Ideal) (u32 : ∀ opk ∈ peer.oneTimePrekey, opk.1 ≤ u32Max) :
    (preamble P localIdentity peer rng).Valid where
  identity := ideal.x25519.pub_length _
  ephemeral := ideal.x25519.pub_length _
  opk := by
    unfold preamble
    cases h : peer.oneTimePrekey with
    | none => exact Nat.zero_le _
    | some opk => exact u32 opk h
  ciphertext := ideal.mlkem.ct_length _ _

theorem respondBound_ok {p : Preamble} {hs : HandshakeOutput} (h : respondBound P l p binding = .ok hs) :
    ∃ sk, hs = expand P sk := by
  obtain ⟨dh1, -, h⟩ := bind_ok.1 h
  obtain ⟨dh2, -, h⟩ := bind_ok.1 h
  obtain ⟨dh3, -, h⟩ := bind_ok.1 h
  split at h
  · split at h
    · cases h
    · obtain ⟨dh4, -, h⟩ := bind_ok.1 h
      cases h
      exact ⟨_, rfl⟩
  · cases h
    exact ⟨_, rfl⟩

end Handshake

/-- The bundle is made of the public parts of the prekeys. One-time prekey ids are
not 0, which says there is none. -/
structure Matching (P : Primitives) (peer : PeerBundle) (l : LocalPrekeys) : Prop where
  identity : peer.identity = P.x25519.pub l.identity
  signedPrekey : peer.signedPrekey = P.x25519.pub l.signedPrekey
  pqPrekey : peer.pqPrekey = P.mlkem.pub l.pqPrekey
  opk : ∀ opk ∈ peer.oneTimePrekey, opk.1 ≠ 0 ∧ ∃ secret, l.opk opk.1 = some secret ∧ opk.2 = P.x25519.pub secret

/-- The responder finds the initiator's key. -/
theorem Handshake.respondBound_preamble (ideal : P.Ideal) {peer : PeerBundle} {l : LocalPrekeys}
    (m : Matching P peer l) (localIdentity : Bytes) (binding : Option Bytes) (rng : Rng) :
    respondBound P l (preamble P localIdentity peer rng) binding =
      .ok (expand P (initiatorKey P localIdentity peer binding rng)) := by
  unfold respondBound initiatorKey preamble
  simp only [dh_ok ideal, m.identity, m.signedPrekey, m.pqPrekey, ideal.mlkem.correct, ideal.x25519.comm rng.x25519,
    ideal.x25519.comm localIdentity]
  cases h : peer.oneTimePrekey with
  | none => rfl
  | some opk =>
    obtain ⟨nonzero, secret, found, pub⟩ := m.opk opk h
    simp only [Option.map_some, Option.getD_some, if_pos nonzero, found, pub, ideal.x25519.comm rng.x25519]
    rfl

/-! ## The sessions -/

theorem SkippedKeys.new_ok {params : SkipParams} {st : SkippedKeys} (h : new params = .ok st) :
    st = ⟨params, [], 0, 0⟩ := by
  obtain ⟨params', checked, eq⟩ := bind_ok.1 h
  unfold SkipParams.validated at checked
  split at checked
  · cases checked
  split at checked
  · cases checked
  cases checked
  cases eq
  rfl

namespace Session

/-- The initiator's session. -/
def initiator (P : Primitives) (sk : Bytes) (params : SessionParams) (peerRatchet : Bytes) (preamble : Preamble)
    (rng : Rng) : Session :=
  let args : RootArgs := ⟨P.x25519.shared rng.x25519 peerRatchet, [], 0⟩
  let step := rootStep P (expand P sk).root args
  { role := .initiator, sessionId := (expand P sk).sessionId, root := step.rootKey
    dhs := rng.x25519, dhsPub := P.x25519.pub rng.x25519, dhr := some peerRatchet
    cks := some step.chainKey, hks := some (expand P sk).initiatorHeaderKey, nhks := step.headerKey
    ckr := none, hkr := none, nhkr := (expand P sk).responderHeaderKey
    ns := 0, nr := 0, pn := 0, sendMixEpoch := 0
    pq := .fresh .initiator params.pq (expand P sk).pqEpoch0, skipped := ⟨params.skip, [], 0, 0⟩
    bootstrap := some preamble }

/-- The responder's session before its first message. -/
def responder (P : Primitives) (sk : Bytes) (params : SessionParams) (signedPrekey : Bytes) : Session :=
  { role := .responder, sessionId := (expand P sk).sessionId, root := (expand P sk).root
    dhs := signedPrekey, dhsPub := P.x25519.pub signedPrekey, dhr := none
    cks := none, hks := none, nhks := (expand P sk).responderHeaderKey
    ckr := none, hkr := none, nhkr := (expand P sk).initiatorHeaderKey
    ns := 0, nr := 0, pn := 0, sendMixEpoch := 0
    pq := .fresh .responder params.pq (expand P sk).pqEpoch0, skipped := ⟨params.skip, [], 0, 0⟩
    bootstrap := none }

variable {params : SessionParams} {s : Session} {sk signedPrekey localIdentity wire : Bytes} {roots : List RootArgs} {l : LocalPrekeys}
  {parsed : ParsedWire} {binding : Option Bytes} {rng hsRng : Rng} {opened : Opened}

theorem initiateBound_ok (ideal : P.Ideal) {peer : PeerBundle}
    (h : initiateBound P localIdentity peer binding params hsRng rng = .ok (s, roots)) :
    params.pq.Valid ∧
      s = initiator P (initiatorKey P localIdentity peer binding hsRng) params peer.signedPrekey
        (preamble P localIdentity peer hsRng) rng ∧
      roots = [⟨P.x25519.shared rng.x25519 peer.signedPrekey, [], 0⟩] := by
  unfold initiateBound at h
  rw [initiateBound_eq ideal, bind_ok] at h
  obtain ⟨_, same, h⟩ := h
  cases same
  simp only [dh_ok ideal] at h
  obtain ⟨pq, made, h⟩ := bind_ok.1 h
  obtain ⟨skipped, store, h⟩ := bind_ok.1 h
  obtain ⟨valid, rfl⟩ := PqRatchet.new_ok made
  obtain rfl := new_ok store
  cases h
  exact ⟨valid, rfl, rfl⟩

theorem forBootstrap_ok (h : forBootstrap P l parsed binding params = .ok s) :
    ∃ sk, params.pq.Valid ∧ new params.skip = .ok ⟨params.skip, [], 0, 0⟩ ∧
      s = responder P sk params l.signedPrekey := by
  unfold forBootstrap at h
  split at h
  · cases h
  obtain ⟨hs, responded, h⟩ := bind_ok.1 h
  obtain ⟨sk, rfl⟩ := respondBound_ok responded
  obtain ⟨pq, made, h⟩ := bind_ok.1 h
  obtain ⟨skipped, store, h⟩ := bind_ok.1 h
  obtain ⟨valid, rfl⟩ := PqRatchet.new_ok made
  obtain rfl := new_ok store
  cases h
  exact ⟨sk, valid, store, rfl⟩

/-- A session accepted is the responder's, after the message. -/
theorem acceptBound_ok (h : acceptBound P l wire binding params rng = .ok (s, opened, roots)) :
    ∃ parsed sk, params.pq.Valid ∧ new params.skip = .ok ⟨params.skip, [], 0, 0⟩ ∧
      (responder P sk params l.signedPrekey).openParsed P parsed rng = .ok (s, opened, roots) := by
  obtain ⟨raw, -, h⟩ := bind_ok.1 h
  obtain ⟨parsed, -, h⟩ := bind_ok.1 h
  obtain ⟨t, made, h⟩ := bind_ok.1 h
  obtain ⟨sk, valid, store, rfl⟩ := forBootstrap_ok made
  exact ⟨parsed, sk, valid, store, h⟩

end Session

section
variable {sk peerRatchet signedPrekey : Bytes} {params : SessionParams} {preamble : Preamble} {rng : Rng}
  {roots : List RootArgs}

theorem stock_empty {past : Nat → Nat → Prop} : Stock P sk roots past [] :=
  ⟨List.nodup_nil, by simp [Holds]⟩

theorem Keyed.initiator :
    Keyed P sk [⟨P.x25519.shared rng.x25519 peerRatchet, [], 0⟩]
      (initiator P sk params peerRatchet preamble rng) where
  root := rfl
  silent h := by cases h
  sending k h := by
    obtain rfl : k = 0 := by simpa using h
    exact ⟨rfl, rfl⟩
  nextSending := rfl
  deaf _ := ⟨rfl, rfl⟩
  receiving k h := by simp at h
  nextReceiving := rfl
  stock := stock_empty

theorem Keyed.responder : Keyed P sk [] (responder P sk params signedPrekey) where
  root := rfl
  silent _ := rfl
  sending k h := by simp at h
  nextSending := rfl
  deaf _ := ⟨rfl, rfl⟩
  receiving k h := by simp at h
  nextReceiving := rfl
  stock := stock_empty

theorem Session.initiator_bounded (ideal : P.Ideal) (valid : params.pq.Valid) (boot : preamble.Valid) :
    (initiator P sk params peerRatchet preamble rng).Bounded :=
  ⟨ideal.x25519.pub_length _, Nat.zero_le _, Nat.zero_le _, Nat.zero_le _, PqRatchet.fresh_bounded valid,
    by simpa [initiator] using boot⟩

theorem Session.responder_bounded (ideal : P.Ideal) (valid : params.pq.Valid) (signedPrekey : Bytes) :
    (responder P sk params signedPrekey).Bounded :=
  ⟨ideal.x25519.pub_length _, Nat.zero_le _, Nat.zero_le _, Nat.zero_le _, PqRatchet.fresh_bounded valid,
    by simp [responder]⟩

end

end Osl.Ratchet
