import Osl.Ratchet.Sealing

/-!
# What receiving does to a session

`advanceFor` succeeds exactly as `AdvanceEffect` says: by a stored key, in the
receiving chain (`ChainEffect`), or after a Diffie-Hellman step (`Session.turn`) in
the chain that makes.
-/

namespace Osl.Ratchet

open Base

namespace Session

section
variable (P : Primitives)

/-- Message `n` of the receiving chain, whose header key is `hk`. -/
inductive ChainEffect (s : Session) (hk : Bytes) (n : Nat) : Session → Bytes → Prop where
  | late {messageKey : Bytes} {skipped : SkippedKeys} (old : n < s.nr)
    (taken : s.skipped.take hk n = some (messageKey, skipped)) :
    ChainEffect s hk n { s with skipped } messageKey
  | ahead {ck : Bytes} (new : s.nr ≤ n) (limit : n - s.nr ≤ s.skipped.params.maxSkipPerMessage)
    (chain : s.ckr = some ck) :
    ChainEffect s hk n
      { s with
        skipped := (skipKeys P hk (n - s.nr) s.skipped ck s.nr).1
        ckr := some (chainStep P (skipKeys P hk (n - s.nr) s.skipped ck s.nr).2.1).2
        nr := satAdd 32 (skipKeys P hk (n - s.nr) s.skipped ck s.nr).2.2 1 }
      (chainStep P (skipKeys P hk (n - s.nr) s.skipped ck s.nr).2.1).1

/-- What the peer folded into its new chain. -/
def peerArgs (s : Session) (header : RatchetHeader) (taken : List Bytes) : RootArgs :=
  ⟨P.x25519.shared s.dhs header.dhPub, taken, header.mixEpoch⟩

/-- The epoch ratchet after the peer's mix. -/
def afterPeer (s : Session) (header : RatchetHeader) : PqRatchet := s.pq.commitMix header.mixEpoch

/-- What we fold into ours. -/
def ownArgs (s : Session) (header : RatchetHeader) (rng : Rng) (peeked : List Bytes) : RootArgs :=
  ⟨P.x25519.shared rng.x25519 header.dhPub, peeked, (s.afterPeer header).mixTarget⟩

/-- The session after a Diffie-Hellman step. -/
def turn (s : Session) (header : RatchetHeader) (rng : Rng) (taken peeked : List Bytes) : Session :=
  let s1 := rootStep P s.root (s.peerArgs P header taken)
  let s2 := rootStep P s1.rootKey (s.ownArgs P header rng peeked)
  { s with
    skipped := s.drainChain P header.pn
    pq := (s.afterPeer header).commitMix (s.afterPeer header).mixTarget, root := s2.rootKey
    pn := s.ns, ns := 0, nr := 0
    hks := some s.nhks, hkr := some s.nhkr, dhr := some header.dhPub
    ckr := some s1.chainKey, nhkr := s1.headerKey
    dhs := rng.x25519, dhsPub := P.x25519.pub rng.x25519
    cks := some s2.chainKey, nhks := s2.headerKey, sendMixEpoch := (s.afterPeer header).mixTarget }

/-- The step is within the skip limit, and all secrets it folds are there. -/
structure CanTurn (s : Session) (header : RatchetHeader) (taken peeked : List Bytes) : Prop where
  drain : s.ckr.isSome → header.pn - s.nr ≤ s.skipped.params.maxSkipPerMessage
  skip : header.n ≤ s.skipped.params.maxSkipPerMessage
  known : header.mixEpoch ≤ s.pq.mixed ∨ header.mixEpoch ≤ s.pq.pqHave
  taken : s.pq.peekMix header.mixEpoch = .ok taken
  peeked : (s.afterPeer header).peekMix (s.afterPeer header).mixTarget = .ok peeked

inductive AdvanceEffect (s : Session) (header : RatchetHeader) (rng : Rng) :
    Opener → Session → Bytes → List RootArgs → Prop where
  | stored {pq : PqRatchet} {hk messageKey : Bytes} {skipped : SkippedKeys}
    (absorbed : absorbPq P s.pq header rng = .ok pq)
    (taken : s.skipped.take hk header.n = some (messageKey, skipped)) :
    AdvanceEffect s header rng (.stored hk) { s with pq, skipped } messageKey []
  | current {pq : PqRatchet} {hk messageKey : Bytes} {s' : Session}
    (absorbed : absorbPq P s.pq header rng = .ok pq) (key : s.hkr = some hk)
    (chain : ChainEffect P { s with pq } hk header.n s' messageKey) :
    AdvanceEffect s header rng .current s' messageKey []
  | next {pq : PqRatchet} {taken peeked : List Bytes} {messageKey : Bytes} {s' : Session}
    (absorbed : absorbPq P s.pq header rng = .ok pq) (turns : ({ s with pq }).CanTurn header taken peeked)
    (chain : ChainEffect P (({ s with pq }).turn P header rng taken peeked) s.nhkr header.n s' messageKey) :
    AdvanceEffect s header rng .next s' messageKey
      [({ s with pq }).peerArgs P header taken, ({ s with pq }).ownArgs P header rng peeked]

end

variable {P : Primitives} {s s' : Session} {header : RatchetHeader} {rng : Rng} {messageKey hk : Bytes}
  {args : List RootArgs} {n count : Nat} {which : Opener}

theorem checkSkip_ok {st : SkippedKeys} {u : Unit} :
    st.checkSkip count = .ok u ↔ count ≤ st.params.maxSkipPerMessage := by
  unfold SkippedKeys.checkSkip
  split
  · simp only [reduceCtorEq, false_iff]
    omega
  · simp only [true_iff]
    omega

theorem messageKeyInCurrentChain_iff :
    s.messageKeyInCurrentChain P hk n = .ok (s', messageKey) ↔ ChainEffect P s hk n s' messageKey := by
  unfold messageKeyInCurrentChain
  constructor
  · intro h
    split at h
    · rename_i old
      split at h
      · rename_i taken
        cases h
        exact .late old taken
      · cases h
    · rename_i new
      simp only [bind, Except.bind] at h
      split at h
      · cases h
      rename_i limit
      split at h
      · cases h
      rename_i ck chain
      cases h
      exact .ahead (by omega) (checkSkip_ok.1 limit) chain
  · intro h
    cases h with
    | late old taken => rw [if_pos old, taken]
    | ahead new limit chain =>
      rw [if_neg (by omega), checkSkip_ok (u := ()).2 limit, chain]
      rfl

theorem dh_eq {secret peer shared : Bytes} (h : dh P secret peer = .ok shared) : shared = P.x25519.shared secret peer := by
  unfold dh at h
  dsimp only at h
  split at h
  · cases h
  · cases h
    rfl

theorem dhRatchet_ok (h : s.dhRatchet P header rng = .ok (s', args)) :
    ∃ taken peeked, s.CanTurn header taken peeked ∧ s' = s.turn P header rng taken peeked ∧
      args = [s.peerArgs P header taken, s.ownArgs P header rng peeked] := by
  unfold dhRatchet at h
  split at h
  · simp only [bind_ok, Except.ok.injEq, Prod.mk.injEq, Prod.exists, PqRatchet.takeMix_iff, checkSkip_ok] at h
    obtain ⟨-, drain, -, skip, taken, q, ⟨known, found, rfl⟩, dh1, first, peeked, peek, dh2, second, rfl, rfl⟩ := h
    obtain rfl := dh_eq first
    obtain rfl := dh_eq second
    exact ⟨taken, peeked, ⟨fun _ => drain, skip, known, found, peek⟩, rfl, rfl⟩
  · rename_i deaf
    simp only [bind_ok, Except.ok.injEq, Prod.mk.injEq, Prod.exists, PqRatchet.takeMix_iff, checkSkip_ok] at h
    obtain ⟨-, skip, taken, q, ⟨known, found, rfl⟩, dh1, first, peeked, peek, dh2, second, rfl, rfl⟩ := h
    obtain rfl := dh_eq first
    obtain rfl := dh_eq second
    exact ⟨taken, peeked, ⟨fun some => absurd some deaf, skip, known, found, peek⟩, rfl, rfl⟩

theorem dhRatchet_iff (ideal : P.Ideal) :
    s.dhRatchet P header rng = .ok (s', args) ↔ ∃ taken peeked, s.CanTurn header taken peeked ∧
      s' = s.turn P header rng taken peeked ∧ args = [s.peerArgs P header taken, s.ownArgs P header rng peeked] := by
  refine ⟨dhRatchet_ok, ?_⟩
  rintro ⟨taken, peeked, turns, rfl, rfl⟩
  unfold dhRatchet
  simp only [dh_ok ideal]
  split
  · simp only [bind_ok, checkSkip_ok, exists_const, Except.ok.injEq, exists_eq_left', Prod.mk.injEq,
      Prod.exists, PqRatchet.takeMix_iff]
    exact ⟨turns.drain ‹_›, turns.skip, taken, _, ⟨turns.known, turns.taken, rfl⟩, peeked, turns.peeked, rfl, rfl⟩
  · simp only [bind_ok, checkSkip_ok, exists_const, Except.ok.injEq, exists_eq_left', Prod.mk.injEq,
      Prod.exists, PqRatchet.takeMix_iff]
    exact ⟨turns.skip, taken, _, ⟨turns.known, turns.taken, rfl⟩, peeked, turns.peeked, rfl, rfl⟩

theorem advanceFor_ok (h : s.advanceFor P which header rng = .ok (s', messageKey, args)) :
    AdvanceEffect P s header rng which s' messageKey args := by
  obtain ⟨pq, absorbed, h⟩ := bind_ok.1 h
  cases which with
  | stored hk =>
    dsimp only at h
    split at h
    · rename_i taken
      cases h
      exact .stored absorbed taken
    · cases h
  | current =>
    dsimp only at h
    split at h
    · cases h
    · rename_i hk key
      obtain ⟨⟨t, mk⟩, chain, eq⟩ := bind_ok.1 h
      cases eq
      exact .current absorbed key (messageKeyInCurrentChain_iff.1 chain)
  | next =>
    obtain ⟨⟨t, args'⟩, turned, h⟩ := bind_ok.1 h
    obtain ⟨taken, peeked, turns, rfl, rfl⟩ := dhRatchet_ok turned
    obtain ⟨⟨u, mk⟩, chain, eq⟩ := bind_ok.1 h
    cases eq
    exact .next absorbed turns (messageKeyInCurrentChain_iff.1 chain)

theorem advanceFor_iff (ideal : P.Ideal) :
    s.advanceFor P which header rng = .ok (s', messageKey, args) ↔
      AdvanceEffect P s header rng which s' messageKey args := by
  refine ⟨advanceFor_ok, fun h => ?_⟩
  unfold advanceFor
  rw [bind_ok]
  cases h with
  | stored absorbed taken => exact ⟨_, absorbed, by simp only [taken]⟩
  | current absorbed key chain =>
    refine ⟨_, absorbed, ?_⟩
    dsimp only
    split
    · simp_all
    · rename_i hk same
      cases key.symm.trans same
      exact bind_ok.2 ⟨_, messageKeyInCurrentChain_iff.2 chain, rfl⟩
  | next absorbed turns chain =>
    refine ⟨_, absorbed, bind_ok.2 ⟨_, (dhRatchet_iff ideal).2 ⟨_, _, turns, rfl, rfl⟩, ?_⟩⟩
    exact bind_ok.2 ⟨_, messageKeyInCurrentChain_iff.2 chain, rfl⟩

/-! ## Bounds -/

theorem absorbPq_bounded (ideal : P.Ideal) {q q' : PqRatchet} (h : absorbPq P q header rng = .ok q') (b : q.Bounded)
    (valid : header.Valid) : q'.Bounded := by
  have heard := b.onPeerHave valid.pqHave
  unfold absorbPq at h
  cases frag : header.fragment with
  | none =>
    rw [frag] at h
    cases h
    exact heard
  | some f =>
    rw [frag] at h
    exact (PqRatchet.onFragment_effect h).1.bounded ideal heard (valid.fragment f frag)

/-- Within the receiving chain, only that chain and the store move. -/
theorem ChainEffect.frame (h : ChainEffect P s hk n s' messageKey) :
    ∃ skipped ckr nr, s' = { s with skipped, ckr, nr } := by
  cases h <;> exact ⟨_, _, _, rfl⟩

section

variable (ideal : P.Ideal) {x : Sealing}
include ideal

theorem Bounded.turn (b : s.Bounded) (header : RatchetHeader) (rng : Rng)
    (taken peeked : List Bytes) : (s.turn P header rng taken peeked).Bounded where
  dhsPub := ideal.x25519.pub_length _
  ns := Nat.zero_le _
  pn := b.ns
  mix := (Nat.min_le_left _ _).trans (b.pq.commitMix header.mixEpoch).have_le
  pq := (b.pq.commitMix _).commitMix _
  bootstrap := b.bootstrap

theorem AdvanceEffect.bounded
    (h : AdvanceEffect P s header rng which s' messageKey args) (b : s.Bounded) (valid : header.Valid) :
    s'.Bounded := by
  have absorb : ∀ {pq}, absorbPq P s.pq header rng = .ok pq → ({ s with pq } : Session).Bounded :=
    fun absorbed => { b with pq := absorbPq_bounded ideal absorbed b.pq valid }
  cases h with
  | stored absorbed => exact { absorb absorbed with }
  | current absorbed _ chain =>
    obtain ⟨_, _, _, rfl⟩ := chain.frame
    exact { absorb absorbed with }
  | @next _ taken peeked _ _ absorbed _ chain =>
    obtain ⟨_, _, _, rfl⟩ := chain.frame
    exact { (absorb absorbed).turn ideal header rng taken peeked with }

theorem openParsed_bounded (valid : x.Valid P) {opened : Opened}
    (h : s.openParsed P (x.parsed P) rng = .ok (s', opened, args)) (b : s.Bounded) : s'.Bounded := by
  obtain ⟨which, t, -, advanced, rfl, -⟩ := openParsed_ok ideal valid h
  exact { ((advanceFor_iff ideal).1 advanced).bounded ideal b valid.header with bootstrap := by simp [commit] }

theorem EncryptEffect.bounded {msgType : Nat} {plaintext : Bytes} {r : Result Bytes}
    (h : EncryptEffect P s msgType plaintext rng s' r) (b : s.Bounded) : s'.Bounded := by
  have pq := ((PqRatchet.onSend_effect (P := P) b.pq.have_le rng).bounded ideal b.pq).1
  cases h with
  | refused => exact b
  | sealed _ _ left => exact { b with pq, ns := left }

/-! ## Whole wires -/

theorem decrypt_wire (valid : x.Valid P) {s : Session} {rng : Rng} :
    s.decrypt P (x.wire P) rng = s.openParsed P (x.parsed P) rng := by
  simp only [decrypt, valid.decodeWire ideal, bind, Except.bind, valid.parse ideal]

theorem acceptBound_wire (valid : x.Valid P) (l : LocalPrekeys)
    (binding : Option Bytes) (params : SessionParams) (rng : Rng) :
    acceptBound P l (x.wire P) binding params rng =
      (forBootstrap P l (x.parsed P) binding params >>= fun s => s.openParsed P (x.parsed P) rng) := by
  simp only [acceptBound, valid.decodeWire ideal, bind, Except.bind, valid.parse ideal]

end

end Session

end Osl.Ratchet
