import Osl.Ratchet.Setup
import Osl.Ratchet.State

/-!
# A session over restarts

Every session a handshake makes and every call keeps within the fields of the exported
format (`Session.Storable`), as long as the skip parameters and the clock of the
skipped-key store fit 32 bits: those are the numbers of the session that are wider than
their field.
-/

namespace Osl.Ratchet

open Base Std

/-- The sizes of what the primitives return. -/
structure Primitives.Sized (P : Primitives) : Prop where
  hkdf : ∀ s i f n, (P.hkdf.derive s i f n).length = n
  pub : ∀ a, (P.x25519.pub a).length = 32
  ek : ∀ dk, (P.mlkem.pub dk).length = mlkemEk
  ct : ∀ ek r, (P.mlkem.encap ek r).1.length = mlkemCt
  secret : ∀ ek r, (P.mlkem.encap ek r).2.length = 32
  decap : ∀ dk ct, (P.mlkem.decap dk ct).length = 32

theorem Primitives.Ideal.sized {P : Primitives} (ideal : P.Ideal) : P.Sized :=
  ⟨ideal.hkdf.length, ideal.x25519.pub_length, ideal.mlkem.pub_length, ideal.mlkem.ct_length, ideal.mlkem.secret_length,
    ideal.mlkem.decap_length⟩

/-- Draws of the sizes the key types have. -/
structure SizedRng extends Rng where
  x25519_length : x25519.length = 32
  kemKey_length : kemKey.length = mlkemDk

section

variable {P : Primitives}

theorem length_block {j : Nat} {bytes : Bytes} (long : 32 * (j + 1) ≤ bytes.length) : (block j bytes).length = 32 := by
  unfold block
  rw [List.length_take, List.length_drop]
  omega

theorem Primitives.Sized.rootStep (sized : P.Sized) (root : Bytes) (args : RootArgs) :
    (rootStep P root args).rootKey.length = 32 ∧ (rootStep P root args).chainKey.length = 32 ∧
      (rootStep P root args).headerKey.length = 32 := by
  refine ⟨length_block ?_, length_block ?_, length_block ?_⟩ <;> rw [sized.hkdf] <;> decide

theorem Primitives.Sized.chainStep (sized : P.Sized) (ck : Bytes) :
    (chainStep P ck).1.length = 32 ∧ (chainStep P ck).2.length = 32 := ⟨sized.hkdf .., sized.hkdf ..⟩

end

theorem satAdd_u32 (a b : Nat) : satAdd 32 a b ≤ u32Max := Nat.min_le_right _ _

/-! ## The epoch ratchet -/

theorem Outbox.Storable.next {fragmentBytes : Nat} {ob : Outbox} (s : ob.Storable fragmentBytes) :
    ob.next.2.Storable fragmentBytes := by
  refine ⟨s.kind, s.epoch, ?_, s.payload, s.chunk⟩
  show (ob.cursor + 1) % 2 ^ 32 ≤ u32Max
  unfold u32Max
  omega

namespace PqRatchet

variable {P : Primitives} {q q' : PqRatchet} {f : Fragment}

theorem Storable.fresh {role : Role} {params : PqParams} {secret : Bytes} (valid : params.Valid)
    (interval : params.rekeyInterval ≤ u32Max) (size : secret.length = 32) : (fresh role params secret).Storable where
  params := valid
  rekeyInterval := interval
  pqHave := Nat.zero_le _
  mixed := Nat.zero_le _
  peerHave := Nat.zero_le _
  sinceComplete := Nat.zero_le _
  few := by
    refine Nat.le_trans (size_insert_le 0 secret) ?_
    decide
  secrets := by
    intro e s get
    unfold PqRatchet.fresh at get
    rw [ExtTreeMap.getElem?_insert] at get
    split at get
    case isTrue same =>
      obtain rfl := LawfulEqCmp.eq_of_compare same
      cases get
      exact ⟨Nat.zero_le _, size⟩
    case isFalse => simp at get
  ownKem := fun k mem => by cases mem
  answered := fun e mem => by cases mem
  outbox := fun ob mem => by cases mem
  inbox := fun a mem => by cases mem

theorem onSend_sinceComplete (rng : Rng) : (q.onSend P rng).1.sinceComplete = satAdd 32 q.sinceComplete 1 := by
  have start : ∀ q : PqRatchet, (q.maybeStartEpoch P rng).sinceComplete = q.sinceComplete := by
    intro q
    unfold maybeStartEpoch
    dsimp only
    repeat' split
    all_goals rfl
  have next : ∀ q : PqRatchet, q.nextFragment.1.sinceComplete = q.sinceComplete := by
    intro q
    unfold nextFragment
    split <;> rfl
  unfold onSend
  rw [next, start]

theorem Storable.onSend (sized : P.Sized) (s : q.Storable) (rng : SizedRng) : (q.onSend P rng.toRng).1.Storable := by
  have effect := onSend_effect (P := P) s.pqHave rng.toRng
  have since : (q.onSend P rng.toRng).1.sinceComplete ≤ u32Max := by
    rw [onSend_sinceComplete]
    exact satAdd_u32 _ _
  generalize q.onSend P rng.toRng = r at effect since
  obtain ⟨q', out⟩ := r
  cases effect with
  | quiet n idle => exact { s with sinceComplete := since }
  | again n busy =>
    refine { s with sinceComplete := since, outbox := fun ob mem => ?_ }
    cases mem
    exact (s.outbox _ busy).next
  | start n idle noKey owner fits =>
    refine { s with sinceComplete := since, ownKem := fun k mem => ?_, outbox := fun ob mem => ?_ }
    · cases mem
      exact ⟨fits, rng.kemKey_length⟩
    · cases mem
      exact Outbox.Storable.next ⟨.inl rfl, fits, Nat.zero_le _, .inl (sized.ek _), rfl⟩

theorem Storable.onPeerHave (s : q.Storable) {peerHave : Nat} (fits : peerHave ≤ u32Max) :
    (q.onPeerHave peerHave).Storable := by
  by_cases stale : peerHave ≤ q.peerHave
  · rwa [onPeerHave_stale stale]
  rw [onPeerHave_raised (by omega)]
  have have_le := s.pqHave
  have since_le := s.sinceComplete
  refine { s with peerHave := fits, pqHave := ?_, sinceComplete := ?_, outbox := ?_ }
  · dsimp only
    split <;> omega
  · dsimp only
    split <;> omega
  · exact fun ob mem => s.outbox ob (Option.mem_filter_iff.1 mem).1

/-! ### Assembling -/

theorem assembler_new {f : Fragment} (valid : f.Valid) : (Assembler.new f.kind f.epoch f.total).Storable where
  kind := valid.kind
  epoch := valid.epoch
  pos := Nat.lt_of_le_of_lt (Nat.zero_le _) valid.index
  total := valid.total
  length := List.length_replicate
  chunks := fun c mem bytes some => by
    rw [List.eq_of_mem_replicate mem] at some
    cases some
  received := by
    unfold Assembler.new
    rw [List.countP_replicate]
    rfl

theorem assemblerFor_storable (s : q.Storable) (valid : f.Valid) : (q.assemblerFor f).Storable := by
  unfold assemblerFor
  split
  case h_1 a stream =>
    split
    · exact assembler_new valid
    · exact s.inbox a stream
  case h_2 => exact assembler_new valid

theorem fill_storable {a : Assembler} {slot : Option Bytes} (s : a.Storable) (valid : f.Valid)
    (found : a.chunks[f.index]? = some slot) : (a.fill f slot).Storable := by
  unfold Assembler.fill
  split
  case isFalse => exact s
  rename_i hole
  obtain ⟨inside, eq⟩ := List.getElem?_eq_some_iff.1 found
  have none : slot = none := Option.isNone_iff_eq_none.1 hole
  have few : a.chunks.countP Option.isSome ≤ maxFragments :=
    Nat.le_trans List.countP_le_length (s.length.trans_le s.total)
  refine ⟨s.kind, s.epoch, s.pos, s.total, ?_, fun c mem bytes some => ?_, ?_⟩
  · rw [List.length_set]
    exact s.length
  · rcases List.mem_or_eq_of_mem_set mem with old | rfl
    · exact s.chunks c old bytes some
    · cases some
      exact valid.data
  · have unsaturated : satAdd 32 a.received 1 = a.received + 1 := by
      rw [s.received]
      unfold maxFragments at few
      exact satAdd_eq (by omega)
    rw [unsaturated, s.received, List.countP_set inside, eq, none]
    simp

variable {epoch : Nat} {ss : Bytes}

variable {rng : Rng}

theorem secrets_insert (s : q.Storable) (fits : epoch ≤ u32Max) (size : ss.length = 32) {e : Nat}
    {x : Bytes} (get : (q.secrets.insert epoch ss)[e]? = some x) : e ≤ u32Max ∧ x.length = 32 := by
  rw [ExtTreeMap.getElem?_insert] at get
  split at get
  case isTrue same =>
    obtain rfl := LawfulEqCmp.eq_of_compare same
    cases get
    exact ⟨fits, size⟩
  case isFalse => exact s.secrets get

theorem Storable.onFragment (sized : P.Sized) (s : q.Storable) (valid : f.Valid)
    (h : q.onFragment P f rng = .ok q') : q'.Storable := by
  obtain ⟨effect, few⟩ := onFragment_effect h
  have few := few s.few
  cases effect with
  | ignored => exact s
  | stored fresh accepted =>
    refine { s with inbox := fun a mem => ?_ }
    cases mem
    obtain ⟨slot, found, rfl⟩ := accept_fill accepted
    exact fill_storable (assemblerFor_storable s valid) valid found
  | answered fresh accepted kind =>
    refine { s with
      few
      secrets := secrets_insert s valid.epoch (sized.secret _ _)
      answered := fun e mem => ?_
      outbox := fun ob mem => ?_
      inbox := fun a mem => by cases mem }
    · cases mem
      exact valid.epoch
    · cases mem
      exact ⟨.inr rfl, valid.epoch, Nat.zero_le _, .inr (sized.ct _ _), rfl⟩
  | dropped fresh accepted kind other => exact { s with inbox := fun a mem => by cases mem }
  | completed fresh accepted kind own =>
    exact { s with
      few
      secrets := secrets_insert s valid.epoch (sized.decap _ _)
      pqHave := valid.epoch
      sinceComplete := Nat.zero_le _
      ownKem := fun k mem => by cases mem
      outbox := fun ob mem => by cases mem
      inbox := fun a mem => by cases mem }

theorem Storable.commitMix (s : q.Storable) {mix : Nat} (fits : mix ≤ u32Max) : (q.commitMix mix).Storable := by
  unfold PqRatchet.commitMix
  split
  case isFalse => exact s
  refine { s with mixed := fits, few := ?_, secrets := ?_ }
  · exact Nat.le_trans ExtTreeMap.size_filter_le_size s.few
  · intro e x get
    unfold prune at get
    rw [ExtTreeMap.getElem?_filter'] at get
    exact s.secrets (Option.filter_eq_some_iff.1 get).1

theorem Storable.mixTarget (s : q.Storable) : q.mixTarget ≤ u32Max := Nat.le_trans (Nat.min_le_left _ _) s.pqHave

end PqRatchet

/-! ## The session -/

namespace Session

variable {P : Primitives} {s s' : Session} {header : RatchetHeader} {rng : Rng}

theorem absorbPq_storable (sized : P.Sized) {q q' : PqRatchet} (st : q.Storable) (formed : header.WellFormed)
    (h : absorbPq P q header rng = .ok q') : q'.Storable := by
  have heard := st.onPeerHave formed.pqHave
  unfold absorbPq at h
  cases frag : header.fragment with
  | none =>
    rw [frag] at h
    cases h
    exact heard
  | some f =>
    rw [frag] at h
    exact heard.onFragment sized (formed.fragment f frag) h

/-- Parameters and clock are untouched. -/
structure Steady (st st' : SkippedKeys) : Prop where
  params : st'.params = st.params
  tick : st'.tick = st.tick

theorem Steady.trans {st st' st'' : SkippedKeys} (h : Steady st st') (h' : Steady st' st'') : Steady st st'' :=
  ⟨h'.params.trans h.params, h'.tick.trans h.tick⟩

theorem skipKeys_steady (hk : Bytes) (gap : Nat) (st : SkippedKeys) (ck : Bytes) (counter : Nat) :
    Steady st (skipKeys P hk gap st ck counter).1 := by
  induction gap generalizing st ck counter with
  | zero => exact ⟨rfl, rfl⟩
  | succ gap ih =>
    have first : Steady st (st.insert hk counter (chainStep P ck).1) := ⟨SkippedKeys.insert_params, SkippedKeys.insert_tick⟩
    exact first.trans (ih ..)

variable {hk : Bytes} {counter : Nat}

theorem take_steady {st st' : SkippedKeys} {m : Bytes} (taken : st.take hk counter = some (m, st')) :
    Steady st st' := by
  obtain ⟨_, _, -, -, rfl⟩ := SkippedKeys.take_ok taken
  exact ⟨rfl, rfl⟩

variable {messageKey : Bytes}

variable {n : Nat}

theorem ChainEffect.steady (h : ChainEffect P s hk n s' messageKey) : Steady s.skipped s'.skipped := by
  cases h with
  | late old taken => exact take_steady taken
  | ahead new limit chain => exact skipKeys_steady ..

theorem drainChain_steady (pn : Nat) : Steady s.skipped (s.drainChain P pn) := by
  unfold drainChain
  split
  case h_1 => exact skipKeys_steady ..
  case h_2 => exact ⟨rfl, rfl⟩

variable {args : List RootArgs} {which : Opener}

theorem AdvanceEffect.steady
    (h : AdvanceEffect P s header rng which s' messageKey args) : Steady s.skipped s'.skipped := by
  cases h with
  | stored absorbed taken => exact take_steady taken
  | @current pq _ _ _ absorbed key chain => exact (chain.steady : Steady ({ s with pq } : Session).skipped _)
  | @next pq taken peeked _ _ absorbed turns chain =>
    have drained : Steady s.skipped (({ s with pq } : Session).drainChain P header.pn) :=
      drainChain_steady (s := { s with pq }) header.pn
    exact drained.trans chain.steady

theorem skipKeys_storable (sized : P.Sized) {ck : Bytes} (header : hk.length = aeadKey) (gap : Nat) {st : SkippedKeys}
    (stored : st.Storable) (size : ck.length = 32) (fits : counter ≤ u32Max) :
    (skipKeys P hk gap st ck counter).1.Storable := by
  induction gap generalizing st ck counter with
  | zero => exact stored
  | succ gap ih =>
    exact ih (stored.insert header fits (sized.chainStep ck).1) (sized.chainStep ck).2 (satAdd_u32 counter 1)

section

variable (sized : P.Sized) (st : s.Storable P)
include sized st

theorem ChainEffect.storable (size : hk.length = aeadKey)
    (h : ChainEffect P s hk n s' messageKey) : s'.Storable P := by
  cases h with
  | late old taken => exact { st with skipped := (st.skipped.take taken).1 }
  | ahead new limit chain =>
    have skipped := skipKeys_storable sized size (n - s.nr) st.skipped (st.ckr _ chain) st.nr
    refine { st with skipped, ckr := fun k mem => ?_, nr := satAdd_u32 _ 1 }
    cases mem
    exact (sized.chainStep _).2

theorem drainChain_storable (pn : Nat) : (s.drainChain P pn).Storable := by
  unfold drainChain
  split
  case h_1 ck hk chain key => exact skipKeys_storable sized (st.hkr hk key) _ st.skipped (st.ckr ck chain) st.nr
  case h_2 => exact st.skipped

theorem turn_storable (formed : header.WellFormed) (rng : SizedRng)
    (taken peeked : List Bytes) : (s.turn P header rng.toRng taken peeked).Storable P := by
  have peer := st.pq.commitMix formed.mixEpoch
  obtain ⟨-, chain₁, header₁⟩ := sized.rootStep s.root (s.peerArgs P header taken)
  obtain ⟨root₂, chain₂, header₂⟩ := sized.rootStep (rootStep P s.root (s.peerArgs P header taken)).rootKey
    (s.ownArgs P header rng.toRng peeked)
  exact {
    sessionId := st.sessionId, root := root₂, dhs := rng.x25519_length, dhsPub := rfl
    dhr := fun k mem => (by cases mem; exact formed.dhPub)
    cks := fun k mem => (by cases mem; exact chain₂)
    hks := fun k mem => (by cases mem; exact st.nhks)
    nhks := header₂
    ckr := fun k mem => (by cases mem; exact chain₁)
    hkr := fun k mem => (by cases mem; exact st.nhkr)
    nhkr := header₁, ns := Nat.zero_le _, nr := Nat.zero_le _, pn := st.ns, sendMixEpoch := peer.mixTarget
    pq := peer.commitMix peer.mixTarget, skipped := drainChain_storable sized st header.pn
    bootstrap := st.bootstrap }

theorem AdvanceEffect.storable (formed : header.WellFormed) {rng : SizedRng}
    (h : AdvanceEffect P s header rng.toRng which s' messageKey args) : s'.Storable P := by
  have absorb : ∀ {pq}, absorbPq P s.pq header rng.toRng = .ok pq → ({ s with pq } : Session).Storable P :=
    fun absorbed => { st with pq := absorbPq_storable sized st.pq formed absorbed }
  cases h with
  | stored absorbed taken => exact { absorb absorbed with skipped := (st.skipped.take taken).1 }
  | current absorbed key chain => exact chain.storable sized (absorb absorbed) (st.hkr _ key)
  | @next pq taken peeked _ _ absorbed turns chain =>
    exact chain.storable sized (turn_storable sized (absorb absorbed) formed rng taken peeked) st.nhkr

end

theorem openHeader_ok {nonce ad headerCt : Bytes} {keys : List (Opener × Bytes)}
    (h : openHeader P nonce ad headerCt keys = .ok (which, header)) : header.WellFormed := by
  induction keys with
  | nil => cases h
  | cons key keys ih =>
    unfold openHeader at h
    split at h
    case h_1 pt opened =>
      obtain ⟨header', decoded, eq⟩ := bind_ok.1 h
      cases eq
      exact (RatchetHeader.decode_ok decoded).1
    case h_2 => exact ih h

variable {parsed : ParsedWire} {opened : Opened}

theorem openParsed_storable (sized : P.Sized) (st : s.Storable P) (left : s.skipped.tick < u32Max) {rng : SizedRng}
    (h : s.openParsed P parsed rng.toRng = .ok (s', opened, args)) : s'.Storable P := by
  obtain ⟨⟨which, header⟩, front, h⟩ := bind_ok.1 h
  obtain ⟨⟨t, messageKey, args'⟩, advanced, h⟩ := bind_ok.1 h
  obtain ⟨plaintext, -, eq⟩ := bind_ok.1 h
  cases eq
  have stored := (advanceFor_ok advanced).storable sized st (openHeader_ok front)
  exact { stored with
    skipped := stored.skipped.advanceTick ((advanceFor_ok advanced).steady.tick ▸ left)
    bootstrap := fun p mem => by cases mem }

theorem openParsed_params
    (h : s.openParsed P parsed rng = .ok (s', opened, args)) : s'.skipped.params = s.skipped.params := by
  obtain ⟨⟨which, header⟩, -, h⟩ := bind_ok.1 h
  obtain ⟨⟨t, messageKey, args'⟩, advanced, h⟩ := bind_ok.1 h
  obtain ⟨plaintext, -, eq⟩ := bind_ok.1 h
  cases eq
  exact SkippedKeys.advanceTick_params.trans (advanceFor_ok advanced).steady.params

theorem decrypt_storable (sized : P.Sized) (st : s.Storable P) (left : s.skipped.tick < u32Max) {wire : Bytes} {rng : SizedRng}
    (h : s.decrypt P wire rng.toRng = .ok (s', opened, args)) : s'.Storable P := by
  obtain ⟨raw, -, h⟩ := bind_ok.1 h
  obtain ⟨parsed, -, h⟩ := bind_ok.1 h
  exact openParsed_storable sized st left h

theorem encrypt_storable (sized : P.Sized) (st : s.Storable P) (msgType : Nat) (plaintext : Bytes) (rng : SizedRng) :
    (s.encrypt P msgType plaintext rng.toRng).1.Storable P := by
  have pq := st.pq.onSend sized rng
  have attempt := encrypt_attempt (P := P) s msgType plaintext rng.toRng
  generalize s.encrypt P msgType plaintext rng.toRng = out at attempt ⊢
  cases attempt with
  | refused => exact st
  | oversized => exact { st with pq }
  | @sealed ck _ chain =>
    refine { st with pq, cks := fun k mem => ?_, ns := satAdd_u32 _ 1 }
    cases mem
    exact (sized.chainStep ck).2

/-! ## Handshakes -/

theorem expand_sized (sized : P.Sized) (sk : Bytes) :
    (expand P sk).root.length = 32 ∧ (expand P sk).initiatorHeaderKey.length = 32 ∧
      (expand P sk).responderHeaderKey.length = 32 ∧ (expand P sk).pqEpoch0.length = 32 ∧ (expand P sk).sessionId.length = 16 := by
  refine ⟨sized.hkdf .., length_block ?_, length_block ?_, sized.hkdf .., sized.hkdf ..⟩ <;> rw [sized.hkdf] <;> decide

variable {binding : Option Bytes}

variable {localIdentity : Bytes} {peer : PeerBundle}

theorem handshake_initiate {hs : HandshakeOutput} {preamble : Preamble} {ratchet : Bytes}
    (h : Handshake.initiateBound P localIdentity peer binding rng = .ok (hs, preamble, ratchet)) :
    (∃ sk, hs = expand P sk) ∧ ratchet = peer.signedPrekey ∧ preamble =
      ⟨P.x25519.pub localIdentity, P.x25519.pub rng.x25519, (peer.oneTimePrekey.map (·.1)).getD 0,
        (P.mlkem.encap peer.pqPrekey rng.encaps).1⟩ := by
  obtain ⟨dh1, -, h⟩ := bind_ok.1 h
  obtain ⟨dh2, -, h⟩ := bind_ok.1 h
  obtain ⟨dh3, -, h⟩ := bind_ok.1 h
  dsimp only at h
  split at h
  · obtain ⟨dh4, -, h⟩ := bind_ok.1 h
    cases h
    exact ⟨⟨_, rfl⟩, rfl, rfl⟩
  · cases h
    exact ⟨⟨_, rfl⟩, rfl, rfl⟩

/-- The session of a handshake, on either side, between keys of the sizes their types have. -/
inductive FromHandshake (P : Primitives) (params : SessionParams) : Session → Prop where
  | initiated {localIdentity : Bytes} {peer : PeerBundle} {binding : Option Bytes} {hsRng rng : SizedRng} {s : Session}
    {args : List RootArgs} (signed : peer.signedPrekey.length = 32) (opk : ∀ k ∈ peer.oneTimePrekey, k.1 ≤ u32Max)
    (made : initiateBound P localIdentity peer binding params hsRng.toRng rng.toRng = .ok (s, args)) : FromHandshake P params s
  | accepted {l : LocalPrekeys} {wire : Bytes} {binding : Option Bytes} {rng : SizedRng} {s : Session} {opened : Opened}
    {args : List RootArgs} (signed : l.signedPrekey.length = 32)
    (made : acceptBound P l wire binding params rng.toRng = .ok (s, opened, args)) : FromHandshake P params s

variable {params : SessionParams}

section
variable (sized : P.Sized) (interval : params.pq.rekeyInterval ≤ u32Max) (fits : params.skip.Fits)
include sized interval fits

/-- The fields of the initiator's first session that the format constrains. -/
theorem initiated_storable {hsRng rng : SizedRng}
    (signed : peer.signedPrekey.length = 32) (opk : ∀ k ∈ peer.oneTimePrekey, k.1 ≤ u32Max)
    (made : initiateBound P localIdentity peer binding params hsRng.toRng rng.toRng = .ok (s, args)) : s.Storable P := by
  obtain ⟨⟨hs, preamble, ratchet⟩, shaken, made⟩ := bind_ok.1 made
  obtain ⟨⟨sk, rfl⟩, rfl, rfl⟩ := handshake_initiate shaken
  obtain ⟨pq, epochs, made⟩ := bind_ok.1 made
  obtain ⟨skipped, store, made⟩ := bind_ok.1 made
  obtain ⟨secrets, -, made⟩ := bind_ok.1 made
  obtain ⟨dhOut, -, made⟩ := bind_ok.1 made
  cases made
  obtain ⟨valid, rfl⟩ := PqRatchet.new_ok epochs
  obtain ⟨-, initiator, responder, epoch0, sessionId⟩ := expand_sized sized sk
  have fresh := @PqRatchet.Storable.fresh .initiator _ _ valid interval epoch0
  obtain ⟨root, chain, header⟩ := sized.rootStep (expand P sk).root
    ⟨dhOut, secrets, (PqRatchet.fresh .initiator params.pq (expand P sk).pqEpoch0).mixTarget⟩
  exact {
    sessionId, root, dhs := rng.x25519_length, dhsPub := rfl
    dhr := fun k mem => (by cases mem; exact signed)
    cks := fun k mem => (by cases mem; exact chain)
    hks := fun k mem => (by cases mem; exact initiator)
    nhks := header
    ckr := fun k mem => (by cases mem)
    hkr := fun k mem => (by cases mem)
    nhkr := responder, ns := Nat.zero_le _, nr := Nat.zero_le _, pn := Nat.zero_le _, sendMixEpoch := fresh.mixTarget
    pq := fresh.commitMix fresh.mixTarget, skipped := .new store fits
    bootstrap := fun p mem => by
      cases mem
      refine ⟨sized.pub _, sized.pub _, ?_, sized.ct _ _⟩
      cases listed : peer.oneTimePrekey with
      | none => exact Nat.zero_le _
      | some k => exact opk k listed }

theorem responder_storable
    (valid : params.pq.Valid) (store : SkippedKeys.new params.skip = .ok ⟨params.skip, [], 0, 0⟩) {signedPrekey : Bytes}
    (signed : signedPrekey.length = 32) (sk : Bytes) : (responder P sk params signedPrekey).Storable P := by
  obtain ⟨root, initiator, responder, epoch0, sessionId⟩ := expand_sized sized sk
  exact {
    sessionId, root, dhs := signed, dhsPub := rfl
    dhr := fun k mem => (by cases mem)
    cks := fun k mem => (by cases mem)
    hks := fun k mem => (by cases mem)
    nhks := responder
    ckr := fun k mem => (by cases mem)
    hkr := fun k mem => (by cases mem)
    nhkr := initiator, ns := Nat.zero_le _, nr := Nat.zero_le _, pn := Nat.zero_le _, sendMixEpoch := Nat.zero_le _
    pq := .fresh valid interval epoch0, skipped := .new store fits
    bootstrap := fun p mem => (by cases mem) }

theorem FromHandshake.storable (made : FromHandshake P params s) : s.Storable P := by
  cases made with
  | initiated signed opk made => exact initiated_storable sized interval fits signed opk made
  | accepted signed made =>
    obtain ⟨parsed, sk, valid, store, made⟩ := acceptBound_ok made
    exact openParsed_storable sized (responder_storable sized interval fits valid store signed sk)
      (by decide : 0 < u32Max) made

end

theorem FromHandshake.skipParams (made : FromHandshake P params s) : s.skipped.params = params.skip := by
  cases made with
  | initiated signed opk made =>
    obtain ⟨_, -, made⟩ := bind_ok.1 made
    obtain ⟨_, -, made⟩ := bind_ok.1 made
    obtain ⟨skipped, store, made⟩ := bind_ok.1 made
    obtain ⟨_, -, made⟩ := bind_ok.1 made
    obtain ⟨_, -, made⟩ := bind_ok.1 made
    cases made
    rw [SkippedKeys.new_ok store]
  | accepted signed made =>
    obtain ⟨parsed, sk, -, -, made⟩ := acceptBound_ok made
    exact openParsed_params made

/-! ## Runs -/

inductive Act where
  | encrypt (msgType : Nat) (plaintext : Bytes) (rng : SizedRng)
  | decrypt (wire : Bytes) (rng : SizedRng)
  | restart

section

variable (P : Primitives)

/-- What a new process has: the exported session, imported. -/
def restored (s : Session) : Result Session := s.exportState >>= importState P

/-- A refused message and a refused state leave the session as it was. -/
def apply (s : Session) : Act → Session
  | .encrypt msgType plaintext rng => (s.encrypt P msgType plaintext rng.toRng).1
  | .decrypt wire rng => ((s.decrypt P wire rng.toRng).map (·.1)).toOption.getD s
  | .restart => (s.restored P).toOption.getD s

/-- The next accepted message still has a 32-bit clock. -/
def ClockLeft (s : Session) : Act → Prop
  | .decrypt _ _ => s.skipped.tick < u32Max
  | _ => True

end

theorem apply_storable (sized : P.Sized) (st : s.Storable P) (act : Act) (left : s.ClockLeft act) : (s.apply P act).Storable P := by
  cases act with
  | encrypt msgType plaintext rng => exact encrypt_storable sized st msgType plaintext rng
  | decrypt wire rng =>
    unfold apply
    dsimp only
    cases opened : s.decrypt P wire rng.toRng with
    | error e => exact st
    | ok r => exact decrypt_storable sized st left opened
  | restart =>
    unfold apply restored
    rw [st.import_export]
    exact st

theorem importStore_fits {buf rest : Bytes} {st : SkippedKeys} (imported : SkippedKeys.importState buf = .ok (st, rest)) :
    st.params.Fits := by
  obtain ⟨_, _, read₁, imported⟩ := Parser.bind_ok_iff.1 imported
  obtain ⟨_, _, read₂, imported⟩ := Parser.bind_ok_iff.1 imported
  obtain ⟨_, _, read₃, imported⟩ := Parser.bind_ok_iff.1 imported
  obtain ⟨_, _, read₄, imported⟩ := Parser.bind_ok_iff.1 imported
  obtain ⟨_, _, read₅, imported⟩ := Parser.bind_ok_iff.1 imported
  obtain ⟨params, _, lifted, imported⟩ := Parser.bind_ok_iff.1 imported
  obtain ⟨validated, -⟩ := Parser.lift_ok_iff.1 lifted
  obtain ⟨rfl, -⟩ := SkippedKeys.validated_ok validated
  iterate 2 obtain ⟨_, _, -, imported⟩ := Parser.bind_ok_iff.1 imported
  obtain ⟨-, imported⟩ := Parser.guard_ok_iff.1 imported
  obtain ⟨_, _, -, imported⟩ := Parser.bind_ok_iff.1 imported
  obtain ⟨-, imported⟩ := Parser.guard_ok_iff.1 imported
  obtain ⟨rfl, -⟩ := Parser.pure_ok_iff.1 imported
  exact ⟨Reader.varint_le read₁, Reader.varint_le read₂, Reader.varint_le read₃, Reader.varint_le read₄, Reader.varint_le read₅⟩

/-- What was imported has parameters of 32 bits. -/
theorem readState_fits {buf rest : Bytes} (read : readState P buf = .ok (s, rest)) : s.skipped.params.Fits := by
  obtain ⟨version, _, -, read⟩ := Parser.bind_ok_iff.1 read
  obtain ⟨-, read⟩ := Parser.guard_ok_iff.1 read
  -- Sixteen fields and the epoch ratchet come before the store.
  iterate 16 obtain ⟨_, _, -, read⟩ := Parser.bind_ok_iff.1 read
  obtain ⟨skipped, _, imported, read⟩ := Parser.bind_ok_iff.1 read
  iterate 2 obtain ⟨_, _, -, read⟩ := Parser.bind_ok_iff.1 read
  obtain ⟨rfl, -⟩ := Parser.pure_ok_iff.1 read
  exact importStore_fits imported

theorem restored_fits (back : s.restored P = .ok s) : s.skipped.params.Fits := by
  obtain ⟨bytes, -, imported⟩ := bind_ok.1 back
  obtain ⟨rest, read⟩ := Parser.map_fst_ok_iff.1 imported
  exact readState_fits read

/-! ### A handshake to look at -/

theorem initiateBound_made (ideal : P.Ideal) (pq : params.pq.Valid) {skip : SkipParams}
    (limits : params.skip.validated = .ok skip) (localIdentity : Bytes) (peer : PeerBundle) (binding : Option Bytes)
    (hsRng rng : Rng) : ∃ s args, initiateBound P localIdentity peer binding params hsRng rng = .ok (s, args) := by
  unfold initiateBound SkippedKeys.new
  rw [Handshake.initiateBound_eq ideal]
  simp only [bind, Except.bind, PqRatchet.new_eq _ pq, limits, dh_ok ideal]
  exact ⟨_, _, rfl⟩

def sampleSizedRng : SizedRng where
  x25519 := List.replicate 32 1
  kemKey := List.replicate mlkemDk 2
  encaps := List.replicate 32 3
  nonce := List.replicate headerNonceWire 4
  nonce_length := List.length_replicate
  x25519_length := List.length_replicate
  kemKey_length := List.length_replicate

def samplePeer : PeerBundle := ⟨List.replicate 32 5, List.replicate 32 6, some (7, List.replicate 32 8), List.replicate mlkemEk 9⟩

/-- Keys that are to be kept for `2 ^ 32` messages. -/
def wideParams : SessionParams := ⟨default, { (default : SkipParams) with maxAge := 2 ^ 32 }⟩

theorem default_pq_valid : (default : PqParams).Valid := ⟨by decide, by decide, by decide⟩

theorem samplePeer_signed : samplePeer.signedPrekey.length = 32 := List.length_replicate

theorem samplePeer_opk : ∀ k ∈ samplePeer.oneTimePrekey, k.1 ≤ u32Max := by
  intro k mem
  cases mem
  decide

/-- The age limit comes back clamped. -/
theorem wide_not_restored :
    ∃ s args, initiateBound symbolicPrimitives (List.replicate 32 0) samplePeer none wideParams sampleSizedRng.toRng
        sampleSizedRng.toRng = .ok (s, args) ∧ s.restored symbolicPrimitives ≠ .ok s := by
  obtain ⟨s, args, made⟩ := @initiateBound_made symbolicPrimitives wideParams symbolicPrimitives_ideal default_pq_valid _ rfl
    (List.replicate 32 0) samplePeer none sampleSizedRng.toRng sampleSizedRng.toRng
  refine ⟨s, args, made, fun back => ?_⟩
  have fits := restored_fits back
  rw [FromHandshake.skipParams (.initiated samplePeer_signed samplePeer_opk made)] at fits
  exact absurd fits.maxAge (by decide)

/-- A handshake's session comes back exactly where the skip parameters fit 32 bits; from there every
session of a run comes back, as long as the clock fits them as well. -/
theorem restored_iff (sized : P.Sized) (interval : params.pq.rekeyInterval ≤ u32Max) {s : Session}
    (made : FromHandshake P params s) :
    (s.restored P = .ok s ↔ params.skip.Fits) ∧
      (params.skip.Fits → ∀ acts, AllSteps (apply P) ClockLeft s acts →
        (run (apply P) s acts).restored P = .ok (run (apply P) s acts)) := by
  refine ⟨⟨fun back => made.skipParams ▸ restored_fits back, fun fits => (made.storable sized interval fits).import_export⟩, ?_⟩
  intro fits acts left
  have reached := run_invariant_of (I := fun s : Session => s.Storable P)
    (fun s act st left => apply_storable sized st act left) (made.storable sized interval fits) left
  exact reached.import_export

theorem restored_sample :
    ∃ s args, initiateBound symbolicPrimitives (List.replicate 32 0) samplePeer none default sampleSizedRng.toRng
        sampleSizedRng.toRng = .ok (s, args) ∧ s.restored symbolicPrimitives = .ok s ∧
      let after := run (apply symbolicPrimitives) s [.encrypt 1 [104] sampleSizedRng, .restart, .encrypt 1 [105] sampleSizedRng]
      after.restored symbolicPrimitives = .ok after := by
  obtain ⟨s, args, made⟩ := @initiateBound_made symbolicPrimitives default symbolicPrimitives_ideal default_pq_valid _ rfl
    (List.replicate 32 0) samplePeer none sampleSizedRng.toRng sampleSizedRng.toRng
  have fits : (default : SessionParams).skip.Fits := ⟨by decide, by decide, by decide, by decide, by decide⟩
  obtain ⟨first, later⟩ := restored_iff symbolicPrimitives_ideal.sized (by decide)
    (.initiated samplePeer_signed samplePeer_opk made)
  exact ⟨s, args, made, first.2 fits, later fits _ ⟨trivial, trivial, trivial, trivial⟩⟩

end Session

end Osl.Ratchet
