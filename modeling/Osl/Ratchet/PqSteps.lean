import Osl.Ratchet.Wire

/-!
# What the epoch ratchet's operations do

One relation or equation for each operation says everything it can do to the
state. From them: counters only grow (`Grows`), and every fragment sent is a valid
one (`PqRatchet.Bounded`).
-/

namespace Osl.Ratchet

open Base Std

theorem u32_succ {n : Nat} (lt : n < u32Max) : satAdd 32 n 1 = n + 1 := by
  unfold u32Max at lt
  exact satAdd_eq (by omega)

namespace PqRatchet

variable {P : Primitives} {q q' q'' : PqRatchet} {rng : Rng} {f : Fragment} {peerHave epoch mix : Nat} {out : Option Fragment}

/-! ## Sending -/

/-- The stream that starts the epoch after `q.pqHave`. -/
def ekOutbox (P : Primitives) (q : PqRatchet) (dk : Bytes) : Outbox :=
  ⟨fragKindEk, q.pqHave + 1, P.mlkem.pub dk, q.params.fragmentBytes, 0⟩

inductive SendEffect (P : Primitives) (q : PqRatchet) (rng : Rng) : PqRatchet → Option Fragment → Prop where
  | quiet (since : Nat) (idle : q.outbox = none) : SendEffect P q rng { q with sinceComplete := since } none
  | again (since : Nat) {ob : Outbox} (busy : q.outbox = some ob) :
    SendEffect P q rng { q with sinceComplete := since, outbox := some ob.next.2 } (some ob.next.1)
  | start (since : Nat) (idle : q.outbox = none) (noKey : q.ownKem = none) (owner : q.role.owns (q.pqHave + 1))
    (fits : q.pqHave + 1 ≤ u32Max) :
    SendEffect P q rng
      { q with
        sinceComplete := since
        ownKem := some (q.pqHave + 1, rng.kemKey)
        outbox := some (q.ekOutbox P rng.kemKey).next.2 }
      (some (q.ekOutbox P rng.kemKey).next.1)

theorem onSend_effect (bound : q.pqHave ≤ u32Max) (rng : Rng) :
    SendEffect P q rng (q.onSend P rng).1 (q.onSend P rng).2 := by
  have plain : ∀ since, SendEffect P q rng ({ q with sinceComplete := since }).nextFragment.1
      ({ q with sinceComplete := since }).nextFragment.2 := by
    intro since
    unfold nextFragment
    split
    · rename_i idle
      exact .quiet since idle
    · rename_i ob busy
      exact .again since busy
  unfold onSend maybeStartEpoch
  dsimp only
  split
  · exact plain _
  rename_i free
  split
  · exact plain _
  split
  · exact plain _
  rename_i grows
  split
  · exact plain _
  rename_i owner
  split
  · exact plain _
  -- The epoch starts.
  have next : satAdd 32 q.pqHave 1 = q.pqHave + 1 := by
    unfold satAdd at grows ⊢
    unfold u32Max at bound
    omega
  have fits : q.pqHave + 1 ≤ u32Max := by
    rw [← next]
    exact Nat.min_le_right _ _
  simp only [next] at owner ⊢
  simp only [not_or, Option.isSome_iff_ne_none, not_not] at free
  exact .start _ free.1 free.2 (by simpa using owner) fits

/-! ## Receiving -/

theorem onPeerHave_stale (stale : peerHave ≤ q.peerHave) : q.onPeerHave peerHave = q :=
  if_pos stale

/-- A raised announcement. -/
theorem onPeerHave_raised (raised : q.peerHave < peerHave) :
    q.onPeerHave peerHave =
      { q with
        peerHave
        pqHave := if q.pqHave < peerHave ∧ q.secrets.contains peerHave then peerHave else q.pqHave
        sinceComplete := if q.pqHave < peerHave ∧ q.secrets.contains peerHave then 0 else q.sinceComplete
        outbox := q.outbox.filter fun ob => ¬ (ob.kind = fragKindCt ∧ ob.epoch ≤ peerHave) } := by
  unfold onPeerHave
  rw [if_neg (by omega)]
  by_cases promote : q.pqHave < peerHave ∧ q.secrets.contains peerHave = true
  all_goals
    simp only [gt_iff_lt, promote, if_false]
    cases h : q.outbox with
    | none => rfl
    | some ob =>
      by_cases acked : ob.kind = fragKindCt ∧ ob.epoch ≤ peerHave <;> simp [acked, Option.filter]

/-- The stream that answers `f`'s epoch. -/
def ctOutbox (q : PqRatchet) (epoch : Nat) (ct : Bytes) : Outbox :=
  ⟨fragKindCt, epoch, ct, q.params.fragmentBytes, 0⟩

/-- Neither of an epoch we have nor of one we have answered. -/
def Fresh (q : PqRatchet) (f : Fragment) : Prop :=
  q.pqHave < f.epoch ∧ ¬ (f.kind = fragKindEk ∧ q.answered.any (f.epoch ≤ ·) = true)

inductive FragmentEffect (P : Primitives) (q : PqRatchet) (f : Fragment) (rng : Rng) : PqRatchet → Prop where
  | ignored (old : ¬ q.Fresh f) : FragmentEffect P q f rng q
  | stored (fresh : q.Fresh f) {a : Assembler} (accepted : (q.assemblerFor f).accept f = .ok (a, none)) :
    FragmentEffect P q f rng { q with inbox := some a }
  | answered (fresh : q.Fresh f) {a : Assembler} {ek : Bytes}
    (accepted : (q.assemblerFor f).accept f = .ok (a, some ek)) (kind : f.kind = fragKindEk) :
    FragmentEffect P q f rng
      { q with
        inbox := none
        secrets := q.secrets.insert f.epoch (P.mlkem.encap ek rng.encaps).2
        answered := some f.epoch
        outbox := some (q.ctOutbox f.epoch (P.mlkem.encap ek rng.encaps).1) }
  | dropped (fresh : q.Fresh f) {a : Assembler} {ct : Bytes}
    (accepted : (q.assemblerFor f).accept f = .ok (a, some ct)) (kind : f.kind = fragKindCt)
    (other : ∀ dk, q.ownKem ≠ some (f.epoch, dk)) :
    FragmentEffect P q f rng { q with inbox := none }
  | completed (fresh : q.Fresh f) {a : Assembler} {ct dk : Bytes}
    (accepted : (q.assemblerFor f).accept f = .ok (a, some ct)) (kind : f.kind = fragKindCt)
    (own : q.ownKem = some (f.epoch, dk)) :
    FragmentEffect P q f rng
      { q with
        inbox := none
        secrets := q.secrets.insert f.epoch (P.mlkem.decap dk ct)
        ownKem := none
        outbox := none
        pqHave := f.epoch
        sinceComplete := 0 }

theorem assemblerFor_tag (q : PqRatchet) (f : Fragment) :
    (q.assemblerFor f).kind = f.kind ∧ (q.assemblerFor f).epoch = f.epoch := by
  unfold assemblerFor
  split
  · split
    · exact ⟨rfl, rfl⟩
    · tauto
  · exact ⟨rfl, rfl⟩

section
variable {a a' : Assembler} {out : Option Bytes} (h : a.accept f = .ok (a', out))
include h

theorem accept_fill : ∃ slot, a.chunks[f.index]? = some slot ∧ a' = a.fill f slot := by
  unfold Assembler.accept at h
  split at h
  · cases h
  split at h
  · cases h
  rename_i slot found
  refine ⟨slot, found, ?_⟩
  split at h
  · cases h
    rfl
  · obtain ⟨bytes, -, eq⟩ := bind_ok.1 h
    cases eq
    rfl

theorem accept_tag : a'.kind = a.kind ∧ a'.epoch = a.epoch := by
  obtain ⟨slot, -, rfl⟩ := accept_fill h
  unfold Assembler.fill
  split <;> exact ⟨rfl, rfl⟩

end

theorem insertSecret_ok {ss : Bytes} (h : q.insertSecret epoch ss = .ok q') :
    q' = { q with secrets := q.secrets.insert epoch ss } ∧
      (q.secrets.size ≤ maxRetainedEpochs → (q.secrets.insert epoch ss).size ≤ maxRetainedEpochs) := by
  unfold insertSecret at h
  split at h
  · cases h
  rename_i room
  cases h
  refine ⟨rfl, fun few => ?_⟩
  rw [ExtTreeMap.size_insert]
  split
  · exact few
  · rename_i absent
    have free : ¬ q.secrets.size ≥ maxRetainedEpochs := fun full => absurd absent (not_and.1 room full)
    omega

/-- Only the peer's epochs come with keys, only our own with ciphertexts. -/
def FromPeer (q : PqRatchet) (f : Fragment) : Prop :=
  (f.kind = fragKindEk ∧ q.role.owns f.epoch = false) ∨ (f.kind = fragKindCt ∧ q.role.owns f.epoch = true)

/-- What a fragment does; the secrets stay within their limit. -/
theorem onFragment_effect (h : q.onFragment P f rng = .ok q') :
    FragmentEffect P q f rng q' ∧ (q.secrets.size ≤ maxRetainedEpochs → q'.secrets.size ≤ maxRetainedEpochs) := by
  unfold onFragment at h
  split at h
  · cases h
  split at h
  · cases h
  split at h
  · cases h
  rename_i known
  split at h
  · rename_i old
    cases h
    exact ⟨.ignored fun fresh => absurd fresh.1 (by omega), id⟩
  split at h
  · rename_i old
    cases h
    exact ⟨.ignored fun fresh => fresh.2 old, id⟩
  rename_i unanswered
  have fresh : q.Fresh f := ⟨by omega, unanswered⟩
  split at h
  · cases h
  obtain ⟨⟨a, complete⟩, accepted, h⟩ := bind_ok.1 h
  obtain ⟨kind, epoch⟩ := accept_tag accepted
  rw [(q.assemblerFor_tag f).1] at kind
  rw [(q.assemblerFor_tag f).2] at epoch
  cases complete with
  | none =>
    cases h
    exact ⟨.stored fresh accepted, id⟩
  | some payload =>
    dsimp only at h
    split at h
    · rename_i ek
      unfold onEkComplete at h
      split at h
      · cases h
      obtain ⟨_, inserted, h⟩ := bind_ok.1 h
      obtain ⟨rfl, few⟩ := insertSecret_ok inserted
      cases h
      rw [epoch] at few ⊢
      exact ⟨.answered fresh accepted (kind ▸ ek), few⟩
    · rename_i notEk
      have ct : f.kind = fragKindCt := by
        rw [kind] at notEk
        tauto
      unfold onCtComplete at h
      split at h
      · rename_i none
        cases h
        exact ⟨.dropped fresh accepted ct fun dk some => (by simp_all), id⟩
      rename_i ownEpoch dk own
      split at h
      · rename_i other
        cases h
        refine ⟨.dropped fresh accepted ct fun dk' some => other ?_, id⟩
        rw [own] at some
        cases some
        exact epoch.symm
      rename_i same
      split at h
      · cases h
      obtain ⟨_, inserted, h⟩ := bind_ok.1 h
      obtain ⟨rfl, few⟩ := insertSecret_ok inserted
      cases h
      rw [epoch] at few ⊢
      refine ⟨.completed fresh accepted ct ?_, few⟩
      rw [own, not_not.1 same, epoch]

/-! ## Mixing -/

/-- Taking a mix is peeking at it and committing it, unless it is ahead of us. -/
theorem takeMix_iff {out : List Bytes} :
    q.takeMix mix = .ok (out, q') ↔
      (mix ≤ q.mixed ∨ mix ≤ q.pqHave) ∧ q.peekMix mix = .ok out ∧ q' = q.commitMix mix := by
  unfold takeMix peekMix commitMix
  by_cases stale : mix ≤ q.mixed
  · rw [if_pos stale, if_pos stale, if_neg (by omega)]
    simp only [stale, true_or, true_and, Except.ok.injEq, Prod.mk.injEq]
    tauto
  · rw [if_neg stale, if_neg stale, if_pos (by omega : mix > q.mixed)]
    by_cases known : mix ≤ q.pqHave
    · rw [if_neg (by omega), bind_ok]
      simp only [known, or_true, true_and, Except.ok.injEq, Prod.mk.injEq]
      constructor
      · rintro ⟨secrets, found, rfl, rfl⟩
        exact ⟨found, rfl⟩
      · rintro ⟨found, rfl⟩
        exact ⟨out, found, rfl, rfl⟩
    · rw [if_pos (by omega)]
      simp only [reduceCtorEq, false_iff, not_and]
      omega

theorem commitMix_mixed (mix : Nat) : (q.commitMix mix).mixed = max q.mixed mix := by
  unfold commitMix prune
  split
  · dsimp only
    omega
  · omega

theorem commitMix_secrets (mix e : Nat) :
    (q.commitMix mix).secrets[e]? = if q.mixed < mix ∧ e ≤ mix then none else q.secrets[e]? := by
  unfold commitMix prune
  by_cases up : mix > q.mixed
  · rw [if_pos up, ExtTreeMap.getElem?_filter']
    cases h : q.secrets[e]? with
    | none => simp
    | some s =>
      by_cases old : e ≤ mix
      · simp [Option.filter, up, old]
      · have later : mix < e := by omega
        simp [Option.filter, old, later]
  · rw [if_neg up, if_neg (by omega)]

/-- Everything but `mixed` and the secrets is left. -/
theorem commitMix_frame (mix : Nat) : ∃ mixed secrets, q.commitMix mix = { q with mixed, secrets } := by
  unfold commitMix prune
  split <;> exact ⟨_, _, rfl⟩

/-! ## Counters only grow -/

structure Grows (q q' : PqRatchet) : Prop where
  pqHave : q.pqHave ≤ q'.pqHave
  peerHave : q.peerHave ≤ q'.peerHave
  mixed : q.mixed ≤ q'.mixed

theorem Grows.refl : Grows q q := ⟨le_rfl, le_rfl, le_rfl⟩

theorem Grows.trans (h : Grows q q') (h' : Grows q' q'') : Grows q q'' :=
  ⟨h.pqHave.trans h'.pqHave, h.peerHave.trans h'.peerHave, h.mixed.trans h'.mixed⟩

theorem SendEffect.grows (h : SendEffect P q rng q' out) : Grows q q' := by
  cases h <;> exact ⟨le_rfl, le_rfl, le_rfl⟩

theorem onPeerHave_grows (peerHave : Nat) : Grows q (q.onPeerHave peerHave) := by
  by_cases stale : peerHave ≤ q.peerHave
  · rw [onPeerHave_stale stale]
    exact .refl
  · rw [onPeerHave_raised (by omega)]
    refine ⟨?_, ?_, le_rfl⟩
    · dsimp only
      split <;> omega
    · dsimp only
      omega

theorem FragmentEffect.grows (h : FragmentEffect P q f rng q') : Grows q q' := by
  cases h with
  | completed fresh => exact ⟨fresh.1.le, le_rfl, le_rfl⟩
  | _ => exact ⟨le_rfl, le_rfl, le_rfl⟩

theorem commitMix_grows : Grows q (q.commitMix mix) := by
  have mixed := commitMix_mixed (q := q) mix
  obtain ⟨_, _, eq⟩ := commitMix_frame (q := q) mix
  refine ⟨?_, ?_, ?_⟩
  · rw [eq]
  · rw [eq]
  · rw [mixed]
    exact le_max_left _ _

end PqRatchet

/-! ## Every fragment sent is valid -/

theorem lt_divCeil {i a b : Nat} (pos : 0 < b) : i < divCeil a b ↔ i * b < a := by
  unfold divCeil
  rw [Nat.lt_iff_add_one_le, Nat.le_div_iff_mul_le pos, Nat.succ_mul]
  omega

theorem divCeil_mono {a a' : Nat} (le : a ≤ a') {b : Nat} : divCeil a b ≤ divCeil a' b :=
  Nat.div_le_div_right (by omega)

/-- The next fragment is one of the stream's. -/
theorem Outbox.next_fragment (ob : Outbox) : ∃ idx < ob.total, ob.next.1 = ob.fragment idx := by
  refine ⟨_, Nat.mod_lt _ ?_, rfl⟩
  unfold Outbox.total
  omega

structure Outbox.Bounded (ob : Outbox) : Prop where
  kind : ob.kind = fragKindEk ∨ ob.kind = fragKindCt
  epoch : ob.epoch ≤ u32Max
  pos : 0 < ob.chunk
  chunk : ob.chunk ≤ maxFragmentBytes
  nonempty : 0 < ob.payload.length
  total : divCeil ob.payload.length ob.chunk ≤ maxFragments

namespace Outbox.Bounded

variable {ob : Outbox}

theorem total_eq (b : ob.Bounded) : ob.total = divCeil ob.payload.length ob.chunk := by
  have : 0 < divCeil ob.payload.length ob.chunk := (lt_divCeil b.pos).2 (by simpa using b.nonempty)
  unfold Outbox.total
  omega

theorem fragment_valid (b : ob.Bounded) {idx : Nat} (lt : idx < ob.total) : (ob.fragment idx).Valid where
  kind := b.kind
  epoch := b.epoch
  index := lt
  total := b.total_eq.trans_le b.total
  nonempty := by
    have inside : idx * ob.chunk < ob.payload.length := (lt_divCeil b.pos).1 (b.total_eq ▸ lt)
    have pos := b.pos
    refine List.ne_nil_of_length_pos ?_
    simp only [Outbox.fragment, slice, List.length_take, List.length_drop]
    omega
  data := by
    simp only [Outbox.fragment, slice, List.length_take]
    exact (Nat.min_le_left _ _).trans b.chunk

theorem next (b : ob.Bounded) : ob.next.2.Bounded := ⟨b.kind, b.epoch, b.pos, b.chunk, b.nonempty, b.total⟩

theorem next_valid (b : ob.Bounded) : ob.next.1.Valid := by
  obtain ⟨idx, lt, eq⟩ := ob.next_fragment
  exact eq ▸ b.fragment_valid lt

end Outbox.Bounded

structure PqParams.Valid (p : PqParams) : Prop where
  pos : 0 < p.fragmentBytes
  le : p.fragmentBytes ≤ maxFragmentBytes
  total : divCeil mlkemEk p.fragmentBytes ≤ maxFragments

theorem PqParams.validated_iff {p p' : PqParams} : p.validated = .ok p' ↔ p' = p ∧ p.Valid := by
  unfold PqParams.validated
  constructor
  · intro h
    split at h
    · cases h
    split at h
    · cases h
    cases h
    exact ⟨rfl, by omega, by omega, by omega⟩
  · rintro ⟨rfl, pos, le, total⟩
    rw [if_neg (by omega), if_neg (by omega)]

namespace PqRatchet

variable {P : Primitives} {q q' : PqRatchet} {rng : Rng} {f : Fragment} {params : PqParams} {role : Role}
  {secret payload : Bytes} {epoch : Nat} {out : Option Fragment}

/-- All counters fit their field, and so does all that is still to be sent. -/
structure Bounded (q : PqRatchet) : Prop where
  params : q.params.Valid
  have_le : q.pqHave ≤ u32Max
  outbox : ∀ ob ∈ q.outbox, ob.Bounded

/-- Epoch 0 is there, nothing is under way. -/
def fresh (role : Role) (params : PqParams) (secret : Bytes) : PqRatchet where
  params := params
  role := role
  pqHave := 0
  mixed := 0
  peerHave := 0
  secrets := (∅ : ExtTreeMap Nat Bytes).insert 0 secret
  ownKem := none
  answered := none
  outbox := none
  inbox := none
  sinceComplete := 0

theorem new_eq (role : Role) (valid : params.Valid) (secret : Bytes) :
    new role params secret = .ok (fresh role params secret) := by
  unfold new
  rw [PqParams.validated_iff.2 ⟨rfl, valid⟩]
  rfl

theorem new_ok (h : new role params secret = .ok q) : params.Valid ∧ q = fresh role params secret := by
  obtain ⟨params', checked, eq⟩ := bind_ok.1 h
  obtain ⟨rfl, valid⟩ := PqParams.validated_iff.1 checked
  cases eq
  exact ⟨valid, rfl⟩

theorem fresh_bounded (valid : params.Valid) : (fresh role params secret).Bounded :=
  ⟨valid, Nat.zero_le _, by simp [fresh]⟩

/-- A payload no longer than an encapsulation key fits into fragments. -/
theorem Bounded.stream (b : q.Bounded) {kind : Nat} (known : kind = fragKindEk ∨ kind = fragKindCt)
    (fits : epoch ≤ u32Max) (nonempty : 0 < payload.length) (short : payload.length ≤ mlkemEk) :
    (⟨kind, epoch, payload, q.params.fragmentBytes, 0⟩ : Outbox).Bounded :=
  ⟨known, fits, b.params.pos, b.params.le, nonempty, (divCeil_mono short).trans b.params.total⟩

theorem Bounded.ekOutbox (ideal : P.Ideal) (b : q.Bounded) (fits : q.pqHave + 1 ≤ u32Max) (dk : Bytes) :
    (q.ekOutbox P dk).Bounded := by
  refine b.stream (.inl rfl) fits ?_ ?_ <;> rw [ideal.mlkem.pub_length]
  decide

theorem Bounded.ctOutbox (ideal : P.Ideal) (b : q.Bounded) (fits : epoch ≤ u32Max) (ek r : Bytes) :
    (q.ctOutbox epoch (P.mlkem.encap ek r).1).Bounded := by
  refine b.stream (.inr rfl) fits ?_ ?_ <;> rw [ideal.mlkem.ct_length] <;> decide

theorem SendEffect.bounded (ideal : P.Ideal) (h : SendEffect P q rng q' out) (b : q.Bounded) :
    q'.Bounded ∧ ∀ f ∈ out, f.Valid := by
  cases h with
  | quiet => exact ⟨⟨b.params, b.have_le, b.outbox⟩, by simp⟩
  | again _ busy =>
    have old := b.outbox _ busy
    exact ⟨⟨b.params, b.have_le, by simpa using old.next⟩, by simpa using old.next_valid⟩
  | start _ _ _ _ fits =>
    have new := b.ekOutbox ideal fits rng.kemKey
    exact ⟨⟨b.params, b.have_le, by simpa using new.next⟩, by simpa using new.next_valid⟩

theorem Bounded.onPeerHave (b : q.Bounded) {peerHave : Nat} (fits : peerHave ≤ u32Max) :
    (q.onPeerHave peerHave).Bounded := by
  by_cases stale : peerHave ≤ q.peerHave
  · rwa [onPeerHave_stale stale]
  · rw [onPeerHave_raised (by omega)]
    refine ⟨b.params, ?_, fun ob mem => b.outbox ob (Option.mem_filter_iff.1 mem).1⟩
    have := b.have_le
    split <;> omega

theorem FragmentEffect.bounded (ideal : P.Ideal) (h : FragmentEffect P q f rng q') (b : q.Bounded)
    (valid : f.Valid) : q'.Bounded := by
  cases h with
  | ignored => exact b
  | stored => exact ⟨b.params, b.have_le, b.outbox⟩
  | answered => exact ⟨b.params, b.have_le, by simpa using b.ctOutbox ideal valid.epoch _ _⟩
  | dropped => exact ⟨b.params, b.have_le, b.outbox⟩
  | completed => exact ⟨b.params, valid.epoch, by simp⟩

theorem Bounded.commitMix (b : q.Bounded) (mix : Nat) : (q.commitMix mix).Bounded := by
  obtain ⟨_, _, eq⟩ := commitMix_frame (q := q) mix
  rw [eq]
  exact ⟨b.params, b.have_le, b.outbox⟩

end PqRatchet

end Osl.Ratchet
