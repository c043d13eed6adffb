import Osl.Ratchet.Epochs
import Osl.Ratchet.Safety

/-!
# Epochs do not run ahead of the root

An epoch takes a message each way, and the answer to a message comes with a
Diffie-Hellman step, which mixes. So between two root steps at most one epoch
completes: `Balanced` bounds what is unmixed on either side, and with it what the
ratchets retain.
-/

namespace Osl.Ratchet

open Base PqRatchet Function

/-- The fragments of the messages sent. -/
def Frags (sent : List Msg) (f : Fragment) : Prop := ∃ m ∈ sent, f ∈ m.header.fragment

/-- Epoch `e + 1` is under way while `e` is not mixed by its owner `o`: the owner has
not made a root step since it published the key, and neither has its peer since it
answered. -/
structure Running (e : Nat) (o : Role) (qs : Role → PqRatchet) (turns : Role → Nat) (msgs : Role → List Msg) :
    Prop where
  keys : ∀ m ∈ msgs o, ∀ f ∈ m.header.fragment, f.epoch = e + 1 → m.chain + 1 = turns o
  answered : (qs o.peer).answered = some (e + 1) → turns o.peer = turns o + 1
  answers : ∀ m ∈ msgs o.peer, ∀ f ∈ m.header.fragment, f.epoch = e + 1 → m.chain = turns o

/-- Both sides have epoch `e`, and `o` owns the next one. -/
structure Balanced (P : Primitives) (e : Nat) (o : Role) (qs : Role → PqRatchet) (turns : Role → Nat)
    (msgs : Role → List Msg) : Prop where
  joint : Joint P e (qs o) (qs o.peer) (Frags (msgs o)) (Frags (msgs o.peer))
  nLag : e ≤ (qs o.peer).mixed + 1
  oLag : e ≤ (qs o).mixed + 2
  done : (qs o).pqHave = e + 1 → e ≤ (qs o).mixed
  pace : e ≤ (qs o).mixed ∨ Running e o qs turns msgs

variable {P : Primitives} {e : Nat} {o r : Role} {qs : Role → PqRatchet} {turns : Role → Nat} {msgs : Role → List Msg}
  {rng : Rng} {logged : List Msg} {out : Option Fragment} {m : Msg} {turn : Bool} {q : PqRatchet}

theorem Role.eq_or_peer (o r : Role) : r = o ∨ r = o.peer := by
  cases o <;> cases r <;> simp [Role.peer]

theorem Balanced.bounds (bal : Balanced P e o qs turns msgs) (r : Role) :
    e ≤ (qs r).pqHave ∧ (qs r).peerHave ≤ e ∧ (qs r).mixed ≤ e ∧ e ≤ (qs r).mixed + 2 := by
  have j := bal.joint
  have oLag := bal.oLag
  have nLag := bal.nLag
  have nMixed := j.nRetains.mixed
  have nHave := j.nHave
  rcases o.eq_or_peer r with rfl | rfl
  · exact ⟨j.oHave, j.oPeer.le, j.oMixed, oLag⟩
  · exact ⟨nHave.ge, j.nPeer, by omega, by omega⟩

/-! ## Sending -/

theorem frags_append_subset (sent : List Msg)
    (new : ∀ m ∈ logged, m.header.fragment = out) : ∀ f, Frags (sent ++ logged) f → Plus (Frags sent) out f := by
  rintro f ⟨m, mem, frag⟩
  rcases List.mem_append.1 mem with old | now
  · exact .inl ⟨m, old, frag⟩
  · exact .inr (new m now ▸ frag)

/-- `r` calls `encrypt`, and what that logs, if anything, is on its current chain. -/
theorem Balanced.send (ideal : P.Ideal) (bal : Balanced P e o qs turns msgs) (b : (qs r).Bounded)
    (effect : SendEffect P (qs r) rng q out) (new : ∀ m ∈ logged, m.header.fragment = out ∧ m.chain + 1 = turns r) :
    Balanced P e o (update qs r q) turns (update msgs r (msgs r ++ logged)) := by
  have frags := frags_append_subset (msgs r) fun m mem => (new m mem).1
  have same : q.mixed = (qs r).mixed ∧ q.pqHave = (qs r).pqHave ∧ q.answered = (qs r).answered := by
    cases effect <;> exact ⟨rfl, rfl, rfl⟩
  obtain ⟨mixed, pqHave, answered⟩ := same
  rcases o.eq_or_peer r with rfl | rfl
  · have j := (bal.joint.sendO ideal b effect).fewer frags fun _ => id
    refine ⟨?_, ?_, ?_, ?_, ?_⟩
    · simpa using j
    · simpa using bal.nLag
    · simpa [mixed] using bal.oLag
    · simpa [mixed, pqHave] using bal.done
    · refine bal.pace.imp (by simp [mixed]) fun running => ⟨?_, ?_, ?_⟩
      · intro m mem f frag last
        rw [update_self] at mem
        rcases List.mem_append.1 mem with old | now
        · exact running.keys m old f frag last
        · exact (new m now).2
      · simpa using running.answered
      · simpa using running.answers
  · have j := (bal.joint.sendN effect).fewer (fun _ => id) frags
    have other : o ≠ o.peer := (Role.peer_ne).symm
    refine ⟨?_, ?_, ?_, ?_, ?_⟩
    · simpa [other] using j
    · simpa [mixed] using bal.nLag
    · simpa [other] using bal.oLag
    · simpa [other] using bal.done
    · refine bal.pace.imp (by simp [other]) fun running => ⟨?_, ?_, ?_⟩
      · simpa [other] using running.keys
      · simpa [answered] using running.answered
      · intro m mem f frag last
        rw [update_self] at mem
        rcases List.mem_append.1 mem with old | now
        · exact running.answers m old f frag last
        · have sent : Frags (msgs o.peer ++ logged) f := ⟨m, mem, frag⟩
          have := running.answered (answered ▸ j.nAnswered sent last)
          have := (new m now).2
          omega

/-! ## Receiving -/

/-- What `r` knows of a genuine message `m`: it comes with a Diffie-Hellman step
(`turn`) exactly when it is on the chain `r` has not seen yet. -/
structure Arrival (r : Role) (qs : Role → PqRatchet) (turns : Role → Nat) (msgs : Role → List Msg) (m : Msg)
    (turn : Bool) : Prop where
  listed : m ∈ msgs r.peer
  valid : m.header.Valid
  pqHave : m.header.pqHave ≤ (qs r.peer).pqHave
  next : turn = true → m.chain = turns r ∧ turns r.peer = turns r + 1 ∧ m.header.mixEpoch ≤ (qs r.peer).mixed
  known : turn = false → m.chain + 2 ≤ turns r
  near : turns r ≤ turns r.peer + 1

/-- The epoch ratchet after the message: both mixes are made with a step only. -/
def mixedBy (q : PqRatchet) (m : Msg) (turn : Bool) : PqRatchet :=
  if turn then (q.commitMix m.header.mixEpoch).commitMix (q.commitMix m.header.mixEpoch).mixTarget else q

theorem mixedBy_frame (q : PqRatchet) (m : Msg) (turn : Bool) :
    (mixedBy q m turn).pqHave = q.pqHave ∧ (mixedBy q m turn).answered = q.answered ∧ q.mixed ≤ (mixedBy q m turn).mixed := by
  unfold mixedBy
  cases turn with
  | false => exact ⟨rfl, rfl, le_rfl⟩
  | true =>
    rw [if_pos rfl]
    refine ⟨?_, ?_, ((commitMix_grows).trans (commitMix_grows)).mixed⟩
    all_goals
      obtain ⟨_, _, eq⟩ := commitMix_frame (q := q.commitMix m.header.mixEpoch) (q.commitMix m.header.mixEpoch).mixTarget
      obtain ⟨_, _, eq'⟩ := commitMix_frame (q := q) m.header.mixEpoch
      rw [eq, eq']

/-- `Joint`, for whichever side owns the next epoch. -/
abbrev Synced (P : Primitives) (e : Nat) (o : Role) (qs : Role → PqRatchet) (msgs : Role → List Msg) : Prop :=
  Joint P e (qs o) (qs o.peer) (Frags (msgs o)) (Frags (msgs o.peer))

theorem mixTarget_commitMix {mix : Nat} : (q.commitMix mix).mixTarget = q.mixTarget := by
  obtain ⟨_, _, eq⟩ := commitMix_frame (q := q) mix
  rw [eq]
  rfl

section
variable (j : Synced P e o qs msgs) (r : Role) {k : Nat}
include j

theorem Synced.peer_le : (qs r).peerHave ≤ e := by
  rcases o.eq_or_peer r with rfl | rfl
  · exact j.oPeer.le
  · exact j.nPeer

theorem Synced.have_ge : e ≤ (qs r).pqHave := by
  rcases o.eq_or_peer r with rfl | rfl
  · exact j.oHave
  · exact j.nHave.ge

theorem Synced.peek (mixed : (qs r).mixed = (qs r.peer).mixed) (known : k ≤ e) :
    (qs r).peekMix k = (qs r.peer).peekMix k := by
  rcases o.eq_or_peer r with rfl | rfl
  · exact j.peek_eq mixed known
  · rw [Role.peer_peer] at mixed ⊢
    exact (j.peek_eq mixed.symm known).symm

/-- All secrets of a mix are there. -/
theorem Synced.peek_ok (known : k ≤ e) : ∃ out, (qs r).peekMix k = .ok out := by
  have retained := known.trans (j.have_ge r)
  rcases o.eq_or_peer r with rfl | rfl
  · exact j.oRetains.peek retained
  · exact j.nRetains.peek retained

theorem Synced.mix (known : k ≤ e) : Synced P e o (update qs r ((qs r).commitMix k)) msgs := by
  rcases o.eq_or_peer r with rfl | rfl
  · simpa [Synced] using j.mixO known
  · simpa [Synced, (Role.peer_ne).symm] using j.mixN known

theorem Synced.target_le : (qs r).mixTarget ≤ e :=
  (Nat.min_le_right _ _).trans (j.peer_le r)

theorem Synced.mixedBy (known : turn = true → m.header.mixEpoch ≤ e) :
    Synced P e o (update qs r (mixedBy (qs r) m turn)) msgs := by
  unfold Ratchet.mixedBy
  cases turn with
  | false => simpa using j
  | true =>
    have twice := (j.mix r (known rfl)).mix r (j.target_le r)
    simpa [mixTarget_commitMix] using twice

end

theorem Balanced.receive (ideal : P.Ideal) (bal : Balanced P e o qs turns msgs) (b : (qs r).Bounded)
    (arrival : Arrival r qs turns msgs m turn) (rng : Rng) :
    ∃ q e' o', Session.absorbPq P (qs r) m.header rng = .ok q ∧ q.mixed = (qs r).mixed ∧
      Synced P e' o' (update qs r q) msgs ∧ e ≤ e' ∧
      Balanced P e' o' (update qs r (mixedBy q m turn))
        (update turns r (turns r + if turn then 2 else 0)) msgs := by
  have sent : ∀ f ∈ m.header.fragment, Frags (msgs r.peer) f := fun f frag => ⟨m, arrival.listed, frag⟩
  have near := arrival.near
  have mixKnown : turn = true → m.header.mixEpoch ≤ e := fun turned =>
    (arrival.next turned).2.2.trans (bal.bounds r.peer).2.2.1
  rcases o.eq_or_peer r with rfl | rfl
  · -- The owner of the next epoch receives.
    obtain ⟨q, eq, mixed, j, grown⟩ := bal.joint.absorbO ideal bal.oLag arrival.pqHave sent
    obtain ⟨pqHave, answered, up⟩ := mixedBy_frame q m turn
    have synced : Synced P e r (update qs r q) msgs := by simpa [Synced] using j
    have synced' := synced.mixedBy r mixKnown
    refine ⟨q, e, r, eq, mixed, synced, le_rfl, ?_⟩
    rw [update_self, update_idem] at synced'
    -- With a root step, the owner mixes `e`.
    have stepped : turn = true → e ≤ (mixedBy q m turn).mixed := by
      rintro rfl
      unfold Ratchet.mixedBy
      rw [if_pos rfl, commitMix_mixed, mixTarget_commitMix]
      have peer : q.peerHave = e := j.oPeer
      have have_ge := j.oHave
      unfold PqRatchet.mixTarget
      omega
    have oLag := bal.oLag
    refine ⟨synced', ?_, ?_, ?_, ?_⟩
    · simpa using bal.nLag
    · rw [update_self]
      omega
    · intro complete
      rw [update_self] at complete ⊢
      cases turn with
      | true => exact stepped rfl
      | false =>
        rcases grown with same | ⟨f, frag, last⟩
        · have := bal.done (same ▸ complete)
          omega
        · rcases bal.pace with mixed' | running
          · omega
          · have := running.answers m arrival.listed f frag last
            have := arrival.known rfl
            omega
    · cases turn with
      | true => exact .inl (by simpa using stepped rfl)
      | false =>
        refine bal.pace.imp ?_ fun running => ⟨?_, ?_, ?_⟩
        · intro enough
          rw [update_self]
          omega
        · simpa using running.keys
        · simpa using running.answered
        · simpa using running.answers
  · have other : o ≠ o.peer := (Role.peer_ne).symm
    have nLag := bal.nLag
    have arrived := arrival.listed
    have heard := arrival.pqHave
    rw [Role.peer_peer] at arrived heard near
    obtain ⟨q, eq, mixed, ⟨j, grown⟩ | promoted⟩ :=
      bal.joint.absorbN ideal b (by omega) arrival.valid heard (by simpa using sent)
    · have synced : Synced P e o (update qs o.peer q) msgs := by simpa [Synced, other] using j
      have synced' := synced.mixedBy o.peer mixKnown
      obtain ⟨pqHave, answered, up⟩ := mixedBy_frame q m turn
      rw [update_self, update_idem] at synced'
      refine ⟨q, e, o, eq, mixed, synced, le_rfl, synced', ?_, ?_, ?_, ?_⟩
      · rw [update_self]
        omega
      · simpa [other] using bal.oLag
      · simpa [other] using bal.done
      · refine bal.pace.imp (by simp [other]) fun running => ⟨?_, ?_, ?_⟩
        · simpa [other] using running.keys
        · intro now
          rw [update_self, answered] at now
          rw [update_self, update_of_ne other]
          cases turn with
          | true =>
            have := (arrival.next rfl).2.1
            rw [Role.peer_peer] at this
            simp only [if_true]
            omega
          | false =>
            simp only [Bool.false_eq_true, if_false]
            rcases grown with same | ⟨f, frag, last⟩
            · have := running.answered (same ▸ now)
              omega
            · have := running.keys m arrived f frag last
              have := arrival.known rfl
              omega
        · simpa [other] using running.answers
    · have synced : Synced P (e + 1) o.peer (update qs o.peer q) msgs := by
        simpa [Synced, other] using promoted.joint
      have synced' := synced.mixedBy o.peer fun turned => (mixKnown turned).trans (by omega)
      obtain ⟨pqHave, answered, up⟩ := mixedBy_frame q m turn
      have done := bal.done promoted.done
      rw [update_self, update_idem] at synced'
      refine ⟨q, e + 1, o.peer, eq, mixed, synced, by omega, synced', ?_, ?_, ?_, .inr ⟨?_, ?_, ?_⟩⟩
      · rw [Role.peer_peer, update_of_ne other]
        omega
      · rw [update_self]
        omega
      · intro complete
        rw [update_self, pqHave, promoted.pqHave] at complete
        omega
      -- No fragment of epoch `e + 2` exists yet.
      · intro m' mem f frag last
        have := promoted.nQuiet f ⟨m', mem, frag⟩
        omega
      · intro now
        rw [Role.peer_peer, update_of_ne other] at now
        have := bal.joint.oAnswered _ now
        omega
      · intro m' mem f frag last
        rw [Role.peer_peer] at mem
        have := promoted.oQuiet f ⟨m', mem, frag⟩
        omega

end Osl.Ratchet
