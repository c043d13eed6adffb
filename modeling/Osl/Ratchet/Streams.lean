import Mathlib.Data.Nat.Periodic
import Osl.Ratchet.PqSteps

/-!
# Fragment streams are reassembled

An assembler that has only seen fragments of one stream (`Assembler.Filling`) takes
each further one, in any order and any number of times, and is complete exactly
with the stream's payload. The rotation of the sender's cursor lets a periodic loss
starve fragments only in step with a power of two.
-/

namespace Osl.Ratchet

open Base

/-! ## Cutting into chunks -/

theorem flatten_slices {α : Type*} {xs : List α} {c n : Nat} :
    ((List.range n).map fun i => slice (i * c) c xs).flatten = xs.take (n * c) := by
  induction n with
  | zero => simp
  | succ n ih =>
    rw [List.range_succ, List.map_append, List.flatten_append, ih, Nat.succ_mul, List.take_add]
    simp [slice]

theorem Outbox.flatten_fragments {ob : Outbox} (pos : 0 < ob.chunk) :
    ((List.range ob.total).map fun i => (ob.fragment i).data).flatten = ob.payload := by
  have whole : ob.payload.length ≤ ob.total * ob.chunk := by
    have : ¬ ob.total < divCeil ob.payload.length ob.chunk := Nat.not_lt_of_le (Nat.le_max_left ..)
    rw [lt_divCeil pos] at this
    omega
  exact (flatten_slices).trans (List.take_of_length_le whole)

/-! ## The order of sending -/

namespace Outbox

/-- The stream after `t` fragments. -/
def after (ob : Outbox) (t : Nat) : Outbox := (fun ob => ob.next.2)^[t] ob

variable {ob : Outbox}

theorem after_eq (u32 : ob.cursor < 2 ^ 32) {t : Nat} : ob.after t = { ob with cursor := (ob.cursor + t) % 2 ^ 32 } := by
  induction t with
  | zero =>
    rw [Nat.add_zero, Nat.mod_eq_of_lt u32]
    rfl
  | succ t ih =>
    rw [after, Function.iterate_succ_apply', ← after, ih]
    simp only [next, Outbox.mk.injEq, true_and]
    omega

theorem index_after (u32 : ob.cursor < 2 ^ 32) {t c : Nat} (cursor : (ob.cursor + t) % 2 ^ 32 = c) :
    (ob.after t).next.1.index = (c + c / ob.total) % 2 ^ 32 % ob.total := by
  rw [after_eq u32, cursor]
  rfl

/-- A loss pattern starves no index exactly if each belongs to a cursor that is, modulo what of
the period divides the cursor's range, one of a message that gets through. -/
theorem every_index_delivered_iff (ob : Outbox) (u32 : ob.cursor < 2 ^ 32) (delivered : Nat → Bool) (period : Nat)
    (pos : 0 < period) (periodic : Function.Periodic delivered period) :
    (∀ i < ob.total, ∀ n, ∃ t ≥ n, delivered t ∧ (ob.after t).next.1.index = i) ↔
      ∀ i < ob.total, ∃ t < period, delivered t ∧
        ∃ c < 2 ^ 32, c ≡ ob.cursor + t [MOD Nat.gcd period (2 ^ 32)] ∧ (c + c / ob.total) % 2 ^ 32 % ob.total = i := by
  refine forall₂_congr fun i _ => ⟨fun often => ?_, fun found n => ?_⟩
  · obtain ⟨t, -, through, sent⟩ := often 0
    refine ⟨t % period, Nat.mod_lt t pos, ?_, (ob.cursor + t) % 2 ^ 32, Nat.mod_lt _ (by decide), ?_, ?_⟩
    · rw [periodic.map_mod_nat]
      exact through
    · have wraps := (Nat.mod_modEq (ob.cursor + t) (2 ^ 32)).of_dvd (Nat.gcd_dvd_right period _)
      have repeats := (Nat.mod_modEq t period).symm.of_dvd (Nat.gcd_dvd_left period (2 ^ 32))
      exact wraps.trans (repeats.add_left ob.cursor)
    · rw [← index_after u32 rfl, sent]
  · obtain ⟨t, -, through, c, small, same, sent⟩ := found
    obtain ⟨k, place, cursor⟩ := Nat.chineseRemainder' same.symm
    -- A later time at the same place of the pattern, with the cursor at `c`.
    obtain ⟨later, late, whole⟩ : ∃ later ≥ n, ob.cursor + later = k + (n + ob.cursor) * (period * 2 ^ 32) := by
      have far : n + ob.cursor ≤ (n + ob.cursor) * (period * 2 ^ 32) := Nat.le_mul_of_pos_right _ (by omega)
      exact ⟨k + (n + ob.cursor) * (period * 2 ^ 32) - ob.cursor, by omega, by omega⟩
    have again : later ≡ t [MOD period] := by
      refine Nat.ModEq.add_left_cancel' ob.cursor ?_
      rw [whole, Nat.mul_left_comm]
      exact Nat.ModEq.trans (by simp [Nat.ModEq]) place
    have back : (ob.cursor + later) % 2 ^ 32 = c := by
      rw [whole, ← Nat.mul_assoc, Nat.add_mul_mod_self_right, cursor, Nat.mod_eq_of_lt small]
    refine ⟨later, late, ?_, ?_⟩
    · rw [← periodic.map_mod_nat, again, periodic.map_mod_nat]
      exact through
    · rw [index_after u32 back, sent]

/-- A key in four fragments. -/
def sampleStream : Outbox := ⟨fragKindEk, 1, List.replicate mlkemEk 0, 296, 0⟩

theorem sampleStream_total : sampleStream.total = 4 := by
  unfold total sampleStream
  rw [List.length_replicate]
  rfl

/-- Every third message gets through. -/
theorem every_index_delivered_sample :
    sampleStream.total = 4 ∧ ∀ i < sampleStream.total, ∀ n, ∃ t ≥ n, decide (t % 3 = 0) ∧
      (sampleStream.after t).next.1.index = i := by
  refine ⟨sampleStream_total, (every_index_delivered_iff sampleStream (by decide) (fun t => decide (t % 3 = 0)) 3 (by decide)
    (by simp [Function.Periodic])).2 fun i lt => ⟨0, by decide, rfl, i, ?_, ?_, ?_⟩⟩
  · rw [sampleStream_total] at lt
    omega
  · exact (by decide : Nat.gcd 3 (2 ^ 32) = 1) ▸ Nat.modEq_one
  · rw [sampleStream_total] at lt ⊢
    omega

/-- Every sixteenth does: always the first fragment. -/
theorem sixteenth_message_starves_fragments :
    sampleStream.total = 4 ∧ ∀ t, t % 16 = 0 → (sampleStream.after t).next.1.index = 0 := by
  refine ⟨sampleStream_total, fun t slot => ?_⟩
  rw [index_after (by decide) rfl, sampleStream_total, show sampleStream.cursor = 0 from rfl]
  omega

end Outbox

/-! ## Filling -/

namespace Assembler

/-- Some fragments of `ob`, but not all. -/
structure Filling (a : Assembler) (ob : Outbox) : Prop where
  kind : a.kind = ob.kind
  epoch : a.epoch = ob.epoch
  total : a.total = ob.total
  size : a.chunks.length = ob.total
  data : ∀ {i c}, a.chunks[i]? = some (some c) → c = (ob.fragment i).data
  received : a.received = a.chunks.countP Option.isSome
  missing : a.received < ob.total

section
variable (ob : Outbox) (idxs : List Nat)

/-- The slots once the fragments `idxs` of `ob` are in. -/
def slots : List (Option Bytes) :=
  (List.range ob.total).map fun i => if i ∈ idxs then some (ob.fragment i).data else none

/-- The assembler that has taken them. -/
def seen : Assembler := ⟨ob.kind, ob.epoch, ob.total, slots ob idxs, (slots ob idxs).countP Option.isSome⟩

/-- They are all there are. -/
def Covers : Prop := ∀ i < ob.total, i ∈ idxs

instance : Decidable (Covers ob idxs) := inferInstanceAs (Decidable (∀ i < ob.total, i ∈ idxs))

end

variable {idxs more : List Nat} {idx i : Nat} {a : Assembler} {ob : Outbox}

theorem getElem?_slots (lt : idx < ob.total) :
    (slots ob idxs)[idx]? = some (if idx ∈ idxs then some (ob.fragment idx).data else none) := by
  simp [slots, lt]

theorem length_slots : (slots ob idxs).length = ob.total := by simp [slots]

theorem slots_cons (lt : idx < ob.total) :
    slots ob (idx :: idxs) = (slots ob idxs).set idx (some (ob.fragment idx).data) := by
  refine List.ext_getElem? fun i => ?_
  by_cases same : idx = i
  · subst same
    rw [List.getElem?_set_self (length_slots.symm ▸ lt), getElem?_slots lt, if_pos List.mem_cons_self]
  rw [List.getElem?_set_ne same]
  by_cases inside : i < ob.total
  · simp only [getElem?_slots inside, List.mem_cons, Ne.symm same, false_or]
  · rw [List.getElem?_eq_none (by rw [length_slots]; omega), List.getElem?_eq_none (by rw [length_slots]; omega)]

/-- It is complete when nothing is missing. -/
theorem received_seen : (seen ob idxs).received < (seen ob idxs).total ↔ ¬ Covers ob idxs := by
  have full : (slots ob idxs).countP Option.isSome = (slots ob idxs).length ↔ Covers ob idxs := by
    rw [List.countP_eq_length]
    simp [slots, Covers]
  have le := (slots ob idxs).countP_le_length (p := Option.isSome)
  rw [← full, length_slots]
  rw [length_slots] at le
  exact ⟨Nat.ne_of_lt, Nat.lt_of_le_of_ne le⟩

theorem concat_map_some {ds : List Bytes} : concat (ds.map some) = .ok ds.flatten := by
  induction ds with
  | nil => rfl
  | cons d ds ih =>
    rw [List.map_cons, concat, ih]
    rfl

/-- A full assembler holds the payload. -/
theorem concat_slots (pos : 0 < ob.chunk) (all : Covers ob idxs) : concat (slots ob idxs) = .ok ob.payload := by
  have full : slots ob idxs = ((List.range ob.total).map fun i => (ob.fragment i).data).map some := by
    rw [List.map_map]
    exact List.map_congr_left fun i mem => if_pos (all i (List.mem_range.1 mem))
  rw [full, concat_map_some, Outbox.flatten_fragments pos]

theorem countP_set_isSome {chunks : List (Option Bytes)} {d : Bytes} (hole : chunks[i]? = some none) :
    (chunks.set i (some d)).countP Option.isSome = chunks.countP Option.isSome + 1 := by
  induction chunks generalizing i with
  | nil => cases hole
  | cons c chunks ih =>
    cases i with
    | zero =>
      obtain rfl : c = none := by simpa using hole
      simp
    | succ i =>
      rw [List.set_cons_succ, List.countP_cons, List.countP_cons, ih (by simpa using hole)]
      omega

/-- One more fragment, new or not. -/
theorem fill_seen (few : ob.total ≤ maxFragments) (lt : idx < ob.total) :
    (seen ob idxs).fill (ob.fragment idx) (if idx ∈ idxs then some (ob.fragment idx).data else none) =
      seen ob (idx :: idxs) := by
  by_cases old : idx ∈ idxs
  · -- A duplicate changes nothing.
    have same : slots ob (idx :: idxs) = slots ob idxs := by
      refine List.map_congr_left fun i _ => if_congr ?_ rfl rfl
      rw [List.mem_cons]
      exact or_iff_right_of_imp fun eq => eq ▸ old
    rw [if_pos old, seen, seen, same]
    rfl
  · have hole : (slots ob idxs)[idx]? = some none := by rw [getElem?_slots lt, if_neg old]
    have count := countP_set_isSome (d := (ob.fragment idx).data) hole
    have le := (slots ob (idx :: idxs)).countP_le_length (p := Option.isSome)
    rw [length_slots] at le
    rw [← slots_cons lt] at count
    unfold maxFragments at few
    simp only [if_neg old, Assembler.fill, seen, Option.isNone_none, if_true]
    rw [count, slots_cons lt, satAdd_eq (by omega)]
    rfl

/-- The payload comes out with the last index that was missing. -/
theorem accept_seen (pos : 0 < ob.chunk) (few : ob.total ≤ maxFragments) (lt : idx < ob.total) :
    (seen ob idxs).accept (ob.fragment idx) =
      .ok (seen ob (idx :: idxs), if Covers ob (idx :: idxs) then some ob.payload else none) := by
  have get : (seen ob idxs).chunks[idx]? = some (if idx ∈ idxs then some (ob.fragment idx).data else none) :=
    getElem?_slots lt
  unfold Assembler.accept
  rw [if_neg (not_not.2 rfl : ¬ (ob.fragment idx).total ≠ (seen ob idxs).total)]
  simp only [show (ob.fragment idx).index = idx from rfl, get, fill_seen few lt]
  by_cases all : Covers ob (idx :: idxs)
  · rw [if_neg (fun less => received_seen.1 less all), if_pos all]
    exact bind_ok.2 ⟨_, concat_slots pos all, rfl⟩
  · rw [if_pos (received_seen.2 all), if_neg all]

theorem seen_filling (some : ¬ Covers ob idxs) : (seen ob idxs).Filling ob where
  kind := rfl
  epoch := rfl
  total := rfl
  size := length_slots
  data here := by
    simp only [seen, slots, List.getElem?_map, Option.map_eq_some_iff, Option.ite_none_right_eq_some, Option.some.injEq] at here
    obtain ⟨j, there, -, rfl⟩ := here
    obtain ⟨-, rfl⟩ := List.getElem?_eq_some_iff.1 there
    simp
  received := rfl
  missing := received_seen.2 some

theorem Filling.eq_seen (h : a.Filling ob) : ∃ idxs, a = seen ob idxs := by
  obtain ⟨idxs, chunks⟩ : ∃ idxs, a.chunks = slots ob idxs := by
    refine ⟨(List.range ob.total).filter fun i => (a.chunks[i]?).any Option.isSome, List.ext_getElem? fun i => ?_⟩
    by_cases lt : i < ob.total
    · rw [getElem?_slots lt]
      obtain ⟨slot, get⟩ : ∃ slot, a.chunks[i]? = some slot := ⟨_, List.getElem?_eq_getElem (h.size ▸ lt)⟩
      cases slot with
      | none => simp [get]
      | some c => simp [get, lt, h.data get]
    · rw [List.getElem?_eq_none (by rw [h.size]; omega), List.getElem?_eq_none (by rw [length_slots]; omega)]
  refine ⟨idxs, ?_⟩
  obtain ⟨kind, epoch, total, -, -, received, -⟩ := h
  rw [seen, ← kind, ← epoch, ← total, ← chunks, ← received]

theorem new_eq_seen : new ob.kind ob.epoch ob.total = seen ob [] := by
  have empty : slots ob [] = List.replicate ob.total none := by simp [slots, List.map_const']
  rw [seen, empty, List.countP_replicate]
  rfl

theorem filling_new : (new ob.kind ob.epoch ob.total).Filling ob := by
  obtain ⟨idx, lt, -⟩ := ob.next_fragment
  exact new_eq_seen ▸ seen_filling fun all => List.not_mem_nil (all idx lt)

theorem Filling.accept (h : a.Filling ob) (b : ob.Bounded) (lt : idx < ob.total) :
    ∃ a', a.accept (ob.fragment idx) = .ok (a', none) ∧ a'.Filling ob ∨
      a.accept (ob.fragment idx) = .ok (a', some ob.payload) ∧ a'.kind = ob.kind ∧ a'.epoch = ob.epoch := by
  obtain ⟨idxs, rfl⟩ := h.eq_seen
  have taken : (seen ob idxs).accept _ = _ := accept_seen b.pos (b.total_eq.trans_le b.total) lt
  split at taken
  · exact ⟨_, .inr ⟨taken, rfl, rfl⟩⟩
  · rename_i some
    exact ⟨_, .inl ⟨taken, seen_filling some⟩⟩

/-- Take fragments in turn. -/
def feed (a : Assembler) : List Fragment → Result Assembler
  | [] => .ok a
  | f :: fs => do
    let (a, _) ← a.accept f
    a.feed fs

theorem feed_seen (pos : 0 < ob.chunk) (few : ob.total ≤ maxFragments) (inside : ∀ i ∈ more, i < ob.total) :
    (seen ob idxs).feed (more.map ob.fragment) = .ok (seen ob (more.reverse ++ idxs)) := by
  induction more generalizing idxs with
  | nil => rfl
  | cons i more ih =>
    rw [List.forall_mem_cons] at inside
    rw [List.map_cons, feed, accept_seen pos few inside.1, List.reverse_cons, List.append_assoc]
    exact ih inside.2

/-- Fragments of one stream are taken in any order and any number of times, and the payload
comes out when the last index missing does. -/
theorem payload_with_last_fragment (ob : Outbox) (pos : 0 < ob.chunk) (few : ob.total ≤ maxFragments) (idxs : List Nat)
    (idx : Nat) (inside : ∀ i ∈ idx :: idxs, i < ob.total) :
    ∃ a a', (new ob.kind ob.epoch ob.total).feed (idxs.map ob.fragment) = .ok a ∧
      a.accept (ob.fragment idx) = .ok (a', if ∀ i < ob.total, i ∈ idx :: idxs then some ob.payload else none) := by
  rw [List.forall_mem_cons] at inside
  have fed : (seen ob []).feed _ = _ := feed_seen pos few inside.2
  have taken : (seen ob (idxs.reverse ++ [])).accept _ = _ := accept_seen pos few inside.1
  rw [← new_eq_seen] at fed
  simp only [Covers, List.mem_cons, List.append_nil, List.mem_reverse] at taken
  exact ⟨_, _, fed, by simpa using taken⟩

/-- Three bytes in chunks of two: the short last fragment twice, then the first. -/
theorem payload_with_last_fragment_sample :
    let ob : Outbox := ⟨fragKindEk, 1, [7, 8, 9], 2, 0⟩
    ∃ a a', (new ob.kind ob.epoch ob.total).feed ([1, 1].map ob.fragment) = .ok a ∧
      a.accept (ob.fragment 0) = .ok (a', some [7, 8, 9]) :=
  payload_with_last_fragment ⟨fragKindEk, 1, [7, 8, 9], 2, 0⟩ (by decide) (by decide) [1, 1] 0 (by decide)

end Assembler

/-! ## Into the ratchet -/

namespace PqRatchet

variable {P : Primitives} {q : PqRatchet} {ob : Outbox} {f : Fragment} {rng : Rng}

/-- What is being assembled, if anything, is `ob`. -/
def Collecting (q : PqRatchet) (ob : Outbox) : Prop := ∀ a ∈ q.inbox, a.Filling ob

theorem Collecting.assemblerFor (h : q.Collecting ob) (idx : Nat) : (q.assemblerFor (ob.fragment idx)).Filling ob := by
  unfold PqRatchet.assemblerFor
  split
  · rename_i a inbox
    have filling := h a inbox
    rw [if_neg]
    · exact filling
    · rintro (epoch | kind)
      · exact epoch filling.epoch
      · exact kind filling.kind
  · exact Assembler.filling_new

theorem onFragment_old (fromPeer : q.FromPeer f) (old : ¬ q.Fresh f) : q.onFragment P f rng = .ok q := by
  unfold onFragment
  rcases fromPeer with ⟨kind, own⟩ | ⟨kind, own⟩
  all_goals
    rw [if_neg (by simp [kind, own, fragKindEk, fragKindCt]), if_neg (by simp [kind, own, fragKindEk, fragKindCt]),
      if_neg (by simp [kind])]
    split
    · rfl
    · rename_i ahead
      rw [if_pos]
      by_contra unanswered
      exact old ⟨by omega, unanswered⟩

theorem onFragment_eq (fromPeer : q.FromPeer f) (fresh : q.Fresh f) (near : f.epoch ≤ q.pqHave + maxEpochLookahead)
    (u32 : f.epoch ≤ u32Max) :
    q.onFragment P f rng = (do
      let (a, complete) ← (q.assemblerFor f).accept f
      match complete with
      | none => .ok { q with inbox := some a }
      | some payload =>
        let q := { q with inbox := none }
        if a.kind = fragKindEk then q.onEkComplete P a.epoch payload rng
        else q.onCtComplete P a.epoch payload) := by
  have lookahead : ¬ f.epoch > satAdd 32 q.pqHave maxEpochLookahead := by
    unfold satAdd
    unfold u32Max at u32
    omega
  have ahead := fresh.1
  rcases fromPeer with ⟨kind, own⟩ | ⟨kind, own⟩
  all_goals
    refine (if_neg (by simp [kind, own, fragKindEk, fragKindCt])).trans ?_
    refine (if_neg (by simp [kind, own, fragKindEk, fragKindCt])).trans ?_
    refine (if_neg (by simp [kind])).trans ?_
    exact (if_neg (by omega)).trans ((if_neg fresh.2).trans (if_neg lookahead))

theorem insertSecret_of_room (room : q.secrets.size < maxRetainedEpochs) (epoch : Nat) (ss : Bytes) :
    q.insertSecret epoch ss = .ok { q with secrets := q.secrets.insert epoch ss } := by
  exact if_neg (by omega)

section
variable (b : ob.Bounded) (collecting : q.Collecting ob) {idx : Nat}
include b collecting

/-- A fragment of the next epoch is collected or completes the payload. -/
theorem onFragment_next (fromPeer : q.FromPeer (ob.fragment idx))
    (fresh : q.Fresh (ob.fragment idx)) (next : ob.epoch = q.pqHave + 1) (lt : idx < ob.total) {rng : Rng} :
    (∃ a, a.Filling ob ∧ q.onFragment P (ob.fragment idx) rng = .ok { q with inbox := some a }) ∨
      q.onFragment P (ob.fragment idx) rng =
        if ob.kind = fragKindEk then onEkComplete P { q with inbox := none } ob.epoch ob.payload rng
        else onCtComplete P { q with inbox := none } ob.epoch ob.payload := by
  have epoch : (ob.fragment idx).epoch = ob.epoch := rfl
  rw [onFragment_eq fromPeer fresh (by unfold maxEpochLookahead; omega) (epoch ▸ b.epoch)]
  obtain ⟨a, ⟨accepted, filling⟩ | ⟨accepted, tag, number⟩⟩ := (collecting.assemblerFor idx).accept b lt
  · rw [accepted]
    exact .inl ⟨a, filling, rfl⟩
  · rw [accepted, ← tag, ← number]
    exact .inr rfl

/-- A fragment of the peer's encapsulation key. -/
theorem onFragment_ek (room : q.secrets.size < maxRetainedEpochs)
    (kind : ob.kind = fragKindEk) (length : ob.payload.length = mlkemEk) (theirs : q.role.owns ob.epoch = false)
    (next : ob.epoch = q.pqHave + 1) (unanswered : q.answered.any (ob.epoch ≤ ·) = false)
    (lt : idx < ob.total) (rng : Rng) :
    (∃ a, a.Filling ob ∧ q.onFragment P (ob.fragment idx) rng = .ok { q with inbox := some a }) ∨
      q.onFragment P (ob.fragment idx) rng =
        .ok { q with
          inbox := none
          secrets := q.secrets.insert ob.epoch (P.mlkem.encap ob.payload rng.encaps).2
          answered := some ob.epoch
          outbox := some (q.ctOutbox ob.epoch (P.mlkem.encap ob.payload rng.encaps).1) } := by
  have epoch : (ob.fragment idx).epoch = ob.epoch := rfl
  have fresh : q.Fresh (ob.fragment idx) := ⟨by omega, by rw [epoch, unanswered]; simp⟩
  refine (onFragment_next b collecting (.inl ⟨kind, theirs⟩) fresh next lt).imp_right fun complete => ?_
  rw [complete, if_pos kind]
  unfold onEkComplete
  rw [if_neg (not_not.2 length)]
  simp only [insertSecret_of_room (q := { q with inbox := none }) room, bind, Except.bind]
  rfl

/-- A fragment of the answer to our encapsulation key. -/
theorem onFragment_ct (room : q.secrets.size < maxRetainedEpochs)
    (kind : ob.kind = fragKindCt) (length : ob.payload.length = mlkemCt) (ours : q.role.owns ob.epoch = true)
    (next : ob.epoch = q.pqHave + 1) {dk : Bytes} (own : q.ownKem = some (ob.epoch, dk))
    (lt : idx < ob.total) (rng : Rng) :
    (∃ a, a.Filling ob ∧ q.onFragment P (ob.fragment idx) rng = .ok { q with inbox := some a }) ∨
      q.onFragment P (ob.fragment idx) rng =
        .ok { q with
          inbox := none
          secrets := q.secrets.insert ob.epoch (P.mlkem.decap dk ob.payload)
          ownKem := none
          outbox := none
          pqHave := ob.epoch
          sinceComplete := 0 } := by
  have epoch : (ob.fragment idx).epoch = ob.epoch := rfl
  have fresh : q.Fresh (ob.fragment idx) :=
    ⟨by omega, by simp [show (ob.fragment idx).kind = ob.kind from rfl, kind, fragKindEk, fragKindCt]⟩
  refine (onFragment_next b collecting (.inr ⟨kind, ours⟩) fresh next lt).imp_right fun complete => ?_
  rw [complete, kind, if_neg (by decide)]
  unfold onCtComplete
  simp only [own]
  rw [if_neg (by simp), if_neg (not_not.2 length)]
  rw [insertSecret_of_room (q := { q with inbox := none, ownKem := some (ob.epoch, dk) }) room]
  rfl

end

end PqRatchet

end Osl.Ratchet
