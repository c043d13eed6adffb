import Osl.Lifecycle.Invariant

/-!
# When a crash-recovery snapshot validates

`accept_part` sorts what it has staged, so parts may arrive in any order, but
`validate_snapshot` accepts only a gap-free prefix of the indices. A snapshot
written between the two halves of an out-of-order delivery is therefore
reported as corrupt, and an honest record fails in no other way
(`snapshots_valid_iff_inOrder`).
-/

namespace Osl.Lifecycle.LogicalMessageLifecycle

open Base

variable {sha256 : List UInt8 → Digest} {s s' : LogicalMessageLifecycle} {l : LifecycleLimits} {part : AcceptedPart}
  {op : Op}

/-- The staged parts are the first ones, with no gap. -/
def Contiguous (s : LogicalMessageLifecycle) : Prop :=
  s.parts.map (·.index) = List.range s.parts.length

theorem checkParts_ok {i total : Nat} {parts : List AcceptedPart}
    (order : parts.map (·.index) = List.range' i parts.length)
    (sized : ∀ p ∈ parts, p.sealedBytes ≠ 0 ∧ p.sealedBytes ≤ l.maxPartBytes)
    (room : total + (parts.map (·.sealedBytes)).sum < 2 ^ 64) :
    checkParts l i total parts = .ok (total + (parts.map (·.sealedBytes)).sum) := by
  induction parts generalizing i total with
  | nil => rfl
  | cons p ps ih =>
    simp only [List.map_cons, List.length_cons, List.range'_succ, List.cons.injEq] at order
    simp only [List.map_cons, List.sum_cons] at room
    have hp := sized p (by simp)
    unfold checkParts
    rw [if_neg (by omega), satAdd_eq (by omega),
      ih order.2 (fun q hq => sized q (by simp [hq])) (by omega)]
    simp [Nat.add_assoc]

theorem checkParts_order {i total t : Nat} {parts : List AcceptedPart}
    (ok : checkParts l i total parts = .ok t) : parts.map (·.index) = List.range' i parts.length := by
  induction parts generalizing i total with
  | nil => rfl
  | cons p ps ih =>
    unfold checkParts at ok
    split at ok
    · cases ok
    · rename_i h
      simp only [List.map_cons, List.length_cons, List.range'_succ]
      rw [ih ok]
      congr 1
      omega

/-- Distinct indices below the declared count are at most that many. -/
theorem Sound.length_le (h : Sound sha256 s) : s.parts.length ≤ s.expectedParts := by
  have sub : s.parts.map (·.index) ⊆ List.range s.expectedParts := by
    intro i hi
    obtain ⟨p, hp, rfl⟩ := List.mem_map.1 hi
    exact List.mem_range.2 (h.indexLt p hp)
  simpa using (List.subperm_of_subset h.distinct sub).length_le

/-- On a sound snapshot the validator looks for gaps and nothing else. -/
theorem Sound.validate_iff (h : Sound sha256 s) : s.validateSnapshot sha256 = .ok () ↔ s.Contiguous := by
  have len := h.length_le
  have expected := h.expected
  have clock := h.clock
  have ttl := h.ttl
  have total := h.total
  have hard := (limits_validate_ok h.limits).2
  have hard' : hardMaxTotalBytes < 2 ^ 64 := by decide
  have framing : ¬ (s.messageId = zeroDigest ∨ s.scopeDigest = zeroDigest ∨ s.expectedParts = 0 ∨
      s.expectedParts > s.limits.maxParts ∨ s.expiresAt ≤ s.createdAt ∨
      s.openTtlSeconds > hardMaxOpenTtlSeconds ∨ s.parts.length > s.expectedParts) := by
    simp only [not_or]
    exact ⟨h.messageId, h.scopeDigest, by omega, by omega, by omega, by omega, by omega⟩
  unfold validateSnapshot
  rw [h.limits]
  simp only [bind, Except.bind]
  rw [if_neg framing]
  constructor
  · intro ok
    split at ok
    · cases ok
    · rename_i t parts
      have := checkParts_order parts
      rwa [← List.range_eq_range'] at this
  · intro order
    have parts := @checkParts_ok s.limits 0 0 s.parts (by rw [← List.range_eq_range']; exact order)
      h.sized (by unfold stagedBytes at total; omega)
    rw [parts]
    simp only [Nat.zero_add]
    rw [if_neg (show ¬ (s.parts.map (·.sealedBytes)).sum > s.limits.maxTotalBytes by
        unfold stagedBytes at total; omega),
      if_neg (fun f => by simpa using absurd (Option.isNone_iff_eq_none.1 f.2) (h.failureSome f.1)),
      if_neg (fun f => by
        rw [not_or] at f
        simp [h.failureNone f.1.1 f.1.2] at f),
      if_neg (by simp [h.evidence])]
    split
    · rename_i m hm
      split
      · rfl
      · rename_i unburned
        have burned : s.status ≠ .burned := fun b => unburned ⟨b, by simp [(h.burnedEmpty b).1]⟩
        obtain ⟨all, rfl⟩ := h.manifest m hm burned
        have count : s.parts.length = s.expectedParts := by simpa using congrArg List.length all
        rw [if_neg (by simp [count])]
    · rename_i none
      rw [if_neg (fun p => h.published p none)]

/-- A snapshot that validates carries the evidence its status asks for. -/
theorem shape_of_valid (ok : (s.validateSnapshot sha256).isOk = true) : s.evidenceShape = true := by
  unfold validateSnapshot at ok
  cases limits : s.limits.validate with
  | error e =>
    rw [limits] at ok
    cases ok
  | ok l =>
    rw [limits] at ok
    simp only [bind, Except.bind] at ok
    split at ok
    · cases ok
    · split at ok
      · cases ok
      · by_contra shape
        rw [Bool.not_eq_true] at shape
        rw [shape] at ok
        simp only [Bool.not_false, if_true] at ok
        split_ifs at ok <;> cases ok

/-- The condition on one call: a part it stores as a new one is the next part. -/
def InOrder (s : LogicalMessageLifecycle) (op : Op) : Prop :=
  ∀ part now, op = .acceptPart part now → Stages s part now → part.index = s.parts.length

theorem contiguous_stage (h : s.Contiguous) (next : part.index = s.parts.length) : (s.stage part).Contiguous := by
  have order : (s.parts ++ [part]).map (·.index) = List.range (s.parts.length + 1) := by
    rw [List.map_append, h, List.range_succ]; simp [next]
  have sorted : (s.parts ++ [part]).Pairwise fun a b => a.index ≤ b.index := by
    have : ((s.parts ++ [part]).map (·.index)).Pairwise (· ≤ ·) := by
      rw [order]; exact List.pairwise_le_range
    exact List.pairwise_map.1 this
  unfold Contiguous stage
  rw [sorted.insertionSort_eq, order]
  simp

theorem index_of_contiguous_stage (h : s.Contiguous)
    (after : (s.stage part).Contiguous) : part.index = s.parts.length := by
  have perm : (s.stage part).parts.Perm (s.parts ++ [part]) := List.perm_insertionSort _ _
  have total := (perm.map (·.index)).sum_nat
  have count : (s.stage part).parts.length = s.parts.length + 1 := by simp [perm.length_eq]
  rw [after, List.map_append, List.sum_append, h, count, List.range_succ, List.sum_append] at total
  simpa using total.symm

/-- A call that stores no part leaves the parts as they are or drops them all. -/
theorem Effect.contiguous (eff : Effect sha256 s op s')
    (other : ∀ part now, op ≠ .acceptPart part now) (order : s.Contiguous) : s'.Contiguous := by
  cases eff with
  | same | expired | failed | frozen => exact order
  | staged part now => exact absurd rfl (other part now)
  | advanced kind => cases kind <;> exact order
  | burned => rfl

/-- One step: from a gap-free snapshot, the next one is gap-free exactly when
the call meets `InOrder`. -/
theorem contiguous_apply_iff (order : s.Contiguous) : (s.apply sha256 op).Contiguous ↔ InOrder s op := by
  cases op with
  | acceptPart part now =>
    have iff : InOrder s (.acceptPart part now) ↔ (Stages s part now → part.index = s.parts.length) :=
      ⟨fun f => f part now rfl, fun f p n eq => by cases eq; exact f⟩
    rw [iff]
    rcases @acceptPart_cases sha256 s part now with ⟨stages, eq⟩ | ⟨refused, parts, -⟩
    · have : s.apply sha256 (.acceptPart part now) = s.stage part := congrArg Prod.fst eq
      rw [this]
      exact ⟨fun after _ => index_of_contiguous_stage order after,
        fun next => contiguous_stage order (next stages)⟩
    · exact ⟨fun _ stages => absurd stages refused, fun _ => by unfold Contiguous; erw [parts]; exact order⟩
  | _ =>
    refine ⟨fun _ _ _ eq => (nomatch eq), fun _ => ?_⟩
    exact (@apply_effect sha256 s _).contiguous (by rintro _ _ ⟨⟩) order

/-- A new record is gap-free: `prepare` stages nothing, and `receive` ends with
a frozen manifest. -/
theorem contiguous_built (b : Built sha256 s) : s.Contiguous := by
  cases b with
  | prepared ok =>
    unfold Contiguous
    rw [(@sound_prepare sha256 s _ _ _ _ _ _ _ ok).2.2.1]
    rfl
  | received ok =>
    obtain ⟨sound, frozen, unburned⟩ := sound_receive ok
    obtain ⟨m, hm⟩ := Option.ne_none_iff_exists'.1 frozen
    have all := (sound.manifest m hm unburned).1
    have count : s.parts.length = s.expectedParts := by simpa using congrArg List.length all
    unfold Contiguous
    rw [all, count]

/-- Every snapshot along a run of calls is accepted by `validate_snapshot`
exactly when every part the run stores is the next one. -/
theorem snapshots_valid_iff_inOrder (b : Built sha256 s) (ops : List Op) :
    (∀ pre, pre <+: ops → (run (apply sha256) s pre).validateSnapshot sha256 = .ok ()) ↔
      AllSteps (apply sha256) InOrder s ops := by
  rw [← run_prefix_iff (I := Sound sha256) (P := Contiguous) (fun _ op h _ => h.apply op)
    (fun _ op _ order => contiguous_apply_iff order) (sound_built b) (contiguous_built b)]
  have valid : ∀ pre, (run (apply sha256) s pre).validateSnapshot sha256 = .ok () ↔
      (run (apply sha256) s pre).Contiguous := fun pre => (sound_run b pre).validate_iff
  simp only [valid]

/-- Part 0, then part 1: every snapshot is valid. -/
theorem snapshots_valid_twoParts :
    Built (fun _ => zeroDigest) twoParts ∧
      ∀ pre, pre <+: [Op.acceptPart (partAt 0) 20, .acceptPart (partAt 1) 30] →
        (run (apply fun _ => zeroDigest) twoParts pre).validateSnapshot (fun _ => zeroDigest) =
          .ok () :=
  ⟨built_twoParts, (snapshots_valid_iff_inOrder (built_twoParts) _).2
    ⟨by rintro _ _ ⟨⟩ _; rfl, by rintro _ _ ⟨⟩ _; rfl, trivial⟩⟩

/-- Part 1 first: `accept_part` stores it, and the snapshot is called corrupt. -/
theorem snapshot_corrupt_part_one_first :
    Built (fun _ => zeroDigest) twoParts ∧
      (twoParts.acceptPart (partAt 1) 20).2 = .ok .changed ∧
      (run (apply fun _ => zeroDigest) twoParts [.acceptPart (partAt 1) 20]).validateSnapshot
        (fun _ => zeroDigest) = .error .corruptSnapshot :=
  ⟨built_twoParts, by decide, by decide⟩

end Osl.Lifecycle.LogicalMessageLifecycle
