import Osl.Lifecycle.Model

/-!
# What a lifecycle call can do, and what every call keeps

`Effect` lists the seven ways a call can change a snapshot, each with the
guards the source has checked by then; `apply_effect` says there is no other.
`Sound` is the invariant read off it. It says everything `validate_snapshot`
checks except that the staged parts have no gap, which is the one thing a call
does not keep (`Snapshot.lean`).
-/

namespace Osl.Lifecycle.LogicalMessageLifecycle

open Base

variable {sha256 : List UInt8 → Digest} {s : LogicalMessageLifecycle} {op : Op} {now : Nat}

/-- The guards of `accept_part` up to the push: the call stores `part`. -/
structure Stages (s : LogicalMessageLifecycle) (part : AcceptedPart) (now : Nat) : Prop where
  inTime : now < s.effectiveExpiresAt
  prepared : s.status = .prepared
  unfrozen : s.manifestDigest = none
  indexLt : part.index < s.expectedParts
  nonempty : part.sealedBytes ≠ 0
  fresh : ∀ p ∈ s.parts, p.index ≠ part.index
  small : part.sealedBytes ≤ s.limits.maxPartBytes
  fits : satAdd 64 s.stagedBytes part.sealedBytes ≤ s.limits.maxTotalBytes

/-- The status a receipt kind leaves and the one it enters. -/
def EvidenceKind.src : EvidenceKind → ReceiptStatus
  | .relay => .prepared
  | .received => .relayAccepted
  | .opened => .received

def EvidenceKind.dst : EvidenceKind → ReceiptStatus
  | .relay => .relayAccepted
  | .received => .received
  | .opened => .opened

/-- The ways a call can change a snapshot. Only `accept_part` stores a part. -/
inductive Effect (sha256 : List UInt8 → Digest) (s : LogicalMessageLifecycle) :
    Op → LogicalMessageLifecycle → Prop where
  | same {op : Op} : Effect sha256 s op s
  | expired {op : Op} (live : s.status.isTerminal = false) :
      Effect sha256 s op { s with status := .expired }
  | failed {op : Op} (code : FailureCode) (live : s.status.isTerminal = false)
      (unopened : s.status ≠ .opened) :
      Effect sha256 s op { s with status := .failed, failure := some code }
  | staged (part : AcceptedPart) (now : Nat) (h : Stages s part now) :
      Effect sha256 s (.acceptPart part now) (s.stage part)
  | frozen {op : Op} (prepared : s.status = .prepared) (count : s.parts.length = s.expectedParts)
      (order : s.parts.map (·.index) = List.range s.parts.length) :
      Effect sha256 s op { s with manifestDigest := some (s.manifestOf sha256) }
  | advanced {op : Op} (kind : EvidenceKind) (e : TransitionEvidence) (src : s.status = kind.src)
      (frozen : kind = .relay → s.manifestDigest ≠ none)
      (later : ∀ prior ∈ s.priorObservedAt kind, prior ≤ e.observedAt) :
      Effect sha256 s op ({ s with status := kind.dst }.setEvidence e kind)
  | burned (unburned : s.status ≠ .burned) :
      Effect sha256 s .burn { s with status := .burned, parts := [], relayEvidence := none
                                     receivedEvidence := none, openedEvidence := none }

theorem expire_effect : Effect sha256 s op (s.expire now).1 := by
  unfold expire
  split
  · split <;> exact .same
  · split
    · exact .same
    · rename_i live _
      exact .expired (by simpa using live)

theorem expire_parts : (s.expire now).1.parts = s.parts := by
  unfold expire
  split
  · split <;> rfl
  · split <;> rfl

/-- `require_prepared` lets through exactly the prepared snapshots in time. -/
theorem requirePrepared_cases (s : LogicalMessageLifecycle) (op : Op) (now : Nat) :
    (now < s.effectiveExpiresAt ∧ s.status = .prepared ∧ s.requirePrepared now = (s, .ok ())) ∨
      (¬ (now < s.effectiveExpiresAt ∧ s.status = .prepared) ∧
        ∃ s' e, s.requirePrepared now = (s', .error e) ∧ s'.parts = s.parts ∧ Effect sha256 s op s') := by
  unfold requirePrepared
  by_cases late : now ≥ s.effectiveExpiresAt
  · rw [if_pos late]
    exact .inr ⟨by omega, _, _, rfl, expire_parts, expire_effect⟩
  · rw [if_neg late]
    by_cases prep : s.status = .prepared
    · exact .inl ⟨by omega, prep, by rw [if_neg (by simp [prep])]⟩
    · exact .inr ⟨fun h => prep h.2, _, _, by rw [if_pos prep], rfl, .same⟩

/-- `accept_part` stores the part, or its effect does not touch the parts. -/
theorem acceptPart_cases (s : LogicalMessageLifecycle) (part : AcceptedPart) (now : Nat) :
    (Stages s part now ∧ s.acceptPart part now = (s.stage part, .ok .changed)) ∨
      (¬ Stages s part now ∧ (s.acceptPart part now).1.parts = s.parts ∧
        Effect sha256 s (.acceptPart part now) (s.acceptPart part now).1) := by
  unfold acceptPart
  rcases @requirePrepared_cases sha256 s (.acceptPart part now) now with
    ⟨inTime, prepared, ok⟩ | ⟨closed, s', e, err, parts, effect⟩
  · rw [ok]
    have live : s.status.isTerminal = false := by rw [prepared]; rfl
    have unopened : s.status ≠ .opened := by rw [prepared]; decide
    dsimp only
    split
    · rename_i frozen
      refine .inr ⟨fun h => ?_, rfl, .same⟩
      rw [h.unfrozen] at frozen; cases frozen
    rename_i unfrozen
    split
    · rename_i out
      exact .inr ⟨fun h => by have := h.indexLt; have := h.nonempty; omega, rfl, .failed _ live unopened⟩
    split
    · rename_i existing found
      have mem := List.mem_of_find?_eq_some found
      have same : existing.index = part.index := by simpa using List.find?_some found
      have old : ¬ Stages s part now := fun h => h.fresh existing mem same
      split
      · exact .inr ⟨old, rfl, .same⟩
      · exact .inr ⟨old, rfl, .failed _ live unopened⟩
    · rename_i missing
      split
      · rename_i big
        exact .inr ⟨fun h => by have := h.small; have := h.fits; omega, rfl, .failed _ live unopened⟩
      · rename_i room
        refine .inl ⟨⟨inTime, prepared, by simpa using unfrozen, by omega, by omega, ?_, by omega, by omega⟩, rfl⟩
        intro p hp eq
        exact absurd eq (by simpa using List.find?_eq_none.1 missing p hp)
  · rw [err]
    exact .inr ⟨fun h => closed ⟨h.inTime, h.prepared⟩, parts, effect⟩

theorem prepareManifest_effect : Effect sha256 s op (s.prepareManifest sha256 now).1 := by
  unfold prepareManifest
  split
  · split
    · exact expire_effect
    · exact .same
  · rcases @requirePrepared_cases sha256 s op now with
      ⟨-, prepared, ok⟩ | ⟨-, s', e, err, -, effect⟩
    · rw [ok]
      dsimp only
      split
      · exact .same
      · rename_i complete
        exact .frozen prepared (by omega) (by by_contra h; exact complete (.inr h))
    · rw [err]; exact effect

theorem prepareManifest_prepared {digest : Digest} (ok : (s.prepareManifest sha256 now).2 = .ok digest) :
    (s.prepareManifest sha256 now).1.status = .prepared := by
  unfold prepareManifest at ok ⊢
  split at ok
  · rename_i prepared _
    split at ok
    · cases ok
    · rename_i early
      rw [if_neg early]
      exact prepared
  · rcases @requirePrepared_cases sha256 s (.prepareManifest now) now with ⟨-, prepared, ready⟩ | ⟨-, s', e, err, -, -⟩
    · rw [ready] at ok ⊢
      dsimp only at ok ⊢
      split <;> exact prepared
    · rw [err] at ok
      cases ok

theorem transition_effect (kind : EvidenceKind) (e : TransitionEvidence) (now : Nat)
    (frozen : kind = .relay → s.manifestDigest ≠ none) :
    Effect sha256 s op (s.transition kind.src kind.dst kind e now).1 := by
  unfold transition
  split; · exact .same
  split; · exact expire_effect
  split; · exact .same
  split
  · split <;> exact .same
  split; · exact .same
  split; · exact .same
  rename_i src stale
  refine .advanced kind e (by simpa using src) frozen fun prior mem => ?_
  by_contra later
  exact stale ⟨prior, mem, by omega⟩

/-- Every call has one of the listed effects. -/
theorem apply_effect (s : LogicalMessageLifecycle) (op : Op) : Effect sha256 s op (s.apply sha256 op) := by
  cases op with
  | acceptPart part now =>
    rcases @acceptPart_cases sha256 s part now with ⟨stages, eq⟩ | ⟨-, -, effect⟩
    · show Effect sha256 s _ (s.acceptPart part now).1
      rw [eq]; exact .staged part now stages
    · exact effect
  | prepareManifest now => exact prepareManifest_effect
  | recordRelayAccepted e now =>
    show Effect sha256 s _ (s.recordRelayAccepted e now).1
    unfold recordRelayAccepted
    split
    · exact .same
    · rename_i frozen
      exact transition_effect .relay e now fun _ none => frozen (by simp [none])
  | recordReceived e now => exact transition_effect .received e now (by simp)
  | recordOpened e now => exact transition_effect .opened e now (by simp)
  | expire now => exact expire_effect
  | fail code =>
    show Effect sha256 s _ (s.fail code).1
    unfold fail
    split; · exact .same
    split; · exact .same
    rename_i live
    rw [not_or] at live
    exact .failed code (by simpa using live.1) live.2
  | burn =>
    show Effect sha256 s _ s.burn.1
    unfold burn
    split
    · exact .same
    · rename_i unburned
      exact .burned unburned

/-- What a receipt call that returns `Ok` says about the snapshot before it and
after it. -/
structure Recorded (s s' : LogicalMessageLifecycle) (now : Nat) : Prop where
  inTime : now < s.effectiveExpiresAt
  manifest : s'.manifestDigest = s.manifestDigest
  unburned : s'.status ≠ .burned

variable {kind : EvidenceKind} {e delivery : TransitionEvidence} {now created expires ttl : Nat} {m : Mutation}
  {limits : LifecycleLimits} {parts : List AcceptedPart} {messageId scopeDigest : Digest}
  {s' : LogicalMessageLifecycle}

theorem transition_ok (ok : (s.transition kind.src kind.dst kind e now).2 = .ok m) :
    Recorded s (s.transition kind.src kind.dst kind e now).1 now := by
  unfold transition at *
  split; · simp_all
  split; · simp_all
  split; · simp_all
  rename_i live
  split
  · have unburned : s.status ≠ .burned := fun b => live (by rw [b]; rfl)
    split <;> exact ⟨by omega, rfl, unburned⟩
  split; · simp_all
  split; · simp_all
  cases kind <;> exact ⟨by omega, rfl, by simp [setEvidence, EvidenceKind.dst]⟩

/-- A receipt call at the status its kind leaves enters the next one. -/
theorem transition_enters (src : s.status = kind.src) (ok : (s.transition kind.src kind.dst kind e now).2 = .ok m) :
    m = .changed ∧ (s.transition kind.src kind.dst kind e now).1 = { s with status := kind.dst }.setEvidence e kind := by
  have other : ¬(s.status = kind.dst ∨ receiptRank s.status > receiptRank kind.dst) := by
    rw [src]
    cases kind <;> decide
  unfold transition at ok ⊢
  rw [if_neg other, if_neg (not_not.2 src)] at ok ⊢
  split at ok
  case isTrue => cases ok
  rename_i fresh
  rw [if_neg fresh]
  split at ok
  case isTrue => cases ok
  rename_i early
  rw [if_neg early]
  split at ok
  case isTrue => cases ok
  rename_i live
  rw [if_neg live]
  split at ok
  case isTrue => cases ok
  case isFalse ordered =>
    rw [if_neg ordered]
    cases ok
    exact ⟨rfl, rfl⟩

theorem recordRelayAccepted_ok (ok : (s.recordRelayAccepted e now).2 = .ok m) :
    s.recordRelayAccepted e now = s.transition .prepared .relayAccepted .relay e now := by
  unfold recordRelayAccepted at *
  split at ok
  · cases ok
  · rename_i frozen
    exact if_neg frozen

theorem recordReceived_ok (ok : (s.recordReceived e now).2 = .ok m) : Recorded s (s.recordReceived e now).1 now :=
  @transition_ok s .received e now m ok

/-- The lifecycle invariant. -/
structure Sound (sha256 : List UInt8 → Digest) (s : LogicalMessageLifecycle) : Prop where
  limits : s.limits.validate = .ok s.limits
  messageId : s.messageId ≠ zeroDigest
  scopeDigest : s.scopeDigest ≠ zeroDigest
  expected : 0 < s.expectedParts ∧ s.expectedParts ≤ s.limits.maxParts
  clock : s.createdAt < s.expiresAt
  ttl : s.openTtlSeconds ≤ hardMaxOpenTtlSeconds
  distinct : (s.parts.map (·.index)).Nodup
  indexLt : ∀ p ∈ s.parts, p.index < s.expectedParts
  sized : ∀ p ∈ s.parts, p.sealedBytes ≠ 0 ∧ p.sealedBytes ≤ s.limits.maxPartBytes
  total : s.stagedBytes ≤ s.limits.maxTotalBytes
  failureSome : s.status = .failed → s.failure ≠ none
  failureNone : s.status ≠ .failed → s.status ≠ .burned → s.failure = none
  evidence : s.evidenceShape = true
  ordered : (∀ r ∈ s.relayEvidence, ∀ c ∈ s.receivedEvidence, r.observedAt ≤ c.observedAt) ∧
    (∀ c ∈ s.receivedEvidence, ∀ o ∈ s.openedEvidence, c.observedAt ≤ o.observedAt)
  chain : (s.openedEvidence ≠ none → s.receivedEvidence ≠ none) ∧
    (s.receivedEvidence ≠ none → s.relayEvidence ≠ none)
  burnedEmpty : s.status = .burned → s.parts = [] ∧ ∀ kind, s.storedEvidence kind = none
  manifest : ∀ m ∈ s.manifestDigest, s.status ≠ .burned →
    s.parts.map (·.index) = List.range s.expectedParts ∧ m = s.manifestOf sha256
  published : s.status = .relayAccepted ∨ s.status = .received ∨ s.status = .opened →
    s.manifestDigest ≠ none

theorem limits_validate_ok {l l' : LifecycleLimits} (h : l.validate = .ok l') :
    l' = l ∧ l.maxTotalBytes ≤ hardMaxTotalBytes := by
  unfold LifecycleLimits.validate at h
  split at h
  · cases h
  · cases h; exact ⟨rfl, by omega⟩

theorem sound_prepare {messageId scopeDigest : Digest} {n created expires ttl : Nat}
    (ok : prepareWithOpenTtl messageId scopeDigest n created expires ttl limits = .ok s) :
    Sound sha256 s ∧ s.status = .prepared ∧ s.parts = [] ∧ s.expectedParts = n ∧ s.createdAt = created := by
  unfold prepareWithOpenTtl at ok
  cases hl : limits.validate with
  | error e => rw [hl] at ok; cases ok
  | ok limits' =>
    rw [hl] at ok
    obtain ⟨rfl, -⟩ := limits_validate_ok hl
    simp only [bind, Except.bind] at ok
    split at ok
    · cases ok
    · rename_i h
      cases ok
      refine ⟨?_, rfl, rfl, rfl, rfl⟩
      constructor <;> simp_all [evidenceShape, stagedBytes]
      omega

section

variable (h : Sound sha256 s) {s' : LogicalMessageLifecycle}
include h

/-- A stored part keeps the part-wise bounds. -/
theorem Sound.stage {part : AcceptedPart} (st : Stages s part now) : Sound sha256 (s.stage part) := by
  have perm : (s.stage part).parts.Perm (s.parts ++ [part]) := List.perm_insertionSort _ _
  have mem : ∀ p ∈ (s.stage part).parts, p ∈ s.parts ∨ p = part := by
    intro p hp
    simpa using perm.mem_iff.1 hp
  have total : (s.stage part).stagedBytes = s.stagedBytes + part.sealedBytes := by
    show ((s.stage part).parts.map (·.sealedBytes)).sum = _
    rw [(perm.map _).sum_nat]
    simp [stagedBytes]
  have fits : s.stagedBytes + part.sealedBytes ≤ s.limits.maxTotalBytes := by
    have := st.fits
    have := (limits_validate_ok h.limits).2
    have : hardMaxTotalBytes < 2 ^ 64 - 1 := by decide
    unfold satAdd at *
    omega
  refine { h with
    distinct := ?_
    indexLt := ?_
    sized := ?_
    total := total ▸ fits
    burnedEmpty := fun b => ?_
    manifest := fun m hm => ?_ }
  · rw [(perm.map _).nodup_iff, List.map_append]
    refine List.Nodup.append h.distinct (by simp) ?_
    intro i hi hi'
    obtain ⟨p, hp, rfl⟩ := List.mem_map.1 hi
    exact st.fresh p hp (by simpa using hi')
  · intro p hp
    rcases mem p hp with hp | rfl
    · exact h.indexLt p hp
    · exact st.indexLt
  · intro p hp
    rcases mem p hp with hp | rfl
    · exact h.sized p hp
    · exact ⟨st.nonempty, st.small⟩
  · exact absurd (b.symm.trans st.prepared) (by decide)
  · exact absurd (st.unfrozen.symm.trans hm) (by simp)

/-- A recorded receipt keeps the evidence shape and its times in order. -/
theorem Sound.advance (src : s.status = kind.src) (frozen : kind = .relay → s.manifestDigest ≠ none)
    (later : ∀ prior ∈ s.priorObservedAt kind, prior ≤ e.observedAt) :
    Sound sha256 ({ s with status := kind.dst }.setEvidence e kind) := by
  have shape := h.evidence
  have manifest := h.manifest
  have published := h.published
  cases kind with
  | relay =>
    simp only [EvidenceKind.src, EvidenceKind.dst, setEvidence] at *
    simp only [evidenceShape, src, Bool.and_eq_true, Option.isNone_iff_eq_none] at shape
    obtain ⟨⟨-, hc⟩, ho⟩ := shape
    exact { h with
      failureSome := fun f => by cases f
      failureNone := fun _ _ => h.failureNone (by simp [src]) (by simp [src])
      evidence := by simp [evidenceShape, hc, ho]
      ordered := by simp [hc, ho]
      chain := by simp [ho]
      burnedEmpty := fun b => by cases b
      manifest := fun m hm _ => manifest m hm (by simp [src])
      published := fun _ => frozen trivial }
  | received =>
    simp only [EvidenceKind.src, EvidenceKind.dst, setEvidence] at *
    simp only [evidenceShape, src, Bool.and_eq_true, Option.isNone_iff_eq_none] at shape
    obtain ⟨⟨hr, -⟩, ho⟩ := shape
    exact { h with
      failureSome := fun f => by cases f
      failureNone := fun _ _ => h.failureNone (by simp [src]) (by simp [src])
      evidence := by simp [evidenceShape, hr, ho]
      ordered := by
        refine ⟨fun r hr' c hc => ?_, by simp [ho]⟩
        obtain rfl : e = c := by simpa using hc
        exact later r.observedAt (by
          have : s.relayEvidence = some r := hr'
          simp [priorObservedAt, this])
      chain := ⟨fun some => absurd ho some, fun _ none => by rw [none] at hr; cases hr⟩
      burnedEmpty := fun b => by cases b
      manifest := fun m hm _ => manifest m hm (by simp [src])
      published := fun _ => published (.inl src) }
  | opened =>
    simp only [EvidenceKind.src, EvidenceKind.dst, setEvidence] at *
    simp only [evidenceShape, src, Bool.and_eq_true, Option.isNone_iff_eq_none] at shape
    obtain ⟨⟨hr, hc⟩, -⟩ := shape
    exact { h with
      failureSome := fun f => by cases f
      failureNone := fun _ _ => h.failureNone (by simp [src]) (by simp [src])
      evidence := by simp [evidenceShape, hr, hc]
      ordered := by
        refine ⟨h.ordered.1, fun c hc' o ho => ?_⟩
        obtain rfl : e = o := by simpa using ho
        exact later c.observedAt (by
          have : s.receivedEvidence = some c := hc'
          simp [priorObservedAt, this])
      chain := ⟨fun _ none => (by rw [none] at hc; cases hc), h.chain.2⟩
      burnedEmpty := fun b => by cases b
      manifest := fun m hm _ => manifest m hm (by simp [src])
      published := fun _ => published (.inr (.inl src)) }

/-- Every effect keeps the invariant. -/
theorem Sound.effect (eff : Effect sha256 s op s') : Sound sha256 s' := by
  cases eff with
  | same => exact h
  | expired live =>
    refine { h with
      failureSome := fun f => by cases f
      failureNone := fun _ _ => h.failureNone ?_ ?_
      evidence := rfl
      burnedEmpty := fun b => by cases b
      manifest := fun m hm _ => h.manifest m hm ?_
      published := fun p => by simp at p }
    all_goals intro eq; rw [eq] at live; cases live
  | failed code live _ =>
    refine { h with
      failureSome := fun _ => by simp
      failureNone := fun f => absurd rfl f
      evidence := rfl
      burnedEmpty := fun b => by cases b
      manifest := fun m hm _ => h.manifest m hm ?_
      published := fun p => by simp at p }
    intro eq; rw [eq] at live; cases live
  | staged part now st => exact h.stage st
  | frozen prepared count order =>
    refine { h with
      manifest := fun m hm _ => ⟨by rw [← count]; exact order, ?_⟩
      published := fun _ => by simp }
    obtain rfl : s.manifestOf sha256 = m := by simpa using hm
    rfl
  | advanced kind e src frozen later => exact h.advance src frozen later
  | burned unburned =>
    exact { h with
      distinct := by simp
      indexLt := by simp
      sized := by simp
      total := by simp [stagedBytes]
      failureSome := fun f => by cases f
      failureNone := fun _ b => absurd rfl b
      evidence := rfl
      ordered := by simp
      chain := by simp
      burnedEmpty := fun _ => ⟨rfl, fun kind => by cases kind <;> rfl⟩
      manifest := fun _ _ b => absurd rfl b
      published := fun p => by simp at p }

theorem Sound.apply (op : Op) : Sound sha256 (s.apply sha256 op) :=
  h.effect (apply_effect s op)

end

/-- Each call keeps the time a message was created at. -/
theorem Effect.createdAt (effect : Effect sha256 s op s') : s'.createdAt = s.createdAt := by
  cases effect with
  | advanced kind => cases kind <;> rfl
  | same => rfl
  | expired => rfl
  | failed => rfl
  | staged => rfl
  | frozen => rfl
  | burned => rfl

theorem acceptAll_run (ok : s.acceptAll now parts = .ok s') :
    s' = run (LogicalMessageLifecycle.apply sha256) s (parts.map (Op.acceptPart · now)) := by
  induction parts generalizing s with
  | nil => cases ok; rfl
  | cons p ps ih =>
    unfold acceptAll at ok
    split at ok
    · rename_i s1 m eq
      have first : s.apply sha256 (.acceptPart p now) = s1 := congrArg Prod.fst eq
      rw [List.map_cons, run_cons, first]
      exact ih ok
    · cases ok

/-- What `receive` builds is a prepared message after some calls, and it is received. -/
theorem receive_run (ok : receive sha256 messageId scopeDigest created expires ttl parts delivery limits = .ok s) :
    s.status = .received ∧ ∃ s₀ ops, prepareWithOpenTtl messageId scopeDigest parts.length created expires ttl limits = .ok s₀ ∧
      s = run (LogicalMessageLifecycle.apply sha256) s₀ ops := by
  unfold receive at ok
  generalize max delivery.observedAt created = now at ok
  simp only [bind, Except.bind] at ok
  split at ok; · cases ok
  split at ok; · cases ok
  rename_i s0 prep
  split at ok; · cases ok
  rename_i s1 accepted
  split at ok; · cases ok
  rename_i frozen
  split at ok; · cases ok
  rename_i relayed
  split at ok; · cases ok
  rename_i received
  cases ok
  have prepared := prepareManifest_prepared frozen
  refine ⟨?_, s0, parts.map (.acceptPart · now) ++ [.prepareManifest now, .recordRelayAccepted delivery now,
    .recordReceived delivery now], prep, ?_⟩
  · have eq := recordRelayAccepted_ok relayed
    rw [eq] at relayed received ⊢
    have relay := congrArg status (@transition_enters _ .relay delivery now _ prepared relayed).2
    exact congrArg status (@transition_enters _ .received delivery now _ relay received).2
  · rw [run_append, ← acceptAll_run accepted]
    rfl

/-- What `receive` builds is a sound, frozen message that is not burned. -/
theorem sound_receive (ok : receive sha256 messageId scopeDigest created expires ttl parts delivery limits = .ok s) :
    Sound sha256 s ∧ s.manifestDigest ≠ none ∧ s.status ≠ .burned := by
  obtain ⟨status, s₀, ops, prep, rfl⟩ := receive_run ok
  have sound : Sound sha256 (run (LogicalMessageLifecycle.apply sha256) s₀ ops) :=
    run_invariant (fun _ op h => h.apply op) (sound_prepare prep).1 ops
  refine ⟨sound, sound.published (.inr (.inl status)), ?_⟩
  rw [status]
  decide

/-- The invariant holds of whatever the constructors build. -/
theorem sound_built (b : Built sha256 s) : Sound sha256 s := by
  cases b with
  | prepared ok => exact (sound_prepare ok).1
  | received ok => exact (sound_receive ok).1

/-- The invariant holds after every sequence of calls. -/
theorem sound_run (b : Built sha256 s) (ops : List Op) :
    Sound sha256 (run (LogicalMessageLifecycle.apply sha256) s ops) :=
  run_invariant (I := Sound sha256) (fun _ op h => h.apply op) (sound_built b) ops

end Osl.Lifecycle.LogicalMessageLifecycle
