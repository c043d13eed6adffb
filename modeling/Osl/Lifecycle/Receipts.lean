import Osl.Lifecycle.Invariant

/-!
# The receipt state machine

`Later s s'` relates a snapshot to every snapshot a run of calls can turn it
into. One step is read off `Effect`; a run follows because `Later` is a preorder
on sound snapshots.
-/

namespace Osl.Lifecycle.LogicalMessageLifecycle

open Base

variable {sha256 : List UInt8 → Digest} {s s' s'' : LogicalMessageLifecycle} {status : ReceiptStatus}
  {kind : EvidenceKind}

structure Later (s s' : LogicalMessageLifecycle) : Prop where
  rank : receiptRank s.status ≤ receiptRank s'.status
  terminal : s.status.isTerminal = true → s'.status = s.status ∨ s'.status = .burned
  evidence : ∀ kind e, s.storedEvidence kind = some e →
    s'.storedEvidence kind = some e ∨ s'.status = .burned
  deadline : s'.status ≠ .burned → s'.effectiveExpiresAt ≤ s.effectiveExpiresAt

theorem Later.refl (s : LogicalMessageLifecycle) : Later s s :=
  ⟨le_rfl, fun _ => .inl rfl, fun _ _ h => .inl h, fun _ => le_rfl⟩

/-- A burned message stays burned. -/
theorem Later.burned (h : Later s s') (b : s.status = .burned) : s'.status = .burned := by
  rcases h.terminal (by rw [b]; rfl) with eq | eq
  · exact eq.trans b
  · exact eq

theorem Later.trans (h : Later s s') (h' : Later s' s'') : Later s s'' where
  rank := h.rank.trans h'.rank
  terminal t := by
    rcases h.terminal t with eq | b
    · rw [← eq]
      exact h'.terminal (eq ▸ t)
    · exact .inr (h'.burned b)
  evidence kind e stored := by
    rcases h.evidence kind e stored with kept | b
    · exact h'.evidence kind e kept
    · exact .inr (h'.burned b)
  deadline unburned := (h'.deadline unburned).trans (h.deadline fun b => unburned (h'.burned b))

theorem effectiveExpiresAt_le {s : LogicalMessageLifecycle} : s.effectiveExpiresAt ≤ s.expiresAt := by
  unfold effectiveExpiresAt
  split
  · exact min_le_left _ _
  · exact le_rfl

theorem effectiveExpiresAt_unopened (none : s.openedEvidence = none) : s.effectiveExpiresAt = s.expiresAt := by
  unfold effectiveExpiresAt firstAuthenticatedOpenAt
  rw [none]
  cases s.openTtl <;> rfl

/-- Leaving a live status for a terminal one, or staging and freezing parts:
evidence and deadline are untouched. -/
theorem later_of_status (rank : receiptRank s.status ≤ receiptRank status)
    (live : s.status.isTerminal = false ∨ status = s.status) (hs : s'.status = status)
    (he : s'.storedEvidence = s.storedEvidence) (hd : s'.effectiveExpiresAt = s.effectiveExpiresAt) : Later s s' where
  rank := by rw [hs]; exact rank
  terminal t := by
    rcases live with live | same
    · rw [live] at t; cases t
    · exact .inl (hs.trans same)
  evidence _ _ stored := .inl (by rw [he]; exact stored)
  deadline _ := hd.le

theorem receiptRank_le : receiptRank status ≤ 4 := by
  cases status <;> decide

theorem storedEvidence_setEvidence {e : TransitionEvidence} {kind other : EvidenceKind} :
    (s.setEvidence e kind).storedEvidence other =
      if kind = other then some e else s.storedEvidence other := by
  cases kind <;> cases other <;> rfl

section
variable (h : Sound sha256 s)
include h

theorem Sound.storedEvidence_src (src : s.status = kind.src) : s.storedEvidence kind = none := by
  have shape := h.evidence
  cases kind <;> simp_all [evidenceShape, EvidenceKind.src, storedEvidence]

/-- A receipt is recorded where none was stored, so none is replaced. -/
theorem Sound.later_advance {e : TransitionEvidence} (src : s.status = kind.src) :
    Later s ({ s with status := kind.dst }.setEvidence e kind) where
  rank := by
    rw [src]
    cases kind <;> exact Nat.le_succ _
  terminal t := by
    rw [src] at t
    cases kind <;> cases t
  evidence other e' stored := by
    refine .inl ?_
    rw [storedEvidence_setEvidence]
    split
    · rename_i eq
      rw [← eq, h.storedEvidence_src src] at stored
      cases stored
    · exact stored
  deadline _ := by
    cases kind with
    | relay | received => exact le_rfl
    | opened =>
      -- the first open starts the relative clock, which can only shorten
      rw [effectiveExpiresAt_unopened (s := s) (h.storedEvidence_src src)]
      exact effectiveExpiresAt_le

theorem Sound.later_effect {op : Op} (eff : Effect sha256 s op s') : Later s s' := by
  cases eff with
  | same => exact .refl s
  | expired live | failed code live _ =>
    exact later_of_status (receiptRank_le) (.inl live) rfl rfl rfl
  | staged | frozen => exact later_of_status le_rfl (.inr rfl) rfl rfl rfl
  | advanced kind e src => exact h.later_advance src
  | burned =>
    exact ⟨receiptRank_le, fun _ => .inr rfl, fun _ _ _ => .inr rfl, fun b => absurd rfl b⟩

theorem Sound.later_run (ops : List Op) : Later s (run (LogicalMessageLifecycle.apply sha256) s ops) :=
  run_rel (I := Sound sha256) Later.refl (fun _ _ _ => Later.trans) (fun _ op h => h.apply op)
    (fun s op h => h.later_effect (apply_effect s op)) h ops

end

/-- Receipts over a whole run, at any state `s` of it and any later state `s'`:
ranks go up and terminal states only burn; a published message has a frozen
manifest over all its parts; evidence is never replaced and its times are in
order; the deadline in force only moves earlier; and a receipt is recorded only
before it. -/
theorem receipts_of_run {s0 : LogicalMessageLifecycle} (b : Built sha256 s0) (ops more : List Op)
    (hs : s = run (apply sha256) s0 ops) (hs' : s' = run (apply sha256) s more) :
    receiptRank s.status ≤ receiptRank s'.status ∧
    (s.status.isTerminal = true → s'.status = s.status ∨ s'.status = .burned) ∧
    (s.status = .relayAccepted ∨ s.status = .received ∨ s.status = .opened →
      s.manifestDigest = some (s.manifestOf sha256) ∧
        s.parts.map (·.index) = List.range s.expectedParts) ∧
    (∀ kind e, s.storedEvidence kind = some e → s'.storedEvidence kind = some e ∨
      s'.storedEvidence kind = none ∧ s'.status = .burned) ∧
    (∀ relay received, s.relayEvidence = some relay → s.receivedEvidence = some received →
      relay.observedAt ≤ received.observedAt) ∧
    (∀ received opened, s.receivedEvidence = some received → s.openedEvidence = some opened →
      received.observedAt ≤ opened.observedAt) ∧
    s.effectiveExpiresAt ≤ s.expiresAt ∧
    (s'.status ≠ .burned → s'.effectiveExpiresAt ≤ s.effectiveExpiresAt) ∧
    (∀ e now m, (s.recordRelayAccepted e now).2 = .ok m ∨ (s.recordReceived e now).2 = .ok m ∨
      (s.recordOpened e now).2 = .ok m → now < s.effectiveExpiresAt) := by
  subst hs hs'
  have sound := sound_run b ops
  have later := sound.later_run more
  have sound' := run_invariant (I := Sound sha256) (fun _ op h => h.apply op) sound more
  refine ⟨later.rank, later.terminal, fun published => ?_, fun kind e stored => ?_,
    fun r c hr hc => sound.ordered.1 r hr c hc, fun c o hc ho => sound.ordered.2 c hc o ho,
    effectiveExpiresAt_le, later.deadline, fun e now m ok => ?_⟩
  · obtain ⟨m, hm⟩ := Option.ne_none_iff_exists'.1 (sound.published published)
    obtain ⟨all, rfl⟩ := sound.manifest m hm (by rintro b; simp [b] at published)
    exact ⟨hm, all⟩
  · rcases later.evidence kind e stored with kept | burned
    · exact .inl kept
    · exact .inr ⟨(sound'.burnedEmpty burned).2 kind, burned⟩
  · rcases ok with ok | ok | ok
    · rw [recordRelayAccepted_ok ok] at ok
      exact (@transition_ok _ .relay _ _ _ ok).inTime
    · exact (recordReceived_ok ok).inTime
    · exact (@transition_ok _ .opened _ _ _ ok).inTime

/-- A message sent, received, opened and then expired by a clock that goes
backwards in between. -/
theorem receipts_of_twoParts :
    let send : List Op := [.acceptPart (partAt 1) 20, .acceptPart (partAt 0) 15, .prepareManifest 21,
      .recordRelayAccepted ⟨someDigest, 12⟩ 30, .recordReceived ⟨someDigest, 12⟩ 25]
    let received := run (apply fun _ => zeroDigest) twoParts send
    let expired := run (apply fun _ => zeroDigest) received [.recordOpened ⟨someDigest, 40⟩ 60, .expire 100]
    received.status = .received ∧ expired.status = .expired ∧
      received.parts.map (·.index) = List.range received.expectedParts ∧
      expired.effectiveExpiresAt ≤ received.effectiveExpiresAt := by
  intro send received expired
  have h := receipts_of_run (built_twoParts) send _ (rfl : received = _) (rfl : expired = _)
  exact ⟨by decide, by decide, (h.2.2.1 (by decide)).2, h.2.2.2.2.2.2.2.1 (by decide)⟩

end Osl.Lifecycle.LogicalMessageLifecycle
