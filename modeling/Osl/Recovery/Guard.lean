import Mathlib.Logic.Function.Basic
import Osl.Base.Fixed
import Osl.Base.Run

/-!
# The guard of recovery requests

`RecoveryGuard` decides which inbound requests for a key or a session reset are
honoured. A request is fresh for five minutes on either side of the time it names,
and the guard forgets a nonce five minutes after it saw it. For a request dated
ahead of the clock that is too early: it is then still fresh.
-/

namespace Osl.Recovery

open Base Function

def recoveryFreshnessSecs : Int := 300
def recoveryMinIntervalSecs : Int := 30
def recoveryFailureSymptomSecs : Int := 600

inductive RecoveryKind where
  | skdmRequest
  | sessionReset
  deriving DecidableEq

/-- What plain `i64` arithmetic wraps to. -/
def wrap (v : Int) : Int := (v + 2 ^ 63) % 2 ^ 64 - 2 ^ 63

/-- `now.saturating_sub(t)`. -/
def since (now t : I64) : Int := max (-2 ^ 63) (min (now.1 - t.1) (2 ^ 63 - 1))

structure RecoveryGuard where
  lastHonor : String × RecoveryKind → Option I64 := fun _ => none
  seenNonces : BitVec 128 → Option I64 := fun _ => none
  v4Failures : String → Option I64 := fun _ => none

/-- The arguments of `accept_inbound`. -/
structure Request where
  peer : String
  kind : RecoveryKind
  nonce : BitVec 128
  requestedAt : I64
  now : I64

/-- `(now - requested_at).abs()`. -/
def Request.age (r : Request) : Int := wrap (wrap (r.now.1 - r.requestedAt.1)).natAbs

namespace RecoveryGuard

def gc (g : RecoveryGuard) (now : I64) : RecoveryGuard :=
  { g with
    seenNonces := fun nonce => (g.seenNonces nonce).filter (since now · ≤ recoveryFreshnessSecs)
    v4Failures := fun peer => (g.v4Failures peer).filter (since now · ≤ recoveryFailureSymptomSecs) }

/-- Records the nonce and the time. -/
def honour (g : RecoveryGuard) (r : Request) : RecoveryGuard :=
  { g with
    seenNonces := update g.seenNonces r.nonce (some r.now)
    lastHonor := update g.lastHonor (r.peer, r.kind) (some r.now) }

def acceptInbound (g : RecoveryGuard) (r : Request) : RecoveryGuard × Bool :=
  if r.age > recoveryFreshnessSecs then (g, false)
  else if ((g.gc r.now).seenNonces r.nonce).isSome then (g.gc r.now, false)
  else if (g.lastHonor (r.peer, r.kind)).any (since r.now · < recoveryMinIntervalSecs) then (g.gc r.now, false)
  else ((g.gc r.now).honour r, true)

end RecoveryGuard

/-- A guard, the requests it has honoured, latest first, and the clock of the last call. -/
structure History where
  guard : RecoveryGuard := {}
  honoured : List Request := []
  clock : Int := -2 ^ 63

def History.step (h : History) (r : Request) : History where
  guard := (h.guard.acceptInbound r).1
  honoured := if (h.guard.acceptInbound r).2 then r :: h.honoured else h.honoured
  clock := r.now.1

/-- No request is honoured twice. -/
def History.Once (h : History) : Prop :=
  h.honoured.Pairwise fun r r' => ¬(r.nonce = r'.nonce ∧ r.requestedAt = r'.requestedAt)

/-- For a peer and a kind, honoured requests keep their distance. -/
def History.Spaced (h : History) : Prop :=
  h.honoured.Pairwise fun r r' => r.peer = r'.peer ∧ r.kind = r'.kind → recoveryMinIntervalSecs ≤ r.now.1 - r'.now.1

/-- The clock does not go back. -/
def Forward (h : History) (r : Request) : Prop := h.clock ≤ r.now.1

/-- The request is not dated ahead of the clock, and `now - requested_at` does not overflow. -/
def Dated (_ : History) (r : Request) : Prop := r.requestedAt.1 ≤ r.now.1 ∧ r.now.1 - r.requestedAt.1 < 2 ^ 63

instance (h : History) (r : Request) : Decidable (Forward h r) := Int.decLe ..

instance (h : History) (r : Request) : Decidable (Dated h r) := instDecidableAnd

/-! ## One call -/

/-- What the guard remembers of the honoured requests. -/
structure Remembered (h : History) : Prop where
  honour : ∀ r ∈ h.honoured, ∃ t ∈ h.guard.lastHonor (r.peer, r.kind), r.now.1 ≤ t.1 ∧ t.1 ≤ h.clock
  nonce : ∀ r ∈ h.honoured, (∃ t ∈ h.guard.seenNonces r.nonce, r.now.1 ≤ t.1) ∨ recoveryFreshnessSecs < h.clock - r.now.1

variable {h : History} {r : Request}

theorem Remembered.later (known : Remembered h) (forward : Forward h r) : Remembered { h with clock := r.now.1 } where
  honour q mem := by
    obtain ⟨t, held, later, past⟩ := known.honour q mem
    exact ⟨t, held, later, past.trans forward⟩
  nonce q mem := by
    refine (known.nonce q mem).imp_right fun gone => ?_
    have forward : h.clock ≤ r.now.1 := forward
    dsimp only
    omega

/-- A nonce is forgotten once five minutes have passed since its request was honoured. -/
theorem Remembered.gc (known : Remembered h) (forward : Forward h r) :
    Remembered { h with guard := h.guard.gc r.now, clock := r.now.1 } where
  honour := (known.later forward).honour
  nonce q mem := by
    rcases (known.later forward).nonce q mem with ⟨t, held, later⟩ | gone
    · by_cases kept : since r.now t ≤ recoveryFreshnessSecs
      · exact .inl ⟨t, Option.mem_filter_iff.2 ⟨held, decide_eq_true kept⟩, later⟩
      · right
        unfold since recoveryFreshnessSecs at *
        dsimp only
        omega
    · exact .inr gone

/-- A request that is honoured is fresh, its nonce is not known, and the last one was long ago. -/
structure Honoured (h : History) (r : Request) : Prop where
  fresh : r.age ≤ recoveryFreshnessSecs
  unseen : (h.guard.gc r.now).seenNonces r.nonce = none
  rested : ∀ t ∈ h.guard.lastHonor (r.peer, r.kind), recoveryMinIntervalSecs ≤ since r.now t

theorem step_cases (h : History) (r : Request) :
    h.step r = { h with clock := r.now.1 } ∨ h.step r = { h with guard := h.guard.gc r.now, clock := r.now.1 } ∨
      Honoured h r ∧ h.step r = ⟨(h.guard.gc r.now).honour r, r :: h.honoured, r.now.1⟩ := by
  unfold History.step RecoveryGuard.acceptInbound
  split
  · exact .inl rfl
  split
  · exact .inr (.inl rfl)
  split
  · exact .inr (.inl rfl)
  rename_i fresh seen early
  refine .inr (.inr ⟨⟨not_lt.1 fresh, Option.not_isSome_iff_eq_none.1 seen, fun t held => ?_⟩, rfl⟩)
  simpa [Option.mem_def.1 held] using early

theorem Remembered.step (known : Remembered h) (forward : Forward h r) : Remembered (h.step r) := by
  rcases step_cases h r with same | same | ⟨done, same⟩
  · rw [same]
    exact known.later forward
  · rw [same]
    exact known.gc forward
  rw [same]
  have collected := known.gc forward
  constructor
  · refine List.forall_mem_cons.2 ⟨⟨r.now, by simp [RecoveryGuard.honour], le_rfl, le_rfl⟩, fun q mem => ?_⟩
    obtain ⟨t, held, later, past⟩ := collected.honour q mem
    by_cases own : (q.peer, q.kind) = (r.peer, r.kind)
    · exact ⟨r.now, by simp [RecoveryGuard.honour, own], later.trans past, le_rfl⟩
    · exact ⟨t, by simpa [RecoveryGuard.honour, own] using held, later, past⟩
  · refine List.forall_mem_cons.2 ⟨.inl ⟨r.now, by simp [RecoveryGuard.honour], le_rfl⟩, fun q mem => ?_⟩
    refine (collected.nonce q mem).imp_left fun ⟨t, held, later⟩ => ⟨t, ?_, later⟩
    have other : q.nonce ≠ r.nonce := by
      rintro own
      cases (own ▸ done.unseen).symm.trans held
    simpa [RecoveryGuard.honour, other] using held

theorem Spaced.step (known : Remembered h) (spaced : h.Spaced) : (h.step r).Spaced := by
  rcases step_cases h r with same | same | ⟨done, same⟩
  · rwa [same]
  · rwa [same]
  rw [same]
  refine .cons (fun q mem ⟨peer, kind⟩ => ?_) spaced
  obtain ⟨t, held, later, past⟩ := known.honour q mem
  have rested := done.rested t (by rwa [peer, kind])
  unfold since recoveryMinIntervalSecs at *
  omega

/-- The honoured requests are distinct, and none was dated ahead of the clock. -/
def Timely (h : History) : Prop := h.Once ∧ ∀ r ∈ h.honoured, r.requestedAt.1 ≤ r.now.1

theorem Timely.step (known : Remembered h) (timely : Timely h) (forward : Forward h r) (dated : Dated h r) :
    Timely (h.step r) := by
  rcases step_cases h r with same | same | ⟨done, same⟩
  · rwa [same]
  · rwa [same]
  rw [same]
  refine ⟨.cons ?_ timely.1, List.forall_mem_cons.2 ⟨dated.1, timely.2⟩⟩
  rintro q mem ⟨nonce, requested⟩
  -- The guard has forgotten the nonce, so the request is stale.
  rcases (known.gc forward).nonce q mem with ⟨t, held, -⟩ | gone
  · cases (nonce ▸ done.unseen).symm.trans held
  have fresh := done.fresh
  have before := timely.2 q mem
  rw [← requested] at before
  unfold Request.age wrap recoveryFreshnessSecs Dated at *
  dsimp only at gone
  omega

/-! ## Whole runs -/

/-- While the clock does not go back, honoured requests keep their distance; if no request is dated ahead
of it either, none is honoured twice. -/
theorem requests_spaced_and_honoured_once (calls : List Request) (forward : AllSteps History.step Forward {} calls) :
    (run History.step {} calls).Spaced ∧
      (AllSteps History.step Dated {} calls → (run History.step {} calls).Once) := by
  have start : Remembered {} := ⟨by rintro _ ⟨⟩, by rintro _ ⟨⟩⟩
  constructor
  · refine (run_invariant_of (I := fun h => Remembered h ∧ h.Spaced) ?_ ⟨start, .nil⟩ forward).2
    rintro h r ⟨known, spaced⟩ forward
    exact ⟨known.step forward, Spaced.step known spaced⟩
  · intro dated
    refine (run_invariant_of (I := fun h => Remembered h ∧ Timely h) ?_ ⟨start, .nil, ?_⟩ (forward.and dated)).2.1
    · rintro h r ⟨known, timely⟩ ⟨forward, dated⟩
      exact ⟨known.step forward, timely.step known forward dated⟩
    · rintro _ ⟨⟩

/-- A request made at 300, by the clock of its sender. -/
def sampleRequest (now : I64) : Request := ⟨"900000000000000001", .skdmRequest, 1, ⟨300, by decide⟩, now⟩

theorem future_request_honoured_twice :
    let calls := [sampleRequest I64.zero, sampleRequest ⟨301, by decide⟩]
    AllSteps History.step Forward {} calls ∧ ¬(run History.step {} calls).Once := by
  have twice : (run History.step {} [sampleRequest I64.zero, sampleRequest ⟨301, by decide⟩]).honoured =
      [sampleRequest ⟨301, by decide⟩, sampleRequest I64.zero] := by
    rfl
  refine ⟨by decide, fun once => ?_⟩
  rw [History.Once, twice] at once
  exact List.rel_of_pairwise_cons once List.mem_cons_self ⟨rfl, rfl⟩

theorem punctual_requests_spaced_and_honoured_once :
    let calls := [sampleRequest ⟨300, by decide⟩, sampleRequest ⟨330, by decide⟩]
    (run History.step {} calls).Spaced ∧ (run History.step {} calls).Once := by
  have whole := requests_spaced_and_honoured_once [sampleRequest ⟨300, by decide⟩, sampleRequest ⟨330, by decide⟩] (by decide)
  exact ⟨whole.1, whole.2 (by decide)⟩

end Osl.Recovery
