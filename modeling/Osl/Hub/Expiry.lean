import Osl.Hub.OpenClock
import Osl.Lifecycle.Snapshot

/-!
# Expiry over whole histories

The ledger remembers a message as long as it has a record of it. A message it has let go
reads as expired, and stays so unless it is delivered again under a deadline that is still
to come (`Unrevived`): the delivery finds no record and starts the clocks anew.
-/

namespace Osl.Hub.OpenClock

open Base Lifecycle LogicalMessageLifecycle

variable {sha256 : List UInt8 → Digest} {fault : Option String} {stored file : OpenClockLedger} {now before later e t : Int} {k i : Id}
  {r : OpenClockRecord} {digest : Digest} {d : Delivery}

/-! ## Verdicts -/

/-- What a message that does not read as expired has. -/
structure Readable (sha256 : List UInt8 → Digest) (stored : OpenClockLedger) (k i : Id) (now : Int) (r : OpenClockRecord) :
    Prop where
  scope : isOpaqueId k = true
  message : isOpaqueId i = true
  formed : stored.wellFormed sha256 = true
  nonneg : 0 ≤ now
  live : stored.live now k i = some r

/-- The verdict on a record that is live. -/
def OpenClockRecord.deadline (r : OpenClockRecord) : ExpiryVerdict :=
  match r.lifecycle.openTtl, r.lifecycle.firstAuthenticatedOpenAt with
  | some _, none => .awaitingFirstOpen (toI64 r.lifecycle.expiresAt)
  | _, _ => .readable (toI64 r.lifecycle.effectiveExpiresAt)

theorem OpenClockRecord.deadline_ne (r : OpenClockRecord) : r.deadline ≠ .expired := by
  unfold OpenClockRecord.deadline
  split <;> exact ExpiryVerdict.noConfusion

theorem Readable.verdict (readable : Readable sha256 stored k i now r) : verdict sha256 stored k i now = r.deadline := by
  obtain ⟨found, kept⟩ := live_eq_some.1 readable.live
  have alive : ¬(r.lifecycle.effectiveExpiresAt ≤ now.toNat ∨ r.lifecycle.status.isTerminal = true) := by
    rw [← OpenClockRecord.gone_iff, kept]
    exact Bool.false_ne_true
  unfold OpenClock.verdict loadOpenClock
  rw [readable.scope, readable.message, if_neg (by simp), if_pos readable.formed, toU64_of_nonneg readable.nonneg]
  dsimp only
  rw [found]
  dsimp only
  rw [if_neg alive]
  rfl

theorem verdict_expired_of (unreadable : ¬∃ r, Readable sha256 stored k i now r) : verdict sha256 stored k i now = .expired := by
  unfold verdict
  split
  case isTrue => rfl
  case isFalse named =>
    rw [not_or, Bool.not_eq_false, Bool.not_eq_false] at named
    split
    case h_1 ledger now' loaded clock =>
      obtain ⟨formed, rfl⟩ := loadOpenClock_ok loaded
      obtain ⟨nonneg, rfl⟩ := toU64_ok clock
      split
      case h_1 => rfl
      case h_2 record found =>
        split
        case isTrue => rfl
        case isFalse alive =>
          rw [← OpenClockRecord.gone_iff, Bool.not_eq_true] at alive
          exact absurd ⟨record, named.1, named.2, formed, nonneg, live_eq_some.2 ⟨found, alive⟩⟩ unreadable
    case h_2 => rfl

theorem verdict_expired_iff : verdict sha256 stored k i now = .expired ↔ ¬∃ r, Readable sha256 stored k i now r := by
  refine ⟨?_, verdict_expired_of⟩
  rintro expired ⟨r, readable⟩
  exact r.deadline_ne (readable.verdict.symm.trans expired)

/-- What is readable later was readable before. -/
theorem Readable.earlier (readable : Readable sha256 stored k i now r) (nonneg : 0 ≤ before) (le : before ≤ now) :
    Readable sha256 stored k i before r := by
  obtain ⟨found, kept⟩ := live_eq_some.1 readable.live
  refine { readable with nonneg, live := live_eq_some.2 ⟨found, ?_⟩ }
  rw [← Bool.not_eq_true, OpenClockRecord.gone_iff] at kept ⊢
  exact fun gone => kept (gone.imp_left (Int.toNat_le_toNat le).trans')

theorem readable_of_early (formed : stored.wellFormed sha256 = true) (named : isOpaqueId k = true ∧ isOpaqueId i = true)
    (nonneg : 0 ≤ now) (there : stored.find k i = some r) (early : now.toNat < r.lifecycle.effectiveExpiresAt)
    (live : r.lifecycle.status.isTerminal = false) : Readable sha256 stored k i now r :=
  ⟨named.1, named.2, formed, nonneg, live_eq_some.2 ⟨there, OpenClockRecord.alive early live⟩⟩

theorem Opens.of_expired {answer : OpenClockLedger × ExpiryVerdict}
    (opens : Opens sha256 stored k i digest now answer) (expired : verdict sha256 stored k i now = .expired) :
    answer.2 = .expired := by
  have unreadable := verdict_expired_iff.1 expired
  cases opens with
  | refused => rfl
  | again record formed named nonneg there early status =>
    exact absurd ⟨record, readable_of_early formed named nonneg there early (by rw [status]; rfl)⟩ unreadable
  | first record opened formed named nonneg there early status made =>
    exact absurd ⟨record, readable_of_early formed named nonneg there early (by rw [status]; rfl)⟩ unreadable

/-! ## Histories -/

/-- The file and, beside it, the time of the last call, the messages that were ever taken in
and the cache rows that were shredded. -/
structure State where
  ledger : OpenClockLedger
  clock : Int
  recorded : List (Id × Id)
  shredded : List Id

def start (clock : Int) : State := ⟨.empty, clock, [], []⟩

inductive Act where
  | noteDelivered (d : Delivery) (fault : Option String) (now : Int)
  | recordFirstOpen (scopeKey messageId : Id) (openDigest : Digest) (fault : Option String) (now : Int)
  | verdict (scopeKey messageId : Id) (now : Int)
  | prune (fault : Option String) (now : Int)
  | runPass (unlocked : Bool) (fault : Option String) (store : Option (List Id → Except String Nat)) (now : Int)

variable {s : State} {a : Act}

def Act.time : Act → Int
  | .noteDelivered _ _ now => now
  | .recordFirstOpen _ _ _ _ now => now
  | .verdict _ _ now => now
  | .prune _ now => now
  | .runPass _ _ _ now => now

def step (sha256 : List UInt8 → Digest) (s : State) : Act → State
  | .noteDelivered d fault now =>
    match noteDelivered sha256 fault s.ledger d now with
    | .ok file => { s with ledger := file, clock := now, recorded := (d.scopeKey, d.messageId) :: s.recorded }
    | .error _ => { s with clock := now }
  | .recordFirstOpen k i digest fault now =>
    { s with ledger := (recordFirstOpen sha256 fault s.ledger k i digest now).1, clock := now }
  | .verdict _ _ now => { s with clock := now }
  | .prune fault now =>
    match prune sha256 fault s.ledger now with
    | .ok (file, _) => { s with ledger := file, clock := now }
    | .error _ => { s with clock := now }
  | .runPass unlocked fault store now =>
    { s with
      ledger := (runPass sha256 unlocked fault store s.ledger now).1
      clock := now
      shredded := (runPass sha256 unlocked fault store s.ledger now).2.2 ++ s.shredded }

/-- The clock does not go back. -/
def Ordered (s : State) (a : Act) : Prop := s.clock ≤ a.time

/-- A message that was taken in before and reads as expired is not delivered again under a
deadline that is still to come. -/
def Unrevived (sha256 : List UInt8 → Digest) (s : State) : Act → Prop
  | .noteDelivered d _ now =>
    (d.scopeKey, d.messageId) ∈ s.recorded → verdict sha256 s.ledger d.scopeKey d.messageId now = .expired →
      d.release.absoluteExpiresAt ≤ now
  | _ => True

theorem step_taken (ran : noteDelivered sha256 fault s.ledger d now = .ok file) :
    step sha256 s (.noteDelivered d fault now) =
      { s with ledger := file, clock := now, recorded := (d.scopeKey, d.messageId) :: s.recorded } := by
  unfold step
  dsimp only
  rw [ran]

theorem step_refused {e : String} (ran : noteDelivered sha256 fault s.ledger d now = .error e) :
    step sha256 s (.noteDelivered d fault now) = { s with clock := now } := by
  unfold step
  dsimp only
  rw [ran]

theorem step_clock : (step sha256 s a).clock = a.time := by
  cases a with
  | noteDelivered d fault now =>
    unfold step
    dsimp only
    split <;> rfl
  | prune fault now =>
    unfold step
    dsimp only
    split <;> rfl
  | recordFirstOpen => rfl
  | verdict => rfl
  | runPass => rfl

theorem step_recorded {m : Id × Id} (mem : m ∈ s.recorded) : m ∈ (step sha256 s a).recorded := by
  cases a with
  | noteDelivered d fault now =>
    unfold step
    dsimp only
    split
    case h_1 => exact List.mem_cons_of_mem _ mem
    case h_2 => exact mem
  | prune fault now =>
    unfold step
    dsimp only
    split <;> exact mem
  | recordFirstOpen => exact mem
  | verdict => exact mem
  | runPass => exact mem

def Act.delivery : Act → Option Delivery
  | .noteDelivered d _ _ => some d
  | _ => none

theorem step_effect (sha256 : List UInt8 → Digest) (s : State) (a : Act) :
    Effect sha256 s.ledger a.time a.delivery (step sha256 s a).ledger := by
  cases a with
  | noteDelivered d fault now =>
    unfold step
    dsimp only
    split
    case h_1 file ran => exact (noteDelivered_effect ran).2
    case h_2 => exact .same
  | prune fault now =>
    unfold step
    dsimp only
    split
    case h_1 file report ran => exact (prune_effect ran).1
    case h_2 => exact .same
  | recordFirstOpen k i digest fault now => exact (recordFirstOpen_opens sha256 fault s.ledger k i digest now).effect
  | verdict => exact .same
  | runPass unlocked fault store now => exact runPass_effect

theorem Unrevived.late (given : a.delivery = some d) (unrevived : Unrevived sha256 s a)
    (known : (d.scopeKey, d.messageId) ∈ s.recorded) (expired : verdict sha256 s.ledger d.scopeKey d.messageId a.time = .expired) :
    d.release.absoluteExpiresAt ≤ a.time := by
  cases a with
  | noteDelivered d' fault now =>
    cases given
    exact unrevived known expired
  | recordFirstOpen => cases given
  | verdict => cases given
  | prune => cases given
  | runPass => cases given

/-- What reads as expired goes on reading so. -/
theorem expired_step (known : (k, i) ∈ s.recorded) (nonneg : 0 ≤ s.clock) (ordered : Ordered s a) (unrevived : Unrevived sha256 s a)
    (expired : verdict sha256 s.ledger k i s.clock = .expired) : verdict sha256 (step sha256 s a).ledger k i a.time = .expired := by
  have before : ¬∃ r, Readable sha256 s.ledger k i a.time r := by
    rintro ⟨r, readable⟩
    exact verdict_expired_iff.1 expired ⟨r, readable.earlier nonneg ordered⟩
  have effect := step_effect sha256 s a
  generalize (step sha256 s a).ledger = file at effect
  rw [verdict_expired_iff]
  rintro ⟨r, readable⟩
  obtain ⟨found, alive⟩ := live_eq_some.1 readable.live
  -- Whatever the call did, a record that is live now was live in the file before.
  have lived : ∀ r', s.ledger.wellFormed sha256 = true → s.ledger.live a.time k i = some r' → False := fun r' formed live =>
    before ⟨r', readable.scope, readable.message, formed, readable.nonneg, live⟩
  cases effect with
  | same => exact before ⟨r, readable⟩
  | delivered d given record formed nonneg early made absent looked =>
    rw [looked] at found
    split at found
    case isTrue same =>
      obtain ⟨rfl, rfl⟩ := same
      have late := unrevived.late given known (verdict_expired_of before)
      omega
    case isFalse => exact lived r formed found
  | opened k' i' record opened formed nonneg there early status looked =>
    rw [looked] at found
    split at found
    case isTrue same =>
      obtain ⟨rfl, rfl⟩ := same
      exact lived record formed (live_eq_some.2 ⟨there, OpenClockRecord.alive early (by rw [status]; rfl)⟩)
    case isFalse => exact lived r formed (live_eq_some.2 ⟨found, alive⟩)
  | pruned formed nonneg looked =>
    rw [looked] at found
    exact lived r formed found

/-- An opened record stays as it is until it reads as expired. -/
theorem opened_step (known : (k, i) ∈ s.recorded) (unrevived : Unrevived sha256 s a) (there : s.ledger.find k i = some r)
    (status : r.lifecycle.status = .opened) :
    verdict sha256 (step sha256 s a).ledger k i a.time = .expired ∨ (step sha256 s a).ledger.find k i = some r := by
  have effect := step_effect sha256 s a
  generalize (step sha256 s a).ledger = file at effect
  -- A file in which the message is as live as it was before has the record or reads as expired.
  have kept : file.find k i = s.ledger.live a.time k i → verdict sha256 file k i a.time = .expired ∨ file.find k i = some r := by
    intro looked
    cases live : s.ledger.live a.time k i with
    | none =>
      refine .inl (verdict_expired_of ?_)
      rintro ⟨r', readable⟩
      have found := (live_eq_some.1 readable.live).1
      rw [looked, live] at found
      cases found
    | some r' =>
      have same := (live_eq_some.1 live).1
      rw [there] at same
      exact .inr (looked.trans (live.trans same.symm))
  cases effect with
  | same => exact .inr there
  | delivered d given record formed nonneg early made absent looked =>
    by_cases same : k = d.scopeKey ∧ i = d.messageId
    · obtain ⟨rfl, rfl⟩ := same
      have late := unrevived.late given known (verdict_expired_of ?_)
      · omega
      · rintro ⟨r', readable⟩
        have live := readable.live
        rw [absent] at live
        cases live
    · exact kept ((looked k i).trans (if_neg same))
  | opened k' i' record opened formed nonneg there' early status' looked =>
    by_cases same : k = k' ∧ i = i'
    · obtain ⟨rfl, rfl⟩ := same
      rw [there] at there'
      cases there'
      rw [status] at status'
      cases status'
    · exact .inr ((looked k i).trans ((if_neg same).trans there))
  | pruned formed nonneg looked => exact kept (looked k i)

/-- What is in the file was taken in, at a time that is not negative. -/
structure Known (s : State) : Prop where
  recorded : ∀ {k i r}, s.ledger.find k i = some r → (k, i) ∈ s.recorded
  nonneg : s.recorded ≠ [] → 0 ≤ s.clock

theorem Known.start (clock : Int) : Known (start clock) where
  recorded found := by
    cases found
  nonneg some := absurd rfl some

/-- A record of the new file is of a message of the old one, or of the delivery. -/
theorem Effect.origin {taken : Option Delivery} (effect : Effect sha256 stored now taken file) (found : file.find k i = some r) :
    (∃ r', stored.find k i = some r') ∨ ∃ d, taken = some d ∧ k = d.scopeKey ∧ i = d.messageId := by
  cases effect with
  | same => exact .inl ⟨r, found⟩
  | delivered d given record formed nonneg early made absent looked =>
    by_cases same : k = d.scopeKey ∧ i = d.messageId
    · exact .inr ⟨d, given, same⟩
    · rw [looked, if_neg same] at found
      exact .inl ⟨r, (live_eq_some.1 found).1⟩
  | opened k' i' record opened formed nonneg there early status looked =>
    by_cases same : k = k' ∧ i = i'
    · obtain ⟨rfl, rfl⟩ := same
      exact .inl ⟨record, there⟩
    · rw [looked, if_neg same] at found
      exact .inl ⟨r, found⟩
  | pruned formed nonneg looked =>
    rw [looked] at found
    exact .inl ⟨r, (live_eq_some.1 found).1⟩

theorem Known.kept (known : Known s) (ordered : Ordered s a) (same : (step sha256 s a).recorded = s.recorded)
    (effect : Effect sha256 s.ledger a.time none (step sha256 s a).ledger) : Known (step sha256 s a) where
  recorded found := by
    rcases effect.origin found with ⟨r, before⟩ | ⟨d, given, -⟩
    · rw [same]
      exact known.recorded before
    · cases given
  nonneg some := by
    rw [same] at some
    rw [step_clock]
    exact (known.nonneg some).trans ordered

theorem Known.step (known : Known s) (ordered : Ordered s a) : Known (step sha256 s a) := by
  have effect := step_effect sha256 s a
  cases a with
  | noteDelivered d fault now =>
    cases ran : noteDelivered sha256 fault s.ledger d now with
    | ok file =>
      obtain ⟨nonneg, effect⟩ := noteDelivered_effect ran
      rw [step_taken ran]
      refine ⟨fun found => ?_, fun _ => nonneg⟩
      rcases effect.origin found with ⟨r, before⟩ | ⟨d', given, rfl, rfl⟩
      · exact List.mem_cons_of_mem _ (known.recorded before)
      · cases given
        exact List.mem_cons_self
    | error e =>
      rw [step_refused ran]
      exact ⟨known.recorded, fun some => (known.nonneg some).trans ordered⟩
  | prune fault now =>
    refine known.kept ordered ?_ effect
    unfold OpenClock.step
    dsimp only
    split <;> rfl
  | recordFirstOpen => exact known.kept ordered rfl effect
  | verdict => exact known.kept ordered rfl effect
  | runPass => exact known.kept ordered rfl effect

/-! ## Over a history -/

section

variable {acts more : List Act}

theorem expired_run (known : (k, i) ∈ s.recorded) (nonneg : 0 ≤ s.clock) (expired : verdict sha256 s.ledger k i s.clock = .expired)
    (steps : AllSteps (step sha256) (fun s a => Ordered s a ∧ Unrevived sha256 s a) s more) :
    0 ≤ (run (step sha256) s more).clock ∧
      verdict sha256 (run (step sha256) s more).ledger k i (run (step sha256) s more).clock = .expired := by
  have kept := run_invariant_of
    (I := fun s : State => (k, i) ∈ s.recorded ∧ 0 ≤ s.clock ∧ verdict sha256 s.ledger k i s.clock = .expired)
    (fun s a inv cond => ?_) ⟨known, nonneg, expired⟩ steps
  · exact kept.2
  · obtain ⟨known, nonneg, expired⟩ := inv
    rw [step_clock]
    exact ⟨step_recorded known, nonneg.trans cond.1, expired_step known nonneg cond.1 cond.2 expired⟩

theorem opened_run (known : (k, i) ∈ s.recorded) (nonneg : 0 ≤ s.clock) (there : s.ledger.find k i = some r)
    (status : r.lifecycle.status = .opened)
    (steps : AllSteps (step sha256) (fun s a => Ordered s a ∧ Unrevived sha256 s a) s more) :
    0 ≤ (run (step sha256) s more).clock ∧
      (verdict sha256 (run (step sha256) s more).ledger k i (run (step sha256) s more).clock = .expired ∨
        (run (step sha256) s more).ledger.find k i = some r) := by
  have kept := run_invariant_of
    (I := fun s : State => (k, i) ∈ s.recorded ∧ 0 ≤ s.clock ∧
      (verdict sha256 s.ledger k i s.clock = .expired ∨ s.ledger.find k i = some r))
    (fun s a inv cond => ?_) ⟨known, nonneg, .inr there⟩ steps
  · exact kept.2
  · obtain ⟨known, nonneg, expired | there⟩ := inv
    · rw [step_clock]
      exact ⟨step_recorded known, nonneg.trans cond.1, .inl (expired_step known nonneg cond.1 cond.2 expired)⟩
    · rw [step_clock]
      exact ⟨step_recorded known, nonneg.trans cond.1, opened_step known cond.2 there status⟩

end

theorem expired_later (nonneg : 0 ≤ now) (le : now ≤ later) (expired : verdict sha256 stored k i now = .expired) :
    verdict sha256 stored k i later = .expired := by
  refine verdict_expired_of ?_
  rintro ⟨r, readable⟩
  exact verdict_expired_iff.1 expired ⟨r, readable.earlier nonneg le⟩

/-- The verdict on an opened record is its deadline, or that it has passed. -/
theorem verdict_of_opened (there : stored.find k i = some r) (first : r.lifecycle.firstAuthenticatedOpenAt ≠ none) :
    verdict sha256 stored k i now = .expired ∨
      verdict sha256 stored k i now = .readable (toI64 r.lifecycle.effectiveExpiresAt) := by
  by_cases readable : ∃ r', Readable sha256 stored k i now r'
  · obtain ⟨r', readable⟩ := readable
    have same := (live_eq_some.1 readable.live).1
    rw [there] at same
    cases same
    right
    rw [readable.verdict]
    unfold OpenClockRecord.deadline
    split
    case h_1 none => exact absurd none first
    case h_2 => rfl
  · exact .inl (verdict_expired_of readable)

/-- What an open that is answered leaves in the file. -/
theorem Opens.opened (opens : Opens sha256 stored k i digest now (file, .readable e)) :
    0 ≤ now ∧ ∃ r, file.find k i = some r ∧ r.lifecycle.status = .opened ∧ r.lifecycle.firstAuthenticatedOpenAt ≠ none ∧
      toI64 r.lifecycle.effectiveExpiresAt = e := by
  generalize answer : (file, ExpiryVerdict.readable e) = pair at opens
  cases opens with
  | refused => cases answer
  | again record formed named nonneg there early status =>
    cases answer
    refine ⟨nonneg, record, there, status, ?_, rfl⟩
    have shape := shape_of_valid
      (Bool.and_eq_true_iff.1 (OpenClockLedger.valid_of_find formed there)).1
    unfold evidenceShape at shape
    rw [status] at shape
    simp only [Bool.and_eq_true] at shape
    intro none
    rw [firstAuthenticatedOpenAt, Option.map_eq_none_iff] at none
    rw [none] at shape
    exact absurd shape.2 Bool.false_ne_true
  | first record opened formed named nonneg there early status made =>
    cases answer
    refine ⟨nonneg, { record with lifecycle := opened }, ?_, by rw [made], ?_, rfl⟩
    · exact (Nested.find_insertAt k k i i _).trans (if_pos ⟨rfl, rfl⟩)
    · rw [made]
      exact Option.some_ne_none _

/-- With a clock that does not go back, in every history without a revival: a message taken in
that reads as expired does so ever after, to `verdict` and to `record_first_open`; and
the deadline an answered open gives is the one that is in force until then. -/
theorem expired_for_ever (sha256 : List UInt8 → Digest) (clock : Int) (acts more : List Act)
    (ordered : AllSteps (step sha256) Ordered (start clock) (acts ++ more))
    (unrevived : AllSteps (step sha256) (Unrevived sha256) (start clock) (acts ++ more)) (k i : Id) (now : Int)
    (later : (run (step sha256) (start clock) (acts ++ more)).clock ≤ now) :
    ((k, i) ∈ (run (step sha256) (start clock) acts).recorded →
      verdict sha256 (run (step sha256) (start clock) acts).ledger k i (run (step sha256) (start clock) acts).clock = .expired →
      verdict sha256 (run (step sha256) (start clock) (acts ++ more)).ledger k i now = .expired ∧
        ∀ fault digest, (recordFirstOpen sha256 fault (run (step sha256) (start clock) (acts ++ more)).ledger k i digest now).2 =
          .expired) ∧
    ∀ before fault digest time e, acts = before ++ [.recordFirstOpen k i digest fault time] →
      (recordFirstOpen sha256 fault (run (step sha256) (start clock) before).ledger k i digest time).2 = .readable e →
      verdict sha256 (run (step sha256) (start clock) (acts ++ more)).ledger k i now = .expired ∨
        verdict sha256 (run (step sha256) (start clock) (acts ++ more)).ledger k i now = .readable e := by
  have both : AllSteps (step sha256) (fun s a => Ordered s a ∧ Unrevived sha256 s a) (start clock) (acts ++ more) :=
    ordered.and unrevived
  rw [allSteps_append] at both
  have known : Known (run (step sha256) (start clock) acts) :=
    run_invariant_of (fun _ _ known cond => known.step cond.1) (.start clock) both.1
  rw [run_append] at later ⊢
  constructor
  · intro recorded expired
    have nonneg := known.nonneg (List.ne_nil_of_mem recorded)
    obtain ⟨nonneg', expired'⟩ := expired_run recorded nonneg expired both.2
    have expired' := expired_later nonneg' later expired'
    exact ⟨expired', fun fault digest => (recordFirstOpen_opens ..).of_expired expired'⟩
  · intro before fault digest time e split answered
    have opens := recordFirstOpen_opens sha256 fault (run (step sha256) (start clock) before).ledger k i digest time
    generalize open_ : recordFirstOpen sha256 fault (run (step sha256) (start clock) before).ledger k i digest time = answer
      at opens answered
    obtain ⟨file, v⟩ := answer
    cases answered
    obtain ⟨nonneg, r, found, status, first, deadline⟩ := opens.opened
    have after : (run (step sha256) (start clock) acts).ledger = file ∧ (run (step sha256) (start clock) acts).clock = time := by
      rw [split, run_snoc]
      exact ⟨congrArg Prod.fst open_, rfl⟩
    rw [← after.1] at found
    rw [← after.2] at nonneg
    obtain ⟨nonneg', expired | there⟩ := opened_run (known.recorded found) nonneg found status both.2
    · exact .inl (expired_later nonneg' later expired)
    · rw [← deadline]
      exact verdict_of_opened there first

def sampleSha256 (_ : List UInt8) : Digest := someDigest

/-- A message to be read for an hour from the first open, within seven days. -/
def sampleDelivery : Delivery where
  scopeKey := [100, 109]
  messageId := [112, 49]
  release := ⟨1000000 + 604800, some 3600⟩
  parts := [⟨0, 512, someDigest⟩]
  deliveryDigest := someDigest
  cacheId := some [99]

/-- It is opened and, an hour later, dropped. -/
def sampleHistory : List Act :=
  [.noteDelivered sampleDelivery none 1000000, .recordFirstOpen [100, 109] [112, 49] someDigest none 1000010,
    .prune none 1003610]

theorem sampleHistory_ordered {more : List Act}
    (ordered : AllSteps (step sampleSha256) Ordered (run (step sampleSha256) (start 0) sampleHistory) more) :
    AllSteps (step sampleSha256) Ordered (start 0) (sampleHistory ++ more) := by
  rw [allSteps_append]
  refine ⟨⟨?_, ?_, ?_, trivial⟩, ordered⟩
  · show (0 : Int) ≤ 1000000
    decide
  · unfold Ordered
    rw [step_clock]
    decide
  · unfold Ordered
    rw [step_clock]
    decide

theorem sampleHistory_clock : (run (step sampleSha256) (start 0) sampleHistory).clock = 1003610 := by
  unfold sampleHistory
  rw [run_cons, run_cons, run_cons, run_nil, step_clock]
  rfl

theorem expired_for_ever_sample :
    verdict sampleSha256 (run (step sampleSha256) (start 0) (sampleHistory ++ [.verdict [100, 109] [112, 49] 1003700])).ledger
      [100, 109] [112, 49] 1500000 = .expired := by
  refine ((expired_for_ever sampleSha256 0 sampleHistory [.verdict [100, 109] [112, 49] 1003700]
    (sampleHistory_ordered ⟨?_, trivial⟩) ?_ [100, 109] [112, 49] 1500000 ?_).1 ?_ ?_).1
  · unfold Ordered
    rw [sampleHistory_clock]
    decide
  · exact ⟨(fun known => by cases known), trivial, trivial, trivial, trivial⟩
  · show (1003700 : Int) ≤ 1500000
    decide
  · decide +kernel
  · rw [sampleHistory_clock]
    decide +kernel

/-- The same message delivered again after that is readable again. -/
theorem redelivery_revives :
    AllSteps (step sampleSha256) Ordered (start 0) (sampleHistory ++ [.noteDelivered sampleDelivery none 1003700]) ∧
      (sampleDelivery.scopeKey, sampleDelivery.messageId) ∈ (run (step sampleSha256) (start 0) sampleHistory).recorded ∧
      verdict sampleSha256 (run (step sampleSha256) (start 0) sampleHistory).ledger [100, 109] [112, 49] 1003610 = .expired ∧
      verdict sampleSha256
        (run (step sampleSha256) (start 0) (sampleHistory ++ [.noteDelivered sampleDelivery none 1003700])).ledger [100, 109]
        [112, 49] 1003700 = .awaitingFirstOpen 1604800 := by
  refine ⟨sampleHistory_ordered ⟨?_, trivial⟩, by decide +kernel, by decide +kernel, by decide +kernel⟩
  unfold Ordered
  rw [sampleHistory_clock]
  decide

/-! ## A message delivered again -/

/-- `r` is what the ledger keeps of the delivery `d` it took in at `t`, opened since or not. -/
def Delivery.Holds (sha256 : List UInt8 → Digest) (d : Delivery) (t : Int) (r : OpenClockRecord) : Prop :=
  ¬d.invalid t ∧ ∃ made, d.record sha256 t = .ok made ∧
    (r = made ∨ ∃ e, r = { made with lifecycle := { made.lifecycle with status := .opened, openedEvidence := some e } })

/-- The record of a delivery is dated and has not been opened. -/
theorem Delivery.record_ok (made : d.record sha256 now = .ok r) :
    0 ≤ now ∧ r.lifecycle.createdAt = now.toNat ∧ r.lifecycle.status = .received := by
  obtain ⟨time, clock, made⟩ := bind_ok.1 made
  obtain ⟨expires, -, made⟩ := bind_ok.1 made
  obtain ⟨lifecycle, received, rfl⟩ := map_ok.1 made
  obtain ⟨nonneg, rfl⟩ := toU64_ok clock
  obtain ⟨status, s, ops, prepared, rfl⟩ := receive_run (mapError_ok.1 received)
  refine ⟨nonneg, ?_, status⟩
  obtain ⟨-, -, -, -, created⟩ := @sound_prepare sha256 _ _ _ _ _ _ _ _ prepared
  exact run_invariant (I := fun s => s.createdAt = now.toNat) (fun s op same => (apply_effect s op).createdAt.trans same)
    created ops

theorem noteDelivered_live_iff (formed : stored.wellFormed sha256 = true)
    (live : stored.live now d.scopeKey d.messageId = some r) :
    noteDelivered sha256 fault stored d now = .ok stored ↔ ¬d.invalid now ∧ d.record sha256 now = .ok r := by
  unfold noteDelivered loadOpenClock
  rw [if_pos formed]
  split
  case isTrue invalid => exact iff_of_false (fun ok => by cases ok) fun ok => ok.1 invalid
  rename_i valid
  rw [and_iff_right valid]
  cases made : d.record sha256 now with
  | error e => exact iff_of_false (fun ok => by cases ok) fun ok => by cases ok
  | ok record =>
    have looked := (find_pruneInMemory (Delivery.record_ok made).1 d.scopeKey d.messageId).trans live
    simp only [bind, Except.bind]
    rw [looked]
    dsimp only
    split
    case isTrue same => exact iff_of_true rfl (congrArg _ same.symm)
    case isFalse other => exact iff_of_false (fun ok => by cases ok) fun ok => other (by cases ok; rfl)

/-- A message delivered again is accepted within the second it was first delivered in, and
until it is opened: the record compared has the time of the delivery in it. -/
theorem redelivered_iff (formed : stored.wellFormed sha256 = true) (live : stored.live now d.scopeKey d.messageId = some r)
    (held : d.Holds sha256 t r) :
    noteDelivered sha256 fault stored d now = .ok stored ↔ now = t ∧ r.lifecycle.status = .received := by
  obtain ⟨valid, made, record, rfl | ⟨e, rfl⟩⟩ := held
  · obtain ⟨nonneg, created, status⟩ := Delivery.record_ok record
    rw [noteDelivered_live_iff formed live]
    constructor
    · rintro ⟨-, again⟩
      obtain ⟨nonneg', created', -⟩ := Delivery.record_ok again
      exact ⟨by omega, status⟩
    · rintro ⟨rfl, -⟩
      exact ⟨valid, record⟩
  · rw [noteDelivered_live_iff formed live]
    refine iff_of_false ?_ fun same => by cases same.2
    rintro ⟨-, again⟩
    cases (Delivery.record_ok again).2.2

/-- The sample message, just delivered. -/
def sampleLedger : OpenClockLedger := (step sampleSha256 (start 0) (.noteDelivered sampleDelivery none 1000000)).ledger

theorem redelivered_sample : noteDelivered sampleSha256 none sampleLedger sampleDelivery 1000000 = .ok sampleLedger := by
  have found : sampleLedger.live 1000000 [100, 109] [112, 49] = (sampleDelivery.record sampleSha256 1000000).toOption ∧
      (sampleDelivery.record sampleSha256 1000000).isOk := by decide +kernel
  cases made : sampleDelivery.record sampleSha256 1000000 with
  | error e =>
    rw [made] at found
    cases found.2
  | ok r =>
    rw [made] at found
    refine (redelivered_iff (by decide +kernel) found.1 ⟨by decide +kernel, r, made, .inl rfl⟩).2 ⟨rfl, ?_⟩
    exact (Delivery.record_ok made).2.2

/-- Delivered again a second later, or after an open, it is refused. -/
theorem redelivery_refused :
    (noteDelivered sampleSha256 none sampleLedger sampleDelivery 1000001).map (fun _ => ()) =
        .error "OSL already holds a different timer for this message" ∧
      (sampleLedger.live 1000001 [100, 109] [112, 49]).isSome ∧
      (noteDelivered sampleSha256 none (recordFirstOpen sampleSha256 none sampleLedger [100, 109] [112, 49] someDigest 1000000).1
        sampleDelivery 1000000).map (fun _ => ()) = .error "OSL already holds a different timer for this message" := by
  decide +kernel

end Osl.Hub.OpenClock
