import Osl.Hub.Expiry

/-!
# Cache rows of expired messages

A record names the local cache row its message was written to, and expiry is to shred the
row. A row the ledger names stays named until it is shredded if, whenever records leave
because they have expired, their rows are shredded in the same call or were before
(`Covered`). Only a pass shreds, and only the first rows of its batch, when there is a
store and the store does not fail; a delivery and a pruning drop records as well.
-/

namespace Osl.Hub.OpenClock

open Base Lifecycle

variable {sha256 : List UInt8 → Digest} {fault : Option String} {stored file : OpenClockLedger} {now : Int} {k i id : Id}
  {r : OpenClockRecord} {s : State} {a : Act} {shred : List Id → Except String Nat}

/-- The rows the records that have expired name. -/
def expiredRows (l : OpenClockLedger) (now : Int) : List Id := (l.scopes.values.filter (·.gone now.toNat)).filterMap (·.cacheId)

theorem pruneInMemory_rows (nonneg : 0 ≤ now) : (pruneInMemory stored now).2.shredCacheIds = expiredRows stored now := by
  unfold pruneInMemory
  rw [toU64_of_nonneg nonneg]
  rfl

/-- A record that has not expired stays, though it may become an opened one. -/
theorem Effect.kept {taken : Option Delivery} (effect : Effect sha256 stored now taken file) (found : stored.find k i = some r)
    (alive : r.gone now.toNat = false) : ∃ r', file.find k i = some r' ∧ r'.cacheId = r.cacheId := by
  have live : stored.live now k i = some r := live_eq_some.2 ⟨found, alive⟩
  cases effect with
  | same => exact ⟨r, found, rfl⟩
  | delivered d given record formed nonneg early made absent looked =>
    by_cases same : k = d.scopeKey ∧ i = d.messageId
    · obtain ⟨rfl, rfl⟩ := same
      rw [absent] at live
      cases live
    · exact ⟨r, (looked k i).trans ((if_neg same).trans live), rfl⟩
  | opened k' i' record opened formed nonneg there early status looked =>
    by_cases same : k = k' ∧ i = i'
    · obtain ⟨rfl, rfl⟩ := same
      rw [found] at there
      cases there
      exact ⟨_, (looked k i).trans (if_pos ⟨rfl, rfl⟩), rfl⟩
    · exact ⟨r, (looked k i).trans ((if_neg same).trans found), rfl⟩
  | pruned formed nonneg looked => exact ⟨r, (looked k i).trans live, rfl⟩

/-- An expired record that leaves in this call leaves with its row shredded. -/
def Handed (sha256 : List UInt8 → Digest) (s : State) (a : Act) : Prop :=
  ∀ k i r id, s.ledger.find k i = some r → r.gone a.time.toNat = true → r.cacheId = some id →
    (step sha256 s a).ledger.find k i ≠ some r → id ∈ (step sha256 s a).shredded

/-- The rows of the records that have expired are shredded before a delivery or a pruning,
and by a pass: its store is there and takes them all. -/
def Covered (s : State) : Act → Prop
  | .noteDelivered _ _ now => ∀ id ∈ expiredRows s.ledger now, id ∈ s.shredded
  | .prune _ now => ∀ id ∈ expiredRows s.ledger now, id ∈ s.shredded
  | .runPass unlocked _ store now => unlocked = true → ∀ id ∈ expiredRows s.ledger now, id ∈ s.shredded ∨
      id ∈ (expiredRows s.ledger now).take maxCacheShredsPerPass ∧
        ∃ shred rows, store = some shred ∧ shred ((expiredRows s.ledger now).take maxCacheShredsPerPass) = .ok rows
  | .recordFirstOpen .. => True
  | .verdict .. => True

theorem step_shredded (mem : id ∈ s.shredded) : id ∈ (step sha256 s a).shredded := by
  cases a with
  | noteDelivered d fault now =>
    unfold step
    dsimp only
    split <;> exact mem
  | prune fault now =>
    unfold step
    dsimp only
    split <;> exact mem
  | recordFirstOpen => exact mem
  | verdict => exact mem
  | runPass => exact List.mem_append_right _ mem

/-- What a pass whose store takes the batch has shredded, if it dropped anything. -/
theorem runPass_shreds {rows : Nat} (changed : (runPass sha256 true fault (some shred) stored now).1 ≠ stored)
    (took : shred ((expiredRows stored now).take maxCacheShredsPerPass) = .ok rows) :
    (runPass sha256 true fault (some shred) stored now).2.2 = (expiredRows stored now).take maxCacheShredsPerPass := by
  unfold runPass at changed ⊢
  rw [if_pos rfl] at changed ⊢
  cases ran : prune sha256 fault stored now with
  | error e =>
    rw [ran] at changed
    exact absurd rfl changed
  | ok answer =>
    obtain ⟨file, report⟩ := answer
    rw [ran] at changed
    dsimp only at changed ⊢
    obtain ⟨effect, reported⟩ := prune_effect ran
    have differs : file ≠ stored := by
      rintro rfl
      split at changed <;> exact changed rfl
    have nonneg : 0 ≤ now := by
      cases effect with
      | same => exact absurd rfl differs
      | delivered d given => cases given
      | opened k i record opened formed nonneg => exact nonneg
      | pruned formed nonneg => exact nonneg
    rw [reported differs, pruneInMemory_rows nonneg, took]

theorem Covered.handed (covered : Covered s a) : Handed sha256 s a := by
  intro k i r id found gone named left
  have row : id ∈ expiredRows s.ledger a.time :=
    List.mem_filterMap.2 ⟨r, List.mem_filter.2 ⟨Nested.mem_values.2 ⟨k, i, found⟩, gone⟩, named⟩
  cases a with
  | noteDelivered d fault now => exact step_shredded (covered id row)
  | prune fault now => exact step_shredded (covered id row)
  | verdict k' i' now => exact absurd found left
  | recordFirstOpen k' i' digest fault now =>
    -- An open drops nothing and changes no record that has expired.
    refine absurd ?_ left
    have opens := recordFirstOpen_opens sha256 fault s.ledger k' i' digest now
    show (recordFirstOpen sha256 fault s.ledger k' i' digest now).1.find k i = some r
    generalize recordFirstOpen sha256 fault s.ledger k' i' digest now = answer at opens
    cases opens with
    | refused => exact found
    | again => exact found
    | first record opened formed named' nonneg there early status made =>
      refine (Nested.find_insertAt k' k i' i _).trans ((if_neg ?_).trans found)
      rintro ⟨rfl, rfl⟩
      rw [found] at there
      cases there
      have alive : r.gone now.toNat = false := OpenClockRecord.alive early (by rw [status]; rfl)
      exact Bool.false_ne_true (alive.symm.trans gone)
  | runPass unlocked fault store now =>
    cases unlocked with
    | false => exact absurd found left
    | true =>
      rcases covered rfl id row with before | ⟨batch, shred, rows, rfl, took⟩
      · exact step_shredded before
      · have changed : (runPass sha256 true fault (some shred) s.ledger now).1 ≠ s.ledger := by
          intro same
          apply left
          show (runPass sha256 true fault (some shred) s.ledger now).1.find k i = some r
          rw [same]
          exact found
        show id ∈ (runPass sha256 true fault (some shred) s.ledger now).2.2 ++ s.shredded
        rw [runPass_shreds changed took]
        exact List.mem_append_left _ batch

theorem named_step (covered : Covered s a) (named : (∃ r, s.ledger.find k i = some r ∧ r.cacheId = some id) ∨ id ∈ s.shredded) :
    (∃ r, (step sha256 s a).ledger.find k i = some r ∧ r.cacheId = some id) ∨ id ∈ (step sha256 s a).shredded := by
  rcases named with ⟨r, found, row⟩ | before
  · cases expired : r.gone a.time.toNat with
    | true =>
      by_cases stays : (step sha256 s a).ledger.find k i = some r
      · exact .inl ⟨r, stays, row⟩
      · exact .inr (covered.handed k i r id found expired row stays)
    | false =>
      obtain ⟨r', found', same⟩ := (step_effect sha256 s a).kept found expired
      exact .inl ⟨r', found', same.trans row⟩
  · exact .inr (step_shredded before)

/-- In every history that covers its expired rows, an expired record leaves only with its row
shredded, and a row the ledger has named is named by it until it is shredded. -/
theorem rows_shredded (sha256 : List UInt8 → Digest) (clock : Int) (acts more : List Act)
    (covered : AllSteps (step sha256) Covered (start clock) (acts ++ more)) :
    AllSteps (step sha256) (Handed sha256) (start clock) (acts ++ more) ∧
      ∀ k i r id, (run (step sha256) (start clock) acts).ledger.find k i = some r → r.cacheId = some id →
        (∃ r', (run (step sha256) (start clock) (acts ++ more)).ledger.find k i = some r' ∧ r'.cacheId = some id) ∨
          id ∈ (run (step sha256) (start clock) (acts ++ more)).shredded := by
  refine ⟨covered.mono fun _ _ => Covered.handed, fun k i r id found row => ?_⟩
  rw [run_append]
  exact run_invariant_of
    (I := fun s : State => (∃ r, s.ledger.find k i = some r ∧ r.cacheId = some id) ∨ id ∈ s.shredded)
    (fun s a named covered => named_step covered named) (.inl ⟨r, found, row⟩) ((allSteps_append ..).1 covered).2

/-- A store that shreds what it is given. -/
def sampleStore : Option (List Id → Except String Nat) := some fun ids => .ok ids.length

theorem rows_shredded_sample :
    AllSteps (step sampleSha256) (Handed sampleSha256) (start 0)
        ([.noteDelivered sampleDelivery none 1000000] ++ [.runPass true none sampleStore 1604800]) ∧
      [99] ∈ (run (step sampleSha256) (start 0)
        ([.noteDelivered sampleDelivery none 1000000] ++ [.runPass true none sampleStore 1604800])).shredded := by
  have covered : AllSteps (step sampleSha256) Covered (start 0)
      ([.noteDelivered sampleDelivery none 1000000] ++ [.runPass true none sampleStore 1604800]) := by
    refine ⟨fun id row => ?_, fun _ id row => ?_, trivial⟩
    · have none : expiredRows (start 0).ledger 1000000 = [] := by decide +kernel
      cases row
    · have few : (expiredRows (step sampleSha256 (start 0) (.noteDelivered sampleDelivery none 1000000)).ledger 1604800).length ≤
          maxCacheShredsPerPass := by decide +kernel
      refine .inr ⟨?_, _, _, rfl, rfl⟩
      exact row
  obtain ⟨handed, named⟩ := rows_shredded sampleSha256 0 [.noteDelivered sampleDelivery none 1000000]
    [.runPass true none sampleStore 1604800] covered
  obtain ⟨r, found, row⟩ : ∃ r, (run (step sampleSha256) (start 0) [.noteDelivered sampleDelivery none 1000000]).ledger.find
      [100, 109] [112, 49] = some r ∧ r.cacheId = some [99] := by
    rw [← Option.map_eq_some_iff]
    decide +kernel
  have left : (run (step sampleSha256) (start 0)
      ([.noteDelivered sampleDelivery none 1000000] ++ [.runPass true none sampleStore 1604800])).ledger.find [100, 109] [112, 49] =
      none := by decide +kernel
  rcases named _ _ r [99] found row with ⟨r', found', -⟩ | shredded
  · rw [left] at found'
    cases found'
  · exact ⟨handed, shredded⟩

/-- The row of the sample message is named by the ledger, and after `acts` neither named nor
shredded. -/
def Forgotten (acts : List Act) : Prop :=
  ((run (step sampleSha256) (start 0) [.noteDelivered sampleDelivery none 1000000]).ledger.find [100, 109] [112, 49]).map
      (·.cacheId) = some (some [99]) ∧
    (run (step sampleSha256) (start 0) (.noteDelivered sampleDelivery none 1000000 :: acts)).ledger.find [100, 109] [112, 49] = none ∧
    [99] ∉ (run (step sampleSha256) (start 0) (.noteDelivered sampleDelivery none 1000000 :: acts)).shredded

instance (acts : List Act) : Decidable (Forgotten acts) := inferInstanceAs (Decidable (_ ∧ _))

/-- It has expired, and a pass finds no store, or a store that fails, and the next pass does
not try again; or another message is delivered first. -/
theorem rows_forgotten :
    Forgotten [.runPass true none none 1604800, .runPass true none sampleStore 1604830] ∧
      Forgotten [.runPass true none (some fun _ => .error "busy") 1604800, .runPass true none sampleStore 1604830] ∧
      Forgotten [.noteDelivered { sampleDelivery with messageId := [112, 50], release := ⟨1700000, none⟩, cacheId := none } none
        1604800, .runPass true none sampleStore 1604830] := by
  decide +kernel

end Osl.Hub.OpenClock
