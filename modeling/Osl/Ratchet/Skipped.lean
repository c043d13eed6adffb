import Osl.Base.TreeMap
import Osl.Base.Word
import Osl.Ratchet.Primitives

/-!
# The skipped-key store (`crates/osl-ratchet-next/src/skipped.rs`)

Message keys of messages not yet seen, in buckets by header key, with caps on
every dimension and a logical age. Two facts carry the proofs about sessions: no
operation ever adds a key but the one inserted (`holds_insert`), and with room
under the caps an insertion evicts nothing (`insert_eq_of_room`).
-/

namespace Osl.Ratchet

open Base Std

structure SkipParams where
  maxSkipPerMessage : Nat
  maxKeysPerChain : Nat
  maxTotalKeys : Nat
  maxChains : Nat
  maxAge : Nat
  deriving DecidableEq

instance : Inhabited SkipParams := ⟨⟨512, 512, 2048, 5, 100000⟩⟩

def SkipParams.validated (p : SkipParams) : Result SkipParams :=
  if p.maxChains = 0 ∨ p.maxKeysPerChain = 0 ∨ p.maxTotalKeys = 0 ∨ p.maxSkipPerMessage = 0 then
    .error (.policyBound "skip params must be non-zero")
  else if p.maxKeysPerChain > p.maxTotalKeys then
    .error (.policyBound "per-chain cap exceeds global cap")
  else .ok p

/-- Counter to message key and insertion tick. -/
abbrev BucketKeys := ExtTreeMap Nat (Bytes × Nat)

structure ChainBucket where
  headerKey : Bytes
  keys : BucketKeys

/-- The first bucket under `hk`, which `position` finds. -/
def keysOf (hk : Bytes) (chains : List ChainBucket) : Option BucketKeys :=
  (chains.find? (·.headerKey = hk)).map (·.keys)

def modifyFirst (hk : Bytes) (f : BucketKeys → BucketKeys) : List ChainBucket → List ChainBucket
  | [] => []
  | c :: rest =>
    if c.headerKey = hk then { c with keys := f c.keys } :: rest else c :: modifyFirst hk f rest

structure SkippedKeys where
  params : SkipParams
  chains : List ChainBucket
  total : Nat
  tick : Nat

namespace SkippedKeys

def new (params : SkipParams) : Result SkippedKeys := do
  let params ← params.validated
  .ok ⟨params, [], 0, 0⟩

/-- What of a bucket is not older than `cutoff`. -/
def unexpired (cutoff : Nat) (c : ChainBucket) : ChainBucket :=
  { c with keys := c.keys.filter fun _ v => cutoff ≤ v.2 }

/-- `tick`: advance the clock, drop what aged out. -/
def advanceTick (st : SkippedKeys) : SkippedKeys :=
  let tick := satAdd 64 st.tick 1
  let cutoff := tick - st.params.maxAge
  if cutoff = 0 then { st with tick }
  else
    let stale := (st.chains.map fun c => c.keys.size - (unexpired cutoff c).keys.size).sum
    { st with
      tick
      total := st.total - stale
      chains := (st.chains.map (unexpired cutoff)).filter fun c => !c.keys.isEmpty }

def headerKeys (st : SkippedKeys) : List Bytes := st.chains.map (·.headerKey)

def checkSkip (st : SkippedKeys) (count : Nat) : Result Unit :=
  if count > st.params.maxSkipPerMessage then
    .error (.skipLimitExceeded count st.params.maxSkipPerMessage)
  else .ok ()

/-! ## Insertion -/

/-- Oldest buckets go while there is no room for another one. -/
def evictChains (maxChains : Nat) : List ChainBucket → Nat → List ChainBucket × Nat
  | [], total => ([], total)
  | c :: rest, total =>
    if maxChains ≤ (c :: rest).length then evictChains maxChains rest (total - c.keys.size)
    else (c :: rest, total)

/-- The bucket for `hk`, new and last if there is none. -/
def openBucket (st : SkippedKeys) (hk : Bytes) : SkippedKeys :=
  if (keysOf hk st.chains).isSome then st
  else
    let (chains, total) := evictChains st.params.maxChains st.chains st.total
    { st with chains := chains ++ [⟨hk, ∅⟩], total }

/-- Lowest counters go while the bucket is full; `fuel` is at least the bucket's
size. -/
def trimKeys (cap : Nat) : Nat → BucketKeys → Nat → BucketKeys × Nat
  | 0, keys, total => (keys, total)
  | fuel + 1, keys, total =>
    if cap ≤ keys.size then
      match keys.minKey? with
      | none => (keys, total)
      | some lowest => trimKeys cap fuel (keys.erase lowest) (total - 1)
    else (keys, total)

def trimBucket (st : SkippedKeys) (hk : Bytes) : SkippedKeys :=
  match keysOf hk st.chains with
  | none => st
  | some keys =>
    let (kept, total) := trimKeys st.params.maxKeysPerChain keys.size keys st.total
    { st with chains := modifyFirst hk (fun _ => kept) st.chains, total }

/-- The lowest counter of the first non-empty bucket removed. -/
def evictOne : List ChainBucket → Option (List ChainBucket)
  | [] => none
  | c :: rest =>
    match c.keys.minKey? with
    | none => (evictOne rest).map (c :: ·)
    | some lowest => some ({ c with keys := c.keys.erase lowest } :: rest)

/-- Keys of the oldest bucket go while the total is at its cap; `fuel` is at least
the total. -/
def evictTotal (maxTotal : Nat) : Nat → List ChainBucket → Nat → List ChainBucket × Nat
  | 0, chains, total => (chains, total)
  | fuel + 1, chains, total =>
    if maxTotal ≤ total then
      match evictOne chains with
      | none => (chains.filter fun c => !c.keys.isEmpty, total)
      | some chains => evictTotal maxTotal fuel (chains.filter fun c => !c.keys.isEmpty) (total - 1)
    else (chains, total)

/-- The bucket for `hk` again: the eviction may have dropped it. -/
def reopenBucket (hk : Bytes) (chains : List ChainBucket) : List ChainBucket :=
  if (keysOf hk chains).isSome then chains else chains ++ [⟨hk, ∅⟩]

def insert (st : SkippedKeys) (hk : Bytes) (counter : Nat) (messageKey : Bytes) : SkippedKeys :=
  let st := (st.openBucket hk).trimBucket hk
  let (chains, total) := evictTotal st.params.maxTotalKeys st.total st.chains st.total
  let chains := reopenBucket hk chains
  let present := (keysOf hk chains).any (·.contains counter)
  { st with
    chains := modifyFirst hk (·.insert counter (messageKey, st.tick)) chains
    total := if present then total else total + 1 }

/-- `take`: a key leaves the store with its first use. -/
def take (st : SkippedKeys) (hk : Bytes) (counter : Nat) : Option (Bytes × SkippedKeys) :=
  match keysOf hk st.chains with
  | none => none
  | some keys =>
    match keys[counter]? with
    | none => none
    | some (messageKey, _) =>
      let chains :=
        if (keys.erase counter).isEmpty then st.chains.eraseP (·.headerKey = hk)
        else modifyFirst hk (·.erase counter) st.chains
      some (messageKey, { st with chains, total := st.total - 1 })

end SkippedKeys

/-! ## What buckets hold -/

/-- The bucket under `hk` has `v` (key and tick) for `counter`. -/
def Holds (chains : List ChainBucket) (hk : Bytes) (counter : Nat) (v : Bytes × Nat) : Prop :=
  ∃ c ∈ chains, c.headerKey = hk ∧ c.keys[counter]? = some v

/-- `new` holds nothing that `old` did not. -/
def Lesser (new old : List ChainBucket) : Prop := ∀ {hk counter v}, Holds new hk counter v → Holds old hk counter v

/-- One bucket a header key. -/
def Distinct (chains : List ChainBucket) : Prop := (chains.map (·.headerKey)).Nodup

section
variable {hk hk' : Bytes} {counter : Nat} {v : Bytes × Nat} {chains old new : List ChainBucket}
  {f : BucketKeys → BucketKeys} {keys : BucketKeys}

theorem lesser_of_sublist (sub : new.Sublist old) : Lesser new old := by
  rintro hk counter v ⟨c, mem, rest⟩
  exact ⟨c, sub.subset mem, rest⟩

theorem distinct_of_sublist (sub : (new.map (·.headerKey)).Sublist (old.map (·.headerKey)))
    (distinct : Distinct old) : Distinct new := List.Nodup.sublist sub distinct

@[simp] theorem map_headerKey_modifyFirst :
    (modifyFirst hk f chains).map (·.headerKey) = chains.map (·.headerKey) := by
  induction chains with
  | nil => rfl
  | cons c rest ih =>
    unfold modifyFirst
    split <;> simp [*]

theorem keysOf_isSome : (keysOf hk chains).isSome ↔ hk ∈ chains.map (·.headerKey) := by
  simp [keysOf, List.find?_isSome]

theorem holds_append_empty : Holds (chains ++ [⟨hk', ∅⟩]) hk counter v → Holds chains hk counter v := by
  rintro ⟨c, mem, same, get⟩
  rcases List.mem_append.1 mem with mem | mem
  · exact ⟨c, mem, same, get⟩
  · obtain rfl : c = ⟨hk', ∅⟩ := by simpa using mem
    simp at get

theorem holds_modifyFirst (h : Holds (modifyFirst hk' f chains) hk counter v) :
    Holds chains hk counter v ∨ ∃ keys, keysOf hk' chains = some keys ∧ hk = hk' ∧
      (f keys)[counter]? = some v := by
  induction chains with
  | nil => simp [modifyFirst, Holds] at h
  | cons c rest ih =>
    obtain ⟨d, mem, same, get⟩ := h
    unfold modifyFirst at mem
    split at mem
    · rename_i here
      rcases List.mem_cons.1 mem with rfl | mem
      · exact .inr ⟨c.keys, by simp [keysOf, here], same.symm.trans here, get⟩
      · exact .inl ⟨d, List.mem_cons_of_mem _ mem, same, get⟩
    · rename_i other
      rcases List.mem_cons.1 mem with rfl | mem
      · exact .inl ⟨d, List.mem_cons_self, same, get⟩
      · rcases ih ⟨d, mem, same, get⟩ with ⟨e, mem, rest⟩ | ⟨keys, first, rest⟩
        · exact .inl ⟨e, List.mem_cons_of_mem _ mem, rest⟩
        · exact .inr ⟨keys, by simpa [keysOf, List.find?_cons, other] using first, rest⟩

theorem holds_of_keysOf (first : keysOf hk chains = some keys)
    (get : keys[counter]? = some v) : Holds chains hk counter v := by
  obtain ⟨c, found, rfl⟩ := Option.map_eq_some_iff.1 first
  exact ⟨c, List.mem_of_find?_eq_some found, by simpa using List.find?_some found, get⟩

theorem distinct_cons {d : ChainBucket} :
    Distinct (d :: chains) ↔ (∀ c ∈ chains, d.headerKey ≠ c.headerKey) ∧ Distinct chains := by
  unfold Distinct
  rw [List.map_cons, List.nodup_cons]
  refine and_congr_left fun _ => ?_
  simp [eq_comm]

/-- With one bucket a header key, the first one is the one. -/
theorem Distinct.keysOf_eq (distinct : Distinct chains) {c : ChainBucket} (mem : c ∈ chains) :
    keysOf c.headerKey chains = some c.keys := by
  induction chains with
  | nil => cases mem
  | cons d rest ih =>
    obtain ⟨fresh, distinct⟩ := distinct_cons.1 distinct
    rcases List.mem_cons.1 mem with rfl | mem
    · simp [keysOf]
    · simpa [keysOf, List.find?_cons, fresh c mem] using ih distinct mem

theorem Distinct.holds_iff (distinct : Distinct chains) :
    Holds chains hk counter v ↔ ∃ keys, keysOf hk chains = some keys ∧ keys[counter]? = some v := by
  constructor
  · rintro ⟨c, mem, rfl, get⟩
    exact ⟨c.keys, distinct.keysOf_eq mem, get⟩
  · rintro ⟨keys, first, get⟩
    exact holds_of_keysOf first get

theorem keysOf_modifyFirst :
    keysOf hk (modifyFirst hk' f chains) =
      if hk = hk' then (keysOf hk chains).map f else keysOf hk chains := by
  induction chains with
  | nil => simp [modifyFirst, keysOf]
  | cons c rest ih =>
    unfold modifyFirst
    split
    · rename_i here
      by_cases eq : hk = hk'
      · simp [keysOf, here, eq]
      · have other : c.headerKey ≠ hk := fun same => eq (same.symm.trans here)
        simp [keysOf, other, eq]
    · rename_i other
      by_cases first : c.headerKey = hk
      · have ne : hk ≠ hk' := fun eq => other (first.trans eq)
        simp [keysOf, first, ne]
      · simpa [keysOf, List.find?_cons, first] using ih

end

/-! ## No operation adds keys of its own -/

namespace SkippedKeys

variable {hk hk' m : Bytes} {counter counter' total fuel cap count maxChains maxTotal : Nat} {v : Bytes × Nat}
  {st : SkippedKeys} {chains new : List ChainBucket} {keys : BucketKeys}

theorem evictChains_sublist (maxChains : Nat) (chains : List ChainBucket) (total : Nat) :
    (evictChains maxChains chains total).1.Sublist chains := by
  induction chains generalizing total with
  | nil => exact .slnil
  | cons c rest ih =>
    unfold evictChains
    split
    · exact (ih _).cons _
    · exact .refl _

theorem trimKeys_get (get : (trimKeys cap fuel keys total).1[counter]? = some v) : keys[counter]? = some v := by
  induction fuel generalizing keys total with
  | zero => exact get
  | succ fuel ih =>
    unfold trimKeys at get
    split at get
    · split at get
      · exact get
      · have kept := ih get
        rw [ExtTreeMap.getElem?_erase] at kept
        split at kept
        · cases kept
        · exact kept
    · exact get

theorem evictOne_some (h : evictOne chains = some new) :
    Lesser new chains ∧ new.map (·.headerKey) = chains.map (·.headerKey) := by
  induction chains generalizing new with
  | nil => cases h
  | cons c rest ih =>
    unfold evictOne at h
    split at h
    · obtain ⟨tail, evicted, rfl⟩ := Option.map_eq_some_iff.1 h
      obtain ⟨lesser, headers⟩ := ih evicted
      refine ⟨?_, by simp [headers]⟩
      rintro hk counter v ⟨d, mem, same, get⟩
      rcases List.mem_cons.1 mem with rfl | mem
      · exact ⟨d, List.mem_cons_self, same, get⟩
      · obtain ⟨e, mem, rest⟩ := lesser ⟨d, mem, same, get⟩
        exact ⟨e, List.mem_cons_of_mem _ mem, rest⟩
    · cases h
      refine ⟨?_, by simp⟩
      rintro hk counter v ⟨d, mem, same, get⟩
      rcases List.mem_cons.1 mem with rfl | mem
      · refine ⟨c, List.mem_cons_self, same, ?_⟩
        rw [ExtTreeMap.getElem?_erase] at get
        split at get
        · cases get
        · exact get
      · exact ⟨d, List.mem_cons_of_mem _ mem, same, get⟩

theorem evictTotal_lesser (maxTotal fuel : Nat) (chains : List ChainBucket) (total : Nat) :
    Lesser (evictTotal maxTotal fuel chains total).1 chains ∧
      ((evictTotal maxTotal fuel chains total).1.map (·.headerKey)).Sublist (chains.map (·.headerKey)) := by
  induction fuel generalizing chains total with
  | zero => exact ⟨id, .refl _⟩
  | succ fuel ih =>
    unfold evictTotal
    split
    · split
      · exact ⟨lesser_of_sublist List.filter_sublist, List.filter_sublist.map _⟩
      · rename_i new evicted
        obtain ⟨lesser, headers⟩ := evictOne_some evicted
        obtain ⟨lesser', headers'⟩ := ih (new.filter fun c => !c.keys.isEmpty) (total - 1)
        refine ⟨fun h => lesser (lesser_of_sublist List.filter_sublist (lesser' h)), ?_⟩
        exact headers ▸ headers'.trans (List.filter_sublist.map _)
    · exact ⟨id, .refl _⟩

@[simp] theorem openBucket_tick : (st.openBucket hk).tick = st.tick := by
  unfold openBucket
  split <;> rfl

@[simp] theorem trimBucket_tick : (st.trimBucket hk).tick = st.tick := by
  unfold trimBucket
  split <;> rfl

@[simp] theorem openBucket_params : (st.openBucket hk).params = st.params := by
  unfold openBucket
  split <;> rfl

@[simp] theorem trimBucket_params : (st.trimBucket hk).params = st.params := by
  unfold trimBucket
  split <;> rfl

@[simp] theorem insert_params : (st.insert hk counter m).params = st.params := by
  simp [insert]

@[simp] theorem insert_tick : (st.insert hk counter m).tick = st.tick := by
  simp [insert]

theorem openBucket_lesser : Lesser (st.openBucket hk).chains st.chains := by
  unfold openBucket
  split
  · exact id
  · intro hk counter v h
    exact lesser_of_sublist (evictChains_sublist ..) (holds_append_empty h)

theorem trimBucket_lesser : Lesser (st.trimBucket hk).chains st.chains := by
  unfold trimBucket
  split
  · exact id
  · rename_i keys first
    intro hk' counter v h
    rcases holds_modifyFirst h with h | ⟨_, _, rfl, get⟩
    · exact h
    · exact holds_of_keysOf first (trimKeys_get get)

theorem reopenBucket_lesser : Lesser (reopenBucket hk chains) chains := by
  unfold reopenBucket
  split
  · exact id
  · exact holds_append_empty

theorem holds_insert (h : Holds (st.insert hk counter m).chains hk' counter' v) :
    (hk' = hk ∧ counter' = counter ∧ v = (m, st.tick)) ∨ Holds st.chains hk' counter' v := by
  have old : Lesser (reopenBucket hk (evictTotal ((st.openBucket hk).trimBucket hk).params.maxTotalKeys
      ((st.openBucket hk).trimBucket hk).total ((st.openBucket hk).trimBucket hk).chains
      ((st.openBucket hk).trimBucket hk).total).1) st.chains := by
    intro hk counter v h
    exact openBucket_lesser (trimBucket_lesser ((evictTotal_lesser ..).1 (reopenBucket_lesser h)))
  rcases holds_modifyFirst h with h | ⟨keys, first, rfl, get⟩
  · exact .inr (old h)
  rw [ExtTreeMap.getElem?_insert] at get
  split at get
  · rename_i same
    cases get
    exact .inl ⟨rfl, (LawfulEqCmp.eq_of_compare same).symm, by simp⟩
  · exact .inr (old (holds_of_keysOf first get))

theorem distinct_reopen (hk : Bytes) (distinct : Distinct chains) : Distinct (reopenBucket hk chains) := by
  unfold reopenBucket
  split
  · exact distinct
  rename_i absent
  unfold Distinct
  rw [List.map_append, List.nodup_append]
  refine ⟨distinct, by simp, ?_⟩
  rintro a mem b last rfl
  obtain rfl : a = hk := by simpa using last
  exact absent (keysOf_isSome.2 mem)

section

variable (distinct : Distinct st.chains) {st' : SkippedKeys}
include distinct

theorem distinct_openBucket : Distinct (st.openBucket hk).chains := by
  unfold openBucket
  split
  · exact distinct
  rename_i absent
  have sub := (evictChains_sublist st.params.maxChains st.chains st.total).map (·.headerKey)
  have fresh : ¬ (keysOf hk (evictChains st.params.maxChains st.chains st.total).1).isSome = true :=
    fun has => absent (keysOf_isSome.2 (sub.subset (keysOf_isSome.1 has)))
  have reopened := distinct_reopen hk (distinct_of_sublist sub distinct)
  rwa [reopenBucket, if_neg fresh] at reopened

theorem distinct_trimBucket : Distinct (st.trimBucket hk).chains := by
  unfold trimBucket
  split
  · exact distinct
  · unfold Distinct
    rwa [map_headerKey_modifyFirst]

theorem distinct_insert : Distinct (st.insert hk counter m).chains := by
  have trimmed := @distinct_trimBucket hk _ (@distinct_openBucket hk _ distinct)
  unfold Distinct insert
  rw [map_headerKey_modifyFirst]
  exact distinct_reopen hk (distinct_of_sublist (evictTotal_lesser ..).2 trimmed)

omit distinct in
theorem take_ok (h : st.take hk counter = some (m, st')) :
    ∃ keys tick, keysOf hk st.chains = some keys ∧ keys[counter]? = some (m, tick) ∧ st' = { st with
      chains := if (keys.erase counter).isEmpty then st.chains.eraseP (·.headerKey = hk)
        else modifyFirst hk (·.erase counter) st.chains
      total := st.total - 1 } := by
  unfold take at h
  split at h
  · cases h
  rename_i keys first
  split at h
  · cases h
  rename_i tick get
  cases h
  exact ⟨keys, tick, first, get, rfl⟩

/-- A key taken was there and is there no more. -/
theorem take_some (h : st.take hk counter = some (m, st')) :
    (∃ t, Holds st.chains hk counter (m, t)) ∧ Distinct st'.chains ∧ Lesser st'.chains st.chains ∧
      ∀ v, ¬ Holds st'.chains hk counter v := by
  obtain ⟨keys, tick, first, get, rfl⟩ := take_ok h
  refine ⟨⟨tick, holds_of_keysOf first get⟩, ?_⟩
  dsimp only
  split
  -- The bucket went with its last key.
  · have sub : (st.chains.eraseP (·.headerKey = hk)).Sublist st.chains := List.eraseP_sublist
    refine ⟨distinct_of_sublist (sub.map _) distinct, lesser_of_sublist sub, ?_⟩
    rintro v ⟨c, mem, rfl, -⟩
    have gone : ∀ l : List ChainBucket, Distinct l → c ∉ l.eraseP (·.headerKey = c.headerKey) := by
      intro l
      induction l with
      | nil => simp
      | cons d rest ih =>
        intro distinct mem
        obtain ⟨fresh, distinct⟩ := distinct_cons.1 distinct
        by_cases same : d.headerKey = c.headerKey
        · rw [List.eraseP_cons_of_pos (by simpa using same)] at mem
          exact fresh c mem same
        · rw [List.eraseP_cons_of_neg (by simpa using same)] at mem
          rcases List.mem_cons.1 mem with rfl | mem
          · exact same rfl
          · exact ih distinct mem
    exact gone _ distinct mem
  · have kept : Distinct (modifyFirst hk (·.erase counter) st.chains) := by
      unfold Distinct
      rwa [map_headerKey_modifyFirst]
    refine ⟨kept, ?_, ?_⟩
    · intro hk' counter' v h
      rcases holds_modifyFirst h with h | ⟨keys', first', rfl, get'⟩
      · exact h
      · rw [ExtTreeMap.getElem?_erase] at get'
        split at get'
        · cases get'
        · exact holds_of_keysOf first' get'
    · intro v holds
      obtain ⟨keys', first', get'⟩ := kept.holds_iff.1 holds
      rw [keysOf_modifyFirst, if_pos rfl, first, Option.map_some] at first'
      cases first'
      simp at get'

end

theorem advanceTick_lesser : Lesser st.advanceTick.chains st.chains := by
  unfold advanceTick
  dsimp only
  split
  · exact id
  · rintro hk counter v ⟨c, mem, same, get⟩
    obtain ⟨d, listed, rfl⟩ := List.mem_map.1 (List.mem_of_mem_filter mem)
    refine ⟨d, listed, same, ?_⟩
    rw [unexpired, ExtTreeMap.getElem?_filter'] at get
    exact (Option.filter_eq_some_iff.1 get).1

theorem distinct_advanceTick (distinct : Distinct st.chains) : Distinct st.advanceTick.chains := by
  unfold advanceTick
  dsimp only
  split
  · exact distinct
  · refine distinct_of_sublist (List.filter_sublist.map _) ?_
    unfold Distinct
    rwa [List.map_map]

/-! ## With room, nothing is lost -/

/-- `count` more keys fit under `hk` without reaching a cap. -/
def HasRoom (st : SkippedKeys) (hk : Bytes) (count : Nat) : Prop :=
  count = 0 ∨ (((keysOf hk st.chains).map (·.size)).getD 0 + count ≤ st.params.maxKeysPerChain ∧
    st.total + count ≤ st.params.maxTotalKeys ∧
    ((keysOf hk st.chains).isSome ∨ st.chains.length < st.params.maxChains))

/-- No key is older than the age limit after the next tick. -/
def NothingExpires (st : SkippedKeys) : Prop :=
  ∀ {hk counter v}, Holds st.chains hk counter v → satAdd 64 st.tick 1 - st.params.maxAge ≤ v.2

@[simp] theorem advanceTick_params : st.advanceTick.params = st.params := by
  unfold advanceTick
  dsimp only
  split <;> rfl

theorem keysOf_reopen (hk : Bytes) (chains : List ChainBucket) :
    keysOf hk (reopenBucket hk chains) = some ((keysOf hk chains).getD ∅) := by
  unfold reopenBucket
  split
  · rename_i has
    obtain ⟨keys, eq⟩ := Option.isSome_iff_exists.1 has
    rw [eq, Option.getD_some]
  · rename_i absent
    have none : chains.find? (·.headerKey = hk) = none := by
      simpa [keysOf] using absent
    simp [keysOf, List.find?_append, none]

theorem keysOf_reopen_ne (ne : hk' ≠ hk) : keysOf hk' (reopenBucket hk chains) = keysOf hk' chains := by
  unfold reopenBucket
  split
  · rfl
  · simp [keysOf, List.find?_append, Ne.symm ne]

theorem evictChains_of_lt
    (lt : chains.length < maxChains) : evictChains maxChains chains total = (chains, total) := by
  cases chains with
  | nil => rfl
  | cons c rest =>
    exact if_neg (by omega)

theorem trimKeys_of_lt (lt : keys.size < cap) :
    trimKeys cap fuel keys total = (keys, total) := by
  cases fuel with
  | zero => rfl
  | succ fuel =>
    exact if_neg (by omega)

theorem evictTotal_of_lt (lt : total < maxTotal) : evictTotal maxTotal fuel chains total = (chains, total) := by
  cases fuel with
  | zero => rfl
  | succ fuel =>
    exact if_neg (by omega)

theorem modifyFirst_self (first : keysOf hk chains = some keys) : modifyFirst hk (fun _ => keys) chains = chains := by
  induction chains with
  | nil => rfl
  | cons c rest ih =>
    unfold modifyFirst
    split
    · rename_i here
      obtain rfl : c.keys = keys := by simpa [keysOf, here] using first
      rfl
    · rename_i other
      rw [ih (by simpa [keysOf, List.find?_cons, other] using first)]

theorem openBucket_of_room (room : st.HasRoom hk (count + 1)) :
    st.openBucket hk = { st with chains := reopenBucket hk st.chains } := by
  unfold openBucket reopenBucket
  split
  · rfl
  · rename_i absent
    obtain ⟨-, -, has | lt⟩ := room.resolve_left (by omega)
    · exact absurd has absent
    · rw [evictChains_of_lt lt]

theorem insert_eq_of_room (room : st.HasRoom hk (count + 1)) :
    ∃ total ≤ st.total + 1, st.insert hk counter m =
      { st with
        chains := modifyFirst hk (·.insert counter (m, st.tick)) (reopenBucket hk st.chains)
        total } := by
  obtain ⟨chain, all, -⟩ := room.resolve_left (by omega)
  have bucket := keysOf_reopen hk st.chains
  have small : ((keysOf hk st.chains).getD ∅).size < st.params.maxKeysPerChain := by
    cases h : keysOf hk st.chains with
    | none =>
      simp at chain ⊢
      omega
    | some keys =>
      rw [h] at chain
      simp at chain ⊢
      omega
  have trimmed : (st.openBucket hk).trimBucket hk = { st with chains := reopenBucket hk st.chains } := by
    rw [openBucket_of_room room]
    unfold trimBucket
    simp only [bucket]
    rw [trimKeys_of_lt small, modifyFirst_self bucket]
  have kept : reopenBucket hk (reopenBucket hk st.chains) = reopenBucket hk st.chains := by
    conv_lhs => rw [reopenBucket]
    rw [bucket]
    rfl
  unfold insert
  rw [trimmed]
  dsimp only
  rw [evictTotal_of_lt (by omega), kept]
  refine ⟨_, ?_, rfl⟩
  split <;> omega

theorem keysOf_insert_of_room (hk' : Bytes) (counter : Nat) (m : Bytes) (room : st.HasRoom hk (count + 1)) :
    keysOf hk' (st.insert hk counter m).chains =
      if hk' = hk then some (((keysOf hk st.chains).getD ∅).insert counter (m, st.tick))
      else keysOf hk' st.chains := by
  obtain ⟨total, -, eq⟩ := insert_eq_of_room room
  rw [eq, keysOf_modifyFirst]
  by_cases same : hk' = hk
  · subst same
    rw [if_pos rfl, if_pos rfl, keysOf_reopen, Option.map_some]
  · rw [if_neg same, if_neg same, keysOf_reopen_ne same]

theorem HasRoom.insert (room : st.HasRoom hk (count + 1)) : (st.insert hk counter m).HasRoom hk count := by
  have keys := keysOf_insert_of_room hk counter m room
  obtain ⟨total, le, eq⟩ := insert_eq_of_room room
  obtain ⟨chain, all, -⟩ := room.resolve_left (by omega)
  rw [if_pos rfl] at keys
  refine .inr ⟨?_, ?_, ?_⟩
  · rw [keys]
    have size := size_insert_le (t := (keysOf hk st.chains).getD ∅) counter (m, st.tick)
    cases h : keysOf hk st.chains with
    | none =>
      rw [h] at chain size
      simp at chain size ⊢
      omega
    | some keys =>
      rw [h] at chain size
      simp at chain size ⊢
      omega
  · rw [eq]
    dsimp only
    omega
  · rw [keys]
    exact .inl rfl

theorem holds_insert_self (room : st.HasRoom hk (count + 1)) :
    Holds (st.insert hk counter m).chains hk counter (m, st.tick) := by
  have keys := keysOf_insert_of_room hk counter m room
  rw [if_pos rfl] at keys
  exact holds_of_keysOf keys (by simp)

section
variable (distinct : Distinct st.chains) {st' : SkippedKeys}
include distinct

theorem holds_insert_of_room (room : st.HasRoom hk (count + 1))
    (old : Holds st.chains hk' counter' v) (other : ¬ (hk' = hk ∧ counter' = counter)) :
    Holds (st.insert hk counter m).chains hk' counter' v := by
  obtain ⟨keys, first, get⟩ := distinct.holds_iff.1 old
  have after := keysOf_insert_of_room hk' counter m room
  by_cases same : hk' = hk
  · subst same
    rw [if_pos rfl, first, Option.getD_some] at after
    refine holds_of_keysOf after ?_
    have ne : ¬ compare counter counter' = .eq :=
      fun eq => other ⟨rfl, (LawfulEqCmp.eq_of_compare eq).symm⟩
    rw [ExtTreeMap.getElem?_insert, if_neg ne]
    exact get
  · rw [if_neg same, first] at after
    exact holds_of_keysOf after get

theorem take_of_holds {t : Nat} (h : Holds st.chains hk counter (m, t)) :
    ∃ st', st.take hk counter = some (m, st') := by
  obtain ⟨keys, first, get⟩ := distinct.holds_iff.1 h
  unfold take
  simp only [first, get]
  exact ⟨_, rfl⟩

/-- Taking a key leaves the others. -/
theorem holds_take (taken : st.take hk counter = some (m, st'))
    (old : Holds st.chains hk' counter' v) (other : ¬ (hk' = hk ∧ counter' = counter)) :
    Holds st'.chains hk' counter' v := by
  obtain ⟨keys, tick, first, -, rfl⟩ := take_ok taken
  have same : ∀ counter', compare counter counter' = .eq → counter' = counter :=
    fun _ eq => (LawfulEqCmp.eq_of_compare eq).symm
  obtain ⟨keys', first', get⟩ := distinct.holds_iff.1 old
  dsimp only
  split
  · rename_i empty
    obtain ⟨c, mem, rfl, get'⟩ := old
    refine ⟨c, ?_, rfl, get'⟩
    refine (List.mem_eraseP_of_neg ?_).2 mem
    simp only [decide_eq_true_eq]
    intro here
    rw [here, first] at first'
    cases first'
    have gone : (keys.erase counter)[counter']? = some v := by
      rw [ExtTreeMap.getElem?_erase, if_neg fun eq => other ⟨here, same _ eq⟩]
      exact get
    rw [ExtTreeMap.isEmpty_iff.1 empty] at gone
    simp at gone
  · by_cases here : hk' = hk
    · subst here
      rw [first] at first'
      cases first'
      have kept : keysOf hk' (modifyFirst hk' (·.erase counter) st.chains) = some (keys.erase counter) := by
        rw [keysOf_modifyFirst, if_pos rfl, first, Option.map_some]
      refine holds_of_keysOf kept ?_
      rw [ExtTreeMap.getElem?_erase, if_neg fun eq => other ⟨rfl, same _ eq⟩]
      exact get
    · have kept : keysOf hk' (modifyFirst hk (·.erase counter) st.chains) = some keys' := by
        rw [keysOf_modifyFirst, if_neg here, first']
      exact holds_of_keysOf kept get

end

theorem holds_advanceTick (keep : st.NothingExpires) (h : Holds st.chains hk counter v) :
    Holds st.advanceTick.chains hk counter v := by
  unfold advanceTick
  dsimp only
  split
  · exact h
  have young := keep h
  obtain ⟨c, mem, rfl, get⟩ := h
  have kept : (unexpired (satAdd 64 st.tick 1 - st.params.maxAge) c).keys[counter]? = some v := by
    rw [unexpired, ExtTreeMap.getElem?_filter', get]
    simpa using young
  refine ⟨unexpired _ c, List.mem_filter.2 ⟨List.mem_map_of_mem mem, ?_⟩, rfl, kept⟩
  simp only [Bool.not_eq_true', ← Bool.not_eq_true, ExtTreeMap.isEmpty_iff]
  intro empty
  rw [empty] at kept
  simp at kept

end SkippedKeys

end Osl.Ratchet
