import Osl.Base.Run
import Osl.Ratchet.Skipped

/-!
# The store stays within its caps

`Capped` is what holds of a store between calls: the recorded total is the number of
keys, no bucket is empty, no header key has two buckets, and no cap is exceeded. An
insertion passes through states where the bucket it fills may be empty (`Loose`).
-/

namespace Osl.Ratchet

open Base Std

/-- The number of keys in the buckets. -/
def keyCount (chains : List ChainBucket) : Nat := (chains.map (·.keys.size)).sum

section

variable {hk : Bytes} {chains new : List ChainBucket} {keys : BucketKeys} {f : BucketKeys → BucketKeys}
  {c : ChainBucket}

@[simp] theorem keyCount_nil : keyCount [] = 0 := rfl

@[simp] theorem keyCount_cons (c : ChainBucket) : keyCount (c :: chains) = c.keys.size + keyCount chains := rfl

@[simp] theorem keyCount_append : keyCount (chains ++ new) = keyCount chains + keyCount new := by
  simp [keyCount]

theorem size_of_isEmpty : keys.isEmpty = true ↔ keys.size = 0 := by
  rw [ExtTreeMap.isEmpty_eq_size_beq_zero, beq_iff_eq]

theorem keyCount_filter : keyCount (chains.filter fun c => !c.keys.isEmpty) = keyCount chains := by
  induction chains with
  | nil => rfl
  | cons c rest ih =>
    by_cases empty : c.keys.isEmpty = true
    · rw [List.filter_cons_of_neg (by simp [empty]), ih, keyCount_cons, size_of_isEmpty.1 empty, Nat.zero_add]
    · rw [List.filter_cons_of_pos (by simp [empty]), keyCount_cons, keyCount_cons, ih]

theorem keyCount_sublist (sub : new.Sublist chains) : keyCount new ≤ keyCount chains := by
  induction sub with
  | slnil => exact Nat.le_refl _
  | cons c _ ih => exact Nat.le_trans ih (Nat.le_add_left _ c.keys.size)
  | cons_cons c _ ih => exact Nat.add_le_add_left ih c.keys.size

theorem keyCount_modifyFirst (first : keysOf hk chains = some keys) :
    keyCount (modifyFirst hk f chains) + keys.size = keyCount chains + (f keys).size := by
  induction chains with
  | nil => cases first
  | cons c rest ih =>
    unfold modifyFirst
    split
    case isTrue here =>
      obtain rfl : c.keys = keys := by simpa [keysOf, here] using first
      rw [keyCount_cons, keyCount_cons]
      dsimp only
      omega
    case isFalse other =>
      have := ih (by simpa [keysOf, List.find?_cons, other] using first)
      rw [keyCount_cons, keyCount_cons]
      omega

theorem mem_modifyFirst (mem : c ∈ modifyFirst hk f chains) :
    (c ∈ chains ∧ c.headerKey ≠ hk) ∨ (c ∈ chains ∧ c.headerKey = hk ∧ ¬Distinct chains) ∨
      ∃ keys, keysOf hk chains = some keys ∧ c = ⟨hk, f keys⟩ := by
  induction chains with
  | nil => cases mem
  | cons d rest ih =>
    unfold modifyFirst at mem
    split at mem
    case isTrue here =>
      rcases List.mem_cons.1 mem with rfl | later
      · exact .inr (.inr ⟨d.keys, by simp [keysOf, here], by rw [← here]⟩)
      · by_cases same : c.headerKey = hk
        · refine .inr (.inl ⟨List.mem_cons_of_mem d later, same, fun distinct => ?_⟩)
          exact (distinct_cons.1 distinct).1 c later (here.trans same.symm)
        · exact .inl ⟨List.mem_cons_of_mem d later, same⟩
    case isFalse other =>
      rcases List.mem_cons.1 mem with rfl | later
      · exact .inl ⟨List.mem_cons_self, other⟩
      · rcases ih later with ⟨mem, ne⟩ | ⟨mem, same, twice⟩ | ⟨keys, first, rfl⟩
        · exact .inl ⟨List.mem_cons_of_mem d mem, ne⟩
        · exact .inr (.inl ⟨List.mem_cons_of_mem d mem, same, fun distinct => twice (distinct_cons.1 distinct).2⟩)
        · exact .inr (.inr ⟨keys, by simpa [keysOf, List.find?_cons, other] using first, rfl⟩)

theorem Distinct.mem_modifyFirst (distinct : Distinct chains) (mem : c ∈ modifyFirst hk f chains) :
    (c ∈ chains ∧ c.headerKey ≠ hk) ∨ ∃ keys, keysOf hk chains = some keys ∧ c = ⟨hk, f keys⟩ := by
  rcases Ratchet.mem_modifyFirst mem with other | ⟨-, -, twice⟩ | own
  · exact .inl other
  · exact absurd distinct twice
  · exact .inr own

end

/-! ## The invariant -/

structure SkipParams.Valid (p : SkipParams) : Prop where
  maxChains : 0 < p.maxChains
  maxKeysPerChain : 0 < p.maxKeysPerChain
  maxTotalKeys : 0 < p.maxTotalKeys

/-- The bucket of `hk` may be empty. -/
structure Loose (p : SkipParams) (hk : Bytes) (chains : List ChainBucket) (total : Nat) : Prop where
  count : total = keyCount chains
  nonempty : ∀ c ∈ chains, c.headerKey ≠ hk → c.keys.isEmpty = false
  distinct : Distinct chains
  chain : ∀ c ∈ chains, c.keys.size ≤ p.maxKeysPerChain
  chains : chains.length ≤ p.maxChains
  total : total ≤ p.maxTotalKeys

namespace SkippedKeys

structure Capped (st : SkippedKeys) : Prop where
  params : st.params.Valid
  count : st.total = keyCount st.chains
  nonempty : ∀ c ∈ st.chains, c.keys.isEmpty = false
  distinct : Distinct st.chains
  chain : ∀ c ∈ st.chains, c.keys.size ≤ st.params.maxKeysPerChain
  chains : st.chains.length ≤ st.params.maxChains
  total : st.total ≤ st.params.maxTotalKeys

variable {st : SkippedKeys} {hk : Bytes} {counter : Nat} {m : Bytes} {p : SkipParams}

theorem Capped.loose (capped : st.Capped) : Loose st.params hk st.chains st.total :=
  ⟨capped.count, fun c mem _ => capped.nonempty c mem, capped.distinct, capped.chain, capped.chains, capped.total⟩

variable {params params' : SkipParams} {keys : BucketKeys} {chains : List ChainBucket} {total maxChains lowest cap maxTotal : Nat}

theorem validated_ok (ok : params.validated = .ok params') : params' = params ∧ params.Valid := by
  unfold SkipParams.validated at ok
  split at ok
  case isTrue => cases ok
  rename_i nonzero
  split at ok
  case isTrue => cases ok
  case isFalse =>
    cases ok
    exact ⟨rfl, by omega, by omega, by omega⟩

theorem Capped.new (made : new params = .ok st) : st.Capped := by
  obtain ⟨params', checked, eq⟩ := bind_ok.1 made
  obtain ⟨rfl, valid⟩ := validated_ok checked
  cases eq
  exact ⟨valid, rfl, fun c mem => (by cases mem), List.nodup_nil, fun c mem => (by cases mem), Nat.zero_le _, Nat.zero_le _⟩

/-! ## Insertion -/

theorem evictChains_count (maxChains : Nat) (chains : List ChainBucket) :
    (evictChains maxChains chains (keyCount chains)).2 = keyCount (evictChains maxChains chains (keyCount chains)).1 := by
  induction chains with
  | nil => rfl
  | cons c rest ih =>
    unfold evictChains
    split
    case isTrue => rwa [keyCount_cons, Nat.add_sub_cancel_left]
    case isFalse => rfl

theorem length_evictChains (pos : 0 < maxChains) (chains : List ChainBucket) (total : Nat) :
    (evictChains maxChains chains total).1.length < maxChains := by
  induction chains generalizing total with
  | nil => exact pos
  | cons c rest ih =>
    unfold evictChains
    split
    case isTrue => exact ih _
    case isFalse room => exact Nat.not_le.1 room

theorem Loose.openBucket (valid : st.params.Valid) (loose : Loose st.params hk st.chains st.total)
    (nonempty : ∀ c ∈ st.chains, c.keys.isEmpty = false) :
    Loose st.params hk (st.openBucket hk).chains (st.openBucket hk).total ∧ (keysOf hk (st.openBucket hk).chains).isSome := by
  have distinct := @distinct_openBucket hk st loose.distinct
  unfold SkippedKeys.openBucket at distinct ⊢
  split
  case isTrue has => exact ⟨loose, has⟩
  rename_i absent
  rw [if_neg absent] at distinct
  have sub := evictChains_sublist st.params.maxChains st.chains st.total
  have count := evictChains_count st.params.maxChains st.chains
  rw [← loose.count] at count
  have short := length_evictChains valid.maxChains st.chains st.total
  generalize evictChains st.params.maxChains st.chains st.total = r at sub count short distinct
  obtain ⟨kept, total⟩ := r
  refine ⟨⟨?_, fun c mem other => ?_, distinct, fun c mem => ?_, ?_, ?_⟩, ?_⟩
  · show total = keyCount (kept ++ [⟨hk, ∅⟩])
    rw [keyCount_append]
    exact count
  · rcases List.mem_append.1 mem with old | new
    · exact nonempty c (sub.subset old)
    · cases List.mem_singleton.1 new
      exact absurd rfl other
  · rcases List.mem_append.1 mem with old | new
    · exact loose.chain c (sub.subset old)
    · cases List.mem_singleton.1 new
      exact Nat.zero_le _
  · show (kept ++ [_]).length ≤ _
    rw [List.length_append]
    exact short
  · have less := keyCount_sublist sub
    have := loose.total
    have := loose.count
    dsimp only at count less ⊢
    omega
  · rw [keysOf_isSome]
    simp

theorem size_erase_minKey (least : keys.minKey? = some lowest) :
    (keys.erase lowest).size + 1 = keys.size := by
  have mem := ExtTreeMap.minKey?_mem least
  have pos : keys.size ≠ 0 := fun zero => by
    rw [ExtTreeMap.isEmpty_iff.1 (size_of_isEmpty.2 zero)] at mem
    exact ExtTreeMap.not_mem_empty mem
  rw [ExtTreeMap.size_erase, if_pos (ExtTreeMap.contains_iff_mem.2 mem)]
  omega

theorem trimKeys_size (pos : 0 < cap) (fuel : Nat) (keys : BucketKeys) (others : Nat) (enough : keys.size ≤ fuel) :
    (trimKeys cap fuel keys (keys.size + others)).1.size < cap ∧
      (trimKeys cap fuel keys (keys.size + others)).1.size ≤ keys.size ∧
      (trimKeys cap fuel keys (keys.size + others)).2 = (trimKeys cap fuel keys (keys.size + others)).1.size + others := by
  induction fuel generalizing keys with
  | zero =>
    exact ⟨Nat.lt_of_le_of_lt enough pos, Nat.le_refl _, rfl⟩
  | succ fuel ih =>
    unfold trimKeys
    split
    case isFalse room => exact ⟨Nat.not_le.1 room, Nat.le_refl _, rfl⟩
    rename_i full
    split
    case h_1 none =>
      rw [ExtTreeMap.minKey?_eq_none_iff] at none
      have := size_of_isEmpty.1 (ExtTreeMap.isEmpty_iff.2 none)
      omega
    case h_2 lowest least =>
      have less := size_erase_minKey least
      obtain ⟨below, shrunk, count⟩ := ih (keys.erase lowest) (by omega)
      rw [show keys.size + others - 1 = (keys.erase lowest).size + others by omega]
      exact ⟨below, by omega, count⟩

/-- Buckets of `new` come from buckets of `old`, no larger. -/
def Shrunk (new old : List ChainBucket) : Prop :=
  ∀ c ∈ new, ∃ d ∈ old, d.headerKey = c.headerKey ∧ c.keys.size ≤ d.keys.size

theorem Shrunk.refl (chains : List ChainBucket) : Shrunk chains chains :=
  fun c mem => ⟨c, mem, rfl, Nat.le_refl _⟩

theorem Shrunk.trans {a b c : List ChainBucket} (ab : Shrunk a b) (bc : Shrunk b c) : Shrunk a c := by
  intro x mem
  obtain ⟨y, mem, header, le⟩ := ab x mem
  obtain ⟨z, mem, header', le'⟩ := bc y mem
  exact ⟨z, mem, header'.trans header, Nat.le_trans le le'⟩

theorem Shrunk.of_sublist {new old : List ChainBucket} (sub : new.Sublist old) : Shrunk new old :=
  fun c mem => ⟨c, sub.subset mem, rfl, Nat.le_refl _⟩

theorem evictOne_shrinks (some : 0 < keyCount chains) :
    ∃ new, evictOne chains = .some new ∧ keyCount new + 1 = keyCount chains ∧ new.length = chains.length ∧ Shrunk new chains := by
  induction chains with
  | nil => cases some
  | cons c rest ih =>
    unfold evictOne
    split
    case h_1 none =>
      rw [ExtTreeMap.minKey?_eq_none_iff] at none
      have empty := size_of_isEmpty.1 (ExtTreeMap.isEmpty_iff.2 none)
      rw [keyCount_cons, empty, Nat.zero_add] at some
      obtain ⟨new, eq, count, length, shrunk⟩ := ih some
      refine ⟨c :: new, by rw [eq]; rfl, ?_, by simp [length], ?_⟩
      · rw [keyCount_cons, keyCount_cons]
        omega
      · intro d mem
        rcases List.mem_cons.1 mem with rfl | mem
        · exact ⟨d, List.mem_cons_self, rfl, Nat.le_refl _⟩
        · obtain ⟨e, mem, rest⟩ := shrunk d mem
          exact ⟨e, List.mem_cons_of_mem c mem, rest⟩
    case h_2 lowest least =>
      have less := size_erase_minKey least
      refine ⟨_, rfl, ?_, rfl, ?_⟩
      · rw [keyCount_cons, keyCount_cons]
        dsimp only
        omega
      · intro d mem
        rcases List.mem_cons.1 mem with rfl | mem
        · exact ⟨c, List.mem_cons_self, rfl, by dsimp only; omega⟩
        · exact ⟨d, List.mem_cons_of_mem c mem, rfl, Nat.le_refl _⟩

/-- What the global eviction leaves: a total below the cap, still the number of keys. -/
theorem evictTotal_spec (pos : 0 < maxTotal) (fuel : Nat) (chains : List ChainBucket)
    (enough : keyCount chains ≤ fuel) :
    (evictTotal maxTotal fuel chains (keyCount chains)).2 = keyCount (evictTotal maxTotal fuel chains (keyCount chains)).1 ∧
      (evictTotal maxTotal fuel chains (keyCount chains)).2 < maxTotal ∧
      Shrunk (evictTotal maxTotal fuel chains (keyCount chains)).1 chains ∧
      ∀ c ∈ (evictTotal maxTotal fuel chains (keyCount chains)).1, c ∈ chains ∨ c.keys.isEmpty = false := by
  induction fuel generalizing chains with
  | zero =>
    unfold evictTotal
    exact ⟨rfl, by dsimp only; omega, .refl chains, fun c mem => .inl mem⟩
  | succ fuel ih =>
    unfold evictTotal
    split
    case isFalse room => exact ⟨rfl, Nat.not_le.1 room, .refl chains, fun c mem => .inl mem⟩
    rename_i full
    have some : 0 < keyCount chains := by omega
    obtain ⟨new, eq, count, -, shrunk⟩ := evictOne_shrinks some
    rw [eq]
    have total : keyCount chains - 1 = keyCount (new.filter fun c => !c.keys.isEmpty) := by
      rw [keyCount_filter]
      omega
    rw [total]
    obtain ⟨sum, below, shrunk', origin⟩ := ih (new.filter fun c => !c.keys.isEmpty) (by omega)
    refine ⟨sum, below, shrunk'.trans ((Shrunk.of_sublist List.filter_sublist).trans shrunk), fun c mem => .inr ?_⟩
    rcases origin c mem with kept | nonempty
    · simpa using (List.mem_filter.1 kept).2
    · exact nonempty

theorem Loose.trimBucket (valid : st.params.Valid) (loose : Loose st.params hk st.chains st.total)
    (has : (keysOf hk st.chains).isSome) :
    Loose st.params hk (st.trimBucket hk).chains (st.trimBucket hk).total ∧ (keysOf hk (st.trimBucket hk).chains).isSome ∧
      ∀ c ∈ (st.trimBucket hk).chains, c.headerKey = hk → c.keys.size < st.params.maxKeysPerChain := by
  have distinct := @distinct_trimBucket hk st loose.distinct
  obtain ⟨keys, first⟩ := Option.isSome_iff_exists.1 has
  unfold SkippedKeys.trimBucket at distinct ⊢
  rw [first] at distinct ⊢
  dsimp only at distinct ⊢
  have inside : keys.size ≤ st.total := by
    have replaced := @keyCount_modifyFirst hk st.chains keys (fun _ => ∅) first
    have empty : (∅ : BucketKeys).size = 0 := rfl
    have := loose.count
    omega
  obtain ⟨others, split⟩ : ∃ others, st.total = keys.size + others := ⟨st.total - keys.size, by omega⟩
  have replaced := @keyCount_modifyFirst hk st.chains keys (fun _ => (trimKeys st.params.maxKeysPerChain keys.size keys st.total).1) first
  have trimmed := trimKeys_size valid.maxKeysPerChain keys.size keys others (Nat.le_refl _)
  rw [← split] at trimmed
  generalize trimKeys st.params.maxKeysPerChain keys.size keys st.total = r at trimmed distinct replaced
  obtain ⟨kept, total⟩ := r
  obtain ⟨below, shrunk, count⟩ := trimmed
  have counted := loose.count
  have capped := loose.total
  have member : ∀ c ∈ modifyFirst hk (fun _ => kept) st.chains, (c ∈ st.chains ∧ c.headerKey ≠ hk) ∨ c = ⟨hk, kept⟩ := by
    intro c mem
    rcases loose.distinct.mem_modifyFirst mem with other | ⟨keys, -, rfl⟩
    · exact .inl other
    · exact .inr rfl
  refine ⟨⟨by omega, fun c mem other => ?_, distinct, fun c mem => ?_, ?_, by omega⟩, ?_, fun c mem own => ?_⟩
  · rcases member c mem with ⟨old, -⟩ | rfl
    · exact loose.nonempty c old other
    · exact absurd rfl other
  · rcases member c mem with ⟨old, -⟩ | rfl
    · exact loose.chain c old
    · exact Nat.le_of_lt below
  · have headers := congrArg List.length (@map_headerKey_modifyFirst hk st.chains (fun _ => kept))
    rw [List.length_map, List.length_map] at headers
    exact headers ▸ loose.chains
  · rw [keysOf_isSome, map_headerKey_modifyFirst, ← keysOf_isSome]
    exact has
  · rcases member c mem with ⟨-, other⟩ | rfl
    · exact absurd own other
    · exact below

/-- What stands before the new key is written: its bucket is there and every cap has room. -/
structure Ready (p : SkipParams) (hk : Bytes) (chains : List ChainBucket) (total : Nat) : Prop where
  loose : Loose p hk chains total
  has : (keysOf hk chains).isSome
  chain : ∀ c ∈ chains, c.headerKey = hk → c.keys.size < p.maxKeysPerChain
  total : total < p.maxTotalKeys

theorem Ready.evicted (valid : p.Valid) (loose : Loose p hk chains total)
    (has : (keysOf hk chains).isSome) (room : ∀ c ∈ chains, c.headerKey = hk → c.keys.size < p.maxKeysPerChain) :
    Ready p hk (reopenBucket hk (evictTotal p.maxTotalKeys total chains total).1) (evictTotal p.maxTotalKeys total chains total).2 := by
  have spec := evictTotal_spec valid.maxTotalKeys total chains (Nat.le_of_eq loose.count.symm)
  have headers := (evictTotal_lesser p.maxTotalKeys total chains total).2
  rw [← loose.count] at spec
  generalize evictTotal p.maxTotalKeys total chains total = r at spec headers
  obtain ⟨kept, left⟩ := r
  obtain ⟨count, below, shrunk, origin⟩ := spec
  dsimp only at count below shrunk origin headers ⊢
  have member : ∀ c ∈ reopenBucket hk kept, c ∈ kept ∨ c = ⟨hk, ∅⟩ := by
    intro c mem
    unfold reopenBucket at mem
    split at mem
    case isTrue => exact .inl mem
    case isFalse => exact (List.mem_append.1 mem).imp_right List.mem_singleton.1
  have size : keyCount (reopenBucket hk kept) = keyCount kept := by
    unfold reopenBucket
    split
    · rfl
    · rw [keyCount_append]
      rfl
  -- Where the bucket was dropped, the list got shorter by at least that one.
  have length : (reopenBucket hk kept).length ≤ p.maxChains := by
    have le := headers.length_le
    rw [List.length_map, List.length_map] at le
    unfold reopenBucket
    split
    case isTrue => exact Nat.le_trans le loose.chains
    rename_i absent
    have shorter : kept.length ≠ chains.length := fun same =>
      absent (keysOf_isSome.2 (headers.eq_of_length (by simpa using same) ▸ keysOf_isSome.1 has))
    have := loose.chains
    rw [List.length_append, List.length_singleton]
    omega
  refine ⟨⟨by omega, fun c mem other => ?_, distinct_reopen hk (distinct_of_sublist headers loose.distinct), fun c mem => ?_,
    length, Nat.le_of_lt below⟩, ?_, fun c mem own => ?_, below⟩
  · rcases member c mem with old | rfl
    · exact (origin c old).elim (fun listed => loose.nonempty c listed other) id
    · exact absurd rfl other
  · rcases member c mem with old | rfl
    · obtain ⟨d, listed, -, le⟩ := shrunk c old
      exact Nat.le_trans le (loose.chain d listed)
    · exact Nat.zero_le _
  · rw [keysOf_reopen]
    rfl
  · rcases member c mem with old | rfl
    · obtain ⟨d, listed, header, le⟩ := shrunk c old
      exact Nat.lt_of_le_of_lt le (room d listed (header.trans own))
    · exact valid.maxKeysPerChain

theorem insert_ready (capped : st.Capped) :
    ∃ chains total, Ready st.params hk chains total ∧ st.insert hk counter m =
      { st with
        chains := modifyFirst hk (·.insert counter (m, st.tick)) chains
        total := if (keysOf hk chains).any (·.contains counter) then total else total + 1 } := by
  obtain ⟨opened, has⟩ := Loose.openBucket capped.params (capped.loose) capped.nonempty
  have valid : (st.openBucket hk).params.Valid := by
    rw [openBucket_params]
    exact capped.params
  have same : (st.openBucket hk).params = st.params := openBucket_params
  rw [← same] at opened
  obtain ⟨trimmed, has, room⟩ := Loose.trimBucket valid opened has
  rw [openBucket_params] at trimmed room
  refine ⟨_, _, Ready.evicted capped.params trimmed has room, ?_⟩
  unfold insert
  simp

theorem Ready.insert (ready : Ready p hk chains total) (counter : Nat) (v : Bytes × Nat) :
    Loose p hk (modifyFirst hk (·.insert counter v) chains) (if (keysOf hk chains).any (·.contains counter) then total else total + 1) ∧
      ∀ c ∈ modifyFirst hk (·.insert counter v) chains, c.keys.isEmpty = false := by
  obtain ⟨keys, first⟩ := Option.isSome_iff_exists.1 ready.has
  have written := @keyCount_modifyFirst hk chains keys (·.insert counter v) first
  have count := ready.loose.count
  have below := ready.total
  have size : (keys.insert counter v).size = if counter ∈ keys then keys.size else keys.size + 1 := ExtTreeMap.size_insert
  have member : ∀ c ∈ modifyFirst hk (·.insert counter v) chains, (c ∈ chains ∧ c.headerKey ≠ hk) ∨ c = ⟨hk, keys.insert counter v⟩ := by
    intro c mem
    rcases ready.loose.distinct.mem_modifyFirst mem with other | ⟨keys', first', rfl⟩
    · exact .inl other
    · rw [first] at first'
      cases first'
      exact .inr rfl
  have own : keys.size < p.maxKeysPerChain := by
    obtain ⟨c, found, rfl⟩ := Option.map_eq_some_iff.1 first
    exact ready.chain c (List.mem_of_find?_eq_some found) (by simpa using List.find?_some found)
  have total : (if (keysOf hk chains).any (·.contains counter) then total else total + 1) =
      keyCount (modifyFirst hk (·.insert counter v) chains) := by
    rw [first, Option.any_some]
    by_cases present : counter ∈ keys
    · rw [if_pos (ExtTreeMap.contains_iff_mem.2 present)]
      rw [if_pos present] at size
      omega
    · rw [if_neg (fun c => present (ExtTreeMap.contains_iff_mem.1 c))]
      rw [if_neg present] at size
      omega
  refine ⟨⟨total, fun c mem other => ?_, ?_, fun c mem => ?_, ?_, ?_⟩, fun c mem => ?_⟩
  · rcases member c mem with ⟨old, -⟩ | rfl
    · exact ready.loose.nonempty c old other
    · exact absurd rfl other
  · unfold Distinct
    rw [map_headerKey_modifyFirst]
    exact ready.loose.distinct
  · rcases member c mem with ⟨old, -⟩ | rfl
    · exact ready.loose.chain c old
    · exact Nat.le_trans (size_insert_le counter v) own
  · have headers := congrArg List.length (@map_headerKey_modifyFirst hk chains (·.insert counter v))
    rw [List.length_map, List.length_map] at headers
    exact headers ▸ ready.loose.chains
  · split <;> omega
  · rcases member c mem with ⟨old, other⟩ | rfl
    · exact ready.loose.nonempty c old other
    · simp

theorem Capped.insert (capped : st.Capped) : (st.insert hk counter m).Capped := by
  obtain ⟨chains, total, ready, eq⟩ := @insert_ready st hk counter m capped
  obtain ⟨loose, nonempty⟩ := ready.insert counter (m, st.tick)
  rw [eq]
  exact ⟨capped.params, loose.count, nonempty, loose.distinct, loose.chain, loose.chains, loose.total⟩

/-- The key just written is there. -/
theorem Capped.holds_insert (capped : st.Capped) : Holds (st.insert hk counter m).chains hk counter (m, st.tick) := by
  obtain ⟨chains, total, ready, eq⟩ := @insert_ready st hk counter m capped
  obtain ⟨keys, first⟩ := Option.isSome_iff_exists.1 ready.has
  rw [eq]
  have written : keysOf hk (modifyFirst hk (·.insert counter (m, st.tick)) chains) = some (keys.insert counter (m, st.tick)) := by
    rw [keysOf_modifyFirst, if_pos rfl, first]
    rfl
  exact holds_of_keysOf written (by simp)

/-! ## Removal and ageing -/

theorem keyCount_eraseP (first : keysOf hk chains = some keys) :
    keyCount (chains.eraseP (·.headerKey = hk)) + keys.size = keyCount chains := by
  induction chains with
  | nil => cases first
  | cons c rest ih =>
    by_cases here : c.headerKey = hk
    · obtain rfl : c.keys = keys := by simpa [keysOf, here] using first
      rw [List.eraseP_cons_of_pos (by simpa using here), keyCount_cons]
      omega
    · have := ih (by simpa [keysOf, List.find?_cons, here] using first)
      rw [List.eraseP_cons_of_neg (by simpa using here), keyCount_cons, keyCount_cons]
      omega

theorem Capped.take {st' : SkippedKeys} (capped : st.Capped) (taken : st.take hk counter = some (m, st')) : st'.Capped := by
  have distinct := (take_some capped.distinct taken).2.1
  obtain ⟨keys, tick, first, get, rfl⟩ := take_ok taken
  have present : counter ∈ keys := ExtTreeMap.mem_iff_isSome_getElem?.2 (by rw [get]; rfl)
  have size : (keys.erase counter).size + 1 = keys.size := by
    have pos : keys.size ≠ 0 := fun zero => by
      rw [ExtTreeMap.isEmpty_iff.1 (size_of_isEmpty.2 zero)] at present
      exact ExtTreeMap.not_mem_empty present
    rw [ExtTreeMap.size_erase, if_pos (ExtTreeMap.contains_iff_mem.2 present)]
    omega
  have count := capped.count
  have total := capped.total
  by_cases empty : (keys.erase counter).isEmpty = true
  · rw [if_pos empty] at distinct ⊢
    have sub : (st.chains.eraseP (·.headerKey = hk)).Sublist st.chains := List.eraseP_sublist
    have left := keyCount_eraseP first
    have last := size_of_isEmpty.1 empty
    refine ⟨capped.params, ?_, fun c mem => capped.nonempty c (sub.subset mem), distinct,
      fun c mem => capped.chain c (sub.subset mem), Nat.le_trans sub.length_le capped.chains, ?_⟩
    · dsimp only
      omega
    · dsimp only
      omega
  · rw [if_neg empty] at distinct ⊢
    have left := @keyCount_modifyFirst hk st.chains keys (·.erase counter) first
    have member : ∀ c ∈ modifyFirst hk (·.erase counter) st.chains, c ∈ st.chains ∨ c = ⟨hk, keys.erase counter⟩ := by
      intro c mem
      rcases capped.distinct.mem_modifyFirst mem with ⟨old, -⟩ | ⟨keys', first', rfl⟩
      · exact .inl old
      · rw [first] at first'
        cases first'
        exact .inr rfl
    have own : keys.size ≤ st.params.maxKeysPerChain := by
      obtain ⟨c, found, rfl⟩ := Option.map_eq_some_iff.1 first
      exact capped.chain c (List.mem_of_find?_eq_some found)
    have headers := congrArg List.length (@map_headerKey_modifyFirst hk st.chains (·.erase counter))
    rw [List.length_map, List.length_map] at headers
    refine ⟨capped.params, ?_, fun c mem => ?_, distinct, fun c mem => ?_, headers ▸ capped.chains, ?_⟩
    · dsimp only
      omega
    · rcases member c mem with old | rfl
      · exact capped.nonempty c old
      · simpa using empty
    · rcases member c mem with old | rfl
      · exact capped.chain c old
      · dsimp only
        omega
    · dsimp only
      omega

theorem keyCount_unexpired (cutoff : Nat) (chains : List ChainBucket) :
    keyCount (chains.map (unexpired cutoff)) + (chains.map fun c => c.keys.size - (unexpired cutoff c).keys.size).sum =
      keyCount chains := by
  induction chains with
  | nil => rfl
  | cons c rest ih =>
    have le : (unexpired cutoff c).keys.size ≤ c.keys.size := ExtTreeMap.size_filter_le_size
    rw [List.map_cons, keyCount_cons, keyCount_cons, List.map_cons, List.sum_cons]
    omega

theorem Capped.advanceTick (capped : st.Capped) : st.advanceTick.Capped := by
  have distinct := distinct_advanceTick capped.distinct
  unfold SkippedKeys.advanceTick at distinct ⊢
  dsimp only at distinct ⊢
  split
  case isTrue => exact ⟨capped.params, capped.count, capped.nonempty, capped.distinct, capped.chain, capped.chains, capped.total⟩
  rename_i old
  rw [if_neg old] at distinct
  have counted := keyCount_unexpired (satAdd 64 st.tick 1 - st.params.maxAge) st.chains
  have count := capped.count
  have total := capped.total
  refine ⟨capped.params, ?_, fun c mem => ?_, distinct, fun c mem => ?_, ?_, ?_⟩
  · rw [keyCount_filter]
    dsimp only
    omega
  · simpa using (List.mem_filter.1 mem).2
  · obtain ⟨d, listed, rfl⟩ := List.mem_map.1 (List.mem_of_mem_filter mem)
    exact Nat.le_trans ExtTreeMap.size_filter_le_size (capped.chain d listed)
  · refine Nat.le_trans (List.length_filter_le _ _) ?_
    rw [List.length_map]
    exact capped.chains
  · dsimp only
    omega

end SkippedKeys

end Osl.Ratchet
