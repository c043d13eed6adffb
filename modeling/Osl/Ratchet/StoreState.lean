import Osl.Ratchet.Canonical
import Osl.Ratchet.Capped

/-!
# The store in an exported session (`crates/osl-ratchet-next/src/skipped.rs`)

`SkippedKeys::export` and `SkippedKeys::import`. What `import` accepts is the bytes of
a `StoreImage`: parameters, clock and a list of chain records. It compares the number
of chains and keys with the caps, and nothing else: a record may be without keys, and
two may be under one header key.
-/

namespace Osl.Ratchet

open Base Std

/-- `u32::try_from(v).unwrap_or(u32::MAX)`. -/
def clampU32 (v : Nat) : Nat := min v u32Max

/-! ## What an exported store lists -/

/-- Every parameter fits 32 bits. -/
structure SkipParams.Fits (p : SkipParams) : Prop where
  maxSkipPerMessage : p.maxSkipPerMessage ≤ u32Max
  maxKeysPerChain : p.maxKeysPerChain ≤ u32Max
  maxTotalKeys : p.maxTotalKeys ≤ u32Max
  maxChains : p.maxChains ≤ u32Max
  maxAge : p.maxAge ≤ u32Max

structure KeyRecord where
  counter : Nat
  tick : Nat
  messageKey : Bytes

structure ChainRecord where
  headerKey : Bytes
  keys : List KeyRecord

structure StoreImage where
  params : SkipParams
  tick : Nat
  chains : List ChainRecord

namespace KeyRecord

def bytes (r : KeyRecord) : Bytes := Writer.varint r.counter ++ Writer.varint r.tick ++ r.messageKey

structure Fits (r : KeyRecord) : Prop where
  counter : r.counter ≤ u32Max
  tick : r.tick ≤ u32Max
  messageKey : r.messageKey.length = 32

/-- The bucket and the running total with one more key. -/
def put (acc : BucketKeys × Nat) (r : KeyRecord) : BucketKeys × Nat :=
  (acc.1.insert r.counter (r.messageKey, r.tick), if acc.1.contains r.counter then acc.2 else acc.2 + 1)

end KeyRecord

namespace ChainRecord

def bytes (r : ChainRecord) : Bytes := r.headerKey ++ Writer.varint r.keys.length ++ r.keys.flatMap KeyRecord.bytes

structure Fits (cap : Nat) (r : ChainRecord) : Prop where
  headerKey : r.headerKey.length = aeadKey
  short : r.keys.length ≤ u32Max
  capped : r.keys.length ≤ cap
  keys : ∀ k ∈ r.keys, k.Fits

def bucket (r : ChainRecord) : ChainBucket := ⟨r.headerKey, (r.keys.foldl KeyRecord.put (∅, 0)).1⟩

def put (acc : List ChainBucket × Nat) (r : ChainRecord) : List ChainBucket × Nat :=
  (acc.1 ++ [⟨r.headerKey, (r.keys.foldl KeyRecord.put (∅, acc.2)).1⟩], (r.keys.foldl KeyRecord.put (∅, acc.2)).2)

end ChainRecord

namespace StoreImage

def bytes (i : StoreImage) : Bytes :=
  Writer.varint i.params.maxSkipPerMessage ++ Writer.varint i.params.maxKeysPerChain ++
    Writer.varint i.params.maxTotalKeys ++ Writer.varint i.params.maxChains ++ Writer.varint i.params.maxAge ++
    Writer.varint i.tick ++ Writer.varint i.chains.length ++ i.chains.flatMap ChainRecord.bytes

def store (i : StoreImage) : SkippedKeys :=
  ⟨i.params, i.chains.map ChainRecord.bucket, keyCount (i.chains.map ChainRecord.bucket), i.tick⟩

end StoreImage

/-! ## Export and import -/

namespace SkippedKeys

def exportKey (k : Nat × Bytes × Nat) : Bytes := Writer.varint k.1 ++ Writer.varint (clampU32 k.2.2) ++ k.2.1

def exportChain (c : ChainBucket) : Bytes :=
  c.headerKey ++ Writer.varint (clampU32 c.keys.size) ++ c.keys.toList.flatMap exportKey

def exportState (st : SkippedKeys) : Bytes :=
  Writer.varint st.params.maxSkipPerMessage ++ Writer.varint (clampU32 st.params.maxKeysPerChain) ++
    Writer.varint (clampU32 st.params.maxTotalKeys) ++ Writer.varint (clampU32 st.params.maxChains) ++
    Writer.varint (clampU32 st.params.maxAge) ++ Writer.varint (clampU32 st.tick) ++
    Writer.varint (clampU32 st.chains.length) ++ st.chains.flatMap exportChain

def importKey (acc : BucketKeys × Nat) : Reader (BucketKeys × Nat) := do
  let counter ← Reader.varint
  let t ← Reader.varint
  let mk ← Reader.array 32
  return (acc.1.insert counter (mk, t), if acc.1.contains counter then acc.2 else acc.2 + 1)

def importChain (maxKeysPerChain : Nat) (acc : List ChainBucket × Nat) : Reader (List ChainBucket × Nat) := do
  let headerKey ← Reader.array aeadKey
  let nKeys ← Reader.varint
  if nKeys > maxKeysPerChain then throw .badStateFormat
  let (keys, total) ← Parser.loop importKey nKeys (∅, acc.2)
  return (acc.1 ++ [⟨headerKey, keys⟩], total)

def importState : Reader SkippedKeys := do
  let maxSkipPerMessage ← Reader.varint
  let maxKeysPerChain ← Reader.varint
  let maxTotalKeys ← Reader.varint
  let maxChains ← Reader.varint
  let maxAge ← Reader.varint
  let params ← StateT.lift (SkipParams.validated ⟨maxSkipPerMessage, maxKeysPerChain, maxTotalKeys, maxChains, maxAge⟩)
  let tick ← Reader.varint
  let nChains ← Reader.varint
  if nChains > params.maxChains then throw .badStateFormat
  let (chains, total) ← Parser.loop (importChain params.maxKeysPerChain) nChains ([], 0)
  if total > params.maxTotalKeys then throw .badStateFormat
  return ⟨params, chains, total, tick⟩

end SkippedKeys

/-- What `import` accepts of an image. -/
structure StoreImage.Accepted (i : StoreImage) : Prop where
  params : i.params.Fits
  tick : i.tick ≤ u32Max
  validated : i.params.validated = .ok i.params
  chains : i.chains.length ≤ i.params.maxChains
  records : ∀ r ∈ i.chains, r.Fits i.params.maxKeysPerChain
  total : i.store.total ≤ i.params.maxTotalKeys

namespace KeyRecord

theorem import_bytes (acc : BucketKeys × Nat) (r : KeyRecord) (rest : Bytes) (fits : r.Fits) :
    SkippedKeys.importKey acc (r.bytes ++ rest) = .ok (put acc r, rest) := by
  unfold SkippedKeys.importKey bytes
  simp only [List.append_assoc, Reader.bind_ok _ (Reader.varint_writer fits.counter _),
    Reader.bind_ok _ (Reader.varint_writer fits.tick _), Reader.bind_ok _ (Reader.array_append fits.messageKey)]
  rfl

theorem import_ok (acc : BucketKeys × Nat) (buf : Bytes) (acc' : BucketKeys × Nat) (rest : Bytes) (small : AreBytes buf)
    (read : SkippedKeys.importKey acc buf = .ok (acc', rest)) : ∃ r : KeyRecord, r.Fits ∧ buf = r.bytes ++ rest ∧ acc' = put acc r := by
  unfold SkippedKeys.importKey at read
  simp only [Parser.bind_ok_iff, Parser.pure_ok_iff, Reader.array_ok_iff] at read
  obtain ⟨counter, buf₁, readCounter, t, buf₂, readTick, mk, buf₃, ⟨rfl, size⟩, rfl, rfl⟩ := read
  obtain ⟨counter_le, rfl, small₁⟩ := Reader.varint_ok small readCounter
  obtain ⟨tick_le, rfl, small₂⟩ := Reader.varint_ok small₁ readTick
  exact ⟨⟨counter, t, mk⟩, ⟨counter_le, tick_le, size⟩, by simp [bytes], rfl⟩

theorem put_total (keys : List KeyRecord) (b : BucketKeys) (n : Nat) :
    (keys.foldl put (b, n)).2 + b.size = n + (keys.foldl put (b, n)).1.size := by
  induction keys generalizing b n with
  | nil => rfl
  | cons k keys ih =>
    rw [List.foldl_cons, put]
    have later := ih (b.insert k.counter (k.messageKey, k.tick)) (if b.contains k.counter then n else n + 1)
    rw [ExtTreeMap.size_insert] at later
    dsimp only
    by_cases present : b.contains k.counter = true
    · rw [if_pos present] at later ⊢
      rw [if_pos present] at later
      omega
    · rw [if_neg present] at later ⊢
      rw [if_neg present] at later
      omega

theorem put_bucket (keys : List KeyRecord) (b : BucketKeys) (n n' : Nat) :
    (keys.foldl put (b, n)).1 = (keys.foldl put (b, n')).1 := by
  induction keys generalizing b n n' with
  | nil => rfl
  | cons k keys ih => exact ih _ _ _

end KeyRecord

namespace ChainRecord

variable {acc : List ChainBucket × Nat} {r : ChainRecord} {cap : Nat}

theorem put_eq : put acc r = (acc.1 ++ [r.bucket], acc.2 + r.bucket.keys.size) := by
  have total := KeyRecord.put_total r.keys ∅ acc.2
  have same := KeyRecord.put_bucket r.keys ∅ acc.2 0
  unfold put bucket
  rw [same] at total ⊢
  exact Prod.ext rfl total

theorem put_all {chains : List ChainRecord} :
    chains.foldl put acc = (acc.1 ++ chains.map bucket, acc.2 + keyCount (chains.map bucket)) := by
  induction chains generalizing acc with
  | nil => simp
  | cons r chains ih =>
    rw [List.foldl_cons, ih, put_eq, List.map_cons, keyCount_cons, List.append_assoc, Nat.add_assoc]
    rfl

theorem import_bytes (acc : List ChainBucket × Nat) (r : ChainRecord) (rest : Bytes) (fits : r.Fits cap) :
    SkippedKeys.importChain cap acc (r.bytes ++ rest) = .ok (put acc r, rest) := by
  unfold SkippedKeys.importChain bytes
  rw [List.append_assoc, List.append_assoc, Reader.bind_ok _ (Reader.array_append fits.headerKey),
    Reader.bind_ok _ (Reader.varint_writer fits.short _), if_neg (Nat.not_lt.2 fits.capped)]
  dsimp only
  rw [Reader.bind_ok _ (Parser.loop_bytes KeyRecord.import_bytes fits.keys (∅, acc.2) rest)]
  rfl

theorem import_ok (acc : List ChainBucket × Nat) (buf : Bytes) (acc' : List ChainBucket × Nat) (rest : Bytes)
    (small : AreBytes buf) (read : SkippedKeys.importChain cap acc buf = .ok (acc', rest)) :
    ∃ r : ChainRecord, r.Fits cap ∧ buf = r.bytes ++ rest ∧ acc' = put acc r := by
  unfold SkippedKeys.importChain at read
  simp only [Parser.bind_ok_iff, Parser.guard_ok_iff, Parser.pure_ok_iff, Reader.array_ok_iff] at read
  obtain ⟨hk, buf₁, ⟨rfl, size⟩, n, buf₂, readCount, few, made, buf₃, looped, rfl, rfl⟩ := read
  obtain ⟨-, small₁⟩ := AreBytes.append.1 small
  obtain ⟨count_le, rfl, small₂⟩ := Reader.varint_ok small₁ readCount
  obtain ⟨keys, rfl, fit, rfl, rfl⟩ := Parser.loop_ok KeyRecord.import_ok small₂ looped
  exact ⟨⟨hk, keys⟩, ⟨size, count_le, Nat.not_lt.1 few, fit⟩, by simp [bytes], rfl⟩

theorem bucket_size (r : ChainRecord) : r.bucket.keys.size ≤ r.keys.length := by
  have bound : ∀ (keys : List KeyRecord) (b : BucketKeys) (n : Nat), (keys.foldl KeyRecord.put (b, n)).1.size ≤ b.size + keys.length := by
    intro keys
    induction keys with
    | nil => exact fun b n => Nat.le_refl _
    | cons k keys ih =>
      intro b n
      have grown := size_insert_le (t := b) k.counter (k.messageKey, k.tick)
      refine Nat.le_trans (ih _ _) ?_
      rw [List.length_cons]
      dsimp only
      omega
  have all := bound r.keys ∅ 0
  rwa [show (∅ : BucketKeys).size = 0 from rfl, Nat.zero_add] at all

theorem bucket_nonempty (some : r.keys ≠ []) : r.bucket.keys.isEmpty = false := by
  have grows : ∀ (keys : List KeyRecord) (b : BucketKeys) (n : Nat), b.size ≤ (keys.foldl KeyRecord.put (b, n)).1.size := by
    intro keys
    induction keys with
    | nil => exact fun b n => Nat.le_refl _
    | cons k keys ih => exact fun b n => Nat.le_trans ExtTreeMap.size_le_size_insert (ih _ _)
  cases listed : r.keys with
  | nil => exact absurd listed some
  | cons k keys =>
    have first := grows keys ((∅ : BucketKeys).insert k.counter (k.messageKey, k.tick)) 1
    rw [← Bool.not_eq_true, size_of_isEmpty, bucket, listed]
    exact Nat.ne_of_gt first

end ChainRecord

namespace StoreImage

variable {i : StoreImage} {st : SkippedKeys}

theorem import_bytes (accepted : i.Accepted) (rest : Bytes) :
    SkippedKeys.importState (i.bytes ++ rest) = .ok (i.store, rest) := by
  have chains_le := Nat.le_trans accepted.chains accepted.params.maxChains
  have looped := Parser.loop_bytes ChainRecord.import_bytes accepted.records ([], 0) rest
  have few : ¬ keyCount (i.chains.map ChainRecord.bucket) > i.params.maxTotalKeys := Nat.not_lt.2 accepted.total
  rw [ChainRecord.put_all, List.nil_append, Nat.zero_add] at looped
  unfold SkippedKeys.importState bytes
  have lifted : ∀ buf : Bytes, (StateT.lift i.params.validated : Reader SkipParams) buf = .ok (i.params, buf) :=
    fun buf => Parser.lift_ok_iff.2 ⟨accepted.validated, rfl⟩
  obtain ⟨fits₁, fits₂, fits₃, fits₄, fits₅⟩ := accepted.params
  simp only [List.append_assoc, Reader.varint_bind, fits₁, fits₂, fits₃, fits₄, fits₅, Reader.bind_ok _ (lifted _), accepted.tick,
    chains_le, if_neg (Nat.not_lt.2 accepted.chains), Reader.bind_ok _ looped, if_neg few]
  rfl

theorem import_ok {buf rest : Bytes} (small : AreBytes buf) (read : SkippedKeys.importState buf = .ok (st, rest)) :
    ∃ i : StoreImage, i.Accepted ∧ buf = i.bytes ++ rest ∧ st = i.store := by
  unfold SkippedKeys.importState at read
  simp only [Parser.bind_ok_iff, Parser.guard_ok_iff, Parser.pure_ok_iff, Parser.lift_ok_iff] at read
  obtain ⟨maxSkip, buf₁, read₁, maxKeys, buf₂, read₂, maxTotal, buf₃, read₃, maxChains, buf₄, read₄, maxAge, buf₅, read₅,
    params, buf₆, ⟨validated, rfl⟩, tick, buf₇, read₇, n, buf₈, read₈, few, made, buf₉, looped, below, rfl, rfl⟩ := read
  obtain ⟨le₁, rfl, small₁⟩ := Reader.varint_ok small read₁
  obtain ⟨le₂, rfl, small₂⟩ := Reader.varint_ok small₁ read₂
  obtain ⟨le₃, rfl, small₃⟩ := Reader.varint_ok small₂ read₃
  obtain ⟨le₄, rfl, small₄⟩ := Reader.varint_ok small₃ read₄
  obtain ⟨le₅, rfl, small₅⟩ := Reader.varint_ok small₄ read₅
  obtain ⟨le₆, rfl, small₆⟩ := Reader.varint_ok small₅ read₇
  obtain ⟨-, rfl, small₇⟩ := Reader.varint_ok small₆ read₈
  obtain ⟨rfl, -⟩ := SkippedKeys.validated_ok validated
  obtain ⟨chains, rfl, fit, rfl, rfl⟩ := Parser.loop_ok ChainRecord.import_ok small₇ looped
  rw [ChainRecord.put_all, List.nil_append, Nat.zero_add] at below
  refine ⟨⟨⟨maxSkip, maxKeys, maxTotal, maxChains, maxAge⟩, tick, chains⟩,
    ⟨⟨le₁, le₂, le₃, le₄, le₅⟩, le₆, validated, Nat.not_lt.1 few, fit, Nat.not_lt.1 below⟩, by simp [bytes], ?_⟩
  rw [ChainRecord.put_all, List.nil_append, Nat.zero_add]
  rfl

theorem store_capped (accepted : i.Accepted) :
    i.store.Capped ↔ (∀ r ∈ i.chains, r.keys ≠ []) ∧ (i.chains.map (·.headerKey)).Nodup := by
  have headers : i.store.chains.map (·.headerKey) = i.chains.map (·.headerKey) := List.map_map
  constructor
  · intro capped
    refine ⟨fun r mem empty => ?_, headers ▸ capped.distinct⟩
    have nonempty := capped.nonempty r.bucket (List.mem_map_of_mem mem)
    rw [ChainRecord.bucket, empty] at nonempty
    cases nonempty
  · rintro ⟨nonempty, distinct⟩
    have single : Distinct i.store.chains := by
      unfold Distinct
      rwa [headers]
    refine ⟨(SkippedKeys.validated_ok accepted.validated).2, rfl, fun c mem => ?_, single, fun c mem => ?_, ?_,
      accepted.total⟩
    · obtain ⟨r, listed, rfl⟩ := List.mem_map.1 mem
      exact ChainRecord.bucket_nonempty (nonempty r listed)
    · obtain ⟨r, listed, rfl⟩ := List.mem_map.1 mem
      exact Nat.le_trans r.bucket_size (accepted.records r listed).capped
    · exact (List.length_map ..).trans_le accepted.chains

end StoreImage

/-! ## A store that comes back -/

namespace SkippedKeys

/-- What `exportState` lists, where nothing is clamped. -/
def image (st : SkippedKeys) : StoreImage :=
  ⟨st.params, st.tick, st.chains.map fun c => ⟨c.headerKey, c.keys.toList.map fun k => ⟨k.1, k.2.2, k.2.1⟩⟩⟩

/-- Every number fits 32 bits, every key 32 bytes. -/
structure Storable (st : SkippedKeys) : Prop where
  capped : st.Capped
  validated : st.params.validated = .ok st.params
  params : st.params.Fits
  tick : st.tick ≤ u32Max
  entries : ∀ {hk counter v}, Holds st.chains hk counter v →
    hk.length = aeadKey ∧ counter ≤ u32Max ∧ v.1.length = 32 ∧ v.2 ≤ u32Max

theorem clampU32_of_le {v : Nat} (fits : v ≤ u32Max) : clampU32 v = v := Nat.min_eq_left fits

variable {st : SkippedKeys}

theorem Storable.exportState_eq (s : st.Storable) : st.exportState = st.image.bytes := by
  have chain : ∀ c ∈ st.chains,
      exportChain c = ChainRecord.bytes ⟨c.headerKey, c.keys.toList.map fun k => ⟨k.1, k.2.2, k.2.1⟩⟩ := by
    intro c mem
    have short : c.keys.size ≤ u32Max := Nat.le_trans (s.capped.chain c mem) s.params.maxKeysPerChain
    unfold exportChain ChainRecord.bytes
    rw [clampU32_of_le short, List.length_map, ExtTreeMap.length_toList, List.flatMap_map]
    refine congrArg _ (List.flatMap_congr fun k listed => ?_)
    have held : Holds st.chains c.headerKey k.1 k.2 := ⟨c, mem, rfl, ExtTreeMap.mem_toList_iff_getElem?_eq_some.1 listed⟩
    unfold exportKey KeyRecord.bytes
    rw [clampU32_of_le (s.entries held).2.2.2]
  unfold exportState StoreImage.bytes image
  rw [clampU32_of_le s.params.maxKeysPerChain, clampU32_of_le s.params.maxTotalKeys, clampU32_of_le s.params.maxChains, clampU32_of_le s.params.maxAge,
    clampU32_of_le s.tick, clampU32_of_le (Nat.le_trans s.capped.chains s.params.maxChains), List.length_map, List.flatMap_map,
    List.flatMap_congr chain]

theorem image_bucket {c : ChainBucket} :
    ChainRecord.bucket ⟨c.headerKey, c.keys.toList.map fun k => ⟨k.1, k.2.2, k.2.1⟩⟩ = c := by
  have put : ∀ (l : List (Nat × Bytes × Nat)) (b : BucketKeys) (n : Nat),
      ((l.map fun k => (⟨k.1, k.2.2, k.2.1⟩ : KeyRecord)).foldl KeyRecord.put (b, n)).1 =
        l.foldl (fun m p => m.insert p.1 p.2) b := by
    intro l
    induction l with
    | nil => exact fun b n => rfl
    | cons k l ih => exact fun b n => ih _ _
  unfold ChainRecord.bucket
  rw [put, foldl_insert_toList]

section
variable (s : st.Storable) {m hk : Bytes} {counter : Nat} {st' : SkippedKeys}
include s

theorem Storable.store_image : st.image.store = st := by
  have chains : st.image.chains.map ChainRecord.bucket = st.chains := by
    unfold image
    rw [List.map_map]
    conv_rhs => rw [← List.map_id st.chains]
    exact List.map_congr_left fun c _ => image_bucket
  unfold StoreImage.store
  rw [chains, ← s.capped.count]
  rfl

theorem Storable.accepted : st.image.Accepted := by
  have total := s.capped.total
  refine ⟨s.params, s.tick, s.validated, ?_, ?_, ?_⟩
  · exact (List.length_map ..).trans_le s.capped.chains
  · intro r mem
    obtain ⟨c, listed, rfl⟩ := List.mem_map.1 mem
    have held : ∀ k ∈ c.keys.toList, Holds st.chains c.headerKey k.1 k.2 :=
      fun k inside => ⟨c, listed, rfl, ExtTreeMap.mem_toList_iff_getElem?_eq_some.1 inside⟩
    have size := s.capped.chain c listed
    have counted : (c.keys.toList.map fun k => (⟨k.1, k.2.2, k.2.1⟩ : KeyRecord)).length = c.keys.size := by
      rw [List.length_map, ExtTreeMap.length_toList]
    refine ⟨?_, counted.trans_le (Nat.le_trans size s.params.maxKeysPerChain), counted.trans_le size, fun r listed => ?_⟩
    · have nonempty := s.capped.nonempty c listed
      cases keys : c.keys.toList with
      | nil =>
        rw [← Bool.not_eq_true, size_of_isEmpty, ← ExtTreeMap.length_toList, keys] at nonempty
        exact absurd rfl nonempty
      | cons k rest => exact (s.entries (held k (keys ▸ List.mem_cons_self))).1
    · obtain ⟨k, inside, rfl⟩ := List.mem_map.1 listed
      obtain ⟨-, counter, size, tick⟩ := s.entries (held k inside)
      exact ⟨counter, tick, size⟩
  · rwa [s.store_image]

/-- A store within its fields comes back as it was. -/
theorem Storable.import_export (rest : Bytes) : importState (st.exportState ++ rest) = .ok (st, rest) := by
  rw [s.exportState_eq, StoreImage.import_bytes s.accepted, s.store_image]

theorem Storable.insert (header : hk.length = aeadKey)
    (fits : counter ≤ u32Max) (size : m.length = 32) : (st.insert hk counter m).Storable := by
  have params : (st.insert hk counter m).params = st.params := insert_params
  have tick : (st.insert hk counter m).tick = st.tick := insert_tick
  refine ⟨s.capped.insert, params ▸ s.validated, params ▸ s.params, tick ▸ s.tick, fun held => ?_⟩
  rcases SkippedKeys.holds_insert held with ⟨rfl, rfl, rfl⟩ | old
  · exact ⟨header, fits, size, s.tick⟩
  · exact s.entries old

theorem Storable.take (taken : st.take hk counter = some (m, st')) : st'.Storable ∧ m.length = 32 := by
  obtain ⟨⟨t, held⟩, -, lesser, -⟩ := take_some s.capped.distinct taken
  have capped := s.capped.take taken
  obtain ⟨_, _, -, -, rfl⟩ := take_ok taken
  refine ⟨⟨capped, s.validated, s.params, s.tick, fun held => ?_⟩, (s.entries held).2.2.1⟩
  exact s.entries (lesser held)

theorem Storable.advanceTick (left : st.tick < u32Max) : st.advanceTick.Storable := by
  have params : st.advanceTick.params = st.params := advanceTick_params
  have tick : st.advanceTick.tick ≤ u32Max := by
    have next : satAdd 64 st.tick 1 ≤ st.tick + 1 := Nat.min_le_left _ _
    have moved : st.advanceTick.tick = satAdd 64 st.tick 1 := by
      unfold SkippedKeys.advanceTick
      dsimp only
      split <;> rfl
    omega
  exact ⟨s.capped.advanceTick, params ▸ s.validated, params ▸ s.params, tick, fun held => s.entries (advanceTick_lesser held)⟩

end

theorem Storable.new {params : SkipParams} (made : new params = .ok st) (fits : params.Fits) : st.Storable := by
  have capped := Capped.new made
  obtain ⟨params', checked, eq⟩ := bind_ok.1 made
  obtain ⟨rfl, -⟩ := validated_ok checked
  cases eq
  refine ⟨capped, checked, fits, Nat.zero_le _, fun held => ?_⟩
  obtain ⟨c, mem, -⟩ := held
  cases mem

end SkippedKeys

/-! ## Runs of the store -/

namespace SkippedKeys

inductive Op where
  | insert (hk : Bytes) (counter : Nat) (messageKey : Bytes)
  | take (hk : Bytes) (counter : Nat)
  | tick

/-- A failed `take` changes nothing. -/
def apply (st : SkippedKeys) : Op → SkippedKeys
  | .insert hk counter messageKey => st.insert hk counter messageKey
  | .take hk counter => ((st.take hk counter).map (·.2)).getD st
  | .tick => st.advanceTick

/-- The key the call is about. -/
def Op.key : Op → Option (Bytes × Nat)
  | .insert hk counter _ | .take hk counter => some (hk, counter)
  | .tick => none

def Op.Inserts (hk : Bytes) (counter : Nat) (op : Op) : Prop := ∃ m, op = .insert hk counter m

/-- All caps have room for what the call adds, and no key is past the age limit. -/
def Roomy (st : SkippedKeys) : Op → Prop
  | .insert hk _ _ => st.HasRoom hk 1
  | .take _ _ => True
  | .tick => st.NothingExpires

/-- What is expected of a store at every point of its life. -/
structure Good (st : SkippedKeys) : Prop where
  capped : st.Capped
  insert_take : ∀ hk counter m, ∃ st', (st.insert hk counter m).take hk counter = some (m, st')
  take_once : ∀ hk counter m st', st.take hk counter = some (m, st') →
    ∀ ops : List Op, (∀ op ∈ ops, ¬op.Inserts hk counter) → (run apply st' ops).take hk counter = none
  kept : ∀ op, st.Roomy op → ∀ hk counter v, Holds st.chains hk counter v → op.key ≠ some (hk, counter) →
    Holds (st.apply op).chains hk counter v

variable {st : SkippedKeys} {hk : Bytes} {counter n : Nat} {op : Op}

theorem apply_take : st.apply (.take hk counter) = st ∨
    ∃ m, st.take hk counter = some (m, st.apply (.take hk counter)) := by
  unfold apply
  dsimp only
  cases st.take hk counter with
  | none => exact .inl rfl
  | some r => exact .inr ⟨r.1, rfl⟩

theorem Capped.apply (capped : st.Capped) (op : Op) : (st.apply op).Capped := by
  cases op with
  | insert hk counter m => exact capped.insert
  | take hk counter =>
    rcases @apply_take st hk counter with same | ⟨m, taken⟩
    · rwa [same]
    · exact capped.take taken
  | tick => exact capped.advanceTick

/-- Only an insertion of it brings a key back. -/
theorem absent_apply (capped : st.Capped) (absent : ∀ v, ¬Holds st.chains hk counter v) (other : ¬op.Inserts hk counter)
    (v : Bytes × Nat) : ¬Holds (st.apply op).chains hk counter v := by
  intro holds
  cases op with
  | insert hk' counter' m =>
    rcases SkippedKeys.holds_insert holds with ⟨rfl, rfl, -⟩ | old
    · exact other ⟨m, rfl⟩
    · exact absent v old
  | take hk' counter' =>
    rcases @apply_take st hk' counter' with same | ⟨m, taken⟩
    · exact absent v (same ▸ holds)
    · exact absent v ((take_some capped.distinct taken).2.2.1 holds)
  | tick => exact absent v (advanceTick_lesser holds)

theorem take_none_of_absent (absent : ∀ v, ¬Holds st.chains hk counter v) : st.take hk counter = none := by
  cases taken : st.take hk counter with
  | none => rfl
  | some r =>
    obtain ⟨keys, tick, first, get, -⟩ := take_ok taken
    exact absurd (holds_of_keysOf first get) (absent _)

theorem Capped.good (capped : st.Capped) : st.Good where
  capped := capped
  insert_take hk counter m := take_of_holds capped.insert.distinct capped.holds_insert
  take_once hk counter m st' taken ops others := by
    have gone := (take_some capped.distinct taken).2.2.2
    have start : st'.Capped ∧ ∀ v, ¬Holds st'.chains hk counter v := ⟨capped.take taken, gone⟩
    have steps : AllSteps SkippedKeys.apply (fun _ op => ¬op.Inserts hk counter) st' ops :=
      allSteps_of_forall fun op mem _ => others op mem
    have reached := run_invariant_of (I := fun st : SkippedKeys => st.Capped ∧ ∀ v, ¬Holds st.chains hk counter v)
      (fun st op inv other => ⟨inv.1.apply op, absent_apply inv.1 inv.2 other⟩) start steps
    exact take_none_of_absent reached.2
  kept op roomy hk counter v holds other := by
    cases op with
    | insert hk' counter' m =>
      refine holds_insert_of_room capped.distinct roomy holds ?_
      rintro ⟨rfl, rfl⟩
      exact other rfl
    | take hk' counter' =>
      rcases @apply_take st hk' counter' with same | ⟨m, taken⟩
      · rwa [same]
      · refine holds_take capped.distinct taken holds ?_
        rintro ⟨rfl, rfl⟩
        exact other rfl
    | tick => exact holds_advanceTick roomy holds

theorem Capped.run_good (capped : st.Capped) (ops : List Op) : (run SkippedKeys.apply st ops).Good :=
  (run_invariant (I := Capped) (fun _ op inv => inv.apply op) capped ops).good

def sampleHeaderKey : Bytes := List.replicate 32 7

def sampleMessageKey : Bytes := List.replicate 32 5

def sampleRecord : ChainRecord := ⟨sampleHeaderKey, [⟨0, 0, sampleMessageKey⟩]⟩

def sampleSkip : SkipParams := ⟨2, 2, 4, 2, 9⟩

/-- A store that lists one chain with one key, `n` times. -/
def sampleImage (n : Nat) : StoreImage := ⟨sampleSkip, 0, List.replicate n sampleRecord⟩

theorem sampleImage_accepted (few : n ≤ 2) : (sampleImage n).Accepted := by
  have fits : sampleRecord.Fits 2 :=
    ⟨by decide, by decide, by decide, fun k mem => by
      cases List.mem_singleton.1 mem
      exact ⟨by decide, by decide, by decide⟩⟩
  have total : (sampleImage n).store.total ≤ 4 := by
    obtain rfl | rfl | rfl : n = 0 ∨ n = 1 ∨ n = 2 := by omega
    all_goals decide
  have params : sampleSkip.maxSkipPerMessage ≤ u32Max ∧ sampleSkip.maxKeysPerChain ≤ u32Max ∧
      sampleSkip.maxTotalKeys ≤ u32Max ∧ sampleSkip.maxChains ≤ u32Max ∧ sampleSkip.maxAge ≤ u32Max := by decide
  obtain ⟨le₁, le₂, le₃, le₄, le₅⟩ := params
  refine ⟨⟨le₁, le₂, le₃, le₄, le₅⟩, Nat.zero_le _, rfl, ?_, fun r mem => ?_, total⟩
  · exact (List.length_replicate ..).trans_le few
  · rw [List.eq_of_mem_replicate mem]
    exact fits

theorem sampleImage_areBytes : AreBytes (sampleImage n).bytes := by
  have varint (v : Nat) : AreBytes (Writer.varint v) := Writer.areBytes_varint
  have record : AreBytes sampleRecord.bytes := by
    refine AreBytes.append.2 ⟨AreBytes.append.2 ⟨by unfold AreBytes; decide, varint _⟩, ?_⟩
    show AreBytes (_ ++ _ ++ sampleMessageKey ++ [])
    simp only [AreBytes.append, varint, true_and]
    exact ⟨by unfold AreBytes; decide, by unfold AreBytes; decide⟩
  unfold StoreImage.bytes
  simp only [AreBytes.append, varint, true_and]
  intro b mem
  obtain ⟨r, listed, mem⟩ := List.mem_flatMap.1 mem
  rw [List.eq_of_mem_replicate listed] at mem
  exact record b mem

/-- Two chains under one header key: the key they share is taken twice. -/
theorem imported_twice_taken_twice :
    AreBytes (sampleImage 2).bytes ∧ ∃ st st₁ st₂, importState (sampleImage 2).bytes = .ok (st, []) ∧
      st.take sampleHeaderKey 0 = some (sampleMessageKey, st₁) ∧
      st₁.take sampleHeaderKey 0 = some (sampleMessageKey, st₂) ∧ ¬st.Good := by
  have read := StoreImage.import_bytes (sampleImage_accepted (Nat.le_refl 2)) []
  rw [List.append_nil] at read
  have first : (sampleImage 2).store.take sampleHeaderKey 0 =
      some (sampleMessageKey, { (sampleImage 1).store with total := 1 }) := rfl
  have second : { (sampleImage 1).store with total := 1 }.take sampleHeaderKey 0 =
      some (sampleMessageKey, { (sampleImage 0).store with total := 0 }) := rfl
  refine ⟨sampleImage_areBytes, _, _, _, read, first, second, fun good => ?_⟩
  have gone := good.take_once _ _ _ _ first [] (fun op mem => by cases mem)
  cases gone

/-- From `new` the store keeps all of this. From `import` it does exactly where every listed
chain has a key and no two are under one header key. -/
theorem store_good_iff (params : SkipParams) (buf : Bytes) :
    (∀ st, new params = .ok st → ∀ ops, (run apply st ops).Good) ∧
      ∀ st rest, AreBytes buf → importState buf = .ok (st, rest) →
        (∃ image : StoreImage, image.Accepted ∧ buf = image.bytes ++ rest) ∧
        ∀ image : StoreImage, image.Accepted → buf = image.bytes ++ rest →
          ((∀ ops, (run apply st ops).Good) ↔
            (∀ r ∈ image.chains, r.keys ≠ []) ∧ (image.chains.map (·.headerKey)).Nodup) := by
  refine ⟨fun st made => (Capped.new made).run_good, fun st rest small read => ⟨?_, fun image accepted same => ?_⟩⟩
  · obtain ⟨image, accepted, same, -⟩ := StoreImage.import_ok small read
    exact ⟨image, accepted, same⟩
  · rw [same, StoreImage.import_bytes accepted] at read
    cases read
    rw [← StoreImage.store_capped accepted]
    constructor
    · intro good
      exact (good []).capped
    · intro capped
      exact capped.run_good

theorem store_good_sample :
    (∃ st, new default = .ok st ∧ ∀ ops, (run apply st ops).Good) ∧
      ∃ st, importState (sampleImage 1).bytes = .ok (st, []) ∧ ∀ ops, (run apply st ops).Good := by
  refine ⟨⟨_, rfl, (store_good_iff default []).1 _ rfl⟩, ?_⟩
  have accepted : (sampleImage 1).Accepted := sampleImage_accepted (by decide)
  have read := StoreImage.import_bytes accepted []
  rw [List.append_nil] at read
  refine ⟨_, read, ?_⟩
  have exact_ := ((store_good_iff default _).2 _ [] (sampleImage_areBytes) read).2 _ accepted (List.append_nil _).symm
  refine exact_.2 ⟨fun r mem => ?_, List.nodup_singleton _⟩
  cases List.mem_singleton.1 mem
  exact List.cons_ne_nil _ _

end SkippedKeys

end Osl.Ratchet
