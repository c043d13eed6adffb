import Mathlib.Data.List.Find
import Osl.Base.Outcome
import Osl.SenderKeys.Model

/-!
# What `decrypt_at` does with a message of the sender

All keys are functions of a chain's root and id: slot `n` of a chain has the keys of
`ckAt`, and an injective KDF gives no key to two slots. A receiver whose keys are
those of the chains treats a message of slot `n` in one of three ways: from the
cache, by advancing to `n`, or not at all (`Effect`, `decryptAt_effect`).
-/

namespace Osl.SenderKeys

open Base Crypto SkippedKeyCache

/-! ## The chains -/

/-- The chain key of slot `n`. -/
def ckAt (P : Primitives) (root : Bytes) (chainId : Nat) : Nat → Bytes
  | 0 => deriveCk0 P root chainId
  | n + 1 => advance P (ckAt P root chainId n)

variable {P : Primitives} {root root' : Bytes} {c c' n n' now fuel count k : Nat} {ctx : SenderContext}
  {device : PhysicalDeviceId} {roots : Nat → Option Bytes} {header : Header} {r : ReceiverChain}
  {e entry : SkippedKey} {keys entries : List SkippedKey}

theorem ckAt_inj (ideal : P.Ideal) (small : c ≤ u32Max) (small' : c' ≤ u32Max)
    (same : ckAt P root c n = ckAt P root' c' n') : c = c' ∧ n = n' := by
  have labels : chainInitInfo ≠ chainStepInfo := by decide
  induction n generalizing n' with
  | zero =>
    cases n' with
    | zero =>
      obtain ⟨_, ids, _⟩ := derive32_inj ideal same
      unfold u32Max at small small'
      exact ⟨toLe_inj (by omega) (by omega) ids, rfl⟩
    | succ n' => exact absurd (derive32_inj ideal same).2.2 labels
  | succ n ih =>
    cases n' with
    | zero => exact absurd (derive32_inj ideal same).2.2 labels.symm
    | succ n' =>
      obtain ⟨ids, numbers⟩ := ih (derive32_inj ideal same).2.1
      exact ⟨ids, congrArg Nat.succ numbers⟩

theorem headerKey_inj (ideal : P.Ideal) (small : c ≤ u32Max) (small' : c' ≤ u32Max)
    (same : headerKey P (ckAt P root c n) = headerKey P (ckAt P root' c' n')) : c = c' ∧ n = n' :=
  ckAt_inj ideal small small' (derive32_inj ideal same).2.1

/-- Chain id and number. -/
abbrev Position := Nat × Nat

structure Sent where
  position : Position
  wire : EncryptedMessage
  plaintext : Bytes

variable {m : Sent}

/-- The message was made by the chain whose root is `roots` of its id. -/
structure Sent.Genuine (P : Primitives) (ctx : SenderContext) (device : PhysicalDeviceId) (roots : Nat → Option Bytes)
    (m : Sent) (root : Bytes) (header : Header) : Prop where
  known : roots m.position.1 = some root
  device : header.physicalDeviceId = device
  chainId : header.chainId = m.position.1
  n : header.n = m.position.2
  version : header.sessionVersion = ctx.sessionVersion
  fits : header.Fits
  more : m.position.2 < u32Max
  wire : ∃ nonces, m.wire =
    SenderChain.sealWith P ctx (ckAt P root m.position.1 m.position.2) header nonces m.plaintext

def SkippedKey.position (e : SkippedKey) : Position := (e.chainId, e.n)

/-- The entry holds the keys of its slot. -/
def SkippedKey.Genuine (P : Primitives) (roots : Nat → Option Bytes) (e : SkippedKey) : Prop :=
  e.chainId ≤ u32Max ∧ ∃ root, roots e.chainId = some root ∧ e.headerKey = SenderKeys.headerKey P (ckAt P root e.chainId e.n) ∧
    e.messageKey = SenderKeys.messageKey P (ckAt P root e.chainId e.n)

structure ReceiverChain.Keyed (P : Primitives) (device : PhysicalDeviceId) (roots : Nat → Option Bytes) (r : ReceiverChain)
    (root : Bytes) : Prop where
  device : r.physicalDeviceId = device
  known : roots r.chainId = some root
  small : r.chainId ≤ u32Max
  chain : r.ck = ckAt P root r.chainId r.n
  cache : ∀ e ∈ r.skipped, e.Genuine P roots

/-! ## Opening -/

section

variable (ideal : P.Ideal) (genuine : m.Genuine P ctx device roots root header)
include ideal genuine

theorem Sent.Genuine.openHeader_own :
    openHeader P (headerKey P (ckAt P root m.position.1 m.position.2)) m.wire = some header := by
  obtain ⟨nonces, wire⟩ := genuine.wire
  have opened : aeadOpen P (headerKey P (ckAt P root m.position.1 m.position.2)) m.wire.headerNonce [] m.wire.encHeader =
      .ok header.toBytes := by
    rw [wire]
    exact aeadOpen_aeadSeal ideal ..
  rw [openHeader, opened]
  simp only [Header.fromBytes_toBytes genuine.fits]
  rfl

theorem Sent.Genuine.openHeader_other {hk : Bytes}
    (other : hk ≠ headerKey P (ckAt P root m.position.1 m.position.2)) : openHeader P hk m.wire = none := by
  obtain ⟨nonces, wire⟩ := genuine.wire
  have closed : ∃ e, aeadOpen P hk m.wire.headerNonce [] m.wire.encHeader = .error e := by
    rw [wire]
    exact aeadOpen_other_key ideal other ..
  obtain ⟨e, closed⟩ := closed
  rw [openHeader, closed]

theorem Sent.Genuine.openBody (same : r.physicalDeviceId = device) :
    r.openBody P m.wire ctx (messageKey P (ckAt P root m.position.1 m.position.2)) header = .ok m.plaintext := by
  obtain ⟨nonces, wire⟩ := genuine.wire
  unfold ReceiverChain.openBody
  rw [wire, same, ← genuine.device]
  exact aeadOpen_aeadSeal ideal ..

end

theorem Sent.Genuine.checkHeader (genuine : m.Genuine P ctx device roots root header) (same : r.physicalDeviceId = device) :
    r.checkHeader ctx header = .ok () := by
  unfold ReceiverChain.checkHeader
  rw [if_neg (not_not.2 genuine.version), if_neg (not_not.2 (genuine.device.trans same.symm))]

/-- Only the entry of its own slot opens a message. -/
theorem Sent.Genuine.matchEntry (ideal : P.Ideal) (genuine : m.Genuine P ctx device roots root header)
    (entry : e.Genuine P roots) :
    ReceiverChain.matchEntry P m.wire e = if e.position = m.position then some header else none := by
  obtain ⟨small, root', known, key, _⟩ := entry
  have small' : m.position.1 ≤ u32Max := genuine.chainId ▸ genuine.fits.chainId
  unfold ReceiverChain.matchEntry
  split
  case isTrue same =>
    obtain ⟨ids, numbers⟩ := Prod.mk.inj (same : (e.chainId, e.n) = (m.position.1, m.position.2))
    have roots : root' = root := by
      rw [ids, genuine.known] at known
      exact (Option.some.inj known).symm
    rw [key, ids, numbers, roots, genuine.openHeader_own ideal]
    simp [Option.filter, genuine.chainId, genuine.n]
  case isFalse other =>
    rw [genuine.openHeader_other ideal, Option.filter_none]
    intro same
    obtain ⟨ids, numbers⟩ := headerKey_inj ideal small small' (key.symm.trans same)
    exact other (Prod.ext ids numbers)

/-! ## The cache -/

theorem eraseP_congr {α : Type} {p q : α → Bool} {l : List α} (same : ∀ a ∈ l, p a = q a) : l.eraseP p = l.eraseP q := by
  induction l with
  | nil => rfl
  | cons a l ih =>
    have rest := ih fun b mem => same b (List.mem_cons_of_mem a mem)
    rw [List.eraseP_cons, List.eraseP_cons, same a List.mem_cons_self, rest]

/-- The cache without its first entry for the slot. -/
def SkippedKeyCache.without (p : Position) (keys : List SkippedKey) : List SkippedKey :=
  keys.eraseP fun e => decide (e.position = p)

theorem SkippedKeyCache.insert_eq :
    (insert keys entry).2 ++ (insert keys entry).1 = keys ++ [entry] := by
  unfold insert
  split
  · rw [← List.append_assoc, List.take_append_drop]
  · rfl

/-- First in, first out: what is evicted and what stays are the old and the new keys. -/
theorem SkippedKeyCache.insertAll_eq :
    (insertAll keys entries).2 ++ (insertAll keys entries).1 = keys ++ entries := by
  induction entries generalizing keys with
  | nil => rw [insertAll, List.nil_append, List.append_nil]
  | cons entry rest ih =>
    calc (insertAll keys (entry :: rest)).2 ++ (insertAll keys (entry :: rest)).1
      _ = (insert keys entry).2 ++ ((insertAll (insert keys entry).1 rest).2 ++ (insertAll (insert keys entry).1 rest).1) :=
          List.append_assoc ..
      _ = (insert keys entry).2 ++ (insert keys entry).1 ++ rest := by rw [ih, List.append_assoc]
      _ = keys ++ entry :: rest := by rw [insert_eq, List.append_assoc, List.singleton_append]

theorem SkippedKeyCache.insertAll_sublist {keys entries : List SkippedKey} :
    (insertAll keys entries).1.Sublist (keys ++ entries) := by
  rw [← insertAll_eq]
  exact List.sublist_append_right ..

theorem SkippedKeyCache.mem_insertAll :
    e ∈ (insertAll keys entries).2 ∨ e ∈ (insertAll keys entries).1 ↔ e ∈ keys ∨ e ∈ entries := by
  rw [← List.mem_append, insertAll_eq, List.mem_append]

theorem SkippedKeyCache.mem_sweepExpired :
    e ∈ keys ↔ e ∈ expired now keys ∨ e ∈ sweepExpired now keys := by
  unfold expired sweepExpired
  rw [List.mem_filter, List.mem_filter]
  cases fresh now e <;> simp

/-! ## The forward search -/

/-- The entries for `count` slots from `n` on. -/
def passed (P : Primitives) (root : Bytes) (chainId now : Nat) : Nat → Nat → List SkippedKey
  | _, 0 => []
  | n, count + 1 =>
    ReceiverChain.skippedKey P chainId (ckAt P root chainId n) n now :: passed P root chainId now (n + 1) count

theorem mem_passed : e ∈ passed P root c now n count →
    e.chainId = c ∧ n ≤ e.n ∧ e.n < n + count ∧ e.headerKey = headerKey P (ckAt P root c e.n) ∧
      e.messageKey = messageKey P (ckAt P root c e.n) := by
  induction count generalizing n with
  | zero => intro mem; cases mem
  | succ count ih =>
    intro mem
    rcases List.mem_cons.1 mem with rfl | later
    · refine ⟨rfl, Nat.le_refl n, ?_, rfl, rfl⟩
      show n < n + (count + 1)
      omega
    · obtain ⟨chain, low, high, keys⟩ := ih later
      exact ⟨chain, by omega, by omega, keys⟩

theorem exists_passed (low : n ≤ k) (high : k < n + count) :
    ∃ e ∈ passed P root c now n count, e.position = (c, k) := by
  induction count generalizing n with
  | zero => omega
  | succ count ih =>
    rcases Nat.eq_or_lt_of_le low with rfl | later
    · exact ⟨_, List.mem_cons_self, rfl⟩
    · obtain ⟨e, mem, here⟩ := ih later (by omega)
      exact ⟨e, List.mem_cons_of_mem _ mem, here⟩

theorem passed_nodup (count : Nat) : ((passed P root c now n count).map SkippedKey.position).Nodup := by
  induction count generalizing n with
  | zero => exact List.nodup_nil
  | succ count ih =>
    refine List.nodup_cons.2 ⟨fun mem => ?_, ih⟩
    obtain ⟨e, later, same⟩ := List.mem_map.1 mem
    have low := (mem_passed later).2.1
    have here : e.n = n := (Prod.mk.inj same).2
    omega

section
variable (ideal : P.Ideal) (genuine : m.Genuine P ctx device roots root header)
include ideal genuine

/-- The search reaches the slot of the message. -/
theorem Sent.Genuine.search_found
    (same : r.physicalDeviceId = device) (chain : r.chainId = m.position.1) (old : List SkippedKey)
    (low : n ≤ m.position.2) (high : m.position.2 < n + fuel) :
    r.search P m.wire ctx now fuel (ckAt P root r.chainId n) n old =
      .ok ⟨header, ckAt P root r.chainId m.position.2, m.position.2,
        old ++ passed P root r.chainId now n (m.position.2 - n)⟩ := by
  induction fuel generalizing n old with
  | zero => omega
  | succ fuel ih =>
    have small : m.position.1 ≤ u32Max := genuine.chainId ▸ genuine.fits.chainId
    rw [ReceiverChain.search]
    rcases Nat.eq_or_lt_of_le low with here | later
    · have opened : openHeader P (headerKey P (ckAt P root r.chainId n)) m.wire = some header := by
        rw [chain, here]
        exact genuine.openHeader_own ideal
      have checked : r.checkSlot ctx n header = .ok () := by
        unfold ReceiverChain.checkSlot
        rw [genuine.checkHeader same]
        show (if _ then _ else if _ then _ else _) = _
        rw [if_neg (not_not.2 (genuine.chainId.trans chain.symm)), if_neg (not_not.2 (genuine.n.trans here.symm))]
      rw [opened]
      dsimp only
      rw [checked, ← here, Nat.sub_self, passed, List.append_nil]
      rfl
    · have closed : openHeader P (headerKey P (ckAt P root r.chainId n)) m.wire = none := by
        refine genuine.openHeader_other ideal fun equal => ?_
        rw [chain] at equal
        have numbers := (headerKey_inj ideal small small equal).2
        omega
      have more := genuine.more
      rw [closed]
      rw [if_neg (by omega)]
      refine (ih _ later (by omega)).trans ?_
      have gap : m.position.2 - n = m.position.2 - (n + 1) + 1 := by omega
      rw [gap, passed, List.append_assoc]
      rfl

theorem Sent.Genuine.search_missed
    (small : c ≤ u32Max) (missed : c ≠ m.position.1 ∨ m.position.2 < n ∨ n + fuel ≤ m.position.2) (old : List SkippedKey) :
    ∃ e, r.search P m.wire ctx now fuel (ckAt P root' c n) n old = .error e := by
  induction fuel generalizing n old with
  | zero => exact ⟨_, rfl⟩
  | succ fuel ih =>
    have small' : m.position.1 ≤ u32Max := genuine.chainId ▸ genuine.fits.chainId
    have closed : openHeader P (headerKey P (ckAt P root' c n)) m.wire = none := by
      refine genuine.openHeader_other ideal fun equal => ?_
      obtain ⟨ids, numbers⟩ := headerKey_inj ideal small small' equal
      omega
    rw [ReceiverChain.search, closed]
    dsimp only
    split
    · exact ⟨_, rfl⟩
    · exact ih (n := n + 1) (by omega) _

end

/-! ## One delivery -/

/-- The receiver has a key for the slot in its cache. -/
def ReceiverChain.Caches (r : ReceiverChain) (p : Position) : Prop := ∃ e ∈ r.skipped, e.position = p

/-- The slot is on the receiver's chain and at most 1000 slots are passed over for it. -/
def ReceiverChain.Ahead (r : ReceiverChain) (p : Position) : Prop :=
  r.chainId = p.1 ∧ r.n ≤ p.2 ∧ p.2 ≤ r.n + maxSkippedPerChain

/-- The receiver that has advanced to the slot after `n`. -/
def ReceiverChain.advanced (P : Primitives) (r : ReceiverChain) (root : Bytes) (n now : Nat) : ReceiverChain :=
  { r with
    ck := ckAt P root r.chainId (n + 1)
    n := n + 1
    skipped := (insertAll r.skipped (passed P root r.chainId now r.n (n - r.n))).1 }

/-! What a genuine message can come to. -/

def ReceiverChain.taken (r : ReceiverChain) (m : Sent) (now : Nat) : Decrypted :=
  ⟨{ r with skipped := without m.position (r.swept now).skipped }, expired now r.skipped,
    .ok m.plaintext⟩

def ReceiverChain.reached (P : Primitives) (r : ReceiverChain) (root : Bytes) (m : Sent) (now : Nat) : Decrypted :=
  ⟨(r.swept now).advanced P root m.position.2 now,
    expired now r.skipped ++ (insertAll (r.swept now).skipped
      (passed P root r.chainId now r.n (m.position.2 - r.n))).2,
    .ok m.plaintext⟩

def ReceiverChain.rejected (r : ReceiverChain) (now : Nat) (e : Error) : Decrypted :=
  ⟨r.swept now, expired now r.skipped, .error e⟩

inductive Effect (P : Primitives) (r : ReceiverChain) (m : Sent) (now : Nat) (root : Bytes) : Decrypted → Prop where
  | cached (held : (r.swept now).Caches m.position) : Effect P r m now root
      ⟨{ r with skipped := without m.position (r.swept now).skipped }, expired now r.skipped,
        .ok m.plaintext⟩
  | ahead (absent : ¬(r.swept now).Caches m.position) (ahead : r.Ahead m.position) : Effect P r m now root
      ⟨(r.swept now).advanced P root m.position.2 now,
        expired now r.skipped ++ (insertAll (r.swept now).skipped
          (passed P root r.chainId now r.n (m.position.2 - r.n))).2,
        .ok m.plaintext⟩
  | refused (absent : ¬(r.swept now).Caches m.position) (behind : ¬r.Ahead m.position) (e : Error) : Effect P r m now root
      ⟨r.swept now, expired now r.skipped, .error e⟩

theorem ReceiverChain.Keyed.swept (keyed : r.Keyed P device roots root) (now : Nat) :
    (r.swept now).Keyed P device roots root :=
  ⟨keyed.device, keyed.known, keyed.small, keyed.chain, fun e mem => keyed.cache e (List.mem_filter.1 mem).1⟩

theorem Sent.Genuine.tryDecryptSkipped (ideal : P.Ideal) (genuine : m.Genuine P ctx device roots root header)
    (keyed : r.Keyed P device roots root') :
    (r.Caches m.position → r.tryDecryptSkipped P m.wire ctx =
      .ok (some (m.plaintext, without m.position r.skipped))) ∧
    (¬r.Caches m.position → r.tryDecryptSkipped P m.wire ctx = .ok none) := by
  have matches_ : ∀ e ∈ r.skipped, (ReceiverChain.matchEntry P m.wire e).isSome = decide (e.position = m.position) := by
    intro e mem
    rw [genuine.matchEntry ideal (keyed.cache e mem)]
    split <;> simp [*]
  unfold ReceiverChain.tryDecryptSkipped
  rw [List.find?_congr matches_]
  constructor
  · rintro ⟨e, mem, here⟩
    cases found : r.skipped.find? fun e => decide (e.position = m.position) with
    | none =>
      have none := List.find?_eq_none.1 found e mem
      exact absurd (decide_eq_true here) none
    | some e =>
      have mem := List.mem_of_find?_eq_some found
      have here : e.position = m.position := by simpa using List.find?_some found
      obtain ⟨_, root'', known, _, key⟩ := keyed.cache e mem
      obtain ⟨ids, numbers⟩ := Prod.mk.inj (here : (e.chainId, e.n) = (m.position.1, m.position.2))
      have body : r.openBody P m.wire ctx e.messageKey header = .ok m.plaintext := by
        rw [ids, genuine.known] at known
        rw [key, ids, numbers, ← Option.some.inj known]
        exact genuine.openBody ideal keyed.device
      have opened : ReceiverChain.matchEntry P m.wire e = some header := by
        rw [genuine.matchEntry ideal (keyed.cache e mem), if_pos here]
      dsimp only
      rw [opened]
      dsimp only
      rw [genuine.checkHeader keyed.device, body, eraseP_congr matches_]
      rfl
  · intro absent
    have none : (r.skipped.find? fun e => decide (e.position = m.position)) = none := by
      refine List.find?_eq_none.2 fun e mem here => ?_
      exact absent ⟨e, mem, of_decide_eq_true here⟩
    rw [none]

theorem Sent.Genuine.decryptForward (ideal : P.Ideal) (genuine : m.Genuine P ctx device roots root' header)
    (keyed : r.Keyed P device roots root) (now : Nat) (expired : List SkippedKey) :
    (r.Ahead m.position → r.decryptForward P m.wire ctx now expired =
      ⟨r.advanced P root m.position.2 now, expired ++ (insertAll r.skipped
        (passed P root r.chainId now r.n (m.position.2 - r.n))).2, .ok m.plaintext⟩) ∧
    (¬r.Ahead m.position → ∃ e, r.decryptForward P m.wire ctx now expired = ⟨r, expired, .error e⟩) := by
  unfold ReceiverChain.decryptForward
  rw [keyed.chain]
  constructor
  · rintro ⟨chain, low, high⟩
    obtain rfl : root' = root := by
      have known := genuine.known
      rw [← chain, keyed.known] at known
      exact (Option.some.inj known).symm
    have more := genuine.more
    rw [genuine.search_found ideal keyed.device chain [] low (by omega)]
    dsimp only
    rw [show r.openBody P m.wire ctx (messageKey P (ckAt P root' r.chainId m.position.2)) header = .ok m.plaintext by
      rw [chain]; exact genuine.openBody ideal keyed.device]
    dsimp only
    rw [if_neg (by omega)]
    rfl
  · intro behind
    have missed : r.chainId ≠ m.position.1 ∨ m.position.2 < r.n ∨ r.n + (maxSkippedPerChain + 1) ≤ m.position.2 := by
      by_contra inside
      obtain ⟨chain, inside⟩ := not_or.1 inside
      exact behind ⟨not_not.1 chain, by omega, by omega⟩
    obtain ⟨e, failed⟩ := genuine.search_missed ideal keyed.small missed []
    rw [failed]
    exact ⟨e, rfl⟩

theorem decryptAt_effect (ideal : P.Ideal) (genuine : m.Genuine P ctx device roots root' header)
    (keyed : r.Keyed P device roots root) (now : Nat) : Effect P r m now root (r.decryptAt P m.wire ctx now) := by
  obtain ⟨fromCache, notCached⟩ := genuine.tryDecryptSkipped ideal (keyed.swept now)
  obtain ⟨forward, missed⟩ := genuine.decryptForward ideal (keyed.swept now) now (expired now r.skipped)
  unfold ReceiverChain.decryptAt
  by_cases held : (r.swept now).Caches m.position
  · rw [fromCache held]
    exact .cached held
  · rw [notCached held]
    dsimp only
    by_cases ahead : r.Ahead m.position
    · rw [forward ahead]
      exact .ahead held ahead
    · obtain ⟨e, failed⟩ := missed ahead
      rw [failed]
      exact .refused held ahead e

/-- Whatever is delivered: an error leaves the receiver as it was, apart from expiry. -/
theorem decryptAt_error {msg : EncryptedMessage} {e : Error} (failed : (r.decryptAt P msg ctx now).result = .error e) :
    (r.decryptAt P msg ctx now).receiver = r.swept now := by
  unfold ReceiverChain.decryptAt at failed ⊢
  cases first : (r.swept now).tryDecryptSkipped P msg ctx with
  | error e' => rfl
  | ok found =>
    rw [first] at failed
    cases found with
    | some found => cases failed
    | none =>
      unfold ReceiverChain.decryptForward at failed ⊢
      cases second : (r.swept now).search P msg ctx now (maxSkippedPerChain + 1) (r.swept now).ck (r.swept now).n [] with
      | error e' => rfl
      | ok slot =>
        rw [second] at failed
        dsimp only at failed ⊢
        cases third : (r.swept now).openBody P msg ctx (messageKey P slot.ck) slot.header with
        | error e' => rfl
        | ok plaintext =>
          rw [third] at failed
          dsimp only at failed ⊢
          split at failed
          case isTrue last => rw [if_pos last]
          case isFalse => cases failed

end Osl.SenderKeys
