import Osl.Base.Nested
import Osl.Base.Outcome
import Osl.Lifecycle.Receipts

/-!
# The open-clock ledger (`apps/osl-hub/src/message_expiry.rs`)

One record a delivered message, by scope and message id: its lifecycle, which owns both
clocks, and the local cache row it was written to. The sealed file is the ledger itself;
an operation reads it, and what it returns is the file it leaves. `fault` is the error
that sealing and replacing the file reports, if it does.

Every operation does one of four things to the file (`Effect`): nothing, or it takes in a
delivery, records a first open, or drops what has expired.
-/

namespace Osl.Hub.OpenClock

open Base Lifecycle LogicalMessageLifecycle

/-- The bytes of an identifier. -/
abbrev Id := List UInt8

def maxAbsoluteTtlSeconds : Nat := 7 * 24 * 60 * 60
def i64Max : Int := 2 ^ 63 - 1

def openClockLabel : String := "OSL message expiry ledger"
def maxOpenClockScopes : Nat := 512
def maxOpenClockEntriesPerScope : Nat := 512
def maxOpenClockEntriesTotal : Nat := 2048
def maxIdLen : Nat := 96

def receiverLimits : LifecycleLimits := ⟨256, 64 * 1024, 16 * 1024 * 1024⟩

def messageIdDomain : List UInt8 := ascii "osl-message-expiry/message-id/v1"
def scopeKeyDomain : List UInt8 := ascii "osl-message-expiry/scope-key/v1"

structure TimedRelease where
  absoluteExpiresAt : Int
  openTtlSeconds : Option Nat
  deriving DecidableEq

inductive ExpiryVerdict where
  | awaitingFirstOpen (absoluteExpiresAt : Int)
  | readable (effectiveExpiresAt : Int)
  | expired
  deriving DecidableEq

/-- `i64::try_from(t).unwrap_or(i64::MAX)`. -/
def toI64 (t : Nat) : Int := if (t : Int) ≤ i64Max then t else i64Max

/-- `u64::try_from(t)`. -/
def toU64 (t : Int) : Except String Nat := if t < 0 then .error "OSL clock is invalid" else .ok t.toNat

def isOpaqueId (value : Id) : Bool :=
  !value.isEmpty && value.length ≤ maxIdLen &&
    value.all fun byte => (48 ≤ byte && byte ≤ 57) || byte == 45 || byte == 58 || (97 ≤ byte && byte ≤ 122)

structure OpenClockRecord where
  lifecycle : LogicalMessageLifecycle
  cacheId : Option Id
  deriving DecidableEq

structure OpenClockLedger where
  version : Nat
  scopes : Nested Id Id OpenClockRecord

namespace OpenClockLedger

def empty : OpenClockLedger := ⟨0, ∅⟩

def totalEntries (l : OpenClockLedger) : Nat := sumValues (·.size) l.scopes

def find (l : OpenClockLedger) (scopeKey messageId : Id) : Option OpenClockRecord := l.scopes.find scopeKey messageId

end OpenClockLedger

/-- What `parts`, the digests and the clocks of a delivered message say. -/
structure Delivery where
  scopeKey : Id
  messageId : Id
  release : TimedRelease
  parts : List AcceptedPart
  deliveryDigest : Digest
  cacheId : Option Id

structure PruneReport where
  expired : Nat
  retained : Nat
  shredCacheIds : List Id
  deriving DecidableEq

section

variable (sha256 : List UInt8 → Digest)

def commitment (domain : List UInt8) (value : Id) : Digest :=
  let digest := sha256 (domain ++ beBytes 8 value.length ++ value)
  if digest = zeroDigest then Vector.replicate 32 1 else digest

/-- A record that may be acted on. -/
def OpenClockRecord.valid (r : OpenClockRecord) : Bool :=
  (r.lifecycle.validateSnapshot sha256).isOk && r.cacheId.all isOpaqueId

def OpenClockLedger.wellFormed (l : OpenClockLedger) : Bool :=
  (l.version == 0 || l.version == 1) && l.scopes.size ≤ maxOpenClockScopes && l.totalEntries ≤ maxOpenClockEntriesTotal &&
    l.scopes.toList.all fun scope =>
      scope.2.size ≤ maxOpenClockEntriesPerScope && isOpaqueId scope.1 &&
        scope.2.toList.all fun entry => isOpaqueId entry.1 && entry.2.valid sha256

/-- A missing file is the empty ledger. -/
def loadOpenClock (stored : OpenClockLedger) : Except String OpenClockLedger :=
  if stored.wellFormed sha256 then .ok stored else .error (openClockLabel ++ " is malformed")

def storeOpenClock (fault : Option String) (ledger : OpenClockLedger) : Except String OpenClockLedger :=
  match fault with
  | none => .ok ledger
  | some e => .error e

end

/-- `record.lifecycle.expire(now).is_ok() || record.lifecycle.status().is_terminal()`. -/
def OpenClockRecord.gone (r : OpenClockRecord) (now : Nat) : Bool :=
  (r.lifecycle.expire now).2.isOk || (r.lifecycle.expire now).1.status.isTerminal

def pruneInMemory (ledger : OpenClockLedger) (now : Int) : OpenClockLedger × PruneReport :=
  match toU64 now with
  | .error _ => (ledger, ⟨0, 0, []⟩)
  | .ok now =>
    let expired := ledger.scopes.values.filter (·.gone now)
    let retained := ledger.scopes.values.filter fun r => !r.gone now
    ({ ledger with scopes := ledger.scopes.retain fun r => !r.gone now },
      ⟨expired.length, retained.length, expired.filterMap (·.cacheId)⟩)

section

variable (sha256 : List UInt8 → Digest)

def Delivery.invalid (d : Delivery) (now : Int) : Prop :=
  isOpaqueId d.scopeKey = false ∨ isOpaqueId d.messageId = false ∨ d.cacheId.all isOpaqueId = false ∨ d.parts = [] ∨
    d.release.absoluteExpiresAt ≤ now ∨ min (now + maxAbsoluteTtlSeconds) i64Max < d.release.absoluteExpiresAt

instance (d : Delivery) (now : Int) : Decidable (d.invalid now) := inferInstanceAs (Decidable (_ ∨ _))

def Delivery.record (d : Delivery) (now : Int) : Except String OpenClockRecord := do
  let nowU64 ← toU64 now
  let expiresAt ← toU64 d.release.absoluteExpiresAt
  let lifecycle ← (receive sha256 (commitment sha256 messageIdDomain d.messageId)
    (commitment sha256 scopeKeyDomain d.scopeKey) nowU64 expiresAt (d.release.openTtlSeconds.getD 0) d.parts
    ⟨d.deliveryDigest, nowU64⟩ receiverLimits).mapError fun _ => "OSL message expiry record is invalid"
  .ok ⟨lifecycle, d.cacheId⟩

/-- A live timer is never evicted to make room. -/
def OpenClockLedger.full (l : OpenClockLedger) (scopeKey : Id) : Prop :=
  (l.scopes[scopeKey]?.isNone ∧ maxOpenClockScopes ≤ l.scopes.size) ∨
    maxOpenClockEntriesPerScope ≤ (l.scopes[scopeKey]?.map (·.size)).getD 0 ∨ maxOpenClockEntriesTotal ≤ l.totalEntries

instance (l : OpenClockLedger) (scopeKey : Id) : Decidable (l.full scopeKey) := inferInstanceAs (Decidable (_ ∨ _))

/-- The expired records go from the copy in memory only, unless the delivery is taken in. -/
def noteDelivered (fault : Option String) (stored : OpenClockLedger) (d : Delivery) (now : Int) :
    Except String OpenClockLedger :=
  if d.invalid now then .error "OSL message expiry record is invalid"
  else do
    let record ← d.record sha256 now
    let ledger ← loadOpenClock sha256 stored
    let ledger := (pruneInMemory ledger now).1
    match ledger.find d.scopeKey d.messageId with
    | some existing =>
      if existing = record then .ok stored else .error "OSL already holds a different timer for this message"
    | none =>
      if ledger.full d.scopeKey then .error "OSL message expiry ledger reached its safe limit"
      else storeOpenClock fault ⟨1, ledger.scopes.insertAt d.scopeKey d.messageId record⟩

def recordFirstOpenInner (fault : Option String) (stored : OpenClockLedger) (scopeKey messageId : Id) (openDigest : Digest)
    (now : Int) : Except String (OpenClockLedger × ExpiryVerdict) :=
  if isOpaqueId scopeKey = false ∨ isOpaqueId messageId = false ∨ openDigest = zeroDigest then
    .error "OSL message expiry record is invalid"
  else do
    let nowU64 ← toU64 now
    let ledger ← loadOpenClock sha256 stored
    match ledger.find scopeKey messageId with
    | none => .ok (stored, .expired)
    | some record =>
      if record.lifecycle.effectiveExpiresAt ≤ nowU64 then .ok (stored, .expired)
      else
        match record.lifecycle.status with
        | .opened => .ok (stored, .readable (toI64 record.lifecycle.effectiveExpiresAt))
        | .received =>
          match record.lifecycle.recordOpened ⟨openDigest, nowU64⟩ nowU64 with
          | (_, .error _) => .error "OSL could not record this open"
          | (_, .ok .unchanged) => .ok (stored, .readable (toI64 record.lifecycle.effectiveExpiresAt))
          | (opened, .ok .changed) => do
            let file ← storeOpenClock fault ⟨1, ledger.scopes.insertAt scopeKey messageId { record with lifecycle := opened }⟩
            .ok (file, .readable (toI64 opened.effectiveExpiresAt))
        | _ => .ok (stored, .expired)

def recordFirstOpen (fault : Option String) (stored : OpenClockLedger) (scopeKey messageId : Id) (openDigest : Digest)
    (now : Int) : OpenClockLedger × ExpiryVerdict :=
  match recordFirstOpenInner sha256 fault stored scopeKey messageId openDigest now with
  | .ok answer => answer
  | .error _ => (stored, .expired)

def verdict (stored : OpenClockLedger) (scopeKey messageId : Id) (now : Int) : ExpiryVerdict :=
  if isOpaqueId scopeKey = false ∨ isOpaqueId messageId = false then .expired
  else
    match loadOpenClock sha256 stored, toU64 now with
    | .ok ledger, .ok now =>
      match ledger.find scopeKey messageId with
      | none => .expired
      | some record =>
        if record.lifecycle.effectiveExpiresAt ≤ now ∨ record.lifecycle.status.isTerminal then .expired
        else
          match record.lifecycle.openTtl, record.lifecycle.firstAuthenticatedOpenAt with
          | some _, none => .awaitingFirstOpen (toI64 record.lifecycle.expiresAt)
          | _, _ => .readable (toI64 record.lifecycle.effectiveExpiresAt)
    | _, _ => .expired

/-- Writes only when something has expired. -/
def prune (fault : Option String) (stored : OpenClockLedger) (now : Int) : Except String (OpenClockLedger × PruneReport) := do
  let ledger ← loadOpenClock sha256 stored
  if ledger.scopes.isEmpty then .ok (stored, ⟨0, 0, []⟩)
  else
    let (pruned, report) := pruneInMemory ledger now
    if 0 < report.expired then
      let file ← storeOpenClock fault { pruned with version := 1 }
      .ok (file, report)
    else .ok (stored, report)

end

/-! ## The tick -/

def maxCacheShredsPerPass : Nat := 256

/-- What a pass says of the expiry ledger. -/
structure PassReport where
  ran : Bool
  expiredMessages : Nat
  shreddedCacheRows : Nat
  degraded : Bool
  deriving DecidableEq

/-- The expiry leg of `run_pass`: the file, the report and the rows a successful
`shred_expired_messages` was given. `store` answers that call, if there is a store. -/
def runPass (sha256 : List UInt8 → Digest) (unlocked : Bool) (fault : Option String)
    (store : Option (List Id → Except String Nat)) (stored : OpenClockLedger) (now : Int) :
    OpenClockLedger × PassReport × List Id :=
  if unlocked then
    match prune sha256 fault stored now with
    | .error _ => (stored, ⟨true, 0, 0, true⟩, [])
    | .ok (file, report) =>
      match store with
      | none => (file, ⟨true, report.expired, 0, false⟩, [])
      | some shredExpiredMessages =>
        let batch := report.shredCacheIds.take maxCacheShredsPerPass
        match shredExpiredMessages batch with
        | .ok rows => (file, ⟨true, report.expired, rows, false⟩, batch)
        | .error _ => (file, ⟨true, report.expired, 0, true⟩, [])
  else (stored, ⟨false, 0, 0, false⟩, [])

/-! ## What an operation does to the file -/

variable {r : OpenClockRecord} {now : Nat}

theorem OpenClockRecord.gone_iff :
    r.gone now = true ↔ r.lifecycle.effectiveExpiresAt ≤ now ∨ r.lifecycle.status.isTerminal = true := by
  unfold OpenClockRecord.gone expire
  split
  case isTrue terminal =>
    rw [iff_true_intro terminal, or_true, iff_true]
    split
    case isTrue => rfl
    case isFalse => exact Bool.or_eq_true_iff.2 (.inr terminal)
  case isFalse live =>
    split
    case isTrue early =>
      have later : ¬r.lifecycle.effectiveExpiresAt ≤ now := Nat.not_le.2 early
      simp [Except.isOk, Except.toBool, later]
    case isFalse late =>
      have past : r.lifecycle.effectiveExpiresAt ≤ now := Nat.not_lt.1 late
      simp [Except.isOk, Except.toBool, past]

theorem OpenClockRecord.alive (early : now < r.lifecycle.effectiveExpiresAt)
    (live : r.lifecycle.status.isTerminal = false) : r.gone now = false := by
  rw [← Bool.not_eq_true, gone_iff, live]
  rintro (late | terminal)
  · omega
  · cases terminal

section

variable {sha256 : List UInt8 → Digest} {fault : Option String} {stored file l ledger : OpenClockLedger} {now t : Int}

/-- A record of a ledger that loads has passed the snapshot check. -/
theorem OpenClockLedger.valid_of_find {k i : Id} (formed : l.wellFormed sha256 = true)
    (found : l.find k i = some r) : r.valid sha256 = true := by
  obtain ⟨inner, outer, found⟩ := Option.bind_eq_some_iff.1 found
  unfold OpenClockLedger.wellFormed at formed
  rw [Bool.and_eq_true, List.all_eq_true] at formed
  have entries := formed.2 _ (Std.ExtTreeMap.mem_toList_iff_getElem?_eq_some.2 outer)
  rw [Bool.and_eq_true, List.all_eq_true] at entries
  have entry := entries.2 _ (Std.ExtTreeMap.mem_toList_iff_getElem?_eq_some.2 found)
  exact (Bool.and_eq_true_iff.1 entry).2

theorem toU64_ok {n : Nat} (ok : toU64 t = .ok n) : 0 ≤ t ∧ n = t.toNat := by
  unfold toU64 at ok
  split at ok
  case isTrue => cases ok
  case isFalse nonneg =>
    cases ok
    exact ⟨Int.not_lt.1 nonneg, rfl⟩

theorem toU64_of_nonneg (nonneg : 0 ≤ t) : toU64 t = .ok t.toNat := if_neg (Int.not_lt.2 nonneg)

theorem loadOpenClock_ok (ok : loadOpenClock sha256 stored = .ok ledger) :
    stored.wellFormed sha256 = true ∧ ledger = stored := by
  unfold loadOpenClock at ok
  split at ok
  case isTrue formed =>
    cases ok
    exact ⟨formed, rfl⟩
  case isFalse => cases ok

theorem storeOpenClock_ok (ok : storeOpenClock fault ledger = .ok file) : file = ledger := by
  unfold storeOpenClock at ok
  split at ok
  case h_1 =>
    cases ok
    rfl
  case h_2 => cases ok

theorem find_pruneInMemory (nonneg : 0 ≤ now) (scopeKey messageId : Id) :
    (pruneInMemory stored now).1.find scopeKey messageId = (stored.find scopeKey messageId).filter fun r => !r.gone now.toNat := by
  unfold pruneInMemory
  rw [toU64_of_nonneg nonneg]
  exact Nested.find_retain ..

/-- What is live at `now` in the file. -/
def OpenClockLedger.live (l : OpenClockLedger) (now : Int) (scopeKey messageId : Id) : Option OpenClockRecord :=
  (l.find scopeKey messageId).filter fun r => !r.gone now.toNat

theorem live_eq_some {scopeKey messageId : Id} :
    stored.live now scopeKey messageId = some r ↔ stored.find scopeKey messageId = some r ∧ r.gone now.toNat = false := by
  unfold OpenClockLedger.live
  simp

/-- `taken` is the delivery the operation was given, if it was one. -/
inductive Effect (sha256 : List UInt8 → Digest) (stored : OpenClockLedger) (now : Int) (taken : Option Delivery) :
    OpenClockLedger → Prop where
  | same : Effect sha256 stored now taken stored
  | delivered {file : OpenClockLedger} (d : Delivery) (given : taken = some d) (record : OpenClockRecord) (formed : stored.wellFormed sha256 = true)
      (nonneg : 0 ≤ now) (early : now < d.release.absoluteExpiresAt) (made : d.record sha256 now = .ok record)
      (absent : stored.live now d.scopeKey d.messageId = none)
      (found : ∀ k i, file.find k i = if k = d.scopeKey ∧ i = d.messageId then some record else stored.live now k i) :
      Effect sha256 stored now taken file
  | opened {file : OpenClockLedger} (k i : Id) (record : OpenClockRecord) (opened : LogicalMessageLifecycle)
      (formed : stored.wellFormed sha256 = true) (nonneg : 0 ≤ now) (there : stored.find k i = some record)
      (early : now.toNat < record.lifecycle.effectiveExpiresAt) (status : record.lifecycle.status = .received)
      (found : ∀ k' i', file.find k' i' = if k' = k ∧ i' = i then some { record with lifecycle := opened } else
        stored.find k' i') :
      Effect sha256 stored now taken file
  | pruned {file : OpenClockLedger} (formed : stored.wellFormed sha256 = true) (nonneg : 0 ≤ now)
      (found : ∀ k i, file.find k i = stored.live now k i) : Effect sha256 stored now taken file

theorem noteDelivered_effect {d : Delivery} (ok : noteDelivered sha256 fault stored d now = .ok file) :
    0 ≤ now ∧ Effect sha256 stored now (some d) file := by
  unfold noteDelivered at ok
  split at ok
  case isTrue => cases ok
  rename_i valid
  have early : now < d.release.absoluteExpiresAt := by
    unfold Delivery.invalid at valid
    omega
  obtain ⟨record, made, ok⟩ := bind_ok.1 ok
  obtain ⟨ledger, loaded, ok⟩ := bind_ok.1 ok
  obtain ⟨formed, rfl⟩ := loadOpenClock_ok loaded
  obtain ⟨nowU64, clock, -⟩ := bind_ok.1 made
  obtain ⟨nonneg, -⟩ := toU64_ok clock
  have looked : ∀ k i, (pruneInMemory ledger now).1.find k i = ledger.live now k i := find_pruneInMemory nonneg
  refine ⟨nonneg, ?_⟩
  dsimp only at ok
  split at ok
  case h_1 existing found =>
    split at ok
    case isTrue =>
      cases ok
      exact .same
    case isFalse => cases ok
  case h_2 absent =>
    split at ok
    case isTrue => cases ok
    rw [storeOpenClock_ok ok]
    refine .delivered d rfl record formed nonneg early made ((looked _ _).symm.trans absent) fun k i => ?_
    have written := Nested.find_insertAt (t := (pruneInMemory ledger now).1.scopes) d.scopeKey k d.messageId i record
    exact written.trans (if_congr Iff.rfl rfl (looked k i))

/-- An open of a received message records it. -/
theorem recordOpened_received {s : LogicalMessageLifecycle} {e : TransitionEvidence} {now : Nat} {m : Mutation}
    (status : s.status = .received) (ok : (s.recordOpened e now).2 = .ok m) :
    m = .changed ∧ (s.recordOpened e now).1 = { s with status := .opened, openedEvidence := some e } :=
  @transition_enters s .opened e now m status ok

/-- What `record_first_open` leaves and answers. -/
inductive Opens (sha256 : List UInt8 → Digest) (stored : OpenClockLedger) (k i : Id) (digest : Digest) (now : Int) :
    OpenClockLedger × ExpiryVerdict → Prop where
  | refused : Opens sha256 stored k i digest now (stored, .expired)
  | again (record : OpenClockRecord) (formed : stored.wellFormed sha256 = true) (named : isOpaqueId k = true ∧ isOpaqueId i = true)
      (nonneg : 0 ≤ now) (there : stored.find k i = some record) (early : now.toNat < record.lifecycle.effectiveExpiresAt)
      (status : record.lifecycle.status = .opened) :
      Opens sha256 stored k i digest now (stored, .readable (toI64 record.lifecycle.effectiveExpiresAt))
  | first (record : OpenClockRecord) (opened : LogicalMessageLifecycle) (formed : stored.wellFormed sha256 = true)
      (named : isOpaqueId k = true ∧ isOpaqueId i = true) (nonneg : 0 ≤ now) (there : stored.find k i = some record)
      (early : now.toNat < record.lifecycle.effectiveExpiresAt) (status : record.lifecycle.status = .received)
      (made : opened = { record.lifecycle with status := .opened, openedEvidence := some ⟨digest, now.toNat⟩ }) :
      Opens sha256 stored k i digest now
        (⟨1, stored.scopes.insertAt k i { record with lifecycle := opened }⟩, .readable (toI64 opened.effectiveExpiresAt))

theorem recordFirstOpen_opens (sha256 : List UInt8 → Digest) (fault : Option String) (stored : OpenClockLedger) (k i : Id)
    (digest : Digest) (now : Int) : Opens sha256 stored k i digest now (recordFirstOpen sha256 fault stored k i digest now) := by
  unfold recordFirstOpen
  cases ran : recordFirstOpenInner sha256 fault stored k i digest now with
  | error e => exact .refused
  | ok answer =>
    unfold recordFirstOpenInner at ran
    split at ran
    case isTrue => cases ran
    rename_i named
    have named : isOpaqueId k = true ∧ isOpaqueId i = true := by
      simp only [not_or, Bool.not_eq_false] at named
      exact ⟨named.1, named.2.1⟩
    obtain ⟨nowU64, clock, ran⟩ := bind_ok.1 ran
    obtain ⟨ledger, loaded, ran⟩ := bind_ok.1 ran
    obtain ⟨formed, rfl⟩ := loadOpenClock_ok loaded
    obtain ⟨nonneg, rfl⟩ := toU64_ok clock
    split at ran
    case h_1 =>
      cases ran
      exact .refused
    case h_2 record there =>
      split at ran
      case isTrue =>
        cases ran
        exact .refused
      case isFalse late =>
        split at ran
        case h_1 status =>
          cases ran
          exact .again record formed named nonneg there (Nat.not_le.1 late) status
        case h_2 status =>
          split at ran
          case h_1 => cases ran
          case h_2 unchanged =>
            obtain ⟨other, -⟩ := recordOpened_received status (congrArg Prod.snd unchanged)
            cases other
          case h_3 opened changed =>
            obtain ⟨file, written, same⟩ := bind_ok.1 ran
            cases same
            obtain ⟨-, made⟩ := recordOpened_received status (congrArg Prod.snd changed)
            rw [changed] at made
            rw [storeOpenClock_ok written]
            exact .first record opened formed named nonneg there (Nat.not_le.1 late) status made
        case h_3 =>
          cases ran
          exact .refused

theorem Opens.effect {digest : Digest} {answer : OpenClockLedger × ExpiryVerdict} {k i : Id}
    (opens : Opens sha256 stored k i digest now answer) : Effect sha256 stored now none answer.1 := by
  cases opens with
  | refused => exact .same
  | again => exact .same
  | first record opened formed named nonneg there early status made =>
    exact .opened k i record opened formed nonneg there early status fun k' i' => Nested.find_insertAt k k' i i' _

theorem prune_effect {report : PruneReport} (ok : prune sha256 fault stored now = .ok (file, report)) :
    Effect sha256 stored now none file ∧ (file ≠ stored → report = (pruneInMemory stored now).2) := by
  obtain ⟨ledger, loaded, ok⟩ := bind_ok.1 ok
  obtain ⟨formed, rfl⟩ := loadOpenClock_ok loaded
  split at ok
  case isTrue =>
    cases ok
    exact ⟨.same, fun changed => absurd rfl changed⟩
  case isFalse =>
    dsimp only at ok
    split at ok
    case isTrue some =>
      obtain ⟨file', stored', same⟩ := bind_ok.1 ok
      cases same
      have nonneg : 0 ≤ now := by
        by_contra negative
        have unread : toU64 now = .error "OSL clock is invalid" := if_pos (Int.not_le.1 negative)
        unfold pruneInMemory at some
        rw [unread] at some
        cases some
      rw [storeOpenClock_ok stored']
      exact ⟨.pruned formed nonneg (find_pruneInMemory nonneg), fun _ => rfl⟩
    case isFalse =>
      cases ok
      exact ⟨.same, fun changed => absurd rfl changed⟩

theorem runPass_effect {unlocked : Bool} {store : Option (List Id → Except String Nat)} :
    Effect sha256 stored now none (runPass sha256 unlocked fault store stored now).1 := by
  unfold runPass
  split
  case isTrue =>
    split
    case h_1 => exact .same
    rename_i file report ran
    have effect := (prune_effect ran).1
    split
    case h_1 => exact effect
    dsimp only
    split
    case h_1 => exact effect
    case h_2 => exact effect
  case isFalse => exact .same

end

end Osl.Hub.OpenClock
