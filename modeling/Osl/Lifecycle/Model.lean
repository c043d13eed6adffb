import Osl.Base.Run
import Osl.Bytes

/-!
# Logical-message lifecycle (`crates/message-lifecycle/src/lib.rs`)

The pure state machine behind atomic logical-message publication. Every
mutating method of `LogicalMessageLifecycle` takes `&mut self`, so it is a
function that returns the state it leaves behind together with its result: two
of the error paths (`require_prepared`, `fail_with`) do change the state.

SHA-256 is third-party code and enters as the parameter `sha256`.
-/

namespace Osl.Lifecycle

open Base

def manifestDomain : List UInt8 := ascii "osl-logical-message-manifest-v2"

def hardMaxParts : Nat := 4096
def hardMaxPartBytes : Nat := 64 * 1024
def hardMaxTotalBytes : Nat := 64 * 1024 * 1024
def hardMaxOpenTtlSeconds : Nat := 7 * 24 * 60 * 60

inductive ReceiptStatus where
  | prepared | relayAccepted | received | opened | expired | failed | burned
  deriving DecidableEq, Repr

def ReceiptStatus.isTerminal : ReceiptStatus → Bool
  | .expired | .failed | .burned => true
  | _ => false

def receiptRank : ReceiptStatus → Nat
  | .prepared => 0
  | .relayAccepted => 1
  | .received => 2
  | .opened => 3
  | .expired | .failed | .burned => 4

inductive FailureCode where
  | relayRejected | partConflict | boundsExceeded | manifestRejected | localPersistenceFailed
  deriving DecidableEq, Repr

inductive LifecycleError where
  | invalidLimits
  | invalidPreparation
  | partOutOfBounds
  | partConflict
  | boundsExceeded
  | incompleteParts
  | manifestAlreadyPrepared
  | manifestNotPrepared
  | expired
  | notExpired
  | invalidEvidence
  | evidenceConflict
  | staleEvidence
  | invalidTransition (src dst : ReceiptStatus)
  | terminalState (status : ReceiptStatus)
  | corruptSnapshot
  deriving DecidableEq, Repr

inductive Mutation where
  | changed | unchanged
  deriving DecidableEq, Repr

structure LifecycleLimits where
  maxParts : Nat
  maxPartBytes : Nat
  maxTotalBytes : Nat
  deriving DecidableEq, Repr

def LifecycleLimits.validate (l : LifecycleLimits) : Except LifecycleError LifecycleLimits :=
  if l.maxParts = 0 ∨ l.maxParts > hardMaxParts ∨ l.maxPartBytes = 0 ∨
      l.maxPartBytes > hardMaxPartBytes ∨ l.maxTotalBytes = 0 ∨
      l.maxTotalBytes > hardMaxTotalBytes then
    .error .invalidLimits
  else .ok l

structure AcceptedPart where
  index : Nat
  sealedBytes : Nat
  digest : Digest
  deriving DecidableEq

structure TransitionEvidence where
  digest : Digest
  observedAt : Nat
  deriving DecidableEq

structure LogicalMessageLifecycle where
  messageId : Digest
  scopeDigest : Digest
  expectedParts : Nat
  createdAt : Nat
  expiresAt : Nat
  openTtlSeconds : Nat
  limits : LifecycleLimits
  parts : List AcceptedPart
  status : ReceiptStatus
  manifestDigest : Option Digest
  relayEvidence : Option TransitionEvidence
  receivedEvidence : Option TransitionEvidence
  openedEvidence : Option TransitionEvidence
  failure : Option FailureCode
  deriving DecidableEq

section
variable (sha256 : List UInt8 → Digest)

def computeManifestDigest (messageId scopeDigest : Digest) (createdAt expiresAt openTtlSeconds : Nat)
    (parts : List AcceptedPart) : Digest :=
  sha256 (manifestDomain ++ messageId.toList ++ scopeDigest.toList ++ beBytes 8 createdAt ++
    beBytes 8 expiresAt ++ beBytes 4 openTtlSeconds ++ beBytes 8 parts.length ++
    parts.flatMap fun p => beBytes 2 p.index ++ beBytes 4 p.sealedBytes ++ p.digest.toList)

end

namespace LogicalMessageLifecycle

/-- What a mutating method leaves behind, and what it returns. -/
abbrev Outcome (α : Type) := LogicalMessageLifecycle × Except LifecycleError α

/-- The manifest digest of the parts staged so far. -/
def manifestOf (sha256 : List UInt8 → Digest) (s : LogicalMessageLifecycle) : Digest :=
  computeManifestDigest sha256 s.messageId s.scopeDigest s.createdAt s.expiresAt s.openTtlSeconds s.parts

def prepareWithOpenTtl (messageId scopeDigest : Digest)
    (expectedParts createdAt expiresAt openTtlSeconds : Nat) (limits : LifecycleLimits) :
    Except LifecycleError LogicalMessageLifecycle := do
  let limits ← limits.validate
  if messageId = zeroDigest ∨ scopeDigest = zeroDigest ∨ expectedParts = 0 ∨
      expectedParts > limits.maxParts ∨ expiresAt ≤ createdAt ∨
      openTtlSeconds > hardMaxOpenTtlSeconds then
    .error .invalidPreparation
  else
    .ok { messageId, scopeDigest, expectedParts, createdAt, expiresAt, openTtlSeconds, limits
          parts := [], status := .prepared, manifestDigest := none, relayEvidence := none
          receivedEvidence := none, openedEvidence := none, failure := none }

/-- `open_ttl_seconds()`: the relative clock, or `none` when only the absolute
deadline applies. -/
def openTtl (s : LogicalMessageLifecycle) : Option Nat :=
  if s.openTtlSeconds > 0 then some s.openTtlSeconds else none

def firstAuthenticatedOpenAt (s : LogicalMessageLifecycle) : Option Nat :=
  s.openedEvidence.map (·.observedAt)

/-- The deadline in force: the earlier of the absolute one and the relative
clock started by the first open. -/
def effectiveExpiresAt (s : LogicalMessageLifecycle) : Nat :=
  match s.openTtl, s.firstAuthenticatedOpenAt with
  | some ttl, some openedAt => min s.expiresAt (satAdd 64 openedAt ttl)
  | _, _ => s.expiresAt

def expire (s : LogicalMessageLifecycle) (now : Nat) : Outcome Mutation :=
  if s.status.isTerminal then
    if s.status = .expired then (s, .ok .unchanged) else (s, .error (.terminalState s.status))
  else if now < s.effectiveExpiresAt then (s, .error .notExpired)
  else ({ s with status := .expired }, .ok .changed)

def requirePrepared (s : LogicalMessageLifecycle) (now : Nat) : Outcome Unit :=
  if now ≥ s.effectiveExpiresAt then ((s.expire now).1, .error .expired)
  else if s.status ≠ .prepared then (s, .error (.invalidTransition s.status .prepared))
  else (s, .ok ())

def failWith {α : Type} (s : LogicalMessageLifecycle) (code : FailureCode) (error : LifecycleError) :
    Outcome α :=
  ({ s with status := .failed, failure := some code }, .error error)

/-- The bytes staged so far (`iter().map(..).sum::<u64>()`). -/
def stagedBytes (s : LogicalMessageLifecycle) : Nat := (s.parts.map (·.sealedBytes)).sum

/-- `parts.push(part); parts.sort_unstable_by_key(|v| v.index)`. The indices
are distinct, so every sort gives the same list. -/
def stage (s : LogicalMessageLifecycle) (part : AcceptedPart) : LogicalMessageLifecycle :=
  { s with parts := (s.parts ++ [part]).insertionSort fun a b => a.index ≤ b.index }

def acceptPart (s : LogicalMessageLifecycle) (part : AcceptedPart) (now : Nat) : Outcome Mutation :=
  match s.requirePrepared now with
  | (s, .error e) => (s, .error e)
  | (s, .ok ()) =>
    if s.manifestDigest.isSome then (s, .error .manifestAlreadyPrepared)
    else if part.index ≥ s.expectedParts ∨ part.sealedBytes = 0 then
      s.failWith .boundsExceeded .partOutOfBounds
    else
      match s.parts.find? (·.index = part.index) with
      | some existing =>
        if existing = part then (s, .ok .unchanged) else s.failWith .partConflict .partConflict
      | none =>
        if part.sealedBytes > s.limits.maxPartBytes ∨
            satAdd 64 s.stagedBytes part.sealedBytes > s.limits.maxTotalBytes then
          s.failWith .boundsExceeded .boundsExceeded
        else (s.stage part, .ok .changed)

section
variable (sha256 : List UInt8 → Digest)

def prepareManifest (s : LogicalMessageLifecycle) (now : Nat) : Outcome Digest :=
  match s.status, s.manifestDigest with
  | .prepared, some digest =>
    if now ≥ s.effectiveExpiresAt then ((s.expire now).1, .error .expired) else (s, .ok digest)
  | _, _ =>
    match s.requirePrepared now with
    | (s, .error e) => (s, .error e)
    | (s, .ok ()) =>
      if s.parts.length ≠ s.expectedParts ∨ s.parts.map (·.index) ≠ List.range s.parts.length then
        (s, .error .incompleteParts)
      else ({ s with manifestDigest := some (s.manifestOf sha256) }, .ok (s.manifestOf sha256))

end

inductive EvidenceKind where
  | relay | received | opened
  deriving DecidableEq

def storedEvidence (s : LogicalMessageLifecycle) : EvidenceKind → Option TransitionEvidence
  | .relay => s.relayEvidence
  | .received => s.receivedEvidence
  | .opened => s.openedEvidence

def setEvidence (s : LogicalMessageLifecycle) (e : TransitionEvidence) :
    EvidenceKind → LogicalMessageLifecycle
  | .relay => { s with relayEvidence := some e }
  | .received => { s with receivedEvidence := some e }
  | .opened => { s with openedEvidence := some e }

/-- The time of the receipt before `kind`, which new evidence may not predate. -/
def priorObservedAt (s : LogicalMessageLifecycle) : EvidenceKind → Option Nat
  | .relay => none
  | .received => s.relayEvidence.map (·.observedAt)
  | .opened => s.receivedEvidence.map (·.observedAt)

def transition (s : LogicalMessageLifecycle) (src dst : ReceiptStatus) (kind : EvidenceKind)
    (evidence : TransitionEvidence) (now : Nat) : Outcome Mutation :=
  if evidence.digest = zeroDigest ∨ evidence.observedAt > now then (s, .error .invalidEvidence)
  else if now ≥ s.effectiveExpiresAt then ((s.expire now).1, .error .expired)
  else if s.status.isTerminal then (s, .error (.terminalState s.status))
  else if s.status = dst ∨ receiptRank s.status > receiptRank dst then
    if s.storedEvidence kind = some evidence then (s, .ok .unchanged)
    else (s, .error .evidenceConflict)
  else if s.status ≠ src then (s, .error (.invalidTransition s.status dst))
  else if ∃ prior ∈ s.priorObservedAt kind, evidence.observedAt < prior then (s, .error .staleEvidence)
  else ({ s with status := dst }.setEvidence evidence kind, .ok .changed)

def recordRelayAccepted (s : LogicalMessageLifecycle) (e : TransitionEvidence) (now : Nat) :
    Outcome Mutation :=
  if s.manifestDigest.isNone then (s, .error .manifestNotPrepared)
  else s.transition .prepared .relayAccepted .relay e now

def recordReceived (s : LogicalMessageLifecycle) (e : TransitionEvidence) (now : Nat) :
    Outcome Mutation :=
  s.transition .relayAccepted .received .received e now

def recordOpened (s : LogicalMessageLifecycle) (e : TransitionEvidence) (now : Nat) :
    Outcome Mutation :=
  s.transition .received .opened .opened e now

def fail (s : LogicalMessageLifecycle) (code : FailureCode) : Outcome Mutation :=
  if s.status = .failed ∧ s.failure = some code then (s, .ok .unchanged)
  else if s.status.isTerminal ∨ s.status = .opened then (s, .error (.terminalState s.status))
  else ({ s with status := .failed, failure := some code }, .ok .changed)

def burn (s : LogicalMessageLifecycle) : Outcome Mutation :=
  if s.status = .burned then (s, .ok .unchanged)
  else ({ s with status := .burned, parts := [], relayEvidence := none, receivedEvidence := none
                 openedEvidence := none }, .ok .changed)

/-- The part loop of `validate_snapshot`: the running index and byte total. -/
def checkParts (l : LifecycleLimits) : Nat → Nat → List AcceptedPart → Except LifecycleError Nat
  | _, total, [] => .ok total
  | i, total, p :: ps =>
    if p.index ≠ i ∨ p.sealedBytes = 0 ∨ p.sealedBytes > l.maxPartBytes then .error .corruptSnapshot
    else checkParts l (i + 1) (satAdd 64 total p.sealedBytes) ps

/-- The evidence each status must and must not carry. -/
def evidenceShape (s : LogicalMessageLifecycle) : Bool :=
  match s.status with
  | .prepared => s.relayEvidence.isNone && s.receivedEvidence.isNone && s.openedEvidence.isNone
  | .relayAccepted => s.relayEvidence.isSome && s.receivedEvidence.isNone && s.openedEvidence.isNone
  | .received => s.relayEvidence.isSome && s.receivedEvidence.isSome && s.openedEvidence.isNone
  | .opened => s.relayEvidence.isSome && s.receivedEvidence.isSome && s.openedEvidence.isSome
  | .expired | .failed | .burned => true

section
variable (sha256 : List UInt8 → Digest)

def validateSnapshot (s : LogicalMessageLifecycle) : Except LifecycleError Unit := do
  let _ ← s.limits.validate
  if s.messageId = zeroDigest ∨ s.scopeDigest = zeroDigest ∨ s.expectedParts = 0 ∨
      s.expectedParts > s.limits.maxParts ∨ s.expiresAt ≤ s.createdAt ∨
      s.openTtlSeconds > hardMaxOpenTtlSeconds ∨ s.parts.length > s.expectedParts then
    .error .corruptSnapshot
  else
    let total ← checkParts s.limits 0 0 s.parts
    if total > s.limits.maxTotalBytes then .error .corruptSnapshot
    else if s.status = .failed ∧ s.failure.isNone then .error .corruptSnapshot
    else if ¬(s.status = .failed ∨ s.status = .burned) ∧ s.failure.isSome then .error .corruptSnapshot
    else if !s.evidenceShape then .error .corruptSnapshot
    else
      match s.manifestDigest with
      | some manifest =>
        if s.status = .burned ∧ s.parts.isEmpty then .ok ()
        else if s.parts.length ≠ s.expectedParts ∨ manifest ≠ s.manifestOf sha256 then
          .error .corruptSnapshot
        else .ok ()
      | none =>
        if s.status = .relayAccepted ∨ s.status = .received ∨ s.status = .opened then
          .error .corruptSnapshot
        else .ok ()

/-- `for part in parts { state.accept_part(part, now)?; }`. -/
def acceptAll (s : LogicalMessageLifecycle) (now : Nat) :
    List AcceptedPart → Except LifecycleError LogicalMessageLifecycle
  | [] => .ok s
  | p :: ps =>
    match s.acceptPart p now with
    | (s', .ok _) => acceptAll s' now ps
    | (_, .error e) => .error e

/-- The receiver's snapshot of a message the relay has delivered. -/
def receive (messageId scopeDigest : Digest) (createdAt expiresAt openTtlSeconds : Nat)
    (parts : List AcceptedPart) (delivery : TransitionEvidence) (limits : LifecycleLimits) :
    Except LifecycleError LogicalMessageLifecycle := do
  if parts.length ≥ 2 ^ 16 then .error .boundsExceeded
  let now := max delivery.observedAt createdAt
  let s ← prepareWithOpenTtl messageId scopeDigest parts.length createdAt expiresAt openTtlSeconds limits
  let s ← s.acceptAll now parts
  let (s, r) := s.prepareManifest sha256 now
  let _ ← r
  let (s, r) := s.recordRelayAccepted delivery now
  let _ ← r
  let (s, r) := s.recordReceived delivery now
  let _ ← r
  .ok s

end

/-! ## Runs -/

/-- A call of one of the eight mutating methods. -/
inductive Op where
  | acceptPart (part : AcceptedPart) (now : Nat)
  | prepareManifest (now : Nat)
  | recordRelayAccepted (evidence : TransitionEvidence) (now : Nat)
  | recordReceived (evidence : TransitionEvidence) (now : Nat)
  | recordOpened (evidence : TransitionEvidence) (now : Nat)
  | expire (now : Nat)
  | fail (code : FailureCode)
  | burn

section
variable (sha256 : List UInt8 → Digest)

/-- The snapshot one call leaves behind, whether it succeeds or not. -/
def apply (s : LogicalMessageLifecycle) : Op → LogicalMessageLifecycle
  | .acceptPart part now => (s.acceptPart part now).1
  | .prepareManifest now => (s.prepareManifest sha256 now).1
  | .recordRelayAccepted e now => (s.recordRelayAccepted e now).1
  | .recordReceived e now => (s.recordReceived e now).1
  | .recordOpened e now => (s.recordOpened e now).1
  | .expire now => (s.expire now).1
  | .fail code => (s.fail code).1
  | .burn => s.burn.1

/-- A lifecycle as the two constructors build it. -/
inductive Built : LogicalMessageLifecycle → Prop where
  | prepared {messageId scopeDigest expectedParts createdAt expiresAt openTtlSeconds limits s}
      (ok : prepareWithOpenTtl messageId scopeDigest expectedParts createdAt expiresAt
        openTtlSeconds limits = .ok s) : Built s
  | received {messageId scopeDigest createdAt expiresAt openTtlSeconds parts delivery limits s}
      (ok : receive sha256 messageId scopeDigest createdAt expiresAt openTtlSeconds parts delivery
        limits = .ok s) : Built s

end

/-! ## A two-part message -/

def someDigest : Digest := Vector.replicate 32 1

def partAt (index : Nat) : AcceptedPart := ⟨index, 16, someDigest⟩

/-- A prepared message of two parts, with nothing staged yet. -/
def twoParts : LogicalMessageLifecycle :=
  { messageId := someDigest, scopeDigest := someDigest, expectedParts := 2, createdAt := 10
    expiresAt := 100, openTtlSeconds := 0, limits := ⟨4, 1024, 4096⟩, parts := []
    status := .prepared, manifestDigest := none, relayEvidence := none
    receivedEvidence := none, openedEvidence := none, failure := none }

theorem built_twoParts {sha256 : List UInt8 → Digest} : Built sha256 twoParts :=
  .prepared (show prepareWithOpenTtl someDigest someDigest 2 10 100 0 ⟨4, 1024, 4096⟩ = .ok twoParts
    by decide)

end LogicalMessageLifecycle

end Osl.Lifecycle
