import Osl.Base.Run
import Osl.Base.TreeMap
import Osl.Bytes

/-!
# Bilateral burn (`crates/ipc/src/revocation.rs`)

The receiver's replay ledger and the sender's counters. A `BTreeMap` keyed by
`hex(..)` of a 32-byte value is keyed by the value itself: `hex32` is an
order-preserving rendering. HMAC-SHA256 enters as the parameter `hmac`; nothing
below depends on what it computes.
-/

namespace Osl.Burn

open Base Std

def maxLedgerScopes : Nat := 512
def maxJournalEntriesPerScope : Nat := 64
def maxJournalEntriesTotal : Nat := 8192
def maxBurnLookahead : Nat := 1048576
def maxCounterScopes : Nat := 4096

inductive RevocationError where
  | keyDerivation | ledgerFull | journalFull | countersFull | outboxFull | counterExhausted
  deriving DecidableEq, Repr

structure RevocationNotice where
  scopeCommitment : Digest
  burnEpoch : Nat
  burnUptoSeq : Nat
  messageCommitments : List Digest
  burnId : Digest
  issuedAt : Int
  deriving DecidableEq

structure RevocationAck where
  burnId : Digest
  applied : Bool
  deriving DecidableEq

/-! ## Commitments -/

section
variable (hmac : Digest → List UInt8 → Digest)

/-- Every component is length-prefixed before it is fed to the MAC. -/
def mac (key : Digest) (parts : List (List UInt8)) : Digest :=
  hmac key (parts.flatMap fun part => beBytes 8 part.length ++ part)

def scopeCommitment (key : Digest) (storageKey : String) : Digest :=
  mac hmac key [ascii "scope", storageKey.toUTF8.data.toList]

def burnId (key scope : Digest) (burnEpoch burnUptoSeq : Nat) : Digest :=
  mac hmac key [ascii "burn", scope.toList, beBytes 8 burnEpoch, beBytes 8 burnUptoSeq]

end

/-! ## Receiver ledger -/

structure JournalEntry where
  burnEpoch : Nat
  burnUptoSeq : Nat
  appliedAt : Int
  deriving DecidableEq

structure ScopeRevocationState where
  highWater : Nat := 0
  lastBurnEpoch : Nat := 0
  burnFloor : Nat := 0
  journal : ExtTreeMap Digest JournalEntry := ∅

structure RevocationLedger where
  version : Nat := 0
  scopes : ExtTreeMap Digest ScopeRevocationState := ∅

def RevocationLedger.totalJournalEntries (ledger : RevocationLedger) : Nat :=
  sumValues (fun st => st.journal.size) ledger.scopes

/-- The state of a scope, with the default the source reads for an unknown one. -/
def RevocationLedger.state (ledger : RevocationLedger) (scope : Digest) : ScopeRevocationState :=
  ledger.scopes[scope]?.getD {}

inductive RefusalReason where
  | burnIdMismatch | burnIdReuse | uptoSeqOutOfRange
  deriving DecidableEq, Repr

inductive InboundDecision where
  | applied | alreadyApplied | replay | refused (reason : RefusalReason)
  deriving DecidableEq, Repr

/-- The flag that goes on the wire in the ack. -/
def InboundDecision.isApplied : InboundDecision → Bool
  | .applied | .alreadyApplied | .replay => true
  | .refused _ => false

structure InboundOutcome where
  decision : InboundDecision
  destroyUptoSeq : Nat
  destroyMessageCommitments : List Digest
  ack : RevocationAck
  deriving DecidableEq

def ackFor (notice : RevocationNotice) (decision : InboundDecision) (destroy : Nat)
    (msgs : List Digest) : InboundOutcome :=
  ⟨decision, destroy, msgs, ⟨notice.burnId, decision.isApplied⟩⟩

/-- The scope state after a burn is applied to it. -/
def ScopeRevocationState.burn (st : ScopeRevocationState) (notice : RevocationNotice) (now : Int) :
    ScopeRevocationState :=
  { st with
    lastBurnEpoch := notice.burnEpoch
    burnFloor := max st.burnFloor notice.burnUptoSeq
    journal := st.journal.insert notice.burnId ⟨notice.burnEpoch, notice.burnUptoSeq, now⟩ }

/-- The scope state after a content message is accepted in it. -/
def ScopeRevocationState.record (st : ScopeRevocationState) (sendSeq : Nat) : ScopeRevocationState :=
  { st with highWater := max st.highWater sendSeq }

section
variable (hmac : Digest → List UInt8 → Digest)

def applyInboundRevocation (ledger : RevocationLedger) (key : Digest) (notice : RevocationNotice)
    (now : Int) : RevocationLedger × Except RevocationError InboundOutcome :=
  let expected := burnId hmac key notice.scopeCommitment notice.burnEpoch notice.burnUptoSeq
  if expected ≠ notice.burnId then
    (ledger, .ok (ackFor notice (.refused .burnIdMismatch) 0 []))
  else
    let slot := notice.scopeCommitment
    let known := ledger.scopes.contains slot
    if !known ∧ ledger.scopes.size ≥ maxLedgerScopes then (ledger, .error .ledgerFull)
    else
      let existing := ledger.state slot
      match existing.journal[notice.burnId]? with
      | some entry =>
        -- checked before the epoch gate: an honest retry is no replay
        if entry.burnEpoch = notice.burnEpoch ∧ entry.burnUptoSeq = notice.burnUptoSeq then
          (ledger, .ok (ackFor notice .alreadyApplied 0 []))
        else (ledger, .ok (ackFor notice (.refused .burnIdReuse) 0 []))
      | none =>
        if notice.burnEpoch ≤ existing.lastBurnEpoch then
          (ledger, .ok (ackFor notice .replay 0 []))
        else if notice.burnUptoSeq > satAdd 64 existing.highWater maxBurnLookahead then
          (ledger, .ok (ackFor notice (.refused .uptoSeqOutOfRange) 0 []))
        else if ledger.totalJournalEntries ≥ maxJournalEntriesTotal then
          (ledger, .error .journalFull)
        else if existing.journal.size ≥ maxJournalEntriesPerScope then
          (ledger, .error .journalFull)
        else
          (⟨1, ledger.scopes.insert slot (existing.burn notice now)⟩,
            .ok (ackFor notice .applied notice.burnUptoSeq notice.messageCommitments))

end

inductive ContentDecision where
  | accept | refusedBurned | refusedLedgerUnavailable
  deriving DecidableEq, Repr

def acceptContent (ledger : RevocationLedger) (scope : Digest) (sendSeq : Nat) : ContentDecision :=
  match ledger.scopes[scope]? with
  | some state => if sendSeq ≤ state.burnFloor then .refusedBurned else .accept
  | none => .accept

def recordContentAccepted (ledger : RevocationLedger) (scope : Digest) (sendSeq : Nat) :
    RevocationLedger × Except RevocationError Unit :=
  if !ledger.scopes.contains scope ∧ ledger.scopes.size ≥ maxLedgerScopes then
    (ledger, .error .ledgerFull)
  else
    (⟨1, ledger.scopes.insert scope ((ledger.state scope).record sendSeq)⟩, .ok ())

/-- A legacy `0x01` marker, read as "everything of theirs I hold" under the
next local epoch. -/
def legacyBurnNotice (hmac : Digest → List UInt8 → Digest) (ledger : RevocationLedger)
    (key scope : Digest) (now : Int) : RevocationNotice :=
  let state := ledger.state scope
  let upto := state.highWater
  let epoch := satAdd 64 state.lastBurnEpoch 1
  ⟨scope, epoch, upto, [], burnId hmac key scope epoch upto, now⟩

/-! ## Sender counters -/

structure SendCounters where
  version : Nat := 0
  sendSeq : ExtTreeMap Digest Nat := ∅
  burnEpoch : ExtTreeMap Digest Nat := ∅

/-- `SendCounters::bump`: the map is written only on success. -/
def bump (map : ExtTreeMap Digest Nat) (scope : Digest) :
    Except RevocationError (ExtTreeMap Digest Nat × Nat) :=
  if !map.contains scope ∧ map.size ≥ maxCounterScopes then .error .countersFull
  else
    let next := map[scope]?.getD 0 + 1
    if next ≥ 2 ^ 64 then .error .counterExhausted else .ok (map.insert scope next, next)

namespace SendCounters

def nextSendSeq (c : SendCounters) (scope : Digest) : SendCounters × Except RevocationError Nat :=
  match bump c.sendSeq scope with
  | .ok (map, next) => ({ c with sendSeq := map }, .ok next)
  | .error e => (c, .error e)

def nextBurnEpoch (c : SendCounters) (scope : Digest) : SendCounters × Except RevocationError Nat :=
  match bump c.burnEpoch scope with
  | .ok (map, next) => ({ c with burnEpoch := map }, .ok next)
  | .error e => (c, .error e)

def currentSendSeq (c : SendCounters) (scope : Digest) : Nat := c.sendSeq[scope]?.getD 0

end SendCounters

end Osl.Burn
