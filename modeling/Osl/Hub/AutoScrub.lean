import Osl.Base.Outcome
import Osl.Base.TreeMap
import Osl.Bytes

/-!
# The ledger of AutoScrub runs

`autoscrub_run.rs` keeps, for each account of an owner, the run that was opened for it
with the items the owner reviewed. A step authorizes one reviewed item; the next IMAP
prepare takes that authorization up. All of it is in memory, behind one lock: a call is one
transition of the ledger, and clock readings are arguments.

Instants count nanoseconds, and wall-clock readings are milliseconds since the epoch.
-/

namespace Osl.Hub.AutoScrub

open Base Std

abbrev Keys := ExtTreeSet Text

/-- `{:x}` of a digest. -/
def lowerHex (d : Digest) : Text := d.toList.flatMap fun b => [Nat.digitChar (b.toNat / 16), Nat.digitChar (b.toNat % 16)]

def autoscrubTierId : Text := "autoscrub-own-session-v1".toList
def maxRunIdLen : Nat := 64
def maxIdLen : Nat := 128
def maxFingerprintLen : Nat := 128
def maxItemsPerRun : Nat := 500
def maxBatchesPerRun : Nat := 64
def maxAttendedBatchItems : Nat := 100
def maxConcurrentRuns : Nat := 8
/-- `MANIFEST_LIFETIME`, `RUN_CONSENT_LIFETIME` and `MAX_RUN_DURATION` in milliseconds. -/
def manifestLifetime : Int := 1800000
def runConsentLifetime : Int := 300000
def maxRunDuration : Int := 900000
/-- `PENDING_STEP_LIFETIME` in nanoseconds. -/
def pendingStepLifetime : Nat := 60000000000
def documentedProviderDeleteApi : Text := "documented_provider_delete_api".toList
def imapProviderId : Text := "imap".toList

inductive AutoScrubRunError
  | entitlementRequired | mechanismNotPermitted | stopConditionsNarrowed | sessionScopeInvalid | accountNotOwned
  | consentRequired | consentStale | consentBindingDrifted | manifestWindow | manifestTampered | boundsExceeded
  | runAlreadyOpen | noRun | wrongRun | runHalted | runFinished | itemNotReviewed | authorityRevoked | stateUnavailable
deriving DecidableEq, Repr

inductive NativeEntitlement
  | confirmed | absent
deriving DecidableEq

def NativeEntitlement.require : NativeEntitlement → Except AutoScrubRunError Unit
  | .confirmed => .ok ()
  | .absent => .error .entitlementRequired

inductive ServiceKind
  | discord | telegram | whatsApp | instagram | snapchat | email | x | signal | slack | linkedin | teams | messenger
deriving DecidableEq

def registryServiceForProvider (providerId : Text) : Option ServiceKind :=
  if providerId = imapProviderId ∨ providerId = "gmail-web".toList then some .email
  else if providerId = "discord".toList then some .discord
  else if providerId = "telegram-web".toList then some .telegram
  else none

/-! ## Fields and keys -/

/-- `char::is_control`: the category `Cc`. -/
def isControl (c : Char) : Bool := c.toNat < 0x20 || (0x7f ≤ c.toNat && c.toNat < 0xa0)

def isBidiOverride (c : Char) : Bool :=
  (0x202a ≤ c.toNat && c.toNat ≤ 0x202e) || (0x2066 ≤ c.toNat && c.toNat ≤ 0x2069)

def validateField (value : Text) (maxLen : Nat) : Except AutoScrubRunError Unit := do
  if value = [] ∨ maxLen < byteLen value then throw .boundsExceeded
  if value.any fun c => isControl c || isBidiOverride c then throw .boundsExceeded

def lengthKey (parts : List Text) : Text :=
  parts.flatMap fun part => Nat.toDigits 10 (byteLen part) ++ ':' :: part

def itemKey (channelId itemId : Text) : Text := lengthKey [channelId, itemId]

/-- `i64::saturating_sub`. -/
def satSub (a b : Int) : Int := max (-2 ^ 63) (min (2 ^ 63 - 1) (a - b))

def i64Bytes (v : Int) : List UInt8 := leBytes 8 (v % 2 ^ 64).toNat

/-- `now_unix_ms` on what the system clock reads. -/
def nowUnixMs (reading : Int) : Except AutoScrubRunError Int :=
  if reading < 0 ∨ 2 ^ 63 ≤ reading then .error .stateUnavailable else .ok reading

/-! ## Requests -/

structure ReviewedBatchInput where
  planFingerprint : Text
  findingsFingerprint : Text
  itemKeys : List Text

structure RunManifestInput where
  runId : Text
  providerId : Text
  accountId : Text
  reviewedAt : Int
  expiresAt : Int
  tosCaveatAcknowledged : Bool
  unattended : Bool
  maxItems : Nat
  batches : List ReviewedBatchInput

structure OwnSessionProofInput where
  providerId : Text
  accountId : Text
  sessionKind : Text
  discoveredByOwnerDetection : Bool
  credentialBoundToOslIdentity : Option Bool
  reusedOslOwnedProfile : Option Bool

structure RunConsentBatchInput where
  planFingerprint : Text
  findingsFingerprint : Text
  itemCount : Nat

structure RunConsentInput where
  runId : Text
  providerId : Text
  accountId : Text
  acknowledgedAt : Int
  tosCaveatAcknowledged : Bool
  unattendedAcknowledged : Bool
  estimatedItemCount : Nat
  batches : List RunConsentBatchInput

structure DeleteCapabilityInput where
  mechanism : Text
  stopOn : List Text

structure RunStepInput where
  runId : Text
  manifestDigest : Text
  consentDigest : Text
  planFingerprint : Text
  findingsFingerprint : Text
  channelId : Text
  itemId : Text

structure AttendedImapReviewedItem where
  mailbox : Text
  messageId : Text
  contentFingerprint : Text

structure AttendedImapBatchRequest where
  accountId : Text
  expectedAuthEpoch : Text
  items : List AttendedImapReviewedItem

/-- `OwnedAccountRegistry::confirms_owned`. -/
abbrev OwnedAccountRegistry := Text → ServiceKind → Text → Bool

/-- What the clocks read during one `open`: the system clock while the contract is checked
and again for the expiry, and the monotonic clock for the deadline and for the consent. -/
structure Readings where
  checkedMs : Int
  openedMs : Int
  deadlineFrom : Nat
  recordedAt : Nat

/-! ## Answers -/

structure RunOpened where
  runId : Text
  manifestDigest : Text
  consentDigest : Text
  tierId : Text
  reviewedItems : Nat
  reviewedBatches : Nat
  maxItems : Nat
  expiresInMs : Nat
deriving DecidableEq

structure RunStepAuthorization where
  runId : Text
  channelId : Text
  itemId : Text
  itemsAuthorized : Nat
  itemsRemaining : Nat
  batchesTouched : Nat
deriving DecidableEq

structure ImapPrepareAuthorization where
  runId : Text
  mailbox : Text
  messageId : Text
  source : Text
deriving DecidableEq

inductive RunPhaseDto
  | active | halted | completed
deriving DecidableEq

structure RunStatus where
  runId : Text
  providerId : Text
  accountId : Text
  phase : RunPhaseDto
  haltedReason : Option Text
  itemsAuthorized : Nat
  itemsRemaining : Nat
  batchesTouched : Nat
  consentAgeMs : Nat
  resumable : Bool
  detail : Text
deriving DecidableEq

structure RunFleetStatus where
  runs : List RunStatus
  working : Nat
  totalRuns : Nat
  runCapacity : Nat
  blockingDryRun : Option Text
  detail : Text
deriving DecidableEq

def RunStatus.validateBounds (s : RunStatus) : Except AutoScrubRunError Unit := do
  validateField s.runId maxRunIdLen
  validateField s.providerId maxIdLen
  validateField s.accountId maxIdLen
  if maxItemsPerRun < s.itemsAuthorized ∨ maxItemsPerRun < s.itemsRemaining ∨ maxBatchesPerRun < s.batchesTouched then
    throw .boundsExceeded
  validateField s.detail 256

def RunFleetStatus.validateBounds (s : RunFleetStatus) : Except AutoScrubRunError Unit := do
  if s.runCapacity < s.runs.length ∨ s.runCapacity < s.totalRuns then throw .boundsExceeded
  s.runs.forM RunStatus.validateBounds
  (match s.blockingDryRun with
    | some runId => validateField runId maxRunIdLen
    | none => pure ())
  validateField s.detail 256

/-! ## The ledger -/

structure RunSlot where
  ownerScope : Text
  providerId : Text
  accountId : Text
deriving DecidableEq

/-- The derived order: field by field. -/
def RunSlot.fields (s : RunSlot) : List Text := [s.ownerScope, s.providerId, s.accountId]

instance : Ord RunSlot := ⟨compareOn RunSlot.fields⟩

instance : TransOrd RunSlot := inferInstanceAs (TransCmp (compareOn RunSlot.fields))

instance : LawfulEqOrd RunSlot where
  eq_of_compare {a b} same := by
    have fields : a.fields = b.fields := LawfulEqOrd.eq_of_compare same
    cases a
    cases b
    simpa [RunSlot.fields] using fields

structure AttendedSlot where
  ownerScope : Text
  accountId : Text
deriving DecidableEq

def AttendedSlot.fields (s : AttendedSlot) : List Text := [s.ownerScope, s.accountId]

instance : Ord AttendedSlot := ⟨compareOn AttendedSlot.fields⟩

instance : TransOrd AttendedSlot := inferInstanceAs (TransCmp (compareOn AttendedSlot.fields))

structure PinnedBatch where
  planFingerprint : Text
  findingsFingerprint : Text
  itemKeys : Keys

structure PendingStep where
  mailbox : Text
  messageId : Text
  authorizedAt : Nat
deriving DecidableEq

structure AttendedAuthorization where
  remaining : Nat
  reviewedItems : Keys
  authEpoch : Text

inductive StopReason
  | owner | globalStop | drift | deadline
deriving DecidableEq

def StopReason.asStr : StopReason → Text
  | .owner => "owner_stop".toList
  | .globalStop => "global_stop".toList
  | .drift => "drift".toList
  | .deadline => "deadline".toList

inductive RunPhase
  | active | halted (reason : StopReason) | completed
deriving DecidableEq

structure ActiveRun where
  runId : Text
  providerId : Text
  accountId : Text
  openedSequence : Nat
  manifestDigest : Text
  consentDigest : Text
  consentRecordedAt : Nat
  deadline : Nat
  batches : List PinnedBatch
  reviewedItems : Keys
  phase : RunPhase
  authorizedItems : Keys
  touchedBatches : ExtTreeSet Nat
  pending : Option PendingStep

abbrev Runs := ExtTreeMap RunSlot ActiveRun

structure Ledger where
  runs : Runs
  attended : ExtTreeMap AttendedSlot AttendedAuthorization
  nextSequence : Nat

def Ledger.default : Ledger := ⟨∅, ∅, 0⟩

def ActiveRun.finish (run : ActiveRun) (phase : RunPhase) : ActiveRun := { run with phase, pending := none }

def ActiveRun.status (run : ActiveRun) (now : Nat) : RunStatus where
  runId := run.runId
  providerId := run.providerId
  accountId := run.accountId
  phase := match run.phase with
    | .active => .active
    | .halted _ => .halted
    | .completed => .completed
  haltedReason := match run.phase with
    | .halted reason => some reason.asStr
    | _ => none
  itemsAuthorized := run.authorizedItems.size
  itemsRemaining := run.reviewedItems.size - run.authorizedItems.size
  batchesTouched := run.touchedBatches.size
  consentAgeMs := (now - run.consentRecordedAt) / 1000000
  resumable := run.phase = .active
  detail := "AutoScrub run status is scoped to this owner.".toList

/-! ## Opening -/

section Opening

/-- `validate_open_contract`. -/
def validateOpenContract (owner : Text) (manifest : RunManifestInput) (session : OwnSessionProofInput)
    (consent : RunConsentInput) (capability : DeleteCapabilityInput) (confirmsOwned : OwnedAccountRegistry)
    (reading : Int) : Except AutoScrubRunError Unit := do
  validateField owner maxIdLen
  validateField manifest.runId maxRunIdLen
  validateField manifest.providerId maxIdLen
  validateField manifest.accountId maxIdLen
  if capability.mechanism ≠ documentedProviderDeleteApi then throw .mechanismNotPermitted
  if "owner_stop".toList ∉ capability.stopOn ∨ "manifest_drift".toList ∉ capability.stopOn
      ∨ "deadline".toList ∉ capability.stopOn ∨ "global_stop".toList ∉ capability.stopOn then
    throw .stopConditionsNarrowed
  if !manifest.unattended || !manifest.tosCaveatAcknowledged then throw .consentRequired
  if consent.runId ≠ manifest.runId ∨ consent.providerId ≠ manifest.providerId ∨ consent.accountId ≠ manifest.accountId
      ∨ consent.tosCaveatAcknowledged = false ∨ consent.unattendedAcknowledged = false then
    throw .consentRequired
  let nowMs ← nowUnixMs reading
  if nowMs < consent.acknowledgedAt ∨ runConsentLifetime < satSub nowMs consent.acknowledgedAt then throw .consentStale
  if manifest.reviewedAt < 0 ∨ manifest.expiresAt ≤ nowMs ∨ manifest.expiresAt ≤ manifest.reviewedAt
      ∨ manifestLifetime < satSub manifest.expiresAt manifest.reviewedAt then
    throw .manifestWindow
  if manifest.maxItems = 0 ∨ maxItemsPerRun < manifest.maxItems then throw .boundsExceeded
  if consent.estimatedItemCount ≠ (manifest.batches.map fun batch => batch.itemKeys.length).sum then
    throw .consentRequired
  if consent.batches.length ≠ manifest.batches.length then throw .consentRequired
  (consent.batches.zip manifest.batches).forM fun (consented, reviewed) => do
    validateField consented.planFingerprint maxFingerprintLen
    validateField consented.findingsFingerprint maxFingerprintLen
    if consented.planFingerprint ≠ reviewed.planFingerprint ∨ consented.findingsFingerprint ≠ reviewed.findingsFingerprint
        ∨ consented.itemCount ≠ reviewed.itemKeys.length then
      throw .consentRequired
  if session.providerId ≠ manifest.providerId ∨ session.accountId ≠ manifest.accountId
      ∨ session.sessionKind ≠ "owner_provisioned_credential".toList ∨ session.discoveredByOwnerDetection = false
      ∨ session.credentialBoundToOslIdentity ≠ some true ∨ session.reusedOslOwnedProfile ≠ none then
    throw .sessionScopeInvalid
  match registryServiceForProvider manifest.providerId with
  | none => throw .sessionScopeInvalid
  | some service => if confirmsOwned owner service manifest.accountId = false then throw .accountNotOwned

/-- One turn of the inner loop of `pin_batches`, over the keys of the batch and of the run. -/
def pinKey (sets : Keys × Keys) (key : Text) : Except AutoScrubRunError (Keys × Keys) := do
  validateField key (maxIdLen * 2)
  if sets.1.contains key then throw .boundsExceeded
  return (sets.1.insert key, sets.2.insert key)

/-- One turn of its outer loop. -/
def pinBatch (pinned : List PinnedBatch × Keys) (batch : ReviewedBatchInput) :
    Except AutoScrubRunError (List PinnedBatch × Keys) := do
  validateField batch.planFingerprint maxFingerprintLen
  validateField batch.findingsFingerprint maxFingerprintLen
  if batch.itemKeys = [] ∨ maxItemsPerRun < batch.itemKeys.length then throw .boundsExceeded
  let sets ← batch.itemKeys.foldlM pinKey (∅, pinned.2)
  return (pinned.1 ++ [⟨batch.planFingerprint, batch.findingsFingerprint, sets.1⟩], sets.2)

def pinBatches (manifest : RunManifestInput) : Except AutoScrubRunError (List PinnedBatch × Keys) := do
  if manifest.batches = [] ∨ maxBatchesPerRun < manifest.batches.length then throw .boundsExceeded
  let pinned ← manifest.batches.foldlM pinBatch ([], ∅)
  if manifest.maxItems < pinned.2.size then throw .boundsExceeded
  return pinned

def absorb (value : Text) : List UInt8 := leBytes 8 (byteLen value) ++ asBytes value

variable (sha256 : List UInt8 → Digest)

def manifestDigest (manifest : RunManifestInput) (batches : List PinnedBatch) : Text :=
  "autoscrub-".toList ++ lowerHex (sha256 (ascii "osl-autoscrub-manifest-v1" ++ absorb manifest.runId
    ++ absorb manifest.providerId ++ absorb manifest.accountId ++ i64Bytes manifest.reviewedAt
    ++ i64Bytes manifest.expiresAt
    ++ batches.flatMap fun batch => absorb batch.planFingerprint ++ absorb batch.findingsFingerprint
      ++ batch.itemKeys.toList.flatMap absorb))

def consentDigest (manifestDigest : Text) (consent : RunConsentInput) : Text :=
  "consent-".toList ++ lowerHex (sha256 (ascii "osl-autoscrub-consent-v1" ++ absorb manifestDigest ++ absorb consent.runId
    ++ absorb consent.providerId ++ absorb consent.accountId ++ i64Bytes consent.acknowledgedAt
    ++ leBytes 8 consent.estimatedItemCount
    ++ consent.batches.flatMap fun batch => absorb batch.planFingerprint ++ absorb batch.findingsFingerprint
      ++ leBytes 8 batch.itemCount))

/-- The scope a valid owner has. -/
def scopeOf (owner : Text) : Text :=
  "owner-".toList ++ lowerHex (sha256 (ascii "osl-autoscrub-owner-v1" ++ asBytes owner))

def ownerScope (owner : Text) : Except AutoScrubRunError Text := do
  validateField owner maxIdLen
  return scopeOf sha256 owner

/-- How long a run may go on, in milliseconds. -/
def expiresInMs (manifest : RunManifestInput) (nowMs : Int) : Nat :=
  (min (max (satSub manifest.expiresAt nowMs) 0) maxRunDuration).toNat

/-- What one call of `open` is given. -/
structure OpenRequest where
  owner : Text
  entitlement : NativeEntitlement
  manifest : RunManifestInput
  session : OwnSessionProofInput
  consent : RunConsentInput
  capability : DeleteCapabilityInput
  confirmsOwned : OwnedAccountRegistry
  clock : Readings

/-- The slot, the answer and the new run of a successful `open`. -/
def Ledger.admit (l : Ledger) (q : OpenRequest) : Except AutoScrubRunError (RunSlot × RunOpened × ActiveRun) := do
  q.entitlement.require
  validateOpenContract q.owner q.manifest q.session q.consent q.capability q.confirmsOwned q.clock.checkedMs
  let (batches, reviewedItems) ← pinBatches q.manifest
  let manifestDigest := manifestDigest sha256 q.manifest batches
  let consentDigest := consentDigest sha256 manifestDigest q.consent
  let nowMs ← nowUnixMs q.clock.openedMs
  let expiresInMs := expiresInMs q.manifest nowMs
  let deadline := q.clock.deadlineFrom + expiresInMs * 1000000
  let scope ← ownerScope sha256 q.owner
  let slot : RunSlot := ⟨scope, q.manifest.providerId, q.manifest.accountId⟩
  if l.runs[slot]?.any fun run => run.phase = .active then throw .runAlreadyOpen
  if slot ∉ l.runs ∧ maxConcurrentRuns ≤ l.runs.size then throw .boundsExceeded
  let opened : RunOpened :=
    { runId := q.manifest.runId, manifestDigest, consentDigest, tierId := autoscrubTierId
      reviewedItems := reviewedItems.size, reviewedBatches := batches.length, maxItems := q.manifest.maxItems
      expiresInMs }
  let run : ActiveRun :=
    { runId := q.manifest.runId, providerId := q.manifest.providerId, accountId := q.manifest.accountId
      openedSequence := satAdd 64 l.nextSequence 1, manifestDigest, consentDigest
      consentRecordedAt := q.clock.recordedAt, deadline, batches, reviewedItems, phase := .active
      authorizedItems := ∅, touchedBatches := ∅, pending := none }
  return (slot, opened, run)

/-- `open`. -/
def Ledger.openRun (l : Ledger) (q : OpenRequest) : Except AutoScrubRunError RunOpened × Ledger :=
  match l.admit sha256 q with
  | .error e => (.error e, l)
  | .ok (slot, opened, run) =>
    (.ok opened, { l with nextSequence := satAdd 64 l.nextSequence 1, runs := l.runs.insert slot run })

end Opening

/-! ## Finding a run -/

/-- The loop of `find_owned_run_mut`; `sawOwnerRun` is its flag. -/
def findOwnedRunIn (ownerScope runId : Text) (sawOwnerRun : Bool) :
    List (RunSlot × ActiveRun) → Except AutoScrubRunError (RunSlot × ActiveRun)
  | [] => .error (if sawOwnerRun then .wrongRun else .noRun)
  | (slot, run) :: rest =>
    if slot.ownerScope = ownerScope then
      if run.runId = runId then .ok (slot, run) else findOwnedRunIn ownerScope runId true rest
    else findOwnedRunIn ownerScope runId sawOwnerRun rest

/-- `find_owned_run_mut`: the slots in their order. -/
def findOwnedRun (runs : Runs) (ownerScope runId : Text) : Except AutoScrubRunError (RunSlot × ActiveRun) :=
  findOwnedRunIn ownerScope runId false runs.toList

/-- A run written back through the reference it was found by. -/
def Ledger.put (l : Ledger) (slot : RunSlot) (run : ActiveRun) : Ledger := { l with runs := l.runs.insert slot run }

/-! ## Steps and stops -/

/-- `step_locked` on the run it found. -/
def ActiveRun.step (run : ActiveRun) (request : RunStepInput) (now : Nat) :
    Except AutoScrubRunError RunStepAuthorization × ActiveRun :=
  match run.phase with
  | .halted _ => (.error .runHalted, run)
  | .completed => (.error .runFinished, run)
  | .active =>
    if run.manifestDigest ≠ request.manifestDigest then (.error .manifestTampered, run.finish (.halted .drift))
    else if run.consentDigest ≠ request.consentDigest then (.error .consentBindingDrifted, run.finish (.halted .drift))
    else if run.deadline ≤ now then (.error .runHalted, run.finish (.halted .deadline))
    else
      let key := itemKey request.channelId request.itemId
      match run.batches.findIdx? fun batch => batch.planFingerprint = request.planFingerprint
        ∧ batch.findingsFingerprint = request.findingsFingerprint ∧ key ∈ batch.itemKeys with
      | none => (.error .itemNotReviewed, run)
      | some batchIndex =>
        if key ∉ run.reviewedItems then (.error .itemNotReviewed, run)
        else
          let run' := { run with
            authorizedItems := run.authorizedItems.insert key
            touchedBatches := run.touchedBatches.insert batchIndex
            pending := some ⟨request.channelId, request.itemId, now⟩ }
          (.ok { runId := run.runId, channelId := request.channelId, itemId := request.itemId
                 itemsAuthorized := run'.authorizedItems.size
                 itemsRemaining := run.reviewedItems.size - run'.authorizedItems.size
                 batchesTouched := run'.touchedBatches.size }, run')

def Ledger.stepLocked (l : Ledger) (ownerScope : Text) (request : RunStepInput) (now : Nat) :
    Except AutoScrubRunError RunStepAuthorization × Ledger :=
  match findOwnedRun l.runs ownerScope request.runId with
  | .error e => (.error e, l)
  | .ok (slot, run) => ((run.step request now).1, l.put slot (run.step request now).2)

/-- What `halt` makes of the run it found. -/
def ActiveRun.halt (run : ActiveRun) (reason : Text) : ActiveRun :=
  if run.phase = .active then
    run.finish (.halted (if reason = "global_stop".toList then .globalStop else .owner))
  else run

section Calls

variable (sha256 : List UInt8 → Digest)

def Ledger.step (l : Ledger) (owner : Text) (entitlement : NativeEntitlement) (request : RunStepInput) (now : Nat) :
    Except AutoScrubRunError RunStepAuthorization × Ledger :=
  match (do entitlement.require; ownerScope sha256 owner) with
  | .error e => (.error e, l)
  | .ok scope => l.stepLocked scope request now

/-- The run `halt` is about. -/
def Ledger.findHalted (l : Ledger) (owner runId : Text) : Except AutoScrubRunError (RunSlot × ActiveRun) := do
  validateField runId maxRunIdLen
  let scope ← ownerScope sha256 owner
  if (l.runs.toList.any fun p => p.1.ownerScope = scope) = false then throw .noRun
  findOwnedRun l.runs scope runId

def Ledger.halt (l : Ledger) (owner runId reason : Text) (now : Nat) : Except AutoScrubRunError RunStatus × Ledger :=
  match l.findHalted sha256 owner runId with
  | .error e => (.error e, l)
  | .ok (slot, run) => (.ok ((run.halt reason).status now), l.put slot (run.halt reason))

def Ledger.fleetStatus (l : Ledger) (owner : Text) (now : Nat) : Except AutoScrubRunError RunFleetStatus := do
  let scope ← ownerScope sha256 owner
  let owned := l.runs.toList.filter fun p => p.1.ownerScope = scope
  let runs := ((owned.map (·.2)).mergeSort fun a b => a.openedSequence ≤ b.openedSequence).map (·.status now)
  let status : RunFleetStatus :=
    { runs
      working := runs.countP fun run => run.phase = .active
      totalRuns := runs.length
      runCapacity := maxConcurrentRuns
      blockingDryRun := (runs.reverse.find? fun run => run.phase ≠ .active).map (·.runId)
      detail := if runs = [] then "No AutoScrub run is open.".toList
        else "AutoScrub fleet status is bounded to this owner.".toList }
  status.validateBounds
  return status

/-- Every run of the scope finished and its attended authorizations dropped. -/
def Ledger.stopAll (l : Ledger) (scope : Text) : Ledger :=
  { l with
    runs := l.runs.map fun slot run => if slot.ownerScope = scope then run.finish (.halted .globalStop) else run
    attended := l.attended.filter fun slot _ => slot.ownerScope ≠ scope }

def Ledger.globalStop (l : Ledger) (owner : Text) (now : Nat) : Except AutoScrubRunError RunFleetStatus × Ledger :=
  match ownerScope sha256 owner with
  | .error e => (.error e, l)
  | .ok scope =>
    if l.runs.toList.any fun p => p.1.ownerScope = scope then
      ((l.stopAll scope).fleetStatus sha256 owner now, l.stopAll scope)
    else (.error .noRun, l.stopAll scope)

/-- `authorize_imap_prepare` on the run it found. -/
def ActiveRun.prepare (run : ActiveRun) (mailbox messageId : Text) (now : Nat) :
    Except AutoScrubRunError ImapPrepareAuthorization × ActiveRun :=
  if run.phase ≠ .active then (.error .runHalted, run)
  else
    match run.pending with
    | none => (.error .authorityRevoked, run)
    | some pending =>
      -- `take` has cleared the pending step, whatever comes of it
      if pendingStepLifetime < now - pending.authorizedAt then (.error .authorityRevoked, { run with pending := none })
      else if pending.mailbox ≠ mailbox ∨ pending.messageId ≠ messageId then
        (.error .itemNotReviewed, { run with pending := none })
      else (.ok ⟨run.runId, mailbox, messageId, "autoscrub_run".toList⟩, { run with pending := none })

/-- The run an IMAP prepare draws on. -/
def Ledger.findImap (l : Ledger) (owner : Text) (entitlement : NativeEntitlement) (accountId : Text) :
    Except AutoScrubRunError (RunSlot × ActiveRun) := do
  entitlement.require
  validateField accountId maxIdLen
  let scope ← ownerScope sha256 owner
  match l.runs.toList.find? fun p =>
    p.1.ownerScope = scope ∧ p.2.providerId = imapProviderId ∧ p.2.accountId = accountId with
  | none => throw .noRun
  | some p => return p

def Ledger.authorizeImapPrepare (l : Ledger) (owner : Text) (entitlement : NativeEntitlement)
    (accountId mailbox messageId : Text) (now : Nat) : Except AutoScrubRunError ImapPrepareAuthorization × Ledger :=
  match l.findImap sha256 owner entitlement accountId with
  | .error e => (.error e, l)
  | .ok (slot, run) => ((run.prepare mailbox messageId now).1, l.put slot (run.prepare mailbox messageId now).2)

end Calls

/-! ## Attended batches -/

def AttendedImapReviewedItem.key (item : AttendedImapReviewedItem) : Except AutoScrubRunError Text := do
  validateField item.mailbox maxIdLen
  validateField item.messageId maxIdLen
  validateField item.contentFingerprint maxFingerprintLen
  return lengthKey [item.mailbox, item.messageId, item.contentFingerprint]

/-- The keys of a batch, none of them twice. -/
def AttendedImapBatchRequest.validateBounds (q : AttendedImapBatchRequest) : Except AutoScrubRunError Keys := do
  validateField q.accountId maxIdLen
  validateField q.expectedAuthEpoch maxIdLen
  if q.items = [] ∨ maxAttendedBatchItems < q.items.length then throw .boundsExceeded
  q.items.foldlM (fun seen item => do
    let key ← item.key
    if key ∈ seen then throw .boundsExceeded
    return seen.insert key) ∅

section Attended

variable (sha256 : List UInt8 → Digest)

def Ledger.authorizeAttendedImapBatchReviewed (l : Ledger) (owner : Text) (q : AttendedImapBatchRequest) :
    Except AutoScrubRunError Ledger := do
  let reviewedItems ← q.validateBounds
  let scope ← ownerScope sha256 owner
  if l.runs.toList.any fun p => p.1.ownerScope = scope then throw .runAlreadyOpen
  return { l with attended := l.attended.insert ⟨scope, q.accountId⟩ ⟨q.items.length, reviewedItems, q.expectedAuthEpoch⟩ }

/-- The authorization an attended prepare draws on, with the key of its item. -/
def Ledger.findAttended (l : Ledger) (owner : Text) (entitlement : NativeEntitlement) (accountId : Text)
    (item : AttendedImapReviewedItem) (expectedAuthEpoch : Text) :
    Except AutoScrubRunError (AttendedSlot × Text × AttendedAuthorization) := do
  entitlement.require
  let scope ← ownerScope sha256 owner
  let key ← item.key
  if l.runs.toList.any fun p => p.1.ownerScope = scope then throw .runAlreadyOpen
  match l.attended[(⟨scope, accountId⟩ : AttendedSlot)]? with
  | none => throw .noRun
  | some auth =>
    if auth.authEpoch ≠ expectedAuthEpoch ∨ key ∉ auth.reviewedItems then throw .itemNotReviewed
    return (⟨scope, accountId⟩, key, auth)

/-- `authorize_reviewed_imap_prepare`: the key is struck off even where nothing remains. -/
def Ledger.authorizeReviewedImapPrepare (l : Ledger) (owner : Text) (entitlement : NativeEntitlement)
    (accountId : Text) (item : AttendedImapReviewedItem) (expectedAuthEpoch : Text) :
    Except AutoScrubRunError ImapPrepareAuthorization × Ledger :=
  match l.findAttended sha256 owner entitlement accountId item expectedAuthEpoch with
  | .error e => (.error e, l)
  | .ok (slot, key, auth) =>
    let auth' := { auth with reviewedItems := auth.reviewedItems.erase key, remaining := auth.remaining - 1 }
    ( if auth.remaining = 0 then .error .authorityRevoked
      else .ok ⟨"attended-imap".toList, item.mailbox, item.messageId, "attended_review".toList⟩,
      { l with attended := l.attended.insert slot auth' })

end Attended

/-! ## What the calls do -/

section Effects

variable {sha256 : List UInt8 → Digest} {l : Ledger} {slot : RunSlot} {run : ActiveRun} {scope runId k owner key accountId : Text}
  {pinned pinned' : List PinnedBatch × Keys} {entitlement : NativeEntitlement}

theorem pinKey_ok {sets sets' : Keys × Keys} (h : pinKey sets key = .ok sets') :
    sets'.2 = sets.2.insert key := by
  obtain ⟨-, -, h⟩ := bind_ok.1 h
  obtain ⟨-, h⟩ := guard_ok.1 h
  cases h
  rfl

theorem foldlM_pinKey_ok {keys : List Text} {sets sets' : Keys × Keys} (h : keys.foldlM pinKey sets = .ok sets')
    : k ∈ sets'.2 ↔ k ∈ sets.2 ∨ k ∈ keys := by
  induction keys generalizing sets with
  | nil =>
    cases h
    simp
  | cons key keys ih =>
    obtain ⟨sets₁, first, rest⟩ := bind_ok.1 (List.foldlM_cons.symm.trans h)
    rw [ih rest, pinKey_ok first, ExtTreeSet.mem_insert, Std.compare_eq_iff_eq, List.mem_cons]
    tauto

theorem pinBatch_ok {batch : ReviewedBatchInput}
    (h : pinBatch pinned batch = .ok pinned') : k ∈ pinned'.2 ↔ k ∈ pinned.2 ∨ k ∈ batch.itemKeys := by
  obtain ⟨-, -, h⟩ := bind_ok.1 h
  obtain ⟨-, -, h⟩ := bind_ok.1 h
  obtain ⟨-, h⟩ := guard_ok.1 h
  obtain ⟨sets, keys, h⟩ := bind_ok.1 h
  cases h
  exact foldlM_pinKey_ok keys

theorem foldlM_pinBatch_ok {batches : List ReviewedBatchInput} (h : batches.foldlM pinBatch pinned = .ok pinned') :
    k ∈ pinned'.2 ↔ k ∈ pinned.2 ∨ k ∈ batches.flatMap (·.itemKeys) := by
  induction batches generalizing pinned with
  | nil =>
    cases h
    simp
  | cons batch batches ih =>
    obtain ⟨pinned₁, first, rest⟩ := bind_ok.1 (List.foldlM_cons.symm.trans h)
    rw [ih rest, pinBatch_ok first, List.flatMap_cons, List.mem_append]
    tauto

/-- The set a run is pinned to holds the keys of its manifest. -/
theorem pinBatches_ok {manifest : RunManifestInput}
    (h : pinBatches manifest = .ok pinned) : k ∈ pinned.2 ↔ k ∈ manifest.batches.flatMap (·.itemKeys) := by
  obtain ⟨-, h⟩ := guard_ok.1 h
  obtain ⟨pinned₁, folded, h⟩ := bind_ok.1 h
  obtain ⟨-, h⟩ := guard_ok.1 h
  cases h
  rw [foldlM_pinBatch_ok folded]
  simp

theorem ownerScope_ok (h : ownerScope sha256 owner = .ok scope) : scope = scopeOf sha256 owner := by
  obtain ⟨-, -, h⟩ := bind_ok.1 h
  cases h
  rfl

/-- What `open` enters for a request it accepts. -/
structure Admitted (sha256 : List UInt8 → Digest) (q : OpenRequest) (slot : RunSlot) (opened : RunOpened) (run : ActiveRun) :
    Prop where
  slot : slot = ⟨scopeOf sha256 q.owner, q.manifest.providerId, q.manifest.accountId⟩
  runId : run.runId = q.manifest.runId
  providerId : run.providerId = q.manifest.providerId
  accountId : run.accountId = q.manifest.accountId
  deadline : run.deadline = q.clock.deadlineFrom + opened.expiresInMs * 1000000
  reviewed : ∀ k, k ∈ run.reviewedItems ↔ k ∈ q.manifest.batches.flatMap (·.itemKeys)
  pending : run.pending = none

theorem admit_ok {q : OpenRequest} {opened : RunOpened} (h : l.admit sha256 q = .ok (slot, opened, run)) :
    Admitted sha256 q slot opened run := by
  obtain ⟨-, -, h⟩ := bind_ok.1 h
  obtain ⟨-, -, h⟩ := bind_ok.1 h
  obtain ⟨⟨batches, reviewedItems⟩, pinned, h⟩ := bind_ok.1 h
  obtain ⟨nowMs, -, h⟩ := bind_ok.1 h
  obtain ⟨scope, inScope, h⟩ := bind_ok.1 h
  obtain ⟨-, h⟩ := guard_ok.1 h
  obtain ⟨-, h⟩ := guard_ok.1 h
  cases h
  rw [ownerScope_ok inScope]
  exact ⟨rfl, rfl, rfl, rfl, rfl, fun k => pinBatches_ok pinned, rfl⟩

theorem findOwnedRunIn_ok {saw : Bool} {rows : List (RunSlot × ActiveRun)} {p : RunSlot × ActiveRun}
    (h : findOwnedRunIn scope runId saw rows = .ok p) : p ∈ rows ∧ p.1.ownerScope = scope ∧ p.2.runId = runId := by
  fun_induction findOwnedRunIn with
  | case1 => cases h
  | case2 =>
    cases h
    exact ⟨List.mem_cons_self, ‹_›, ‹_›⟩
  | case3 _ _ _ _ _ _ ih => exact ⟨List.mem_cons_of_mem _ (ih h).1, (ih h).2⟩
  | case4 _ _ _ _ _ ih => exact ⟨List.mem_cons_of_mem _ (ih h).1, (ih h).2⟩

theorem findOwnedRun_ok {runs : Runs} (h : findOwnedRun runs scope runId = .ok (slot, run)) :
    runs[slot]? = some run ∧ slot.ownerScope = scope ∧ run.runId = runId := by
  obtain ⟨mem, owned, named⟩ := findOwnedRunIn_ok h
  exact ⟨ExtTreeMap.mem_toList_iff_getElem?_eq_some.1 mem, owned, named⟩

/-- What a step does to the run it is about. -/
inductive Stepped (run : ActiveRun) (request : RunStepInput) (now : Nat) :
    Except AutoScrubRunError RunStepAuthorization → ActiveRun → Prop
  | refused (e : AutoScrubRunError) : Stepped run request now (.error e) run
  | stopped (e : AutoScrubRunError) (reason : StopReason) : Stepped run request now (.error e) (run.finish (.halted reason))
  | authorized (answer : RunStepAuthorization) (authorizedItems : Keys) (touchedBatches : ExtTreeSet Nat)
      (reviewed : itemKey request.channelId request.itemId ∈ run.reviewedItems) :
      Stepped run request now (.ok answer)
        { run with authorizedItems, touchedBatches, pending := some ⟨request.channelId, request.itemId, now⟩ }

theorem ActiveRun.step_stepped (run : ActiveRun) (request : RunStepInput) (now : Nat) :
    Stepped run request now (run.step request now).1 (run.step request now).2 := by
  unfold ActiveRun.step
  split
  · exact .refused _
  · exact .refused _
  split
  · exact .stopped _ _
  split
  · exact .stopped _ _
  split
  · exact .stopped _ _
  dsimp only
  split
  · exact .refused _
  · split
    · exact .refused _
    · exact .authorized _ _ _ (not_not.1 ‹_›)

/-- What a prepare does to the run it draws on. -/
inductive Prepared (run : ActiveRun) (mailbox messageId : Text) (now : Nat) :
    Except AutoScrubRunError ImapPrepareAuthorization → ActiveRun → Prop
  | refused (e : AutoScrubRunError) : Prepared run mailbox messageId now (.error e) run
  | revoked (e : AutoScrubRunError) : Prepared run mailbox messageId now (.error e) { run with pending := none }
  | granted (authorizedAt : Nat) (active : run.phase = .active)
      (pending : run.pending = some ⟨mailbox, messageId, authorizedAt⟩) :
      Prepared run mailbox messageId now (.ok ⟨run.runId, mailbox, messageId, "autoscrub_run".toList⟩)
        { run with pending := none }

theorem ActiveRun.prepare_prepared (run : ActiveRun) (mailbox messageId : Text) (now : Nat) :
    Prepared run mailbox messageId now (run.prepare mailbox messageId now).1 (run.prepare mailbox messageId now).2 := by
  unfold ActiveRun.prepare
  split
  · exact .refused _
  split
  · exact .refused _
  rename_i pending found
  split
  · exact .revoked _
  · split
    · exact .revoked _
    · rename_i same
      obtain ⟨rfl, rfl⟩ := not_or.1 same |>.imp not_not.1 not_not.1
      exact .granted pending.authorizedAt (not_not.1 ‹_›) found

theorem findImap_ok (h : l.findImap sha256 owner entitlement accountId = .ok (slot, run)) :
    l.runs[slot]? = some run ∧ slot.ownerScope = scopeOf sha256 owner ∧ run.providerId = imapProviderId ∧
      run.accountId = accountId := by
  obtain ⟨-, -, h⟩ := bind_ok.1 h
  obtain ⟨-, -, h⟩ := bind_ok.1 h
  obtain ⟨scope, inScope, h⟩ := bind_ok.1 h
  cases found : l.runs.toList.find? fun p =>
      p.1.ownerScope = scope ∧ p.2.providerId = imapProviderId ∧ p.2.accountId = accountId with
  | none =>
    rw [found] at h
    cases h
  | some p =>
    rw [found] at h
    cases h
    have meets := List.find?_some found
    rw [decide_eq_true_eq, ownerScope_ok inScope] at meets
    exact ⟨ExtTreeMap.mem_toList_iff_getElem?_eq_some.1 (List.mem_of_find?_eq_some found), meets⟩

theorem findHalted_ok (h : l.findHalted sha256 owner runId = .ok (slot, run)) :
    l.runs[slot]? = some run ∧ slot.ownerScope = scopeOf sha256 owner ∧ run.runId = runId := by
  obtain ⟨-, -, h⟩ := bind_ok.1 h
  obtain ⟨scope, inScope, h⟩ := bind_ok.1 h
  obtain ⟨-, h⟩ := guard_ok.1 h
  rw [← ownerScope_ok inScope]
  exact findOwnedRun_ok h

end Effects

end Osl.Hub.AutoScrub
