import Osl.Base.Run
import Osl.Hub.AutoScrub

/-!
# Who may prepare an IMAP deletion

Beside the ledger stands what a caller who sees only the calls and their answers knows of
each run: the items it was opened with, the deadline it was given, the step that has not
been taken up, and whether a stop of it was answered. A prepare is sound when all of that
allows it (`Sound`).

The ledger leaves two gaps. A prepare does not look at the deadline, so a step taken
just before it can be taken up after it. And `halt` goes by the id of a run, which two
accounts of one owner may share: it stops the run that comes first.
-/

namespace Osl.Hub.AutoScrub

open Base Std Function

/-- What the calls and answers so far say of the run last opened in a slot. -/
structure Note where
  runId : Text
  pinned : List Text
  deadline : Nat
  /-- The item of the last successful step, until a prepare is authorized. -/
  unused : Option (Text × Text)
  /-- `halt` of its id, or `global_stop` of its owner, has returned `Ok`. -/
  stopped : Bool

structure State where
  ledger : Ledger
  notes : RunSlot → Option Note

inductive Act
  | openRun (q : OpenRequest)
  | step (owner : Text) (entitlement : NativeEntitlement) (request : RunStepInput) (now : Nat)
  | halt (owner runId reason : Text) (now : Nat)
  | globalStop (owner : Text) (now : Nat)
  | prepare (owner : Text) (entitlement : NativeEntitlement) (accountId mailbox messageId : Text) (now : Nat)
  | attend (owner : Text) (q : AttendedImapBatchRequest)
  | prepareReviewed (owner : Text) (entitlement : NativeEntitlement) (accountId : Text) (item : AttendedImapReviewedItem)
      (expectedAuthEpoch : Text)

/-- Change the note on one run. -/
def amend (notes : RunSlot → Option Note) (slot : RunSlot) (f : Note → Note) : RunSlot → Option Note :=
  update notes slot ((notes slot).map f)

/-- Note a stop of the runs `p` names. -/
def noteStop (notes : RunSlot → Option Note) (p : RunSlot → Note → Bool) : RunSlot → Option Note :=
  fun slot => (notes slot).map fun note => { note with stopped := note.stopped || p slot note }

section System

variable (sha256 : List UInt8 → Digest)

/-- The slot `authorize_imap_prepare` is about. -/
def imapSlot (owner accountId : Text) : RunSlot := ⟨scopeOf sha256 owner, imapProviderId, accountId⟩

/-- The ledger after a call. -/
def after (l : Ledger) : Act → Ledger
  | .openRun q => (l.openRun sha256 q).2
  | .step owner entitlement request now => (l.step sha256 owner entitlement request now).2
  | .halt owner runId reason now => (l.halt sha256 owner runId reason now).2
  | .globalStop owner now => (l.globalStop sha256 owner now).2
  | .prepare owner entitlement accountId mailbox messageId now =>
    (l.authorizeImapPrepare sha256 owner entitlement accountId mailbox messageId now).2
  | .attend owner q =>
    match l.authorizeAttendedImapBatchReviewed sha256 owner q with
    | .ok l' => l'
    | .error _ => l
  | .prepareReviewed owner entitlement accountId item expectedAuthEpoch =>
    (l.authorizeReviewedImapPrepare sha256 owner entitlement accountId item expectedAuthEpoch).2

/-- What the answer to a call adds to the notes. -/
def noted (s : State) : Act → RunSlot → Option Note
  | .openRun q =>
    match (s.ledger.openRun sha256 q).1 with
    | .error _ => s.notes
    | .ok opened =>
      update s.notes ⟨scopeOf sha256 q.owner, q.manifest.providerId, q.manifest.accountId⟩
        (some
          { runId := q.manifest.runId, pinned := q.manifest.batches.flatMap (·.itemKeys)
            deadline := q.clock.deadlineFrom + opened.expiresInMs * 1000000, unused := none, stopped := false })
  | .step owner entitlement request now =>
    match (s.ledger.step sha256 owner entitlement request now).1,
      findOwnedRun s.ledger.runs (scopeOf sha256 owner) request.runId with
    | .ok _, .ok (slot, _) => amend s.notes slot fun note => { note with unused := some (request.channelId, request.itemId) }
    | _, _ => s.notes
  | .halt owner runId reason now =>
    match (s.ledger.halt sha256 owner runId reason now).1 with
    | .error _ => s.notes
    | .ok _ => noteStop s.notes fun slot note => slot.ownerScope = scopeOf sha256 owner ∧ note.runId = runId
  | .globalStop owner now =>
    match (s.ledger.globalStop sha256 owner now).1 with
    | .error _ => s.notes
    | .ok _ => noteStop s.notes fun slot _ => slot.ownerScope = scopeOf sha256 owner
  | .prepare owner entitlement accountId mailbox messageId now =>
    match (s.ledger.authorizeImapPrepare sha256 owner entitlement accountId mailbox messageId now).1 with
    | .error _ => s.notes
    | .ok _ => amend s.notes (imapSlot sha256 owner accountId) fun note => { note with unused := none }
  | .attend _ _ => s.notes
  | .prepareReviewed _ _ _ _ _ => s.notes

def next (s : State) (a : Act) : State := ⟨after sha256 s.ledger a, noted sha256 s a⟩

def start : State := ⟨Ledger.default, fun _ => none⟩

/-- An authorization is for a reviewed item, takes up the last step of the run, and comes
before the deadline and before any stop. -/
def Sound (s : State) : Act → Prop
  | .prepare owner entitlement accountId mailbox messageId now =>
    (s.ledger.authorizeImapPrepare sha256 owner entitlement accountId mailbox messageId now).1.isOk = true →
      ∃ note, s.notes (imapSlot sha256 owner accountId) = some note ∧ itemKey mailbox messageId ∈ note.pinned ∧
        note.unused = some (mailbox, messageId) ∧ now < note.deadline ∧ note.stopped = false
  | _ => True

/-- A prepare finds its run before the deadline, and a halt finds no two runs of its owner
under the id. -/
def Guarded (s : State) : Act → Prop
  | .prepare owner _ accountId _ _ now =>
    ∀ run : ActiveRun, s.ledger.runs[imapSlot sha256 owner accountId]? = some run → now < run.deadline
  | .halt owner runId _ _ =>
    ∀ (slot slot' : RunSlot) (run run' : ActiveRun), s.ledger.runs[slot]? = some run → s.ledger.runs[slot']? = some run' →
      slot.ownerScope = scopeOf sha256 owner → slot'.ownerScope = scopeOf sha256 owner →
      run.runId = runId → run'.runId = runId → slot = slot'
  | _ => True

end System

variable {sha256 : List UInt8 → Digest} {s : State} {slot : RunSlot} {run run' : ActiveRun} {note : Note}
  {entitlement : NativeEntitlement} {owner accountId epoch : Text} {l : Ledger} {a : Act}

/-! ## The ledger and the notes -/

/-- A run is as noted: what it would still allow, the notes allow. -/
structure Agrees (slot : RunSlot) (run : ActiveRun) (note : Note) : Prop where
  providerId : run.providerId = slot.providerId
  accountId : run.accountId = slot.accountId
  runId : run.runId = note.runId
  pinned : ∀ k ∈ run.reviewedItems, k ∈ note.pinned
  deadline : run.deadline = note.deadline
  pending : ∀ p, run.pending = some p →
    itemKey p.mailbox p.messageId ∈ run.reviewedItems ∧ note.unused = some (p.mailbox, p.messageId)
  stopped : note.stopped = true → run.phase ≠ .active

def Inv (s : State) : Prop :=
  ∀ slot run, s.ledger.runs[slot]? = some run → ∃ note, s.notes slot = some note ∧ Agrees slot run note

section

variable (agrees : Agrees slot run note)
include agrees

theorem Agrees.finish (reason : StopReason) : Agrees slot (run.finish (.halted reason)) note :=
  { agrees with
    pending := fun p found => by cases found
    stopped := fun _ active => by cases active }

theorem Agrees.take (unused : Option (Text × Text)) : Agrees slot { run with pending := none } { note with unused } :=
  { agrees with pending := fun p found => by cases found }

theorem Agrees.authorize {mailbox messageId : Text}
    (reviewed : itemKey mailbox messageId ∈ run.reviewedItems) {authorizedItems : Keys} {touchedBatches : ExtTreeSet Nat}
    {now : Nat} :
    Agrees slot { run with authorizedItems, touchedBatches, pending := some ⟨mailbox, messageId, now⟩ }
      { note with unused := some (mailbox, messageId) } := by
  refine { agrees with pending := fun p found => ?_ }
  cases found
  exact ⟨reviewed, rfl⟩

theorem Agrees.noteStop {p : Bool} (halted : p = true → run.phase ≠ .active) :
    Agrees slot run { note with stopped := note.stopped || p } :=
  { agrees with stopped := fun either => (Bool.or_eq_true_iff.1 either).elim agrees.stopped halted }

end

/-- One run changes with its note, and nothing else does. -/
theorem Inv.put (inv : Inv s) (found : s.ledger.runs[slot]? = some run) {f : Note → Note}
    (agrees : ∀ note, Agrees slot run note → Agrees slot run' (f note)) :
    Inv ⟨s.ledger.put slot run', amend s.notes slot f⟩ := by
  intro other there present
  dsimp only [Ledger.put] at present
  rw [ExtTreeMap.getElem?_insert] at present
  by_cases same : slot = other
  · subst same
    rw [if_pos ReflCmp.compare_self] at present
    cases present
    obtain ⟨note, noted, agreed⟩ := inv slot run found
    refine ⟨f note, ?_, agrees note agreed⟩
    simp [amend, noted]
  · rw [if_neg fun eq => same (LawfulEqOrd.eq_of_compare eq)] at present
    obtain ⟨note, noted, agreed⟩ := inv other there present
    refine ⟨note, ?_, agreed⟩
    simp [amend, Ne.symm same, noted]

theorem amend_id {notes : RunSlot → Option Note} : amend notes slot id = notes := by
  simp [amend]

/-- The same, where nothing is noted. -/
theorem Inv.put_unnoted (inv : Inv s) (found : s.ledger.runs[slot]? = some run)
    (agrees : ∀ note, Agrees slot run note → Agrees slot run' note) : Inv ⟨s.ledger.put slot run', s.notes⟩ := by
  have kept := inv.put found (f := id) agrees
  rwa [amend_id] at kept

theorem Inv.findImap (inv : Inv s) (found : s.ledger.findImap sha256 owner entitlement accountId = .ok (slot, run)) :
    slot = imapSlot sha256 owner accountId ∧ s.ledger.runs[slot]? = some run ∧
      ∃ note, s.notes slot = some note ∧ Agrees slot run note := by
  obtain ⟨present, owned, imap, account⟩ := findImap_ok found
  obtain ⟨note, noted, agreed⟩ := inv slot run present
  refine ⟨?_, present, note, noted, agreed⟩
  rw [agreed.providerId] at imap
  rw [agreed.accountId] at account
  cases slot
  cases owned
  cases imap
  cases account
  rfl

/-! ## One call -/

theorem Inv.openRun (inv : Inv s) (q : OpenRequest) : Inv (next sha256 s (.openRun q)) := by
  unfold next after noted Ledger.openRun
  dsimp only
  cases admitted : s.ledger.admit sha256 q with
  | error e => exact inv
  | ok entry =>
    obtain ⟨slot, opened, run⟩ := entry
    have made := admit_ok admitted
    intro other there present
    dsimp only at present ⊢
    rw [← made.slot]
    rw [ExtTreeMap.getElem?_insert] at present
    by_cases same : slot = other
    · subst same
      rw [if_pos ReflCmp.compare_self] at present
      cases present
      refine ⟨_, update_self .., ?_⟩
      exact
        { providerId := made.providerId.trans (congrArg RunSlot.providerId made.slot).symm
          accountId := made.accountId.trans (congrArg RunSlot.accountId made.slot).symm
          runId := made.runId
          pinned := fun k mem => (made.reviewed k).1 mem
          deadline := made.deadline
          pending := fun p found => by rw [made.pending] at found; cases found
          stopped := fun stopped => absurd stopped Bool.false_ne_true }
    · rw [if_neg fun eq => same (LawfulEqOrd.eq_of_compare eq)] at present
      rw [update_of_ne (Ne.symm same)]
      exact inv other there present

theorem Inv.step (inv : Inv s) (owner : Text) (entitlement : NativeEntitlement) (request : RunStepInput) (now : Nat) :
    Inv (next sha256 s (.step owner entitlement request now)) := by
  unfold next after noted Ledger.step
  dsimp only
  cases inScope : (do entitlement.require; ownerScope sha256 owner) with
  | error e => exact inv
  | ok scope =>
    obtain ⟨-, -, scoped'⟩ := bind_ok.1 inScope
    rw [← ownerScope_ok scoped']
    dsimp only
    unfold Ledger.stepLocked
    cases found : findOwnedRun s.ledger.runs scope request.runId with
    | error e => exact inv
    | ok entry =>
      obtain ⟨slot, run⟩ := entry
      have present := (findOwnedRun_ok found).1
      dsimp only
      have stepped := run.step_stepped request now
      generalize (run.step request now).1 = answer, (run.step request now).2 = run' at stepped
      cases stepped with
      | refused e => exact inv.put_unnoted present fun note agreed => agreed
      | stopped e reason => exact inv.put_unnoted present fun note agreed => agreed.finish reason
      | authorized answer authorizedItems touchedBatches reviewed =>
        exact inv.put present fun note agreed => agreed.authorize reviewed

theorem ActiveRun.halt_phase (run : ActiveRun) (reason : Text) : (run.halt reason).phase ≠ .active := by
  unfold ActiveRun.halt
  split
  · exact RunPhase.noConfusion
  · assumption

theorem Agrees.halt (agrees : Agrees slot run note) (reason : Text) : Agrees slot (run.halt reason) note := by
  unfold ActiveRun.halt
  split
  · exact agrees.finish _
  · exact agrees

theorem Inv.halt (inv : Inv s) {runId reason : Text} {now : Nat} (guarded : Guarded sha256 s (.halt owner runId reason now)) :
    Inv (next sha256 s (.halt owner runId reason now)) := by
  unfold next after noted Ledger.halt
  dsimp only
  cases found : s.ledger.findHalted sha256 owner runId with
  | error e => exact inv
  | ok entry =>
    obtain ⟨slot, run⟩ := entry
    obtain ⟨present, owned, named⟩ := findHalted_ok found
    have halted := inv.put_unnoted present fun note agreed => agreed.halt reason
    intro other there atOther
    obtain ⟨note, noted, agreed⟩ := halted other there atOther
    refine ⟨{ note with stopped := note.stopped || _ }, congrArg (Option.map _) noted, agreed.noteStop fun stops => ?_⟩
    -- the guard leaves no other run of the owner under the id
    obtain ⟨sameOwner, sameId⟩ := of_decide_eq_true stops
    dsimp only [Ledger.put] at atOther
    rw [ExtTreeMap.getElem?_insert] at atOther
    by_cases same : slot = other
    · rw [if_pos (Std.compare_eq_iff_eq.2 same)] at atOther
      cases atOther
      exact run.halt_phase reason
    · rw [if_neg fun eq => same (LawfulEqOrd.eq_of_compare eq)] at atOther
      exact absurd (guarded slot other run there present atOther owned sameOwner named (agreed.runId.trans sameId)) same

theorem Inv.globalStop (inv : Inv s) (owner : Text) (now : Nat) : Inv (next sha256 s (.globalStop owner now)) := by
  unfold next after noted Ledger.globalStop
  dsimp only
  cases inScope : ownerScope sha256 owner with
  | error e => exact inv
  | ok scope =>
    rw [← ownerScope_ok inScope]
    have stopped : ∀ other there, (s.ledger.stopAll scope).runs[other]? = some there →
        ∃ note, s.notes other = some note ∧ Agrees other there note ∧ (other.ownerScope = scope → there.phase ≠ .active) := by
      intro other there present
      dsimp only [Ledger.stopAll] at present
      rw [ExtTreeMap.getElem?_map, Option.map_eq_some_iff] at present
      obtain ⟨before, wasThere, rfl⟩ := present
      obtain ⟨note, noted, agreed⟩ := inv other before wasThere
      refine ⟨note, noted, ?_⟩
      split
      · exact ⟨agreed.finish _, fun _ => RunPhase.noConfusion⟩
      · exact ⟨agreed, fun same => absurd same ‹_›⟩
    dsimp only
    split
    · split
      · exact fun other there present => (stopped other there present).imp fun note known => ⟨known.1, known.2.1⟩
      · intro other there present
        obtain ⟨note, noted, agreed, halted⟩ := stopped other there present
        exact ⟨_, congrArg (Option.map _) noted, agreed.noteStop fun stops => halted (of_decide_eq_true stops)⟩
    · exact fun other there present => (stopped other there present).imp fun note known => ⟨known.1, known.2.1⟩

theorem Inv.prepare (inv : Inv s) (owner : Text) (entitlement : NativeEntitlement) (accountId mailbox messageId : Text)
    (now : Nat) : Inv (next sha256 s (.prepare owner entitlement accountId mailbox messageId now)) := by
  unfold next after noted Ledger.authorizeImapPrepare
  dsimp only
  cases found : s.ledger.findImap sha256 owner entitlement accountId with
  | error e => exact inv
  | ok entry =>
    obtain ⟨slot, run⟩ := entry
    obtain ⟨here, present, -⟩ := inv.findImap found
    rw [← here]
    dsimp only
    have prepared := run.prepare_prepared mailbox messageId now
    generalize (run.prepare mailbox messageId now).1 = answer, (run.prepare mailbox messageId now).2 = run' at prepared
    cases prepared with
    | refused e => exact inv.put_unnoted present fun note agreed => agreed
    | revoked e => exact inv.put_unnoted present fun note agreed => agreed.take note.unused
    | granted authorizedAt active pending => exact inv.put present fun note agreed => agreed.take none

theorem attended_runs {q : AttendedImapBatchRequest} :
    (after sha256 l (.attend owner q)).runs = l.runs := by
  unfold after
  dsimp only
  cases made : l.authorizeAttendedImapBatchReviewed sha256 owner q with
  | error e => rfl
  | ok l' =>
    obtain ⟨reviewedItems, -, rest⟩ := bind_ok.1 made
    obtain ⟨scope, -, rest⟩ := bind_ok.1 rest
    obtain ⟨-, rest⟩ := guard_ok.1 rest
    cases rest
    rfl

theorem prepareReviewed_runs {item : AttendedImapReviewedItem} :
    (l.authorizeReviewedImapPrepare sha256 owner entitlement accountId item epoch).2.runs = l.runs := by
  unfold Ledger.authorizeReviewedImapPrepare
  split <;> rfl

theorem Inv.next (inv : Inv s) (guarded : Guarded sha256 s a) : Inv (next sha256 s a) := by
  cases a with
  | openRun q => exact inv.openRun q
  | step owner entitlement request now => exact inv.step owner entitlement request now
  | halt owner runId reason now => exact inv.halt guarded
  | globalStop owner now => exact inv.globalStop owner now
  | prepare owner entitlement accountId mailbox messageId now =>
    exact inv.prepare owner entitlement accountId mailbox messageId now
  | attend owner q =>
    intro slot run present
    refine inv slot run ?_
    rwa [← attended_runs]
  | prepareReviewed owner entitlement accountId item epoch =>
    intro slot run present
    refine inv slot run ?_
    rwa [← prepareReviewed_runs]

theorem Inv.sound (inv : Inv s) (guarded : Guarded sha256 s a) : Sound sha256 s a := by
  cases a with
  | prepare owner entitlement accountId mailbox messageId now =>
    unfold Sound Ledger.authorizeImapPrepare
    dsimp only
    cases found : s.ledger.findImap sha256 owner entitlement accountId with
    | error e => exact fun granted => absurd granted Bool.false_ne_true
    | ok entry =>
      obtain ⟨slot, run⟩ := entry
      obtain ⟨rfl, present, note, noted, agreed⟩ := inv.findImap found
      have prepared := run.prepare_prepared mailbox messageId now
      generalize (run.prepare mailbox messageId now).1 = answer, (run.prepare mailbox messageId now).2 = run' at prepared
      cases prepared with
      | refused e => exact fun granted => absurd granted Bool.false_ne_true
      | revoked e => exact fun granted => absurd granted Bool.false_ne_true
      | granted authorizedAt active pending =>
        intro _
        obtain ⟨reviewed, unused⟩ := agreed.pending _ pending
        refine ⟨note, noted, agreed.pinned _ reviewed, unused, ?_, ?_⟩
        · rw [← agreed.deadline]
          exact guarded run present
        · exact Bool.eq_false_iff.2 fun stopped => agreed.stopped stopped active
  | openRun | step | halt | globalStop | attend | prepareReviewed => trivial

/-! ## Every history -/

/-- Where every prepare finds its run before the deadline, and no halt finds two runs under
its id, every authorization of the history is sound. -/
theorem authorized_prepare_sound (sha256 : List UInt8 → Digest) (acts : List Act)
    (guarded : AllSteps (next sha256) (Guarded sha256) start acts) : AllSteps (next sha256) (Sound sha256) start acts := by
  refine guarded.of_invariant (I := Inv) (fun s a inv guarded => inv.next guarded) (fun s a inv guarded => inv.sound guarded) ?_
  intro slot run present
  exact absurd present (by simp [start, Ledger.default])

/-! ## Histories -/

/-- Stands for the digest where only its being a function matters. -/
def sampleSha256 (bytes : List UInt8) : Digest := Vector.replicate 32 (UInt8.ofNat bytes.length)

def sampleOwner : Text := "alice".toList

/-- A reviewed manifest over one message, good for ten minutes from the epoch `0`. -/
def sampleManifest (account : String) : RunManifestInput where
  runId := "weekly".toList
  providerId := imapProviderId
  accountId := account.toList
  reviewedAt := 0
  expiresAt := 600000
  tosCaveatAcknowledged := true
  unattended := true
  maxItems := 1
  batches := [⟨"plan".toList, "findings".toList, [itemKey "INBOX".toList "17".toList]⟩]

def sampleConsent (account : String) : RunConsentInput where
  runId := "weekly".toList
  providerId := imapProviderId
  accountId := account.toList
  acknowledgedAt := 0
  tosCaveatAcknowledged := true
  unattendedAcknowledged := true
  estimatedItemCount := 1
  batches := [⟨"plan".toList, "findings".toList, 1⟩]

/-- Opened at once, with the monotonic clock at `0` too. -/
def sampleOpen (account : String) : OpenRequest where
  owner := sampleOwner
  entitlement := .confirmed
  manifest := sampleManifest account
  session := ⟨imapProviderId, account.toList, "owner_provisioned_credential".toList, true, some true, none⟩
  consent := sampleConsent account
  capability := ⟨documentedProviderDeleteApi, ["owner_stop", "manifest_drift", "deadline", "global_stop"].map String.toList⟩
  confirmsOwned := fun _ _ _ => true
  clock := ⟨0, 0, 0, 0⟩

/-- The step to the reviewed message, with the digests `open` answers. -/
def sampleStep (account : String) : RunStepInput :=
  match (Ledger.default.openRun sampleSha256 (sampleOpen account)).1 with
  | .error _ => ⟨[], [], [], [], [], [], []⟩
  | .ok opened =>
    ⟨"weekly".toList, opened.manifestDigest, opened.consentDigest, "plan".toList, "findings".toList, "INBOX".toList, "17".toList⟩

def sampleStepAt (account : String) (seconds : Nat) : Act :=
  .step sampleOwner .confirmed (sampleStep account) (seconds * 1000000000)

def samplePrepareAt (account : String) (seconds : Nat) : Act :=
  .prepare sampleOwner .confirmed account.toList "INBOX".toList "17".toList (seconds * 1000000000)

/-- Whether the prepare of `account` is authorized after `acts`. -/
def sampleGranted (acts : List Act) (account : String) (seconds : Nat) : Bool :=
  ((Base.run (next sampleSha256) start acts).ledger.authorizeImapPrepare sampleSha256 sampleOwner .confirmed account.toList
    "INBOX".toList "17".toList (seconds * 1000000000)).1.isOk

def sampleNote (acts : List Act) (account : String) : Option Note :=
  (Base.run (next sampleSha256) start acts).notes (imapSlot sampleSha256 sampleOwner account.toList)

/-- A run that is opened and stepped. -/
def steppedHistory (seconds : Nat) : List Act := [.openRun (sampleOpen "b"), sampleStepAt "b" seconds]

theorem steppedHistory_deadline :
    ((Base.run (next sampleSha256) start (steppedHistory 1)).ledger.runs[imapSlot sampleSha256 sampleOwner "b".toList]?).map
      ActiveRun.deadline = some 600000000000 := by
  decide +kernel

/-- The step is taken up a second later. -/
theorem authorized_prepare_sound_sample : sampleGranted (steppedHistory 1) "b" 2 = true ∧
    AllSteps (next sampleSha256) (Sound sampleSha256) start (steppedHistory 1 ++ [samplePrepareAt "b" 2]) := by
  refine ⟨by decide +kernel, authorized_prepare_sound sampleSha256 _ ⟨trivial, trivial, ?_, trivial⟩⟩
  intro run present
  have deadline := steppedHistory_deadline
  change (next sampleSha256 _ _).ledger.runs[_]?.map _ = _ at deadline
  rw [present] at deadline
  rw [Option.some_inj.1 deadline]
  decide

/-- The run of the account `b`, stepped; then one of the account `a` under the same id, and the id halted. -/
def sharedIdHistory : List Act :=
  steppedHistory 1 ++ [.openRun (sampleOpen "a"), .halt sampleOwner "weekly".toList "owner_stop".toList 2000000000]

theorem sound_of_history {acts : List Act} {account : String} {seconds : Nat}
    (all : AllSteps (next sampleSha256) (Sound sampleSha256) start (acts ++ [samplePrepareAt account seconds]))
    (granted : sampleGranted acts account seconds = true) :
    ∃ note, sampleNote acts account = some note ∧ seconds * 1000000000 < note.deadline ∧ note.stopped = false := by
  obtain ⟨-, last, -⟩ := (allSteps_append).1 all
  obtain ⟨note, noted, -, -, early, running⟩ := last granted
  exact ⟨note, noted, early, running⟩

/-- A step one second before the deadline is taken up half a minute after it; and a run is
used after the halt of its id. -/
theorem late_and_halted_prepares :
    (sampleGranted (steppedHistory 599) "b" 630 = true ∧
      ¬AllSteps (next sampleSha256) (Sound sampleSha256) start (steppedHistory 599 ++ [samplePrepareAt "b" 630])) ∧
    (sampleGranted sharedIdHistory "b" 3 = true ∧
      ¬AllSteps (next sampleSha256) (Sound sampleSha256) start (sharedIdHistory ++ [samplePrepareAt "b" 3])) := by
  have late : sampleGranted (steppedHistory 599) "b" 630 = true := by decide +kernel
  have halted : sampleGranted sharedIdHistory "b" 3 = true := by decide +kernel
  refine ⟨⟨late, fun all => ?_⟩, halted, fun all => ?_⟩
  · obtain ⟨note, noted, early, -⟩ := sound_of_history all late
    have deadline : (sampleNote (steppedHistory 599) "b").map Note.deadline = some 600000000000 := by decide +kernel
    rw [noted] at deadline
    rw [Option.some_inj.1 deadline] at early
    exact absurd early (by decide)
  · obtain ⟨note, noted, -, running⟩ := sound_of_history all halted
    have stopped : (sampleNote sharedIdHistory "b").map Note.stopped = some true := by decide +kernel
    rw [noted] at stopped
    rw [Option.some_inj.1 stopped] at running
    exact absurd running (by decide)

end Osl.Hub.AutoScrub
