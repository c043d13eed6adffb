import Osl.Burn.Ledger

/-!
# An honest sender and one receiver ledger

The sender numbers its content and its burns with `SendCounters`, each burn
reaching up to the last sequence issued (`queue_scope_revocations` of the Hub).
The network delivers any issued item any number of times, in any order, or not
at all, and the receiver's ledger meanwhile serves other peers and scopes. Seen
from one scope `own`, the invariant `Linked` ties the two machines together:
every journalled burn of the scope was issued by the sender, and a burn issued
before a content message ends below it.
-/

namespace Osl.Burn

open Base Std SendCounters

/-- What the sender has put on the wire. -/
inductive Issued where
  | content (scope : Digest) (sendSeq : Nat)
  | burn (notice : RevocationNotice)
  deriving DecidableEq

/-- The next epoch, and a notice for everything said so far in the scope. -/
def issueBurn (hmac : Digest → List UInt8 → Digest) (counters : SendCounters) (key scope : Digest)
    (messageCommitments : List Digest) (now : Int) :
    SendCounters × Except RevocationError RevocationNotice :=
  match counters.nextBurnEpoch scope with
  | (counters, .error e) => (counters, .error e)
  | (counters, .ok burnEpoch) =>
    let burnUptoSeq := counters.currentSendSeq scope
    (counters, .ok ⟨scope, burnEpoch, burnUptoSeq, messageCommitments,
      burnId hmac key scope burnEpoch burnUptoSeq, now⟩)

/-- The receiver's gate on content (`admit_peer_content_seq`): check the floor,
then record the sequence. -/
def admitContent (ledger : RevocationLedger) (scope : Digest) (sendSeq : Nat) : RevocationLedger :=
  if sendSeq = 0 then ledger
  else
    match acceptContent ledger scope sendSeq with
    | .accept => (recordContentAccepted ledger scope sendSeq).1
    | _ => ledger

/-- The two machines and the wire; `issued` is oldest first. -/
structure Exchange where
  counters : SendCounters := {}
  ledger : RevocationLedger := {}
  issued : List Issued := []

inductive Action where
  | send (scope : Digest)
  | burn (scope : Digest) (messageCommitments : List Digest) (now : Int)
  | deliverContent (scope : Digest) (sendSeq : Nat)
  | deliverBurn (notice : RevocationNotice) (now : Int)
  /-- Ledger traffic of other peers and scopes. -/
  | foreign (op : Op)

section
variable (hmac : Digest → List UInt8 → Digest) (key own : Digest)

def Exchange.step (x : Exchange) : Action → Exchange
  | .send scope =>
    match x.counters.nextSendSeq scope with
    | (counters, .ok seq) => { x with counters, issued := x.issued ++ [.content scope seq] }
    | (counters, .error _) => { x with counters }
  | .burn scope messageCommitments now =>
    match issueBurn hmac x.counters key scope messageCommitments now with
    | (counters, .ok notice) => { x with counters, issued := x.issued ++ [.burn notice] }
    | (counters, .error _) => { x with counters }
  | .deliverContent scope sendSeq =>
    if .content scope sendSeq ∈ x.issued then { x with ledger := admitContent x.ledger scope sendSeq }
    else x
  | .deliverBurn notice now =>
    if .burn notice ∈ x.issued then
      { x with ledger := (applyInboundRevocation hmac x.ledger key notice now).1 }
    else x
  | .foreign op => if op.scope ≠ own then { x with ledger := x.ledger.step hmac op } else x

end

variable {hmac : Digest → List UInt8 → Digest} {key own scope : Digest} {x : Exchange} {seq next : Nat}

/-! ## The sender's counters -/

theorem bump_ok {map map' : ExtTreeMap Digest Nat} (ok : bump map scope = .ok (map', next)) :
    next = map[scope]?.getD 0 + 1 ∧ map' = map.insert scope next := by
  unfold bump at ok
  split at ok; · cases ok
  dsimp only at ok
  split at ok
  · cases ok
  · cases ok
    exact ⟨rfl, rfl⟩

theorem nextSendSeq_ok {c c' : SendCounters} (ok : c.nextSendSeq scope = (c', .ok seq)) :
    seq = c.currentSendSeq scope + 1 ∧
      ∀ other, c'.currentSendSeq other = if scope = other then seq else c.currentSendSeq other := by
  unfold nextSendSeq at ok
  split at ok
  · rename_i map next bumped
    obtain ⟨rfl, rfl⟩ := bump_ok bumped
    cases ok
    refine ⟨rfl, fun other => ?_⟩
    unfold currentSendSeq
    simp only [ExtTreeMap.getElem?_insert, Std.compare_eq_iff_eq]
    split <;> rfl
  · cases ok

theorem nextSendSeq_error {c c' : SendCounters} {e : RevocationError}
    (err : c.nextSendSeq scope = (c', .error e)) : c' = c := by
  unfold nextSendSeq at err
  split at err <;> cases err
  rfl

/-- Issuing a burn leaves the content sequences alone and covers those issued. -/
theorem issueBurn_cases (c : SendCounters) (scope : Digest) (messageCommitments : List Digest) (now : Int) :
    (issueBurn hmac c key scope messageCommitments now).1.sendSeq = c.sendSeq ∧
      ∀ notice, (issueBurn hmac c key scope messageCommitments now).2 = .ok notice →
        notice.scopeCommitment = scope ∧ notice.burnUptoSeq = c.currentSendSeq scope := by
  have kept : (c.nextBurnEpoch scope).1.sendSeq = c.sendSeq := by
    unfold nextBurnEpoch
    split <;> rfl
  unfold issueBurn
  split
  · rename_i c' e eq
    rw [eq] at kept
    exact ⟨kept, by rintro _ ⟨⟩⟩
  · rename_i c' epoch eq
    rw [eq] at kept
    refine ⟨kept, ?_⟩
    rintro _ ⟨⟩
    exact ⟨rfl, by unfold currentSendSeq; rw [kept]⟩

/-! ## The link between the two machines -/

structure Linked (own : Digest) (x : Exchange) : Prop where
  sound : Sound x.ledger
  seqs : ∀ seq, .content own seq ∈ x.issued → 0 < seq ∧ seq ≤ x.counters.currentSendSeq own
  uptos : ∀ notice, .burn notice ∈ x.issued → notice.scopeCommitment = own →
    notice.burnUptoSeq ≤ x.counters.currentSendSeq own
  order : x.issued.Pairwise fun a b => ∀ notice seq, a = .burn notice →
    notice.scopeCommitment = own → b = .content own seq → notice.burnUptoSeq < seq
  journal : ∀ (id : Digest) (e : JournalEntry), (x.ledger.state own).journal[id]? = some e →
    ∃ notice, .burn notice ∈ x.issued ∧ notice.scopeCommitment = own ∧ notice.burnId = id ∧
      notice.burnEpoch = e.burnEpoch ∧ notice.burnUptoSeq = e.burnUptoSeq

theorem linked_empty : Linked own {} where
  sound := sound_empty
  seqs := by simp
  uptos := by simp
  order := .nil
  journal id e mem := by simp [state_empty] at mem

section
variable (h : Linked own x) {notice : RevocationNotice}
include h

theorem Linked.counters {counters : SendCounters}
    (same : counters.sendSeq = x.counters.sendSeq) : Linked own { x with counters } := by
  have current : counters.currentSendSeq own = x.counters.currentSendSeq own := by
    unfold currentSendSeq
    rw [same]
  exact { h with
    seqs := fun seq mem => current ▸ h.seqs seq mem
    uptos := fun notice mem scope => current ▸ h.uptos notice mem scope }

/-- A new content message lies above every burn issued before it. -/
theorem Linked.send {counters : SendCounters} (ok : x.counters.nextSendSeq scope = (counters, .ok seq)) :
    Linked own { x with counters, issued := x.issued ++ [.content scope seq] } := by
  obtain ⟨next, current⟩ := nextSendSeq_ok ok
  have up : x.counters.currentSendSeq own ≤ counters.currentSendSeq own := by
    rw [current own]
    split
    · rename_i eq
      rw [next, eq]
      exact Nat.le_succ _
    · exact le_rfl
  refine { h with
    seqs := fun seq' mem => ?_
    uptos := fun notice mem own => (h.uptos notice (by simpa using mem) own).trans up
    order := List.pairwise_append.2 ⟨h.order, List.pairwise_singleton _ _, ?_⟩
    journal := fun id e mem => ?_ }
  · rcases List.mem_append.1 mem with mem | mem
    · exact ⟨(h.seqs seq' mem).1, (h.seqs seq' mem).2.trans up⟩
    · obtain ⟨rfl, rfl⟩ : own = scope ∧ seq' = seq := by simpa using mem
      exact ⟨by omega, by rw [current own, if_pos rfl]⟩
  · rintro a mem b last notice seq' rfl inScope rfl
    obtain ⟨rfl, rfl⟩ : own = scope ∧ seq' = seq := by simpa using last
    have := h.uptos notice mem inScope
    omega
  · obtain ⟨notice, issued, rest⟩ := h.journal id e mem
    exact ⟨notice, List.mem_append_left _ issued, rest⟩

theorem Linked.burn (upto : notice.burnUptoSeq = x.counters.currentSendSeq notice.scopeCommitment) :
    Linked own { x with issued := x.issued ++ [.burn notice] } := by
  refine { h with
    seqs := fun seq mem => h.seqs seq (by simpa using mem)
    uptos := fun notice' mem inScope => ?_
    order := List.pairwise_append.2 ⟨h.order, List.pairwise_singleton _ _, ?_⟩
    journal := fun id e mem => ?_ }
  · rcases List.mem_append.1 mem with mem | mem
    · exact h.uptos notice' mem inScope
    · obtain rfl : notice' = notice := by simpa using mem
      rw [upto, inScope]
  · rintro a - b last notice' seq - - rfl
    simp at last
  · obtain ⟨notice', issued, rest⟩ := h.journal id e mem
    exact ⟨notice', List.mem_append_left _ issued, rest⟩

/-- A ledger call that adds no burn to the scope's journal. -/
theorem Linked.ledger {ledger : RevocationLedger} (sound : Sound ledger)
    (same : (ledger.state own).journal = (x.ledger.state own).journal) : Linked own { x with ledger } :=
  { h with
    sound
    journal := fun id e mem => h.journal id e (same ▸ mem) }

end

variable {ledger ledger' : RevocationLedger} {other : Digest} {sendSeq i : Nat} {notice : RevocationNotice}

theorem Effect.state_frame
    (eff : Effect ledger scope ledger') (ne : scope ≠ other) : ledger'.state other = ledger.state other := by
  cases eff with
  | same => rfl
  | recorded | burned => rw [state_insert, if_neg ne]

theorem recordContentAccepted_journal :
    ((recordContentAccepted ledger scope sendSeq).1.state own).journal = (ledger.state own).journal := by
  unfold recordContentAccepted
  split
  · rfl
  · rw [state_insert]
    split
    · rename_i eq
      rw [← eq]
      rfl
    · rfl

theorem Linked.deliverContent (h : Linked own x) (scope : Digest) (sendSeq : Nat) :
    Linked own { x with ledger := admitContent x.ledger scope sendSeq } := by
  unfold admitContent
  split
  · exact h
  split
  · exact h.ledger (h.sound.effect (recordContentAccepted_effect))
      (recordContentAccepted_journal)
  · exact h

theorem Linked.deliverBurn (h : Linked own x) (now : Int) (issued : .burn notice ∈ x.issued) :
    Linked own { x with ledger := (applyInboundRevocation hmac x.ledger key notice now).1 } := by
  have answer := @applyInboundRevocation_answer hmac x.ledger key notice now
  generalize applyInboundRevocation hmac x.ledger key notice now = result at answer
  cases answer with
  | applied gates =>
    refine { h with
      sound := h.sound.burned now gates
      journal := fun id e mem => ?_ }
    rw [state_insert] at mem
    split at mem
    · rename_i inScope
      rw [burn_journal] at mem
      split at mem
      · rename_i same
        cases mem
        exact ⟨notice, issued, inScope, same, rfl, rfl⟩
      · exact h.journal id e (inScope ▸ mem)
    · exact h.journal id e mem
  | _ => exact h

theorem Linked.step (h : Linked own x) (act : Action) : Linked own (x.step hmac key own act) := by
  cases act with
  | send scope =>
    simp only [Exchange.step]
    split
    · rename_i counters seq ok
      exact h.send ok
    · rename_i counters e err
      exact h.counters (congrArg _ (nextSendSeq_error err))
  | burn scope messageCommitments now =>
    obtain ⟨kept, covers⟩ := @issueBurn_cases hmac key x.counters scope messageCommitments now
    simp only [Exchange.step]
    split
    · rename_i counters notice ok
      rw [ok] at kept covers
      obtain ⟨rfl, upto⟩ := covers notice rfl
      refine (h.counters kept).burn (upto.trans ?_)
      unfold currentSendSeq
      rw [kept]
    · rename_i counters e err
      rw [err] at kept
      exact h.counters kept
  | deliverContent scope sendSeq =>
    simp only [Exchange.step]
    split
    · exact h.deliverContent scope sendSeq
    · exact h
  | deliverBurn notice now =>
    simp only [Exchange.step]
    split
    · rename_i issued
      exact h.deliverBurn now issued
    · exact h
  | foreign op =>
    simp only [Exchange.step]
    split
    · rename_i other
      have eff := @step_effect hmac x.ledger op
      exact h.ledger (h.sound.effect eff) (by rw [eff.state_frame other])
    · exact h

theorem linked_run {acts : List Action} : Linked own (run (Exchange.step hmac key own) {} acts) :=
  run_invariant (I := Linked own) (fun _ act h => h.step act) linked_empty acts

theorem admitContent_later :
    Later ledger (admitContent ledger scope sendSeq) := by
  unfold admitContent
  split
  · exact .refl _
  split
  · exact (recordContentAccepted_effect).later
  · exact .refl _

theorem step_later (x : Exchange) (act : Action) : Later x.ledger (x.step hmac key own act).ledger := by
  cases act with
  | send | burn =>
    simp only [Exchange.step]
    split <;> exact .refl _
  | deliverContent scope sendSeq =>
    simp only [Exchange.step]
    split
    · exact admitContent_later
    · exact .refl _
  | deliverBurn notice now =>
    simp only [Exchange.step]
    split
    · exact (applyInboundRevocation_effect _ _ _ _).later
    · exact .refl _
  | foreign op =>
    simp only [Exchange.step]
    split
    · exact (step_effect _ _).later
    · exact .refl _

/-- The notice is applied: the ledger journals it with its own parameters. -/
def Exchange.Applied (x : Exchange) (notice : RevocationNotice) : Prop :=
  ∃ now, (x.ledger.state notice.scopeCommitment).journal[notice.burnId]? =
    some ⟨notice.burnEpoch, notice.burnUptoSeq, now⟩

/-- The floor is the reach of an issued and applied burn of the scope. -/
theorem Linked.floor_cases (h : Linked own x) :
    (x.ledger.state own).burnFloor = 0 ∨ ∃ notice, .burn notice ∈ x.issued ∧
      notice.scopeCommitment = own ∧ x.Applied notice ∧
      (x.ledger.state own).burnFloor = notice.burnUptoSeq := by
  rcases h.sound.floor own with zero | ⟨id, e, mem, top⟩
  · exact .inl zero
  · obtain ⟨notice, issued, rfl, rfl, epoch, upto⟩ := h.journal id e mem
    refine .inr ⟨notice, issued, rfl, ⟨e.appliedAt, ?_⟩, by omega⟩
    rw [mem, epoch, upto]

/-- Refused content is content some later burn of the sender covers. -/
theorem Linked.refused (h : Linked own x) (sent : x.issued[i]? = some (.content own seq))
    (refused : acceptContent x.ledger own seq = .refusedBurned) :
    ∃ j notice, i < j ∧ x.issued[j]? = some (.burn notice) ∧ notice.scopeCommitment = own ∧
      seq ≤ notice.burnUptoSeq ∧ x.Applied notice := by
  have floor := (acceptContent_refused_iff.1 refused).2
  have pos := (h.seqs seq (List.mem_of_getElem? sent)).1
  rcases h.floor_cases with zero | ⟨notice, issued, inScope, applied, top⟩
  · omega
  obtain ⟨j, found⟩ := List.getElem?_of_mem issued
  refine ⟨j, notice, ?_, found, inScope, by omega, applied⟩
  -- a burn at or before position `i` would end below `seq`
  by_contra before
  obtain ⟨hi, sent'⟩ := List.getElem?_eq_some_iff.1 sent
  obtain ⟨hj, found'⟩ := List.getElem?_eq_some_iff.1 found
  have ne : j ≠ i := by
    rintro rfl
    rw [found] at sent
    cases sent
  have below := List.pairwise_iff_getElem.1 h.order j i hj hi (by omega) notice seq found' inScope sent'
  omega

/-- No burn reaches content issued after it. In any run of an honest sender and
a receiver ledger: content is refused only on account of an applied burn issued
after it; the floor is no higher than an applied burn asked for; marks, floors,
epochs and journals only grow; and the ledger stays within its bounds. -/
theorem burns_spare_later_content (hmac : Digest → List UInt8 → Digest) (key own : Digest) (acts more : List Action) :
    let x : Exchange := run (Exchange.step hmac key own) {} acts
    let x' : Exchange := run (Exchange.step hmac key own) x more
    (∀ (i seq : Nat), x.issued[i]? = some (.content own seq) →
      acceptContent x.ledger own seq = .refusedBurned →
        ∃ (j : Nat) (notice : RevocationNotice), i < j ∧ x.issued[j]? = some (.burn notice) ∧
          notice.scopeCommitment = own ∧ seq ≤ notice.burnUptoSeq ∧ x.Applied notice) ∧
    (∀ (i j : Nat) (notice : RevocationNotice) (seq : Nat), x.issued[i]? = some (.burn notice) →
      notice.scopeCommitment = own → i < j → x.issued[j]? = some (.content own seq) → notice.burnUptoSeq < seq) ∧
    ((x.ledger.state own).burnFloor = 0 ∨ ∃ notice, Issued.burn notice ∈ x.issued ∧
      notice.scopeCommitment = own ∧ x.Applied notice ∧
      (x.ledger.state own).burnFloor ≤ notice.burnUptoSeq) ∧
    (∀ scope, (x.ledger.state scope).highWater ≤ (x'.ledger.state scope).highWater ∧
      (x.ledger.state scope).burnFloor ≤ (x'.ledger.state scope).burnFloor ∧
      (x.ledger.state scope).lastBurnEpoch ≤ (x'.ledger.state scope).lastBurnEpoch ∧
      ∀ (id : Digest) e, (x.ledger.state scope).journal[id]? = some e →
        (x'.ledger.state scope).journal[id]? = some e) ∧
    x.ledger.scopes.size ≤ maxLedgerScopes ∧
    (∀ scope, (x.ledger.state scope).journal.size ≤ maxJournalEntriesPerScope) ∧
    x.ledger.totalJournalEntries ≤ maxJournalEntriesTotal := by
  intro x x'
  have h : Linked own x := linked_run
  have later : Later x.ledger x'.ledger :=
    run_rel (I := fun _ => True) (R := fun x x' => Later x.ledger x'.ledger) (fun _ => .refl _)
      (fun _ _ _ => Later.trans) (fun _ _ _ => trivial) (fun x act _ => step_later x act) trivial more
  refine ⟨fun i seq sent refused => h.refused sent refused, fun i j notice seq burned inScope lt sent => ?_,
    ?_, fun scope => ?_, h.sound.scopes, h.sound.perScope, h.sound.total⟩
  · obtain ⟨hi, burned⟩ := List.getElem?_eq_some_iff.1 burned
    obtain ⟨hj, sent⟩ := List.getElem?_eq_some_iff.1 sent
    exact List.pairwise_iff_getElem.1 h.order i j hi hj lt notice seq burned inScope sent
  · rcases h.floor_cases with zero | ⟨notice, issued, inScope, applied, top⟩
    · exact .inl zero
    · exact .inr ⟨notice, issued, inScope, applied, top.le⟩
  · have up := later.state scope
    exact ⟨up.highWater, up.burnFloor, up.lastBurnEpoch, up.journal⟩

/-- Two messages, a burn, a third message: the burn arrives twice and first, and
only the first two are refused. -/
example :
    let x := run (Exchange.step lastByteMac zeroDigest zeroDigest) {}
      [.send zeroDigest, .send zeroDigest, .burn zeroDigest [] 0, .send zeroDigest,
        .deliverBurn (noticeFor 1 2) 6, .deliverBurn (noticeFor 1 2) 7, .deliverContent zeroDigest 3]
    (List.range 4).map (acceptContent x.ledger zeroDigest) =
      [.refusedBurned, .refusedBurned, .refusedBurned, .accept] := by
  decide +kernel

end Osl.Burn
