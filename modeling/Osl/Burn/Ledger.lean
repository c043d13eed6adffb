import Osl.Burn.Model

/-!
# The replay ledger over whole runs

`Effect` says what one ledger call can do: nothing, raise a high-water mark, or
apply a burn that passed every gate. From it come the journal invariant `Sound`
and the order `Later` (marks, floors and epochs go up, entries stay).

The ledger keeps what it acknowledges in two of the three acknowledging
branches. The third, `Replay`, is decided from the epoch alone, and the floor
may lie below the burn it answers for (`ack_in_force_iff`).
-/

namespace Osl.Burn

open Base Std RevocationLedger

variable {hmac : Digest → List UInt8 → Digest} {ledger ledger' ledger'' : RevocationLedger} {slot : Digest}
  {st : ScopeRevocationState} {sendSeq version : Nat}

/-- One call on the ledger. A legacy marker is converted and applied at once. -/
inductive Op where
  | revocation (key : Digest) (notice : RevocationNotice) (now : Int)
  | content (scope : Digest) (sendSeq : Nat)
  | legacy (key scope : Digest) (now : Int)

def Op.scope : Op → Digest
  | .revocation _ notice _ => notice.scopeCommitment
  | .content scope _ | .legacy _ scope _ => scope

def RevocationLedger.step (hmac : Digest → List UInt8 → Digest) (ledger : RevocationLedger) :
    Op → RevocationLedger
  | .revocation key notice now => (applyInboundRevocation hmac ledger key notice now).1
  | .content scope sendSeq => (recordContentAccepted ledger scope sendSeq).1
  | .legacy key scope now =>
    (applyInboundRevocation hmac ledger key (legacyBurnNotice hmac ledger key scope now) now).1

/-- The gates a notice passes before it is applied. -/
structure Applies (hmac : Digest → List UInt8 → Digest) (ledger : RevocationLedger) (key : Digest)
    (notice : RevocationNotice) : Prop where
  genuine : burnId hmac key notice.scopeCommitment notice.burnEpoch notice.burnUptoSeq = notice.burnId
  room : ledger.scopes.contains notice.scopeCommitment = true ∨ ledger.scopes.size < maxLedgerScopes
  fresh : (ledger.state notice.scopeCommitment).journal[notice.burnId]? = none
  newer : (ledger.state notice.scopeCommitment).lastBurnEpoch < notice.burnEpoch
  inRange : notice.burnUptoSeq ≤
    satAdd 64 (ledger.state notice.scopeCommitment).highWater maxBurnLookahead
  total : ledger.totalJournalEntries < maxJournalEntriesTotal
  perScope : (ledger.state notice.scopeCommitment).journal.size < maxJournalEntriesPerScope

inductive Effect (ledger : RevocationLedger) : Digest → RevocationLedger → Prop where
  | same {scope : Digest} : Effect ledger scope ledger
  | recorded (scope : Digest) (sendSeq : Nat)
      (room : ledger.scopes.contains scope = true ∨ ledger.scopes.size < maxLedgerScopes) :
      Effect ledger scope ⟨1, ledger.scopes.insert scope ((ledger.state scope).record sendSeq)⟩
  | burned {hmac : Digest → List UInt8 → Digest} {key : Digest} (notice : RevocationNotice) (now : Int)
      (gates : Applies hmac ledger key notice) :
      Effect ledger notice.scopeCommitment ⟨1, ledger.scopes.insert notice.scopeCommitment
        ((ledger.state notice.scopeCommitment).burn notice now)⟩

theorem room_of_not_full {known : Bool} {size bound : Nat}
    (h : ¬ ((!known) = true ∧ size ≥ bound)) : known = true ∨ size < bound := by
  cases known with
  | true => exact .inl rfl
  | false => exact .inr (Nat.lt_of_not_le fun full => h ⟨rfl, full⟩)

/-- What each answer of `apply_inbound_revocation` says about the ledger before
and after. -/
inductive Answer (hmac : Digest → List UInt8 → Digest) (ledger : RevocationLedger) (key : Digest)
    (notice : RevocationNotice) (now : Int) :
    RevocationLedger × Except RevocationError InboundOutcome → Prop where
  | error (e : RevocationError) : Answer hmac ledger key notice now (ledger, .error e)
  | refused (reason : RefusalReason) :
      Answer hmac ledger key notice now (ledger, .ok (ackFor notice (.refused reason) 0 []))
  | alreadyApplied (entry : JournalEntry)
      (found : (ledger.state notice.scopeCommitment).journal[notice.burnId]? = some entry)
      (same : entry.burnEpoch = notice.burnEpoch ∧ entry.burnUptoSeq = notice.burnUptoSeq) :
      Answer hmac ledger key notice now (ledger, .ok (ackFor notice .alreadyApplied 0 []))
  | replay (fresh : (ledger.state notice.scopeCommitment).journal[notice.burnId]? = none)
      (stale : notice.burnEpoch ≤ (ledger.state notice.scopeCommitment).lastBurnEpoch) :
      Answer hmac ledger key notice now (ledger, .ok (ackFor notice .replay 0 []))
  | applied (gates : Applies hmac ledger key notice) :
      Answer hmac ledger key notice now
        (⟨1, ledger.scopes.insert notice.scopeCommitment
            ((ledger.state notice.scopeCommitment).burn notice now)⟩,
          .ok (ackFor notice .applied notice.burnUptoSeq notice.messageCommitments))

theorem applyInboundRevocation_answer (ledger : RevocationLedger) (key : Digest)
    (notice : RevocationNotice) (now : Int) :
    Answer hmac ledger key notice now (applyInboundRevocation hmac ledger key notice now) := by
  unfold applyInboundRevocation
  dsimp only
  split; · exact .refused _
  rename_i genuine
  split; · exact .error _
  rename_i room
  split
  · rename_i entry found
    split
    · rename_i same
      exact .alreadyApplied entry found same
    · exact .refused _
  rename_i fresh
  split
  · rename_i stale
    exact .replay fresh stale
  split; · exact .refused _
  split; · exact .error _
  split; · exact .error _
  exact .applied ⟨not_not.1 genuine, room_of_not_full room, fresh, by omega, by omega, by omega,
    by omega⟩

theorem applyInboundRevocation_effect (ledger : RevocationLedger) (key : Digest)
    (notice : RevocationNotice) (now : Int) :
    Effect ledger notice.scopeCommitment (applyInboundRevocation hmac ledger key notice now).1 := by
  have answer := @applyInboundRevocation_answer hmac ledger key notice now
  generalize applyInboundRevocation hmac ledger key notice now = result at answer
  cases answer with
  | applied gates => exact .burned notice now gates
  | _ => exact .same

theorem recordContentAccepted_effect {scope : Digest} :
    Effect ledger scope (recordContentAccepted ledger scope sendSeq).1 := by
  unfold recordContentAccepted
  split
  · exact .same
  · rename_i room
    exact .recorded scope sendSeq (room_of_not_full room)

theorem step_effect (ledger : RevocationLedger) (op : Op) : Effect ledger op.scope (ledger.step hmac op) := by
  cases op with
  | revocation key notice now => exact applyInboundRevocation_effect ledger key notice now
  | content scope sendSeq => exact recordContentAccepted_effect
  | legacy key scope now =>
    exact applyInboundRevocation_effect ledger key (legacyBurnNotice hmac ledger key scope now) now

/-! ## Order -/

/-- How the state of a scope may change: everything in it goes up. -/
structure StateLater (st st' : ScopeRevocationState) : Prop where
  highWater : st.highWater ≤ st'.highWater
  burnFloor : st.burnFloor ≤ st'.burnFloor
  lastBurnEpoch : st.lastBurnEpoch ≤ st'.lastBurnEpoch
  journal : ∀ (id : Digest) (e : JournalEntry), st.journal[id]? = some e → st'.journal[id]? = some e

theorem StateLater.refl (st : ScopeRevocationState) : StateLater st st :=
  ⟨le_rfl, le_rfl, le_rfl, fun _ _ h => h⟩

theorem StateLater.trans {a b c : ScopeRevocationState} (h : StateLater a b) (h' : StateLater b c) : StateLater a c :=
  ⟨h.highWater.trans h'.highWater, h.burnFloor.trans h'.burnFloor,
    h.lastBurnEpoch.trans h'.lastBurnEpoch, fun id e mem => h'.journal id e (h.journal id e mem)⟩

/-- Scopes are never dropped, and each one's state only goes up. -/
structure Later (ledger ledger' : RevocationLedger) : Prop where
  known : ∀ scope ∈ ledger.scopes, scope ∈ ledger'.scopes
  state : ∀ scope, StateLater (ledger.state scope) (ledger'.state scope)

theorem Later.refl (ledger : RevocationLedger) : Later ledger ledger :=
  ⟨fun _ h => h, fun _ => .refl _⟩

theorem Later.trans (h : Later ledger ledger') (h' : Later ledger' ledger'') : Later ledger ledger'' :=
  ⟨fun scope mem => h'.known scope (h.known scope mem),
    fun scope => (h.state scope).trans (h'.state scope)⟩

theorem state_insert (version : Nat) (slot scope : Digest) (st : ScopeRevocationState) :
    state ⟨version, ledger.scopes.insert slot st⟩ scope =
      if slot = scope then st else ledger.state scope := by
  unfold state
  simp only [ExtTreeMap.getElem?_insert, Std.compare_eq_iff_eq]
  split <;> rfl

/-- Rewriting one slot upwards goes up. -/
theorem later_insert
    (up : StateLater (ledger.state slot) st) : Later ledger ⟨version, ledger.scopes.insert slot st⟩ where
  known scope mem := ExtTreeMap.mem_insert.2 (.inr mem)
  state scope := by
    rw [state_insert]
    split
    · rename_i eq
      exact eq ▸ up
    · exact .refl _

variable {scope key : Digest} {notice : RevocationNotice}

theorem Effect.later (eff : Effect ledger scope ledger') : Later ledger ledger' := by
  cases eff with
  | same => exact .refl _
  | recorded scope sendSeq =>
    exact later_insert ⟨le_max_left _ _, le_rfl, le_rfl, fun _ _ h => h⟩
  | burned notice now gates =>
    refine later_insert ⟨le_rfl, le_max_left _ _, gates.newer.le, fun id e mem => ?_⟩
    -- the new entry's id was not journalled, so no entry is overwritten
    have other : notice.burnId ≠ id := by
      rintro rfl
      rw [gates.fresh] at mem
      cases mem
    show (ExtTreeMap.insert _ _ _)[id]? = _
    rw [ExtTreeMap.getElem?_insert, if_neg (by simpa using other)]
    exact mem

theorem later_run (ledger : RevocationLedger) (ops : List Op) : Later ledger (run (step hmac) ledger ops) :=
  run_rel (I := fun _ => True) Later.refl (fun _ _ _ => Later.trans) (fun _ _ _ => trivial)
    (fun ledger op _ => (step_effect ledger op).later) trivial ops

/-! ## Journal invariant -/

structure Sound (ledger : RevocationLedger) : Prop where
  scopes : ledger.scopes.size ≤ maxLedgerScopes
  perScope : ∀ scope, (ledger.state scope).journal.size ≤ maxJournalEntriesPerScope
  total : ledger.totalJournalEntries ≤ maxJournalEntriesTotal
  entries : ∀ (scope id : Digest) (e : JournalEntry), (ledger.state scope).journal[id]? = some e →
    e.burnEpoch ≤ (ledger.state scope).lastBurnEpoch ∧ e.burnUptoSeq ≤ (ledger.state scope).burnFloor
  floor : ∀ scope, (ledger.state scope).burnFloor = 0 ∨
    ∃ (id : Digest) (e : JournalEntry), (ledger.state scope).journal[id]? = some e ∧
      e.burnUptoSeq = (ledger.state scope).burnFloor

theorem state_empty (scope : Digest) : state {} scope = {} := by
  simp [state]

theorem sound_empty : Sound {} where
  scopes := by simp
  perScope scope := by simp [state_empty]
  total := by decide
  entries scope id e mem := by simp [state_empty] at mem
  floor scope := .inl (by rw [state_empty])

theorem size_insert_of_room (h : ledger.scopes.size ≤ maxLedgerScopes)
    (room : ledger.scopes.contains slot = true ∨ ledger.scopes.size < maxLedgerScopes) :
    (ledger.scopes.insert slot st).size ≤ maxLedgerScopes := by
  rw [ExtTreeMap.size_insert]
  rcases room with known | room
  · rw [if_pos known]; exact h
  · split <;> omega

theorem totalJournalEntries_insert (ledger : RevocationLedger) (version : Nat) (slot : Digest) (st : ScopeRevocationState) :
    totalJournalEntries ⟨version, ledger.scopes.insert slot st⟩ +
      (ledger.state slot).journal.size = ledger.totalJournalEntries + st.journal.size := by
  have sum := sumValues_insert (t := ledger.scopes) (fun st => st.journal.size) slot st
  have old : (ledger.scopes[slot]?.map fun st => st.journal.size).getD 0 =
      (ledger.state slot).journal.size := by
    unfold state
    cases ledger.scopes[slot]? <;> simp
  rw [old] at sum
  exact sum

theorem Sound.recorded (h : Sound ledger) (sendSeq : Nat)
    (room : ledger.scopes.contains scope = true ∨ ledger.scopes.size < maxLedgerScopes) :
    Sound ⟨1, ledger.scopes.insert scope ((ledger.state scope).record sendSeq)⟩ := by
  -- only the mark moves: journal, floor and epoch of every scope read as before
  have same : ∀ other, ∃ mark, state
      ⟨1, ledger.scopes.insert scope ((ledger.state scope).record sendSeq)⟩ other =
        { ledger.state other with highWater := mark } := by
    intro other
    rw [state_insert]
    split
    · rename_i eq
      exact ⟨_, by rw [eq]; rfl⟩
    · exact ⟨_, rfl⟩
  have total := totalJournalEntries_insert ledger 1 scope ((ledger.state scope).record sendSeq)
  have journal : ((ledger.state scope).record sendSeq).journal = (ledger.state scope).journal := rfl
  rw [journal] at total
  have bound := h.total
  refine ⟨size_insert_of_room h.scopes room, fun other => ?_, by omega, fun other id e => ?_,
    fun other => ?_⟩
  all_goals obtain ⟨mark, eq⟩ := same other; rw [eq]
  · exact h.perScope other
  · exact h.entries other id e
  · exact h.floor other

theorem burn_journal (st : ScopeRevocationState) (notice : RevocationNotice) (now : Int) (id : Digest) :
    (st.burn notice now).journal[id]? = if notice.burnId = id then
      some ⟨notice.burnEpoch, notice.burnUptoSeq, now⟩ else st.journal[id]? := by
  show (ExtTreeMap.insert _ _ _)[id]? = _
  simp only [ExtTreeMap.getElem?_insert, Std.compare_eq_iff_eq]

theorem Sound.burned (h : Sound ledger) (now : Int) (gates : Applies hmac ledger key notice) :
    Sound ⟨1, ledger.scopes.insert notice.scopeCommitment
      ((ledger.state notice.scopeCommitment).burn notice now)⟩ := by
  have size : ((ledger.state notice.scopeCommitment).burn notice now).journal.size ≤
      (ledger.state notice.scopeCommitment).journal.size + 1 := size_insert_le _ _
  have total := totalJournalEntries_insert ledger 1 notice.scopeCommitment
    ((ledger.state notice.scopeCommitment).burn notice now)
  have room := gates.total
  refine ⟨size_insert_of_room h.scopes gates.room, fun scope => ?_, by omega, fun scope id e => ?_,
    fun scope => ?_⟩
  all_goals
    rw [state_insert]
    by_cases eq : notice.scopeCommitment = scope
  · rw [if_pos eq]
    have := gates.perScope
    omega
  · rw [if_neg eq]
    exact h.perScope scope
  · rw [if_pos eq, burn_journal]
    split
    · rintro ⟨⟩
      exact ⟨le_rfl, le_max_right _ _⟩
    · intro mem
      obtain ⟨epoch, upto⟩ := h.entries _ id e mem
      exact ⟨epoch.trans gates.newer.le, upto.trans (le_max_left _ _)⟩
  · rw [if_neg eq]
    exact h.entries scope id e
  · rw [if_pos eq]
    refine .inr ?_
    rcases le_total (ledger.state notice.scopeCommitment).burnFloor notice.burnUptoSeq with le | le
    · exact ⟨notice.burnId, _, by rw [burn_journal, if_pos rfl], (max_eq_right le).symm⟩
    · rcases h.floor notice.scopeCommitment with zero | ⟨id, e, mem, top⟩
      · exact ⟨notice.burnId, _, by rw [burn_journal, if_pos rfl], by
          show notice.burnUptoSeq = max _ _
          omega⟩
      · refine ⟨id, e, ?_, top.trans (max_eq_left le).symm⟩
        rw [burn_journal, if_neg]
        · exact mem
        · rintro rfl
          rw [gates.fresh] at mem
          cases mem
  · rw [if_neg eq]
    exact h.floor scope

theorem Sound.effect (h : Sound ledger) (eff : Effect ledger scope ledger') : Sound ledger' := by
  cases eff with
  | same => exact h
  | recorded scope sendSeq room => exact h.recorded sendSeq room
  | burned notice now gates => exact h.burned now gates

theorem sound_run (ops : List Op) : Sound (run (step hmac) {} ops) :=
  run_invariant (I := Sound) (fun ledger op h => h.effect (step_effect ledger op)) sound_empty ops

/-! ## What an acknowledgement promises -/

theorem acceptContent_refused_iff :
    acceptContent ledger scope sendSeq = .refusedBurned ↔
      scope ∈ ledger.scopes ∧ sendSeq ≤ (ledger.state scope).burnFloor := by
  unfold acceptContent state
  cases h : ledger.scopes[scope]? with
  | none => simp [ExtTreeMap.mem_iff_isSome_getElem?, h]
  | some st => simp [ExtTreeMap.mem_iff_isSome_getElem?, h]

/-- The burn is in force: content up to `upto` is refused now and after any
further calls. -/
def InForce (hmac : Digest → List UInt8 → Digest) (ledger : RevocationLedger) (scope : Digest)
    (upto : Nat) : Prop :=
  ∀ ops sendSeq, sendSeq ≤ upto →
    acceptContent (run (step hmac) ledger ops) scope sendSeq = .refusedBurned

theorem inForce_iff {upto : Nat} :
    InForce hmac ledger scope upto ↔ scope ∈ ledger.scopes ∧ upto ≤ (ledger.state scope).burnFloor := by
  constructor
  · intro h
    exact acceptContent_refused_iff.1 (h [] upto le_rfl)
  · rintro ⟨known, covered⟩ ops sendSeq le
    have later := @later_run hmac ledger ops
    exact acceptContent_refused_iff.2 ⟨later.known scope known,
      le.trans (covered.trans (later.state scope).burnFloor)⟩

/-- A notice with a stale epoch that is not journalled asks for nothing beyond
the floor of a scope the ledger knows. -/
def StaleIsCovered (ledger : RevocationLedger) (notice : RevocationNotice) : Prop :=
  notice.burnEpoch ≤ (ledger.state notice.scopeCommitment).lastBurnEpoch →
  (ledger.state notice.scopeCommitment).journal[notice.burnId]? = none →
    notice.scopeCommitment ∈ ledger.scopes ∧
      notice.burnUptoSeq ≤ (ledger.state notice.scopeCommitment).burnFloor

/-- An acknowledgement with `applied = true`, on any ledger calls can build, is
kept by every later ledger exactly when it is no answer to a stale notice that
reaches past the floor. -/
theorem ack_in_force_iff (ops : List Op) (key : Digest) (notice : RevocationNotice) (now : Int)
    (out : InboundOutcome) (reached : ledger = run (step hmac) {} ops)
    (answered : applyInboundRevocation hmac ledger key notice now = (ledger', .ok out))
    (acked : out.ack.applied = true) :
    InForce hmac ledger' notice.scopeCommitment notice.burnUptoSeq ↔ StaleIsCovered ledger notice := by
  have sound : Sound ledger := reached ▸ sound_run ops
  have answer := @applyInboundRevocation_answer hmac ledger key notice now
  rw [answered] at answer
  rw [inForce_iff]
  cases answer with
  | refused reason => cases acked
  | alreadyApplied entry found same =>
    constructor
    · intro _ _ fresh
      rw [fresh] at found
      cases found
    · intro _
      refine ⟨?_, same.2 ▸ (sound.entries _ _ _ found).2⟩
      -- an unknown scope has an empty journal
      by_contra unknown
      simp [state, ExtTreeMap.getElem?_eq_none unknown] at found
  | replay fresh stale => exact ⟨fun h _ _ => h, fun h => h stale fresh⟩
  | applied gates =>
    refine ⟨fun _ stale _ => absurd gates.newer (Nat.not_lt.2 stale), fun _ => ⟨?_, ?_⟩⟩
    · exact ExtTreeMap.mem_insert_self
    · rw [state_insert, if_pos rfl]
      exact le_max_right _ _

/-! A MAC short enough to evaluate: the last byte of its input, 32 times. -/

def lastByteMac (_ : Digest) (msg : List UInt8) : Digest := Vector.replicate 32 (msg.getLastD 0)

def noticeFor (burnEpoch burnUptoSeq : Nat) : RevocationNotice :=
  ⟨zeroDigest, burnEpoch, burnUptoSeq, [], burnId lastByteMac zeroDigest zeroDigest burnEpoch burnUptoSeq, 0⟩

/-- Three messages arrive and their sender burns them: the burn is in force. -/
theorem ack_in_force_first_burn :
    let ledger := run (step lastByteMac) {} [.content zeroDigest 3]
    InForce lastByteMac (applyInboundRevocation lastByteMac ledger zeroDigest (noticeFor 1 3) 7).1
      zeroDigest 3 := by
  intro ledger
  refine (ack_in_force_iff [.content zeroDigest 3] zeroDigest (noticeFor 1 3) 7
    (ackFor (noticeFor 1 3) .applied 3 []) rfl (Prod.ext rfl (by decide +kernel)) rfl).2 ?_
  intro stale
  exact absurd stale (by decide +kernel)

/-- Three messages arrive, and a legacy marker burns them under the local epoch
1. The sender's own first burn, of ten messages, is then acknowledged as applied
although message 4 is still accepted. -/
theorem ack_not_in_force_after_legacy :
    let ledger := run (step lastByteMac) {}
      [.content zeroDigest 3, .legacy zeroDigest zeroDigest 7]
    let answer := applyInboundRevocation lastByteMac ledger zeroDigest (noticeFor 1 10) 8
    answer.2 = .ok (ackFor (noticeFor 1 10) .replay 0 []) ∧
      (ackFor (noticeFor 1 10) .replay 0 []).ack.applied = true ∧
      acceptContent answer.1 zeroDigest 4 = .accept := by
  decide +kernel

end Osl.Burn
