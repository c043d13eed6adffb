import Mathlib.Tactic.DeriveEncodable
import Osl.Store.Recover

/-!
# Runs of an anchored store

Against an attacker who restores earlier files, the store opens only on recent
content. In an honest run, cut off anywhere, it opens again exactly as long as the
manifests validate, and that is up to the same calls as without an anchor.
-/

namespace Osl.Store

open Base Process

variable {E : Env} {f : File}

/-! ## Opening after a crash -/

theorem Healthy.db {db : Db} (healthy : Healthy E db f) : f.db? = some db := by
  rw [File.db?, healthy.tables]

variable {b : Nat} {db : Db} {w : World} {t : Transaction} {op : Op}

theorem validateOpened_triple :
    Triple (fun s => Attached E db b s) (validateOpened E) (fun _ _ => db.opens E.crypto E.keys) fun _ => True := by
  apply Triple.bind (Q := fun f _ => f.db? = some db)
  · exact Triple.observe fun s attached => attached.healthy.db
  intro f
  apply Triple.intro
  intro t found
  rw [found]
  exact Triple.attempt (fun _ _ ok _ => ok) fun _ _ => trivial

theorem validateOpened_sure (opens : db.opens E.crypto E.keys) {P S : World → Prop}
    (healthy : ∀ s, P s → Healthy E db s.file) : Sure P (validateOpened E) (fun _ => P) S := by
  apply Sure.observe_bind
  intro t pre
  rw [(healthy t pre).db]
  apply Sure.attempt opens
  rintro s rfl
  exact pre

section

variable (ideal : E.Ideal) (room : b + 1 < 2 ^ 64)
include ideal room

/-- Clearing the checkpoint mark. -/
theorem clearMark_sure {t : World} (attached : Attached E db b t) (plain : Plain 8 t.file) :
    Sure (fun s => s = t) (commit E (t.file.setShredCheckpointPending false))
      (fun _ s => Attached E db (b + 1) s ∧ Plain 8 s.file) (Live E db (b + 1)) := by
  have cleared : Alike (t.file.setShredCheckpointPending false) t.file := alike_mapMeta fun _ => ⟨rfl, rfl, rfl, rfl⟩
  have raw : (t.file.setShredCheckpointPending false).rawRecord = t.file.rawRecord :=
    rawRecord_mapMeta fun _ => ⟨rfl, rfl⟩
  apply (commit_sure ideal attached room (attached.healthy.alike cleared) raw (.v8 (plain.alike cleared))).mono
    (fun _ same => same)
  · rintro _ s ⟨done, alike⟩
    exact ⟨done, (plain.alike cleared).alike alike⟩
  · rintro s (rfl | live)
    · exact (attached.live (.v8 plain)).mono (Nat.le_succ b)
    · exact live

theorem syncAnchorAfterCheckpoint_sure :
    Sure (fun s => Attached E db b s ∧ Plain 8 s.file) (syncAnchorAfterCheckpoint E)
      (fun _ s => Attached E db (b + 1) s ∧ Plain 8 s.file) (Live E db (b + 1)) := by
  apply Sure.observe_bind
  rintro t ⟨attached, plain⟩
  exact clearMark_sure ideal room attached plain

theorem finishShred_sure :
    Sure (fun s => Attached E db b s ∧ Plain 8 s.file) (finishShred E)
      (fun _ s => Attached E db (b + 1) s ∧ Plain 8 s.file) (Live E db (b + 1)) := by
  apply Sure.observe_bind
  rintro t ⟨attached, plain⟩
  split
  · exact clearMark_sure ideal room attached plain
  · apply Sure.pure
    rintro s rfl
    exact ⟨attached.mono (Nat.le_succ b), plain⟩

end

theorem openAnchored_sure (ideal : E.Ideal) (room : b + 4 < 2 ^ 64)
    (opens : db.opens E.crypto E.keys) (d : OpenDraws) :
    Sure (Live E db b) (openAnchored E d) (fun _ s => Attached E db (b + 4) s ∧ Plain 8 s.file) (Live E db (b + 4)) := by
  apply Sure.bind ((bindStore_sure ideal (by omega)).mono (fun _ pre => pre) (fun _ _ post => post)
    fun _ live => live.mono (by omega))
  intro _
  apply Sure.bind (validateOpened_sure opens fun s pre => pre.1.healthy)
  intro _
  exact finishShred_sure ideal room

/-- The state can be opened again, given the time for it. -/
def Reopens (E : Env) (w : World) : Prop :=
  ∀ d, ∃ writes, ∀ more, ∃ w', openAnchored E d w.close (more + writes) = (.ok (), w', more)

theorem length_sampleNonce : sampleNonce.length = nonceSize := rfl

def sampleJournalNonce : Bytes := List.replicate 32 5

theorem length_sampleJournalNonce : sampleJournalNonce.length = 32 := rfl

def sampleOpen : OpenDraws := ⟨sampleNonce, sampleJournalNonce, length_sampleNonce, length_sampleJournalNonce⟩

/-- **After a crash only the manifests can keep a store from opening.** -/
theorem reopens_iff (ideal : E.Ideal) (room : b + 4 < 2 ^ 64)
    (live : Live E db b w) : Reopens E w ↔ db.opens E.crypto E.keys := by
  constructor
  · intro reopens
    obtain ⟨writes, returns⟩ := reopens sampleOpen
    obtain ⟨w', opened⟩ := returns 0
    have triple : Triple (Live E db b) (openAnchored E sampleOpen) (fun _ _ => db.opens E.crypto E.keys)
        fun _ => True := by
      apply Triple.bind ((bindStore_sure ideal (by omega)).triple.mono (fun _ pre => pre)
        (fun _ _ post => post.1) fun _ _ => trivial)
      intro _
      apply Triple.bind validateOpened_triple
      intro _
      exact Triple.known _
    exact (triple w.close (0 + writes) live.close).1 () w' 0 opened
  · intro opens d
    obtain ⟨_, w', writes, _, returns, _⟩ := openAnchored_sure ideal room opens d w.close live.close
    exact ⟨writes, fun more => ⟨w', returns more⟩⟩

/-! ## Calls -/

section Transactions

variable {C : Crypto} {K : Keys} {op : Op}

theorem put_idle {msg : StoredMessage} {d : PutDraws} {db next : Db}
    (burned : (db.messages.find (bi C K biMessageId msg.discordMessageId)).any (·.burned))
    (done : put C K msg d db = .ok next) : next = db := by
  obtain ⟨_, _, done⟩ := bind_ok.1 done
  obtain ⟨_, _, done⟩ := bind_ok.1 done
  rw [if_pos burned] at done
  cases done
  rfl

theorem putAttachment_idle {a : AttachmentArgs} {d : AttachmentDraws} {db next : Db}
    (burned : (db.messages.find (bi C K biMessageId a.discordMessageId)).any (·.burned) ∨
      (db.attachments.find (bi C K biCacheKey a.cacheKey)).any (·.burned))
    (done : putAttachment C K a d db = .ok next) : next = db := by
  rcases putAttachment_ok done with same | ⟨m, advanced, seq, version, ran⟩
  · exact same
  · exfalso
    rcases burned with burned | burned
    · obtain ⟨r, found, flag⟩ := Option.any_eq_true _ _ |>.1 burned
      obtain ⟨mem, own⟩ := Table.find_eq_some.1 found
      rw [ran.parent r mem own] at flag
      cases flag
    · obtain ⟨r, found, flag⟩ := Option.any_eq_true _ _ |>.1 burned
      obtain ⟨mem, own⟩ := Table.find_eq_some.1 found
      rw [ran.live r mem own] at flag
      cases flag

/-- A call has the effect of its transaction, and none without one. -/
theorem call_of_transaction {x : Option Transaction} (ok : transactionOf C K db op = .ok x) :
    call C K db op = .ok (x.elim db (·.db)) := by
  cases op with
  | put msg short d =>
    obtain ⟨next, done, rfl⟩ := map_ok.1 ok
    split
    · rename_i burned
      exact done.trans (congrArg _ (put_idle burned done))
    · exact done
  | putAttachment a short d =>
    obtain ⟨next, done, rfl⟩ := map_ok.1 ok
    split
    · rename_i burned
      exact done.trans (congrArg _ (putAttachment_idle burned done))
    · exact done
  | markBurned id =>
    obtain ⟨next, done, rfl⟩ := map_ok.1 ok
    exact done
  | wipeWrappedKeysInScope scopeId onlySender =>
    obtain ⟨r, done, rfl⟩ := map_ok.1 ok
    exact map_ok.2 ⟨r, done, rfl⟩
  | wipeAttachmentsInScope scopeId onlySender nonces =>
    obtain ⟨r, done, rfl⟩ := map_ok.1 ok
    exact map_ok.2 ⟨r, done, rfl⟩
  | deleteMessagesInChannel channelId =>
    obtain ⟨r, done, rfl⟩ := map_ok.1 ok
    exact map_ok.2 ⟨r, done, rfl⟩
  | trimAttachments keep nonces =>
    obtain ⟨r, done, rfl⟩ := map_ok.1 ok
    exact map_ok.2 ⟨r, done, rfl⟩
  | deleteAttachmentsForMessage id nonces =>
    obtain ⟨r, done, rfl⟩ := map_ok.1 ok
    refine map_ok.2 ⟨r, done, ?_⟩
    split
    · rfl
    · rfl
  | shredExpiredMessages ids =>
    obtain ⟨r, done, rfl⟩ := map_ok.1 ok
    refine map_ok.2 ⟨r, done, ?_⟩
    split
    · rename_i empty
      rw [empty] at done
      cases done
      rfl
    · rfl

/-- A call that fails has no transaction. -/
theorem transaction_of_call {db next : Db} (done : call C K db op = .ok next) :
    ∃ x, transactionOf C K db op = .ok x := by
  cases op with
  | put msg short d => exact ⟨_, map_ok.2 ⟨next, done, rfl⟩⟩
  | putAttachment a short d => exact ⟨_, map_ok.2 ⟨next, done, rfl⟩⟩
  | markBurned id => exact ⟨_, map_ok.2 ⟨next, done, rfl⟩⟩
  | wipeWrappedKeysInScope scopeId onlySender => exact map_succeeds done
  | wipeAttachmentsInScope scopeId onlySender nonces => exact map_succeeds done
  | deleteMessagesInChannel channelId => exact map_succeeds done
  | trimAttachments keep nonces => exact map_succeeds done
  | deleteAttachmentsForMessage id nonces => exact map_succeeds done
  | shredExpiredMessages ids => exact map_succeeds done

end Transactions

/-- What a world of an honest run holds. -/
structure Tracked (E : Env) (b : Nat) (db : Db) (w : World) : Prop where
  sound : Sound E.crypto E.keys db
  numbered : Numbered db
  live : Live E db b w
  bound : w.current.isSome → Attached E db b w ∧ Plain 8 w.file

theorem Tracked.mono {b b' : Nat} (tracked : Tracked E b db w) (le : b ≤ b') : Tracked E b' db w :=
  ⟨tracked.sound, tracked.numbered, tracked.live.mono le, fun current =>
    ⟨(tracked.bound current).1.mono le, (tracked.bound current).2⟩⟩

theorem Tracked.close (tracked : Tracked E b db w) : Tracked E b db w.close :=
  ⟨tracked.sound, tracked.numbered, tracked.live.close, by rintro ⟨⟩⟩

theorem withTransaction_alike (healthy : Healthy E db f) (plain : Plain 8 f) :
    Healthy E t.db (f.withTransaction t) ∧ Plain 8 (f.withTransaction t) ∧
      (f.withTransaction t).rawRecord = f.rawRecord := by
  obtain ⟨nonce, ct, stored, sealed, verified⟩ := healthy.canary
  obtain ⟨m, tables⟩ := f
  cases m with
  | none => cases stored
  | some m => exact ⟨⟨rfl, nonce, ct, stored, sealed, verified⟩, plain, rfl⟩

/-- The commits of a call with a transaction. -/
theorem transact_begun (ideal : E.Ideal) (room : b + 2 < 2 ^ 64)
    (attached : Attached E db b w) (plain : Plain 8 w.file)
    (ok : transactionOf E.crypto E.keys db op = .ok (some t)) :
    callAnchored E op w 0 = (.error .crash, w, 0) ∧ ∃ (m : Proc Unit) (w' : World),
      (∀ n, callAnchored E op w (n + 1) = m w' n) ∧ Sure (fun s => s = w') m
        (fun _ s => Attached E t.db (b + 2) s ∧ Plain 8 s.file) (Live E t.db (b + 2)) := by
  obtain ⟨healthy, plain', raw⟩ := withTransaction_alike attached.healthy plain
  obtain ⟨none, m, w', begun, rest⟩ := commit_begun ideal attached (by omega) healthy raw (.v8 plain')
  have called : ∀ n, callAnchored E op w n = (commit E (w.file.withTransaction t) >>= fun _ =>
      if t.syncs then syncAnchorAfterCheckpoint E else pure ()) w n := by
    intro n
    have looked : callAnchored E op w n = callOn E op w.file w.file.db? w n := rfl
    rw [looked, attached.healthy.db]
    have attempted : callOn E op w.file (some db) w n =
        (attempt (transactionOf E.crypto E.keys db op) >>= transact E w.file) w n := rfl
    rw [attempted, ok]
    rfl
  refine ⟨?_, m >>= fun _ => if t.syncs then syncAnchorAfterCheckpoint E else pure (), w', ?_, ?_⟩
  · rw [called 0]
    exact bind_error none _
  · intro n
    rw [called (n + 1)]
    exact bind_congr (begun n)
  · apply Sure.bind (rest.mono (fun _ same => same) (fun _ _ post => post) fun _ live => live.mono (by omega))
    intro _
    split
    · apply (syncAnchorAfterCheckpoint_sure ideal (by omega)).mono _ (fun _ _ post => post) fun _ live => live
      rintro s ⟨done, alike⟩
      exact ⟨done, plain'.alike alike⟩
    · apply Sure.pure
      rintro s ⟨done, alike⟩
      exact ⟨done.mono (by omega), plain'.alike alike⟩

/-- A call that commits nothing leaves the world. -/
theorem callAnchored_idle (found : w.file.db? = some db)
    (idle : ∀ t, transactionOf E.crypto E.keys db op ≠ .ok (some t)) (n : Nat) :
    calledWorld (callAnchored E op w n) = w := by
  have looked : callAnchored E op w n = callOn E op w.file w.file.db? w n := rfl
  rw [looked, found]
  have attempted : callOn E op w.file (some db) w n =
      (attempt (transactionOf E.crypto E.keys db op) >>= transact E w.file) w n := rfl
  rw [attempted]
  cases outcome : transactionOf E.crypto E.keys db op with
  | error e => rfl
  | ok x =>
    cases x with
    | none => rfl
    | some t => exact absurd outcome (idle t)

/-- What a call leaves, cut off before its first write or after it. -/
theorem call_tracked (ideal : E.Ideal) (room : b + 2 < 2 ^ 64)
    (tracked : Tracked E b db w) (current : w.current.isSome) (op : Op) :
    Tracked E (b + 2) db (anchoredStep E w (.call op 0)) ∧
      ∀ n, Tracked E (b + 2) (step E.crypto E.keys db op) (anchoredStep E w (.call op (n + 1))) := by
  obtain ⟨attached, plain⟩ := tracked.bound current
  have stepped : ∀ n, anchoredStep E w (.call op n) = calledWorld (callAnchored E op w n) := fun n => if_pos current
  have sound := step_sound (C := E.crypto) (K := E.keys) db op tracked.sound
  have numbered := step_numbered (C := E.crypto) (K := E.keys) db op tracked.numbered
  by_cases commits : ∃ t, transactionOf E.crypto E.keys db op = .ok (some t)
  · obtain ⟨t, ok⟩ := commits
    have after : step E.crypto E.keys db op = t.db := by rw [step, call_of_transaction ok]; rfl
    obtain ⟨none, m, w', begun, rest⟩ := transact_begun ideal room attached plain ok
    constructor
    · rw [stepped, none]
      exact (tracked.mono (by omega)).close
    · intro n
      rw [stepped, begun]
      rw [after] at sound numbered ⊢
      rcases rest.cases rfl n with ⟨_, s, _, ran, done, plain'⟩ | ⟨s, ran, live⟩
      · rw [ran]
        exact ⟨sound, numbered, done.live (.v8 plain'), fun _ => ⟨done, plain'⟩⟩
      · rw [ran]
        exact ⟨sound, numbered, live.close, by rintro ⟨⟩⟩
  · have idle := callAnchored_idle attached.healthy.db fun t ok => commits ⟨t, ok⟩
    have same : step E.crypto E.keys db op = db := by
      cases done : call E.crypto E.keys db op with
      | error e => rw [step, done]
      | ok next =>
        obtain ⟨x, ok⟩ := transaction_of_call done
        cases x with
        | none => rw [step, call_of_transaction ok]; rfl
        | some t => exact absurd ⟨t, ok⟩ commits
    constructor
    · rw [stepped, idle]
      exact tracked.mono (by omega)
    · intro n
      rw [stepped, idle, same]
      exact tracked.mono (by omega)

/-! ## Runs -/

/-- Nobody touches the file but the store. -/
def Action.Honest : Action → Prop
  | .replace _ => False
  | _ => True

/-- A call that gets to write does not take a manifest's rows or owner from under it. -/
def CommitsSafely (E : Env) (w : World) : Action → Prop
  | .call op writes => 0 < writes → w.current.isSome → ∀ db, w.file.db? = some db → KeepsOpen E.crypto E.keys db op
  | _ => True

theorem anchoredStep_tracked (ideal : E.Ideal) {a : Action} (room : b + 4 < 2 ^ 64)
    (honest : a.Honest) (tracked : Tracked E b db w) (opens : db.opens E.crypto E.keys) :
    ∃ db', Tracked E (b + 4) db' (anchoredStep E w a) ∧ (db'.opens E.crypto E.keys ↔ CommitsSafely E w a) := by
  cases a with
  | «open» d writes =>
    refine ⟨db, ?_, iff_of_true opens trivial⟩
    rw [anchoredStep]
    split
    · exact tracked.mono (by omega)
    · rcases (openAnchored_sure ideal room opens d).cases tracked.live writes with
        ⟨_, s, _, ran, done, plain⟩ | ⟨s, ran, live⟩
      · rw [ran]
        exact ⟨tracked.sound, tracked.numbered, done.live (.v8 plain), fun _ => ⟨done, plain⟩⟩
      · rw [ran]
        exact ⟨tracked.sound, tracked.numbered, live.close, by rintro ⟨⟩⟩
  | call op writes =>
    by_cases current : w.current.isSome
    · obtain ⟨first, later⟩ := call_tracked ideal (by omega) tracked current op
      have found := (tracked.bound current).1.healthy.db
      cases writes with
      | zero => exact ⟨db, first.mono (by omega), iff_of_true opens fun none => absurd none (Nat.lt_irrefl 0)⟩
      | succ n =>
        refine ⟨step E.crypto E.keys db op, (later n).mono (by omega), ?_⟩
        rw [step_opens_iff ideal.crypto db op ⟨tracked.sound, tracked.numbered⟩ opens]
        constructor
        · intro keeps _ _ db' found'
          obtain rfl : db = db' := Option.some.inj (found.symm.trans found')
          exact keeps
        · intro safe
          exact safe (Nat.succ_pos n) current db found
    · have same : anchoredStep E w (.call op writes) = w := if_neg current
      rw [same]
      exact ⟨db, tracked.mono (by omega), iff_of_true opens fun _ held => absurd held current⟩
  | close => exact ⟨db, tracked.close.mono (by omega), iff_of_true opens trivial⟩
  | replace f => exact absurd honest id

/-- A world a run may start from: nothing yet, an unanchored store of schema 7 or 8,
or an anchored one. `ops` are the calls that made it. -/
inductive Start (E : Env) : Db → World → Prop where
  | new : Start E .fresh ⟨none, none, none, [], [], 0⟩
  | unanchored (ops : List Op) (f : File)
    (healthy : Healthy E (run (step E.crypto E.keys) .fresh ops) f) (raw : f.rawRecord = .ok none)
    (plain : Plain 7 f ∨ Plain 8 f) :
    Start E (run (step E.crypto E.keys) .fresh ops) ⟨some f, none, none, [f], [], 0⟩
  | anchored (ops : List Op) (f : File) (r : AnchorRecord)
    (healthy : Healthy E (run (step E.crypto E.keys) .fresh ops) f) (record : E.record f = .ok (some r))
    (plain : Plain 7 f ∨ Plain 8 f) :
    Start E (run (step E.crypto E.keys) .fresh ops) ⟨some f, some r, none, [f], [(f.content, r)], 1⟩

def World.generation (w : World) : Nat := (w.anchor.map (·.generation)).getD 0

theorem tracked_start (start : Start E db w) : Tracked E w.generation db w := by
  have made : ∀ ops, Sound E.crypto E.keys (run (step E.crypto E.keys) .fresh ops) ∧
      Numbered (run (step E.crypto E.keys) .fresh ops) := fun ops =>
    ⟨run_invariant step_sound sound_fresh ops, run_invariant step_numbered numbered_fresh ops⟩
  cases start with
  | new =>
    have blank : Blank E .empty := ⟨rfl, rfl, rfl, .inr ⟨rfl, rfl⟩⟩
    exact ⟨sound_fresh, numbered_fresh, .inl ⟨rfl, rfl, .inl ⟨rfl, blank⟩⟩, by rintro ⟨⟩⟩
  | unanchored ops f healthy raw plain =>
    exact ⟨(made ops).1, (made ops).2, .inl ⟨rfl, raw, .inr ⟨healthy, plain⟩⟩, by rintro ⟨⟩⟩
  | anchored ops f r healthy record plain =>
    refine ⟨(made ops).1, (made ops).2, .inr ⟨r, ⟨healthy, record, le_rfl⟩, ?_, .inl rfl⟩, by rintro ⟨⟩⟩
    rcases plain with v7 | v8
    · exact .v7 v7
    · exact .v8 v8

theorem history_start (ideal : E.Ideal) (start : Start E db w) : History E w := by
  cases start with
  | new =>
    refine ⟨by rintro x ⟨⟩, by rintro f ⟨⟩, by rintro f ⟨⟩, fun _ => ⟨rfl, by rintro x ⟨⟩⟩, by rintro r ⟨⟩,
      by rintro cur ⟨⟩⟩
  | unanchored ops f healthy raw plain =>
    refine ⟨by rintro x ⟨⟩, ?_, ?_, fun _ => ⟨rfl, by rintro x ⟨⟩⟩, by rintro r ⟨⟩, by rintro cur ⟨⟩⟩
    · intro g mem l read
      rw [List.mem_singleton.1 mem] at read
      rw [(record_ok.1 read).1] at raw
      cases raw
    · rintro g ⟨⟩
      exact List.mem_cons_self
  | anchored ops f r healthy record plain =>
    refine ⟨?_, ?_, ?_, by rintro ⟨⟩, ?_, by rintro cur ⟨⟩⟩
    · intro x mem
      rw [List.mem_singleton.1 mem]
      exact ⟨f.content_content, (digest_content ideal).trans (record_ok.1 record).2⟩
    · intro g mem l read
      rw [List.mem_singleton.1 mem] at read ⊢
      obtain rfl : r = l := Option.some.inj (Except.ok.inj (record.symm.trans read))
      exact List.mem_cons_self
    · rintro g ⟨⟩
      exact List.mem_cons_self
    · rintro q ⟨⟩
      exact ⟨0, @held_last _ [] _ _ (Nat.le_refl 1) fun x mem => absurd mem List.not_mem_nil⟩

/-- The honest runs that can be opened again at every point. -/
theorem run_reopens_iff (ideal : E.Ideal) (start : Start E db w) (opens : db.opens E.crypto E.keys)
    {acts : List Action} (honest : ∀ a ∈ acts, a.Honest) (room : w.generation + 4 * acts.length + 4 < 2 ^ 64) :
    (∀ pre, pre <+: acts → Reopens E (run (anchoredStep E) w pre)) ↔
      AllSteps (anchoredStep E) (CommitsSafely E) w acts := by
  have tracked := tracked_start start
  apply run_prefix_iff_within (A := Action.Honest) (N := acts.length)
    (I := fun n s => ∃ db, Tracked E (w.generation + 4 * n) db s) (P := Reopens E) _ _ ⟨db, tracked⟩ _ honest
    (Nat.zero_add _).le
  · rintro n s a short honest ⟨db, tracked⟩ reopens
    have opens := (reopens_iff ideal (by omega) tracked.live).1 reopens
    obtain ⟨db', next, _⟩ := anchoredStep_tracked ideal (by omega) honest tracked opens
    exact ⟨db', next⟩
  · rintro n s a short honest ⟨db, tracked⟩ reopens
    have opens := (reopens_iff ideal (by omega) tracked.live).1 reopens
    obtain ⟨db', next, safe⟩ := anchoredStep_tracked ideal (by omega) honest tracked opens
    exact (reopens_iff ideal (by omega) next.live).trans safe
  · exact (reopens_iff ideal (by omega) tracked.live).2 opens

/-- **A store opens only on recent content, however earlier files are restored,
and an honest run can be opened again after a crash anywhere exactly as long as
every call that writes keeps the manifests valid.** -/
theorem anchored_runs (ideal : E.Ideal) {db : Db} {w : World} (start : Start E db w)
    (opens : db.opens E.crypto E.keys) :
    (∀ acts, AllSteps (anchoredStep E) Restores w acts → Accepts E (run (anchoredStep E) w acts) →
      Recent (run (anchoredStep E) w acts) (run (anchoredStep E) w acts).file) ∧
    ∀ acts : List Action, (∀ a ∈ acts, a.Honest) → w.generation + 4 * acts.length + 4 < 2 ^ 64 →
      ((∀ pre, pre <+: acts → Reopens E (run (anchoredStep E) w pre)) ↔
        AllSteps (anchoredStep E) (CommitsSafely E) w acts) := by
  constructor
  · intro acts restores accepts
    have history : History E (run (anchoredStep E) w acts) :=
      run_invariant_of (fun s a => anchoredStep_history ideal) (history_start ideal start) restores
    exact recent_of_accepts ideal history accepts
  · intro acts honest room
    exact run_reopens_iff ideal start opens honest room

/-- The digest does not cover the generation: an earlier file whose generation field
is set to the one after the anchored is taken for the successor. -/
theorem edited_generation_adopted (ideal : E.Ideal) {l r : AnchorRecord} (bound : E.record f = .ok (some l))
    (anchor : w.anchor = some r) (room : r.generation + 1 < 2 ^ 64)
    (disk : w.disk = some (f.writeRecord ⟨r.generation + 1, l.digest⟩)) :
    Sure (fun s => s = w) (reconcileExisting E) (fun binding _ => binding = some ⟨r.generation + 1, l.digest⟩)
      fun s => s = w := by
  obtain ⟨raw, digest⟩ := record_ok.1 bound
  have file : w.file = f.writeRecord ⟨r.generation + 1, l.digest⟩ := by rw [World.file, disk]; rfl
  have record : E.record w.file = .ok (some ⟨r.generation + 1, l.digest⟩) := by
    rw [file]
    exact record_writeRecord ideal (File.metaTable_of_rawRecord raw) room digest
  have taken := reconcileExisting_sure record room (.inr (.inr ⟨r, anchor, rfl⟩))
  exact taken.mono (fun _ same => same) (fun _ _ post => post.1) fun _ same => same

/-! ## A sample environment -/

deriving instance Encodable for MessageRow
deriving instance Encodable for AttachmentRow
deriving instance Encodable for ManifestRow
deriving instance Encodable for Db
deriving instance Encodable for Meta
deriving instance Encodable for Tables
deriving instance Encodable for File

def sampleEnv : Env where
  crypto := symbolicCrypto
  identitySecret := []
  encode f := [Encodable.encode f.content]
  legacy _ := .error (.schema "no legacy store")

theorem sampleEnv_ideal : sampleEnv.Ideal where
  crypto := symbolicCrypto_ideal
  encode f g := by
    constructor
    · intro same
      exact Encodable.encode_injective (List.head_eq_of_cons_eq same)
    · intro same
      exact congrArg (fun c => [Encodable.encode c]) same
  legacy := by rintro f files ⟨⟩

/-- An earlier file with its generation set to 8, while 7 is anchored. -/
theorem edited_generation_adopted_sample :
    let f : File := ⟨some .empty, .current .fresh⟩
    let d := sampleEnv.anchorDigest (sampleEnv.encode f)
    let w : World := ⟨some ((f.writeRecord ⟨3, d⟩).writeRecord ⟨8, d⟩), some ⟨7, []⟩, none, [], [], 0⟩
    Sure (fun s => s = w) (reconcileExisting sampleEnv) (fun binding _ => binding = some ⟨8, d⟩) fun s => s = w :=
  edited_generation_adopted sampleEnv_ideal (r := ⟨7, []⟩)
    (record_writeRecord sampleEnv_ideal (r := ⟨3, _⟩) rfl (by decide) rfl) rfl (by decide) rfl

/-- Enrolment cut off four times, and a commit cut off between its two writes. -/
theorem interrupted_run_reopens : sampleEnv.Ideal ∧ ∀ pre,
    pre <+: [.open sampleOpen 1, .open sampleOpen 1, .open sampleOpen 2, .open sampleOpen 1, .open sampleOpen 9,
      .call (sampleStore false) 1, .open sampleOpen 9, .call (.markBurned "1") 3] →
    Reopens sampleEnv (run (anchoredStep sampleEnv) ⟨none, none, none, [], [], 0⟩ pre) := by
  refine ⟨sampleEnv_ideal, ((anchored_runs sampleEnv_ideal .new opens_fresh).2 _ ?_ (by decide)).2
    (allSteps_of_forall ?_)⟩
  · intro a mem
    simp only [List.mem_cons, List.not_mem_nil, or_false] at mem
    rcases mem with rfl | rfl | rfl | rfl | rfl | rfl | rfl | rfl <;> trivial
  · intro a mem w
    simp only [List.mem_cons, List.not_mem_nil, or_false] at mem
    rcases mem with rfl | rfl | rfl | rfl | rfl | rfl | rfl | rfl
    · trivial
    · trivial
    · trivial
    · trivial
    · trivial
    · rintro _ _ db _ _ ⟨⟩
    · trivial
    · intro _ _ db _ _
      trivial

/-- An honest run with no crash at all: the store is opened, an attachment cached,
its message stored as burned. -/
theorem flagged_put_blocks_anchored_open : ∃ writes, ¬Reopens sampleEnv (run (anchoredStep sampleEnv)
    ⟨none, none, none, [], [], 0⟩
    [.open sampleOpen writes, .call sampleAttach writes, .call (sampleStore true) writes]) := by
  have ideal := sampleEnv_ideal
  have start := tracked_start (E := sampleEnv) .new
  obtain ⟨_, opened, k, ⟨attached, plain⟩, ran, _⟩ :=
    openAnchored_sure ideal (b := 0) (by decide) opens_fresh sampleOpen _ start.live
  obtain ⟨db, done, _, rows, _⟩ := run_attach_flagged sampleEnv.crypto sampleEnv.keys
  obtain ⟨x, ok⟩ := transaction_of_call done
  cases x with
  | none =>
    have same := done.symm.trans (call_of_transaction ok)
    cases same
    cases rows
  | some t =>
    obtain rfl : db = t.db := Except.ok.inj (done.symm.trans (call_of_transaction ok))
    obtain ⟨_, m, begunAt, begun, rest⟩ := transact_begun ideal (b := 4) (by decide) attached plain ok
    obtain ⟨_, cached, j, ⟨attached', plain'⟩, ran', _⟩ := rest begunAt rfl
    refine ⟨k + j + 1, fun reopens => ?_⟩
    have first : anchoredStep sampleEnv ⟨none, none, none, [], [], 0⟩ (.open sampleOpen (k + j + 1)) = opened := by
      have whole := ran (j + 1)
      rw [show j + 1 + k = k + j + 1 by omega] at whole
      rw [anchoredStep, if_neg (by decide), whole]
      rfl
    have second : anchoredStep sampleEnv opened (.call sampleAttach (k + j + 1)) = cached := by
      obtain ⟨l, _, _, current⟩ := attached
      rw [anchoredStep, if_pos (by rw [current]; rfl), begun (k + j), ran' k]
      rfl
    have tracked : Tracked sampleEnv 6 t.db cached :=
      ⟨putAttachment_sound sound_fresh done, putAttachment_numbered numbered_fresh done, attached'.live (.v8 plain'),
        fun _ => ⟨attached', plain'⟩⟩
    have current : cached.current.isSome := by
      obtain ⟨l, _, _, current⟩ := attached'
      rw [current]
      rfl
    have last := (call_tracked ideal (by decide) tracked current (sampleStore true)).2 (k + j)
    rw [run_cons, run_cons, run_cons, run_nil, first, second, reopens_iff ideal (by decide) last.live] at reopens
    have before : run (step sampleEnv.crypto sampleEnv.keys) Db.fresh [sampleAttach, sampleStore true] =
        step sampleEnv.crypto sampleEnv.keys t.db (sampleStore true) := by
      rw [run_cons, run_cons, run_nil, show step sampleEnv.crypto sampleEnv.keys Db.fresh sampleAttach = t.db by
        rw [step, done]]
    exact not_opens_flagged (before ▸ reopens)

end Osl.Store
