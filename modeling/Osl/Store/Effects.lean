import Osl.Store.Model

/-!
# What a committed call of the store did

One lemma for each call: the checks it passed and the rows it left. Everything
later about runs of a store is stated over these, none of it unfolds a call.
-/

namespace Osl.Store

open Base Table

variable {C : Crypto} {K : Keys} {db : Db} {r : MessageRow} {p : MessageRow → Bool} {m next : AttachmentManifest}

/-! ## Rows after a statement -/

theorem mem_shredMessages :
    r ∈ (db.shredMessages p).messages ↔
      (∃ r' ∈ db.messages, p r' = true ∧ r = r'.shred) ∨ r ∈ db.messages ∧ p r = false :=
  @Table.mem_update _ _ _ _ _ MessageRow.shred (fun _ => rfl) _

theorem mem_shredAttachments {p : AttachmentRow → Bool} {a : AttachmentRow} :
    a ∈ (db.shredAttachments p).attachments ↔
      (∃ a' ∈ db.attachments, p a' = true ∧ a = a'.shred) ∨ a ∈ db.attachments ∧ p a = false :=
  @Table.mem_update _ _ _ _ _ AttachmentRow.shred (fun _ => rfl) _

theorem required_ok {α : Type} {x : Option α} {text : String} {a : α} : required x text = .ok a ↔ x = some a := by
  cases x <;> simp [required]

/-! ## Manifests -/

theorem advance_ok {entries : List AttachmentManifestEntry} (done : m.advance entries = .ok next) :
    next.entries = entries ∧ next.complete = m.complete ∧ next.generation.1 = m.generation.1 + 1 := by
  unfold AttachmentManifest.advance at done
  cases found : m.generation.next? with
  | none =>
    rw [found] at done
    cases done
  | some generation =>
    rw [found] at done
    cases done
    exact ⟨rfl, rfl, I64.next?_val found⟩

/-- The manifest of `midBi` was replaced by a seal of `m`; no other row changed. -/
structure Wrote (C : Crypto) (K : Keys) (db : Db) (midBi : Bytes) (m : AttachmentManifest) (nonce : Bytes)
    (next : Db) : Prop where
  positive : 1 ≤ m.generation.1
  after : next = { db with manifests := db.manifests.put ⟨midBi, m.complete, m.generation, nonce,
    sealWith C K.key (attachmentManifestAad midBi m.complete m.generation) nonce (encodeAttachmentManifest m)⟩ }

variable {next : Db} {midBi k : Bytes} {nonce : Bytes → Bytes} {mids : List Bytes} {msg : StoredMessage} {d : PutDraws}
  {version seq : I64} {n keep : Nat} {scopeId channelId : String} {onlySender : Option String}

theorem writeAttachmentManifest_ok {nonce : Bytes}
    (done : writeAttachmentManifest C K db midBi m nonce = .ok next) : Wrote C K db midBi m nonce next := by
  obtain ⟨ciphertext, sealed, after⟩ := bind_ok.1 done
  unfold sealAttachmentManifest at sealed
  split at sealed
  · cases sealed
  · rename_i positive
    cases sealed
    cases after
    exact ⟨by omega, rfl⟩

theorem transitionManifestToEmpty_ok {nonce : Bytes}
    (done : transitionManifestToEmpty C K db midBi nonce = .ok next) :
    ∃ m empty, validateAttachmentManifest C K db midBi = .ok m ∧ empty.entries = [] ∧
      Wrote C K db midBi empty nonce next := by
  obtain ⟨m, valid, done⟩ := bind_ok.1 done
  obtain ⟨empty, advanced, done⟩ := bind_ok.1 done
  exact ⟨m, empty, valid, (advance_ok advanced).1, writeAttachmentManifest_ok done⟩

/-- The manifests of a list of messages were replaced in turn, each by one with `P`. -/
inductive Rewrote (C : Crypto) (K : Keys) (nonce : Bytes → Bytes) (P : Db → Bytes → AttachmentManifest → Prop) :
    List Bytes → Db → Db → Prop where
  | nil (db : Db) : Rewrote C K nonce P [] db db
  | cons {midBi : Bytes} {mids : List Bytes} {m : AttachmentManifest} {db between next : Db} (holds : P db midBi m)
      (wrote : Wrote C K db midBi m (nonce midBi) between) (rest : Rewrote C K nonce P mids between next) :
      Rewrote C K nonce P (midBi :: mids) db next

theorem Rewrote.rows {P : Db → Bytes → AttachmentManifest → Prop} (rewrote : Rewrote C K nonce P mids db next) :
    next.messages = db.messages ∧ next.attachments = db.attachments := by
  induction rewrote with
  | nil => exact ⟨rfl, rfl⟩
  | cons holds wrote rest ih =>
    rw [ih.1, ih.2, wrote.after]
    exact ⟨rfl, rfl⟩

theorem emptyManifests_ok (done : emptyManifests C K nonce mids db = .ok next) :
    Rewrote C K nonce (fun _ _ m => m.entries = []) mids db next := by
  induction mids generalizing db with
  | nil =>
    cases done
    exact .nil _
  | cons midBi mids ih =>
    obtain ⟨between, first, rest⟩ := bind_ok.1 done
    obtain ⟨m, empty, -, none, wrote⟩ := transitionManifestToEmpty_ok first
    exact .cons none wrote (ih rest)

theorem trimManifests_ok {victims : List AttachmentRow} (done : trimManifests C K victims nonce mids db = .ok next) :
    Rewrote C K nonce (fun db midBi m => ∃ old, validateAttachmentManifest C K db midBi = .ok old ∧
      m.entries = old.entries.filter fun e => !victims.any fun v => v.midBi = midBi && v.ckBi = e.ckBi) mids db next := by
  induction mids generalizing db with
  | nil =>
    cases done
    exact .nil _
  | cons midBi mids ih =>
    obtain ⟨m, valid, done⟩ := bind_ok.1 done
    obtain ⟨kept, advanced, done⟩ := bind_ok.1 done
    obtain ⟨between, written, rest⟩ := bind_ok.1 done
    exact .cons ⟨m, valid, (advance_ok advanced).1⟩ (writeAttachmentManifest_ok written) (ih rest)

/-! ## Storing -/

/-- The checks of a `put` that did something. -/
structure PutChecks (C : Crypto) (K : Keys) (msg : StoredMessage) (db : Db) (version seq : I64) : Prop where
  id : checkId "discord_message_id" msg.discordMessageId = .ok ()
  live : ∀ r ∈ db.messages, r.midBi = bi C K biMessageId msg.discordMessageId → r.burned = false
  manifest : ∀ r ∈ db.messages, r.midBi = bi C K biMessageId msg.discordMessageId →
    ∃ m, validateAttachmentManifest C K db (bi C K biMessageId msg.discordMessageId) = .ok m
  version : nextContentVersion C K msg (db.messages.find (bi C K biMessageId msg.discordMessageId)) = .ok version
  seq : nextSeq (db.messages.rows.map (·.seq)) = .ok seq

theorem put_ok (done : put C K msg d db = .ok next) :
    ((∃ r ∈ db.messages, r.midBi = bi C K biMessageId msg.discordMessageId ∧ r.burned = true) ∧ next = db) ∨
    ∃ version seq, PutChecks C K msg db version seq ∧
      ((msg.burned = true ∧
          next = putBurned C K db msg (bi C K biMessageId msg.discordMessageId) version seq d) ∨
        (msg.burned = false ∧
          putLive C K db msg (bi C K biMessageId msg.discordMessageId) version seq d = .ok next)) := by
  obtain ⟨⟨⟩, id, done⟩ := bind_ok.1 done
  obtain ⟨seq, seqOk, done⟩ := bind_ok.1 done
  set midBi := bi C K biMessageId msg.discordMessageId with mid
  have finish : ∀ {version : I64}, (if msg.burned = true then
      (.ok (putBurned C K db msg midBi version seq d) : Result Db)
      else putLive C K db msg midBi version seq d) = .ok next →
      (msg.burned = true ∧ next = putBurned C K db msg midBi version seq d) ∨
        (msg.burned = false ∧ putLive C K db msg midBi version seq d = .ok next) := by
    intro version done
    cases flag : msg.burned with
    | true =>
      rw [flag, if_pos rfl] at done
      cases done
      exact .inl ⟨rfl, rfl⟩
    | false =>
      rw [flag, if_neg (by simp)] at done
      exact .inr ⟨rfl, done⟩
  cases found : db.messages.find midBi with
  | none =>
    simp only [found, Option.any_none, Bool.false_eq_true, if_false, Option.isSome_none] at done
    obtain ⟨version, versionOk, done⟩ := bind_ok.1 done
    have absent := find_eq_none.1 found
    refine .inr ⟨version, seq, ⟨id, ?_, ?_, ?_, seqOk⟩, finish done⟩
    · intro r mem same
      exact absurd same (absent r mem)
    · intro r mem same
      exact absurd same (absent r mem)
    · rw [← mid, found]
      exact versionOk
  | some old =>
    obtain ⟨mem, same⟩ := find_eq_some.1 found
    cases burned : old.burned with
    | true =>
      simp only [found, Option.any_some, burned, if_true] at done
      cases done
      exact .inl ⟨⟨old, mem, same, burned⟩, rfl⟩
    | false =>
      simp only [found, Option.any_some, burned, Bool.false_eq_true, if_false, Option.isSome_some,
        if_true] at done
      obtain ⟨m, valid, done⟩ := bind_ok.1 done
      obtain ⟨version, versionOk, done⟩ := bind_ok.1 done
      refine .inr ⟨version, seq, ⟨id, ?_, ?_, ?_, seqOk⟩, finish done⟩
      · intro r mem' same'
        rw [eq_of_key mem' mem (same'.trans same.symm)]
        exact burned
      · intro r _ _
        exact ⟨m, valid⟩
      · rw [← mid, found]
        exact versionOk

/-- The two ways `putLive` ends: the message had a manifest, or gets an empty one. -/
theorem putLive_ok (done : putLive C K db msg midBi version seq d = .ok next) :
    ∃ seq stored, stored = { db with messages := db.messages.put (sealedRow C K msg midBi version seq d) } ∧
      ((∃ m, readAttachmentManifest C K db midBi = .ok (some m)) ∧ next = stored ∨
        readAttachmentManifest C K db midBi = .ok none ∧
          Wrote C K stored midBi ⟨true, I64.one, []⟩ d.manifestNonce next) := by
  obtain ⟨manifest, read, done⟩ := bind_ok.1 done
  refine ⟨((db.messages.find midBi).map (·.seq)).getD seq, _, rfl, ?_⟩
  cases manifest with
  | some m =>
    cases done
    exact .inl ⟨⟨m, read⟩, rfl⟩
  | none => exact .inr ⟨read, writeAttachmentManifest_ok done⟩

theorem putLive_rows (done : putLive C K db msg midBi version seq d = .ok next) :
    (∃ seq, next.messages = db.messages.put (sealedRow C K msg midBi version seq d)) ∧
      next.attachments = db.attachments := by
  obtain ⟨seq, stored, rfl, ⟨-, rfl⟩ | ⟨-, wrote⟩⟩ := putLive_ok done
  · exact ⟨⟨seq, rfl⟩, rfl⟩
  · rw [wrote.after]
    exact ⟨⟨seq, rfl⟩, rfl⟩

/-- Every row of a `put` with the burned flag: other rows as they were, its own shredded. -/
theorem mem_putBurned (mem : r ∈ (putBurned C K db msg midBi version seq d).messages) :
    (r ∈ db.messages ∧ r.midBi ≠ midBi) ∨
      ∃ r', r = r'.shred ∧ r'.midBi = midBi ∧ (r' ∈ db.messages ∨
        r' = burnedStub C K msg midBi version seq d ∧ ∀ old ∈ db.messages, old.midBi ≠ midBi) := by
  change r ∈ Db.messages (Db.shredMessages _ _) at mem
  cases found : db.messages.find midBi with
  | some old =>
    simp only [found] at mem
    rcases mem_shredMessages.1 mem with ⟨r', mem', own, rfl⟩ | ⟨mem', other⟩
    · exact .inr ⟨r', rfl, of_decide_eq_true own, .inl mem'⟩
    · exact .inl ⟨mem', of_decide_eq_false other⟩
  | none =>
    simp only [found] at mem
    rcases mem_shredMessages.1 mem with ⟨r', mem', own, rfl⟩ | ⟨mem', other⟩
    · rcases mem_put.1 mem' with rfl | ⟨mem', -⟩
      · exact .inr ⟨_, rfl, rfl, .inr ⟨rfl, find_eq_none.1 found⟩⟩
      · exact .inr ⟨r', rfl, of_decide_eq_true own, .inl mem'⟩
    · rcases mem_put.1 mem' with rfl | ⟨mem', -⟩
      · exact absurd rfl (of_decide_eq_false other)
      · exact .inl ⟨mem', of_decide_eq_false other⟩

/-- It leaves a burned row whatever was there. -/
theorem exists_putBurned (msg : StoredMessage) (midBi : Bytes) (version seq : I64) (d : PutDraws) (db : Db) :
    ∃ r ∈ (putBurned C K db msg midBi version seq d).messages, r.midBi = midBi ∧ r.burned = true := by
  change ∃ r ∈ Db.messages (Db.shredMessages _ _), _
  cases found : db.messages.find midBi with
  | some old =>
    obtain ⟨mem, same⟩ := find_eq_some.1 found
    exact ⟨old.shred, mem_shredMessages.2 (.inl ⟨old, mem, decide_eq_true same, rfl⟩), same, rfl⟩
  | none =>
    refine ⟨(burnedStub C K msg midBi version seq d).shred, mem_shredMessages.2 (.inl ⟨_, ?_, ?_, rfl⟩), rfl, rfl⟩
    · exact mem_put.2 (.inl rfl)
    · exact decide_eq_true rfl

theorem putBurned_kept (mem : r ∈ db.messages) (other : r.midBi ≠ midBi) :
    r ∈ (putBurned C K db msg midBi version seq d).messages := by
  refine mem_shredMessages.2 (.inr ⟨?_, decide_eq_false other⟩)
  cases found : db.messages.find midBi with
  | some old => exact mem
  | none => exact mem_put.2 (.inr ⟨mem, other⟩)

/-! ## Attachments -/

/-- The checks of a `put_attachment` that did something, and what it wrote. -/
structure AttachRun (C : Crypto) (K : Keys) (a : AttachmentArgs) (d : AttachmentDraws) (db : Db)
    (m advanced : AttachmentManifest) (seq version : I64) (next : Db) : Prop where
  id : checkId "discord_message_id" a.discordMessageId = .ok ()
  filename : checkId "random_filename" a.randomFilename = .ok ()
  parent : ∀ r ∈ db.messages, r.midBi = bi C K biMessageId a.discordMessageId → r.burned = false
  current : currentManifest C K db (bi C K biMessageId a.discordMessageId) = .ok m
  live : ∀ old ∈ db.attachments, old.ckBi = bi C K biCacheKey a.cacheKey → old.burned = false
  known : ∀ old ∈ db.attachments, old.ckBi = bi C K biCacheKey a.cacheKey → m.generation ≠ I64.zero
  place : nextAttachment C K db a.cacheKey (db.attachments.find (bi C K biCacheKey a.cacheKey)) =
    .ok (seq, version)
  advance : m.advance (replaceEntry m.entries (sealedEntry C K a (bi C K biCacheKey a.cacheKey)
    (bi C K biMessageId a.discordMessageId) seq version d)) = .ok advanced
  wrote : Wrote C K { db with attachments := db.attachments.put (sealedAttachment C K a
    (bi C K biCacheKey a.cacheKey) (bi C K biMessageId a.discordMessageId) seq version d) }
    (bi C K biMessageId a.discordMessageId) advanced d.manifestNonce next

theorem any_burned_false {ρ : Type} {key : ρ → Bytes} {t : Table key} {burned : ρ → Bool}
    (none : ((t.find k).any burned) ≠ true) : ∀ r ∈ t, key r = k → burned r = false := by
  intro r mem same
  rw [find_eq_some.2 ⟨mem, same⟩, Option.any_some] at none
  simpa using none

theorem putAttachment_ok {a : AttachmentArgs} {d : AttachmentDraws} (done : putAttachment C K a d db = .ok next) :
    next = db ∨ ∃ m advanced seq version, AttachRun C K a d db m advanced seq version next := by
  obtain ⟨⟨⟩, id, done⟩ := bind_ok.1 done
  obtain ⟨⟨⟩, filename, done⟩ := bind_ok.1 done
  simp only [] at done
  split at done
  · cases done
    exact .inl rfl
  rename_i parent
  obtain ⟨m, current, done⟩ := bind_ok.1 done
  split at done
  · cases done
    exact .inl rfl
  rename_i live
  split at done
  · cases done
  rename_i known
  obtain ⟨⟨seq, version⟩, place, done⟩ := bind_ok.1 done
  obtain ⟨advanced, advance, done⟩ := bind_ok.1 done
  refine .inr ⟨m, advanced, seq, version, id, filename, any_burned_false parent, current,
    any_burned_false live, ?_, place, advance, writeAttachmentManifest_ok done⟩
  intro old mem same zero
  refine known ⟨?_, zero⟩
  rw [find_eq_some.2 ⟨mem, same⟩]
  rfl

/-! ## Burning and deleting -/

theorem markBurned_ok {id : String} (done : markBurned C K id db = .ok next) :
    (∃ r ∈ db.messages, r.midBi = bi C K biMessageId id) ∧
      next = ((db.shredMessages (·.midBi = bi C K biMessageId id)).shredAttachments
        (·.midBi = bi C K biMessageId id)).deleteManifests (·.midBi = bi C K biMessageId id) := by
  unfold markBurned at done
  cases found : db.messages.find (bi C K biMessageId id) with
  | none =>
    simp only [found] at done
    cases done
  | some row =>
    obtain ⟨mem, same⟩ := find_eq_some.1 found
    simp only [found] at done
    refine ⟨⟨row, mem, same⟩, ?_⟩
    split at done
    · obtain ⟨m, -, done⟩ := bind_ok.1 done
      cases done
      rfl
    · cases done
      rfl

theorem wipeWrappedKeysInScope_ok (done : wipeWrappedKeysInScope C K scopeId onlySender db = .ok (n, next)) :
    next = ((db.deleteManifests fun m => db.ofMessages (inScope C K scopeId onlySender) m.midBi).shredAttachments
      fun a => db.ofMessages (inScope C K scopeId onlySender) a.midBi).shredMessages
      (inScope C K scopeId onlySender) := by
  obtain ⟨⟨⟩, -, done⟩ := bind_ok.1 done
  cases done
  rfl

theorem deleteMessagesInChannel_ok (done : deleteMessagesInChannel C K channelId db = .ok (n, next)) :
    next = {
      messages := db.messages.delete (inScope C K channelId none)
      attachments := db.attachments.delete fun a => db.ofMessages (inScope C K channelId none) a.midBi
      manifests := db.manifests.delete fun m => db.ofMessages (inScope C K channelId none) m.midBi } := by
  obtain ⟨⟨⟩, -, done⟩ := bind_ok.1 done
  cases done
  rfl

theorem mem_ofMessages : db.ofMessages p midBi = true ↔ ∃ r ∈ db.messages, r.midBi = midBi ∧ p r = true := by
  simp [Db.ofMessages, mem_rows]

theorem wipeAttachmentsInScope_ok (done : wipeAttachmentsInScope C K scopeId onlySender nonce db = .ok (n, next)) :
    ∃ emptied, emptyManifests C K nonce ((db.messages.rows.filter fun r =>
        inScope C K scopeId onlySender r && !r.burned).map (·.midBi)) db = .ok emptied ∧
      next = emptied.shredAttachments fun a =>
        !a.burned && db.ofMessages (inScope C K scopeId onlySender) a.midBi := by
  obtain ⟨emptied, empty, done⟩ := bind_ok.1 done
  cases done
  exact ⟨emptied, empty, rfl⟩

theorem trimAttachments_ok (done : trimAttachments C K keep nonce db = .ok (n, next)) :
    ∃ trimmed, trimManifests C K (db.trimVictims keep) nonce
        (orderBy id ((db.trimVictims keep).map (·.midBi)).dedup) db = .ok trimmed ∧
      next = { trimmed with attachments :=
        trimmed.attachments.delete fun a => (db.trimVictims keep).any (·.ckBi = a.ckBi) } := by
  obtain ⟨trimmed, trim, done⟩ := bind_ok.1 done
  cases done
  exact ⟨trimmed, trim, rfl⟩

theorem deleteAttachmentsForMessage_ok {id : String} {nonce : Bytes}
    (done : deleteAttachmentsForMessage C K id nonce db = .ok (n, next)) :
    next = db ∨ ∃ emptied, transitionManifestToEmpty C K db (bi C K biMessageId id) nonce = .ok emptied ∧
      next = emptied.shredAttachments (·.midBi = bi C K biMessageId id) := by
  obtain ⟨manifest, -, done⟩ := bind_ok.1 done
  cases manifest with
  | some m =>
    obtain ⟨emptied, empty, done⟩ := bind_ok.1 done
    cases done
    exact .inr ⟨emptied, empty, rfl⟩
  | none =>
    simp only [] at done
    split at done
    · cases done
    · cases done
      exact .inl rfl

theorem shredExpired_ok (done : shredExpired C K db midBi = .ok (n, next)) :
    next = ((db.shredMessages fun r => r.midBi = midBi && !r.burned).shredAttachments
      (·.midBi = midBi)).deleteManifests (·.midBi = midBi) := by
  unfold shredExpired at done
  simp only [] at done
  split at done
  · obtain ⟨m, -, done⟩ := bind_ok.1 done
    cases done
    rfl
  · cases done
    rfl

/-- A property every round keeps is kept by the whole sweep. -/
theorem shredExpiredMessages_rule {I : Db → Prop}
    (round : ∀ db midBi, I db → I (((db.shredMessages fun r => r.midBi = midBi && !r.burned).shredAttachments
      (·.midBi = midBi)).deleteManifests (·.midBi = midBi)))
    {ids : List String} (start : I db)
    (done : shredExpiredMessages C K ids db = .ok (n, next)) : I next := by
  induction ids generalizing db n with
  | nil =>
    cases done
    exact start
  | cons id ids ih =>
    obtain ⟨⟨k, between⟩, first, done⟩ := bind_ok.1 done
    obtain ⟨⟨l, last⟩, rest, done⟩ := bind_ok.1 done
    cases done
    refine ih ?_ rest
    rw [shredExpired_ok first]
    exact round db _ start

/-! ## Steps -/

/-- A step is a committed call or changes nothing. -/
theorem step_cases (db : Db) (op : Op) : step C K db op = db ∨ call C K db op = .ok (step C K db op) := by
  unfold step
  cases call C K db op with
  | ok next => exact .inr rfl
  | error _ => exact .inl rfl

end Osl.Store
