import Osl.Store.Effects

/-!
# A burned message stays destroyed

Seven of the nine calls only shred and remove rows (`Shrinks`); `put` and
`put_attachment` are the two that write content. A message row that is burned
stays so until its channel is deleted. Its attachments are destroyed with it on
every path but one: a `put` that carries the burned flag shreds the message row
and leaves the attachment rows alone.
-/

namespace Osl.Store

open Base Table Db I64

variable {C : Crypto} {K : Keys} {blob : Bytes} {db next between next' : Db} {p : MessageRow → Bool}
  {id scopeId : String} {n keep : Nat} {onlySender : Option String} {nonce : Bytes → Bytes} {ids : List String}
  {q : AttachmentRow → Bool}

/-! ## Destroyed rows -/

structure MessageRow.Destroyed (r : MessageRow) : Prop where
  wrappedKeyNonce : r.wrappedKeyNonce = none
  wrappedKey : r.wrappedKey = none
  ciphertext : ∀ b ∈ r.ciphertext, b = 0
  nonce : ∀ b ∈ r.nonce, b = 0

structure AttachmentRow.Destroyed (a : AttachmentRow) : Prop where
  wrappedKeyNonce : a.wrappedKeyNonce = none
  wrappedKey : a.wrappedKey = none
  metaCt : ∀ b ∈ a.metaCt, b = 0
  ciphertext : ∀ b ∈ a.ciphertext, b = 0
  nonce : ∀ b ∈ a.nonce, b = 0

theorem zeroblob_zero : ∀ b ∈ zeroblob blob, b = 0 := by
  intro b mem
  exact List.eq_of_mem_replicate mem

theorem zeroblob_zeroblob : zeroblob (zeroblob blob) = zeroblob blob := by
  rw [zeroblob, zeroblob, List.length_replicate]

theorem MessageRow.shred_destroyed (r : MessageRow) : r.shred.Destroyed :=
  ⟨rfl, rfl, zeroblob_zero, zeroblob_zero⟩

theorem AttachmentRow.shred_destroyed (a : AttachmentRow) : a.shred.Destroyed :=
  ⟨rfl, rfl, zeroblob_zero, zeroblob_zero, zeroblob_zero⟩

theorem MessageRow.shred_shred (r : MessageRow) : r.shred.shred = r.shred := by
  simp only [MessageRow.shred, zeroblob_zeroblob]

theorem AttachmentRow.shred_shred (a : AttachmentRow) : a.shred.shred = a.shred := by
  simp only [AttachmentRow.shred, zeroblob_zeroblob]

/-- `mid_bi` has a burned row, in the channel `chanBi`. -/
def Burned (db : Db) (midBi chanBi : Bytes) : Prop :=
  ∃ r ∈ db.messages, r.midBi = midBi ∧ r.chanBi = chanBi ∧ r.burned = true

/-- Nothing of the message is left. -/
structure Erased (db : Db) (midBi : Bytes) : Prop where
  message : ∀ r ∈ db.messages, r.midBi = midBi → r.Destroyed
  attachment : ∀ a ∈ db.attachments, a.midBi = midBi → a.Destroyed

/-- A read of the message or of one of its attachments returns content. -/
def Readable (C : Crypto) (K : Keys) (db : Db) (id : String) : Prop :=
  (∃ msg, get C K db id = .ok (some msg)) ∨ ∃ file content, getAttachment C K db id file = .ok (some content)

/-! ## Calls that only take away -/

/-- Rows are kept, shredded or removed, and a message that becomes burned takes
its attachments along. -/
structure Shrinks (db next : Db) : Prop where
  message : ∀ r ∈ next.messages, r ∈ db.messages ∨ ∃ r' ∈ db.messages, r = r'.shred
  attachment : ∀ a ∈ next.attachments, a ∈ db.attachments ∨ ∃ a' ∈ db.attachments, a = a'.shred
  together : ∀ r ∈ next.messages, r.burned = true →
    (∃ r' ∈ db.messages, r'.midBi = r.midBi ∧ r'.burned = true) ∨
      ∀ a ∈ next.attachments, a.midBi = r.midBi → a.burned = true

/-- What holds of the rows before and of what a shred makes of them. -/
theorem forall_shrunk {ρ : Type} {key : ρ → Bytes} {t t' : Table key} {shred : ρ → ρ} {P : ρ → Prop}
    (rows : ∀ r ∈ t', r ∈ t ∨ ∃ r' ∈ t, r = shred r') (all : ∀ r ∈ t, P r) (kept : ∀ r ∈ t, P (shred r)) : ∀ r ∈ t', P r := by
  intro r mem
  rcases rows r mem with was | ⟨r', was, rfl⟩
  · exact all r was
  · exact kept r' was

theorem Shrinks.refl (db : Db) : Shrinks db db where
  message _ mem := .inl mem
  attachment _ mem := .inl mem
  together r mem burned := .inl ⟨r, mem, rfl, burned⟩

theorem Shrinks.trans (first : Shrinks db between) (second : Shrinks between next) :
    Shrinks db next where
  message := by
    refine forall_shrunk second.message first.message fun r' was => ?_
    rcases first.message r' was with was | ⟨r, before, rfl⟩
    · exact .inr ⟨r', was, rfl⟩
    · exact .inr ⟨r, before, r.shred_shred⟩
  attachment := by
    refine forall_shrunk second.attachment first.attachment fun a' was => ?_
    rcases first.attachment a' was with was | ⟨a, before, rfl⟩
    · exact .inr ⟨a', was, rfl⟩
    · exact .inr ⟨a, before, a.shred_shred⟩
  together r mem burned := by
    rcases second.together r mem burned with ⟨r', mem', same, burned'⟩ | all
    · rcases first.together r' mem' burned' with before | all
      · rw [same] at before
        exact .inl before
      · exact .inr (forall_shrunk second.attachment (same ▸ all) fun _ _ _ => rfl)
    · exact .inr all

/-- The shape of every burn: messages with `p` and attachments with `q`, where
`q` covers the live attachments of the messages that `p` burns. -/
theorem shrinks_of_shred
    (cover : ∀ r ∈ db.messages, p r = true → ∀ a ∈ db.attachments, a.midBi = r.midBi → q a = true) :
    Shrinks db ((db.shredMessages p).shredAttachments q) where
  message r mem := by
    rcases mem_shredMessages.1 mem with ⟨r', was, -, rfl⟩ | ⟨was, -⟩
    · exact .inr ⟨r', was, rfl⟩
    · exact .inl was
  attachment a mem := by
    rcases mem_shredAttachments.1 mem with ⟨a', was, -, rfl⟩ | ⟨was, -⟩
    · exact .inr ⟨a', was, rfl⟩
    · exact .inl was
  together r mem burned := by
    rcases mem_shredMessages.1 mem with ⟨r', mem', holds, rfl⟩ | ⟨mem', -⟩
    · refine .inr fun a memA own => ?_
      rcases mem_shredAttachments.1 memA with ⟨a', -, -, rfl⟩ | ⟨memA, spared⟩
      · rfl
      · rw [cover r' mem' holds a memA own] at spared
        cases spared
    · exact .inl ⟨r, mem', rfl, burned⟩

/-- Only the two tables of rows matter. -/
theorem Shrinks.congr (shrinks : Shrinks db next) (messages : next'.messages = next.messages)
    (attachments : next'.attachments = next.attachments) : Shrinks db next' where
  message := by
    rw [messages]
    exact shrinks.message
  attachment := by
    rw [attachments]
    exact shrinks.attachment
  together := by
    rw [messages, attachments]
    exact shrinks.together

theorem shrinks_of_shredAttachments : Shrinks db (db.shredAttachments q) where
  message r mem := .inl mem
  attachment a mem := by
    rcases mem_shredAttachments.1 mem with ⟨a', was, -, rfl⟩ | ⟨was, -⟩
    · exact .inr ⟨a', was, rfl⟩
    · exact .inl was
  together r mem burned := .inl ⟨r, mem, rfl, burned⟩

theorem shrinks_of_delete
    (messages : next.messages = db.messages.delete p) (attachments : next.attachments = db.attachments.delete q) :
    Shrinks db next where
  message r mem := by
    rw [messages] at mem
    exact .inl (mem_delete.1 mem).1
  attachment a mem := by
    rw [attachments] at mem
    exact .inl (mem_delete.1 mem).1
  together r mem burned := by
    rw [messages] at mem
    exact .inl ⟨r, (mem_delete.1 mem).1, rfl, burned⟩

theorem markBurned_shrinks (done : markBurned C K id db = .ok next) :
    Shrinks db next := by
  rw [(markBurned_ok done).2]
  refine (shrinks_of_shred ?_).congr rfl rfl
  intro r _ own a _ same
  exact decide_eq_true (same.trans (of_decide_eq_true own))

theorem wipeWrappedKeysInScope_shrinks
    (done : wipeWrappedKeysInScope C K scopeId onlySender db = .ok (n, next)) : Shrinks db next := by
  rw [wipeWrappedKeysInScope_ok done]
  refine (@shrinks_of_shred db (inScope C K scopeId onlySender)
    (fun a => db.ofMessages (inScope C K scopeId onlySender) a.midBi) ?_).congr rfl rfl
  intro r mem scope a _ same
  exact mem_ofMessages.2 ⟨r, mem, same.symm, scope⟩

theorem wipeAttachmentsInScope_shrinks
    (done : wipeAttachmentsInScope C K scopeId onlySender nonce db = .ok (n, next)) :
    Shrinks db next := by
  obtain ⟨emptied, empty, rfl⟩ := wipeAttachmentsInScope_ok done
  obtain ⟨messages, attachments⟩ := (emptyManifests_ok empty).rows
  exact ((Shrinks.refl db).congr messages attachments).trans (shrinks_of_shredAttachments)

theorem trimAttachments_shrinks (done : trimAttachments C K keep nonce db = .ok (n, next)) : Shrinks db next := by
  obtain ⟨trimmed, trim, rfl⟩ := trimAttachments_ok done
  obtain ⟨messages, attachments⟩ := (trimManifests_ok trim).rows
  constructor
  · intro r mem
    exact .inl (messages ▸ mem)
  · intro a mem
    exact .inl (attachments ▸ (mem_delete.1 mem).1)
  · intro r mem burned
    exact .inl ⟨r, messages ▸ mem, rfl, burned⟩

theorem deleteAttachmentsForMessage_shrinks {nonce : Bytes}
    (done : deleteAttachmentsForMessage C K id nonce db = .ok (n, next)) : Shrinks db next := by
  rcases deleteAttachmentsForMessage_ok done with rfl | ⟨emptied, empty, rfl⟩
  · exact Shrinks.refl next
  · obtain ⟨m, none, -, -, wrote⟩ := transitionManifestToEmpty_ok empty
    refine ((Shrinks.refl db).congr ?_ ?_).trans (shrinks_of_shredAttachments)
    · rw [wrote.after]
    · rw [wrote.after]

theorem shredExpiredMessages_shrinks (done : shredExpiredMessages C K ids db = .ok (n, next)) : Shrinks db next := by
  refine shredExpiredMessages_rule (I := Shrinks db) ?_ (Shrinks.refl db) done
  intro between midBi before
  refine before.trans ((shrinks_of_shred ?_).congr rfl rfl)
  intro r _ own a _ same
  rw [Bool.and_eq_true, decide_eq_true_eq] at own
  exact decide_eq_true (same.trans own.1)

/-! ## The invariant -/

/-- A burned row is destroyed, a live attachment has its wrapper, and rows are
filed under the ids they were stored with. -/
structure Sound (C : Crypto) (K : Keys) (db : Db) : Prop where
  named : ∀ r ∈ db.messages, ∃ id, r.midBi = bi C K biMessageId id
  message : ∀ r ∈ db.messages, r.burned = true → r.Destroyed
  attachment : ∀ a ∈ db.attachments, a.burned = true → a.Destroyed
  wrapped : ∀ a ∈ db.attachments, a.burned = false → a.wrappedKey ≠ none
  filed : ∀ a ∈ db.attachments, ∃ id file, checkId "discord_message_id" id = .ok () ∧
    checkId "random_filename" file = .ok () ∧ a.midBi = bi C K biMessageId id ∧ a.ckBi = bi C K biCacheKey (id ++ "/" ++ file)

theorem sound_fresh : Sound C K fresh where
  named r mem := absurd mem (not_mem_empty r)
  message r mem := absurd mem (not_mem_empty r)
  attachment a mem := absurd mem (not_mem_empty a)
  wrapped a mem := absurd mem (not_mem_empty a)
  filed a mem := absurd mem (not_mem_empty a)

theorem Shrinks.sound (shrinks : Shrinks db next) (sound : Sound C K db) : Sound C K next where
  named := forall_shrunk shrinks.message sound.named sound.named
  message := forall_shrunk shrinks.message sound.message fun r _ _ => r.shred_destroyed
  attachment := forall_shrunk shrinks.attachment sound.attachment fun a _ _ => a.shred_destroyed
  wrapped := forall_shrunk shrinks.attachment sound.wrapped fun a _ live => by cases live
  filed := forall_shrunk shrinks.attachment sound.filed sound.filed

theorem Sound.congr (sound : Sound C K db) (attachments : next.attachments = db.attachments)
    (named : ∀ r ∈ next.messages, ∃ id, r.midBi = bi C K biMessageId id)
    (message : ∀ r ∈ next.messages, r.burned = true → r.Destroyed) : Sound C K next where
  named := named
  message := message
  attachment := by
    rw [attachments]
    exact sound.attachment
  wrapped := by
    rw [attachments]
    exact sound.wrapped
  filed := by
    rw [attachments]
    exact sound.filed

variable {midBi chanBi : Bytes} {d : PutDraws} {msg : StoredMessage} {version seq : I64} {a : AttachmentArgs}
  {op : Op} {ops : List Op} {file field value value' : String}

theorem putBurned_attachments : (putBurned C K db msg midBi version seq d).attachments = db.attachments := by
  unfold putBurned
  cases db.messages.find midBi <;> rfl

theorem put_sound (sound : Sound C K db) (done : put C K msg d db = .ok next) : Sound C K next := by
  rcases put_ok done with ⟨-, rfl⟩ | ⟨version, seq, -, ⟨-, rfl⟩ | ⟨-, live⟩⟩
  · exact sound
  · refine sound.congr putBurned_attachments ?_ ?_
    · intro r mem
      rcases mem_putBurned mem with ⟨mem, -⟩ | ⟨r', rfl, own, -⟩
      · exact sound.named r mem
      · exact ⟨msg.discordMessageId, own⟩
    · intro r mem burned
      rcases mem_putBurned mem with ⟨mem, -⟩ | ⟨r', rfl, -⟩
      · exact sound.message r mem burned
      · exact r'.shred_destroyed
  · obtain ⟨⟨seq, messages⟩, attachments⟩ := putLive_rows live
    refine sound.congr attachments ?_ ?_
    · rw [messages]
      exact forall_put ⟨msg.discordMessageId, rfl⟩ sound.named
    · rw [messages]
      exact forall_put (fun burned => by cases burned) sound.message

theorem putAttachment_rows {d : AttachmentDraws} {m advanced : AttachmentManifest}
    (done : AttachRun C K a d db m advanced seq version next) :
    next.messages = db.messages ∧ next.attachments = db.attachments.put (sealedAttachment C K a
      (bi C K biCacheKey a.cacheKey) (bi C K biMessageId a.discordMessageId) seq version d) := by
  rw [done.wrote.after]
  exact ⟨rfl, rfl⟩

theorem putAttachment_sound {d : AttachmentDraws} (sound : Sound C K db)
    (done : putAttachment C K a d db = .ok next) : Sound C K next := by
  rcases putAttachment_ok done with rfl | ⟨m, advanced, seq, version, ran⟩
  · exact sound
  obtain ⟨messages, attachments⟩ := putAttachment_rows ran
  constructor
  · rw [messages]
    exact sound.named
  · rw [messages]
    exact sound.message
  · rw [attachments]
    exact forall_put (fun burned => by cases burned) sound.attachment
  · rw [attachments]
    exact forall_put (fun _ => Option.some_ne_none _) sound.wrapped
  · rw [attachments]
    exact forall_put ⟨a.discordMessageId, a.randomFilename, ran.id, ran.filename, rfl, rfl⟩ sound.filed

/-- A committed call other than the two that store. -/
theorem call_shrinks (done : call C K db op = .ok next)
    (message : ∀ msg short d, op ≠ .put msg short d) (attachment : ∀ a short d, op ≠ .putAttachment a short d) :
    Shrinks db next := by
  cases op with
  | put msg short d => exact absurd rfl (message msg short d)
  | putAttachment a short d => exact absurd rfl (attachment a short d)
  | markBurned id => exact markBurned_shrinks done
  | wipeWrappedKeysInScope scopeId onlySender =>
    obtain ⟨⟨n, db'⟩, ran, rfl⟩ := map_ok.1 done
    exact wipeWrappedKeysInScope_shrinks ran
  | wipeAttachmentsInScope scopeId onlySender nonces =>
    obtain ⟨⟨n, db'⟩, ran, rfl⟩ := map_ok.1 done
    exact wipeAttachmentsInScope_shrinks ran
  | deleteMessagesInChannel channelId =>
    obtain ⟨⟨n, db'⟩, ran, rfl⟩ := map_ok.1 done
    rw [deleteMessagesInChannel_ok ran]
    exact shrinks_of_delete rfl rfl
  | trimAttachments keep nonces =>
    obtain ⟨⟨n, db'⟩, ran, rfl⟩ := map_ok.1 done
    exact trimAttachments_shrinks ran
  | deleteAttachmentsForMessage id nonces =>
    obtain ⟨⟨n, db'⟩, ran, rfl⟩ := map_ok.1 done
    exact deleteAttachmentsForMessage_shrinks ran
  | shredExpiredMessages ids =>
    obtain ⟨⟨n, db'⟩, ran, rfl⟩ := map_ok.1 done
    exact shredExpiredMessages_shrinks ran

theorem step_sound (db : Db) (op : Op) (sound : Sound C K db) : Sound C K (step C K db op) := by
  rcases step_cases (C := C) (K := K) db op with same | done
  · rw [same]
    exact sound
  · cases op with
    | put msg short d => exact put_sound sound done
    | putAttachment a short d => exact putAttachment_sound sound done
    | _ => exact (call_shrinks done (by simp) (by simp)).sound sound

/-! ## Burned rows persist -/

/-- Every burned row is still there, burned. -/
def Persists (db next : Db) : Prop := ∀ midBi chanBi, Burned db midBi chanBi → Burned next midBi chanBi

theorem put_persists (done : put C K msg d db = .ok next) :
    Persists db next := by
  rcases put_ok done with ⟨-, rfl⟩ | ⟨version, seq, checks, written⟩
  · exact fun _ _ burned => burned
  rintro midBi chanBi ⟨r, mem, own, channel, burned⟩
  have other : r.midBi ≠ bi C K biMessageId msg.discordMessageId := by
    intro same
    rw [checks.live r mem same] at burned
    cases burned
  rcases written with ⟨-, rfl⟩ | ⟨-, live⟩
  · exact ⟨r, putBurned_kept mem other, own, channel, burned⟩
  · obtain ⟨⟨seq, messages⟩, -⟩ := putLive_rows live
    refine ⟨r, ?_, own, channel, burned⟩
    rw [messages]
    exact mem_put.2 (.inr ⟨mem, other⟩)

/-- The call deletes the channel with this blind index. -/
def DeletesChannel (C : Crypto) (K : Keys) (chanBi : Bytes) (op : Op) : Prop :=
  ∃ channelId, op = .deleteMessagesInChannel channelId ∧ bi C K biChannelId channelId = chanBi

/-- A call that stores no message and does not delete a row's channel keeps the row,
perhaps shredded. -/
theorem call_keeps_row {P : MessageRow → Prop} (shred : ∀ r, P r → P r.shred)
    (done : call C K db op = .ok next) (message : ∀ msg short d, op ≠ .put msg short d)
    (spared : ∀ channelId, op = .deleteMessagesInChannel channelId → ∀ r, P r → r.chanBi ≠ bi C K biChannelId channelId)
    (has : ∃ r ∈ db.messages, P r) : ∃ r ∈ next.messages, P r := by
  have shredded : ∀ {db : Db} (p : MessageRow → Bool), (∃ r ∈ db.messages, P r) →
      ∃ r ∈ (db.shredMessages p).messages, P r := by
    rintro db p ⟨r, mem, holds⟩
    cases flag : p r with
    | true => exact ⟨r.shred, mem_shredMessages.2 (.inl ⟨r, mem, flag, rfl⟩), shred r holds⟩
    | false => exact ⟨r, mem_shredMessages.2 (.inr ⟨mem, flag⟩), holds⟩
  cases op with
  | put msg short d => exact absurd rfl (message msg short d)
  | putAttachment a short d =>
    rcases putAttachment_ok done with rfl | ⟨m, advanced, seq, version, ran⟩
    · exact has
    · rw [(putAttachment_rows ran).1]
      exact has
  | markBurned id =>
    rw [(markBurned_ok done).2]
    exact shredded _ has
  | wipeWrappedKeysInScope scopeId onlySender =>
    obtain ⟨⟨n, db'⟩, ran, rfl⟩ := map_ok.1 done
    rw [wipeWrappedKeysInScope_ok ran]
    exact shredded _ has
  | wipeAttachmentsInScope scopeId onlySender nonces =>
    obtain ⟨⟨n, db'⟩, ran, rfl⟩ := map_ok.1 done
    obtain ⟨emptied, empty, rfl⟩ := wipeAttachmentsInScope_ok ran
    rw [show (emptied.shredAttachments _).messages = db.messages from (emptyManifests_ok empty).rows.1]
    exact has
  | deleteMessagesInChannel channelId =>
    obtain ⟨⟨n, db'⟩, ran, rfl⟩ := map_ok.1 done
    obtain ⟨r, mem, holds⟩ := has
    rw [deleteMessagesInChannel_ok ran]
    refine ⟨r, mem_delete.2 ⟨mem, ?_⟩, holds⟩
    rw [inScope, Bool.and_eq_false_iff]
    exact .inl (decide_eq_false (spared channelId rfl r holds))
  | trimAttachments keep nonces =>
    obtain ⟨⟨n, db'⟩, ran, rfl⟩ := map_ok.1 done
    obtain ⟨trimmed, trim, rfl⟩ := trimAttachments_ok ran
    rw [show messages { trimmed with attachments := _ } = db.messages from (trimManifests_ok trim).rows.1]
    exact has
  | deleteAttachmentsForMessage id nonces =>
    obtain ⟨⟨n, db'⟩, ran, rfl⟩ := map_ok.1 done
    rcases deleteAttachmentsForMessage_ok ran with rfl | ⟨emptied, empty, rfl⟩
    · exact has
    · obtain ⟨m, none, -, -, wrote⟩ := transitionManifestToEmpty_ok empty
      rw [wrote.after]
      exact has
  | shredExpiredMessages ids =>
    obtain ⟨⟨n, db'⟩, ran, rfl⟩ := map_ok.1 done
    refine shredExpiredMessages_rule (I := fun db => ∃ r ∈ db.messages, P r) ?_ has ran
    intro between mid before
    exact shredded _ before

theorem step_burned (burned : Burned db midBi chanBi)
    (other : ¬DeletesChannel C K chanBi op) : Burned (step C K db op) midBi chanBi := by
  rcases step_cases (C := C) (K := K) db op with same | done
  · rw [same]
    exact burned
  by_cases stores : ∃ msg short d, op = .put msg short d
  · obtain ⟨msg, short, d, rfl⟩ := stores
    exact put_persists done midBi chanBi burned
  · refine call_keeps_row ?_ done (fun msg short d same => stores ⟨msg, short, d, same⟩) ?_ burned
    · rintro r ⟨own, channel, _⟩
      exact ⟨own, channel, rfl⟩
    · rintro channelId deletes r ⟨_, channel, _⟩ same
      exact other ⟨channelId, deletes, same.symm.trans channel⟩

theorem run_burned (burned : Burned db midBi chanBi)
    (others : ∀ op ∈ ops, ¬DeletesChannel C K chanBi op) : Burned (run (step C K) db ops) midBi chanBi := by
  induction ops generalizing db with
  | nil => exact burned
  | cons op ops ih =>
    refine ih (step_burned burned (others op (by simp))) ?_
    intro op' mem
    exact others op' (List.mem_cons_of_mem _ mem)

/-! ## Nothing of a burned message is left -/

/-- All burned messages of a database are erased. -/
def AllErased (db : Db) : Prop := ∀ midBi chanBi, Burned db midBi chanBi → Erased db midBi

theorem allErased_fresh : AllErased fresh := by
  rintro midBi chanBi ⟨r, mem, -⟩
  exact absurd mem (not_mem_empty r)

/-- Under the invariant only the attachments are in question. -/
theorem erased_iff (sound : Sound C K db) (burned : Burned db midBi chanBi) :
    Erased db midBi ↔ ∀ a ∈ db.attachments, a.midBi = midBi → a.burned = true := by
  constructor
  · intro erased a mem own
    cases live : a.burned with
    | true => rfl
    | false => exact absurd (erased.attachment a mem own).wrappedKey (sound.wrapped a mem live)
  · intro all
    constructor
    · intro r mem own
      obtain ⟨r', mem', own', -, burned⟩ := burned
      exact sound.message r mem (eq_of_key mem mem' (own.trans own'.symm) ▸ burned)
    · intro a mem own
      exact sound.attachment a mem (all a mem own)

theorem Shrinks.allErased (shrinks : Shrinks db next) (sound : Sound C K db) (erased : AllErased db) :
    AllErased next := by
  intro midBi chanBi burned
  rw [erased_iff (shrinks.sound sound) burned]
  obtain ⟨r, mem, rfl, -, flag⟩ := burned
  rcases shrinks.together r mem flag with ⟨r', mem', same, flag'⟩ | all
  · have before : Burned db r.midBi r'.chanBi := ⟨r', mem', same, rfl, flag'⟩
    exact forall_shrunk shrinks.attachment ((erased_iff sound before).1 (erased _ _ before)) fun _ _ _ => rfl
  · exact all

/-- If the call is a `put` with the burned flag that commits on a message not
burned before, the message has no live attachment. -/
def BurnsNoAttachment (C : Crypto) (K : Keys) (db : Db) (op : Op) : Prop :=
  ∀ msg short d, op = .put msg short d → msg.burned = true → (∃ next, call C K db op = .ok next) →
    (∀ r ∈ db.messages, r.midBi = bi C K biMessageId msg.discordMessageId → r.burned = false) →
    ∀ a ∈ db.attachments, a.midBi = bi C K biMessageId msg.discordMessageId → a.burned = true

theorem putLive_allErased
    (erased : AllErased db) (done : putLive C K db msg midBi version seq d = .ok next) : AllErased next := by
  obtain ⟨⟨seq, messages⟩, attachments⟩ := putLive_rows done
  rintro mid chanBi ⟨r, mem, own, channel, burned⟩
  rw [messages] at mem
  rcases mem_put.1 mem with rfl | ⟨mem, other⟩
  · cases burned
  have before := erased mid chanBi ⟨r, mem, own, channel, burned⟩
  constructor
  · intro r' mem' own'
    rw [messages] at mem'
    rcases mem_put.1 mem' with rfl | ⟨mem', -⟩
    · exact absurd (own.trans own'.symm) other
    · exact before.message r' mem' own'
  · rw [attachments]
    exact before.attachment

theorem putAttachment_allErased {d : AttachmentDraws} (erased : AllErased db)
    (done : putAttachment C K a d db = .ok next) : AllErased next := by
  rcases putAttachment_ok done with rfl | ⟨m, advanced, seq, version, ran⟩
  · exact erased
  obtain ⟨messages, attachments⟩ := putAttachment_rows ran
  rintro mid chanBi ⟨r, mem, own, channel, burned⟩
  rw [messages] at mem
  have before := erased mid chanBi ⟨r, mem, own, channel, burned⟩
  constructor
  · rw [messages]
    exact before.message
  · intro x memX ownX
    rw [attachments] at memX
    rcases mem_put.1 memX with rfl | ⟨memX, -⟩
    · rw [ran.parent r mem (own.trans ownX.symm)] at burned
      cases burned
    · exact before.attachment x memX ownX

theorem putBurned_allErased_iff
    (sound : Sound C K (putBurned C K db msg midBi version seq d)) (erased : AllErased db) :
    AllErased (putBurned C K db msg midBi version seq d) ↔
      ∀ a ∈ db.attachments, a.midBi = midBi → a.burned = true := by
  constructor
  · intro all
    obtain ⟨r, mem, own, burned⟩ := exists_putBurned (C := C) (K := K) msg midBi version seq d db
    have now : Burned _ midBi r.chanBi := ⟨r, mem, own, rfl, burned⟩
    rw [← @putBurned_attachments C K db midBi d msg version seq]
    exact (erased_iff sound now).1 (all _ _ now)
  · intro none mid chanBi burned
    rw [erased_iff sound burned, putBurned_attachments]
    obtain ⟨r, mem, rfl, rfl, flag⟩ := burned
    rcases mem_putBurned mem with ⟨mem, -⟩ | ⟨r', rfl, own, -⟩
    · intro a memA own
      cases live : a.burned with
      | true => rfl
      | false =>
        have gone := (erased r.midBi r.chanBi ⟨r, mem, rfl, rfl, flag⟩).attachment a memA own
        refine absurd gone.wrappedKey (sound.wrapped a ?_ live)
        rw [putBurned_attachments]
        exact memA
    · intro a memA same
      exact none a memA (same.trans own)

theorem step_allErased_iff (db : Db) (op : Op) (sound : Sound C K db) (erased : AllErased db) :
    AllErased (step C K db op) ↔ BurnsNoAttachment C K db op := by
  have kept := step_sound (C := C) (K := K) db op sound
  rcases step_cases (C := C) (K := K) db op with same | done
  · rw [same]
    refine ⟨fun _ => ?_, fun _ => erased⟩
    -- the call failed, or it left the database as it was
    rintro msg short d rfl flag ⟨next, done⟩ live
    have after : step C K db (.put msg short d) = next := by rw [step, done]
    rcases put_ok done with ⟨⟨r, mem, own, burned⟩, -⟩ | ⟨version, seq, checks, ⟨-, written⟩ | ⟨unset, -⟩⟩
    · rw [live r mem own] at burned
      cases burned
    · rw [after, written] at kept
      refine (putBurned_allErased_iff kept erased).1 ?_
      rw [← written, ← after, same]
      exact erased
    · rw [flag] at unset
      cases unset
  · generalize step C K db op = next at done kept
    cases op with
    | put msg short d =>
      rcases put_ok done with ⟨⟨r, mem, own, burned⟩, rfl⟩ | ⟨version, seq, checks, ⟨flag, rfl⟩ | ⟨flag, live⟩⟩
      · refine ⟨fun _ => ?_, fun _ => erased⟩
        rintro msg' short' d' ⟨⟩ - - live
        rw [live r mem own] at burned
        cases burned
      · rw [putBurned_allErased_iff kept erased]
        constructor
        · rintro none msg' short' d' ⟨⟩ - - -
          exact none
        · intro safe
          exact safe msg short d rfl flag ⟨_, done⟩ checks.live
      · refine ⟨fun _ => ?_, fun _ => putLive_allErased erased live⟩
        rintro msg' short' d' ⟨⟩ flag' - -
        rw [flag] at flag'
        cases flag'
    | putAttachment a short d =>
      refine ⟨fun _ => ?_, fun _ => putAttachment_allErased erased done⟩
      rintro msg short' d' ⟨⟩
    | _ =>
      refine ⟨fun _ => ?_, fun _ => (call_shrinks done (by simp) (by simp)).allErased sound erased⟩
      rintro msg short' d' ⟨⟩

/-! ## Reads -/

theorem checkId_ok (ok : checkId field value = .ok ()) : '/' ∉ value.toList := by
  unfold checkId at ok
  split at ok
  · cases ok
  · rename_i clean
    rw [Bool.or_eq_true, not_or] at clean
    intro mem
    exact clean.1 (by rw [String.contains_char_eq]; exact decide_eq_true mem)

/-- A blind index determines its domain and its value. -/
theorem bi_inj (ideal : C.Ideal) {domain domain' : Bytes}
    (same : bi C K domain value = bi C K domain' value') : domain = domain' ∧ value = value' := by
  have blocks : block 0 (bi C K domain value) = block 0 (bi C K domain' value') := by
    rw [same]
  obtain ⟨-, text, dom, -⟩ := ideal.hkdf.inj (by decide) (by decide) blocks
  exact ⟨dom, utf8_inj text⟩

/-- A row found under a cache key belongs to the message the key starts with. -/
theorem Sound.owner (ideal : C.Ideal) (sound : Sound C K db) {a : AttachmentRow} (mem : a ∈ db.attachments)
    (own : a.ckBi = bi C K biCacheKey (id ++ "/" ++ file)) : a.midBi = bi C K biMessageId id := by
  obtain ⟨id', file', idOk, fileOk, mid, ck⟩ := sound.filed a mem
  have text : id' ++ "/" ++ file' = id ++ "/" ++ file := (bi_inj ideal (ck.symm.trans own)).2
  have chars : id'.toList ++ '/' :: file'.toList = id.toList ++ '/' :: file.toList := by
    simpa using congrArg String.toList text
  obtain ⟨same, -, -⟩ := (List.append_cons_inj_of_notMem (checkId_ok idOk) (checkId_ok fileOk)).1 chars
  rw [mid, String.toList_inj.1 same]

theorem not_get_of_burned (burned : Burned db (bi C K biMessageId id) chanBi) : get C K db id ≠ .ok (some msg) := by
  intro read
  obtain ⟨⟨⟩, -, read⟩ := bind_ok.1 read
  obtain ⟨r, mem, own, -, flag⟩ := burned
  have found : (db.messages.find (bi C K biMessageId id)).filter (!·.burned) = none := by
    rw [find_eq_some.2 ⟨mem, own⟩, Option.filter_some, flag]
    rfl
  simp only [found] at read
  cases read

/-- What `get_attachment` returns comes from a live row of its cache key. -/
theorem getAttachment_row {content : String × Bytes} (read : getAttachment C K db id file = .ok (some content)) :
    ∃ a ∈ db.attachments, a.ckBi = bi C K biCacheKey (id ++ "/" ++ file) ∧ a.burned = false := by
  cases found : (db.attachments.find (bi C K biCacheKey (id ++ "/" ++ file))).filter (!·.burned) with
  | some a =>
    obtain ⟨row, live⟩ := Option.filter_eq_some_iff.1 found
    obtain ⟨mem, own⟩ := find_eq_some.1 row
    exact ⟨a, mem, own, by simpa using live⟩
  | none =>
    exfalso
    obtain ⟨⟨⟩, -, read⟩ := bind_ok.1 read
    obtain ⟨⟨⟩, -, read⟩ := bind_ok.1 read
    simp only [found] at read
    obtain ⟨manifest, -, read⟩ := bind_ok.1 read
    split at read
    · obtain ⟨m, -, read⟩ := bind_ok.1 read
      split at read <;> cases read
    · split at read <;> cases read

theorem not_readable (ideal : C.Ideal) (sound : Sound C K db)
    (burned : Burned db (bi C K biMessageId id) chanBi) (erased : Erased db (bi C K biMessageId id)) :
    ¬Readable C K db id := by
  rintro (⟨msg, read⟩ | ⟨file, content, read⟩)
  · exact not_get_of_burned burned read
  · obtain ⟨a, mem, own, live⟩ := getAttachment_row read
    have gone := erased.attachment a mem (sound.owner ideal mem own)
    exact sound.wrapped a mem live gone.wrappedKey

/-! ## Whole runs -/

/-- Once a message is burned it is erased and unreadable, then and after any
further calls up to a deletion of its channel. -/
def BurnIsFinal (C : Crypto) (K : Keys) (ops : List Op) : Prop :=
  ∀ before after, before ++ after <+: ops → ∀ id chanBi,
    Burned (run (step C K) fresh before) (bi C K biMessageId id) chanBi →
    (∀ op ∈ after, ¬DeletesChannel C K chanBi op) →
    Burned (run (step C K) fresh (before ++ after)) (bi C K biMessageId id) chanBi ∧
      Erased (run (step C K) fresh (before ++ after)) (bi C K biMessageId id) ∧
      ¬Readable C K (run (step C K) fresh (before ++ after)) id

theorem burnIsFinal_iff_allErased (ideal : C.Ideal) :
    BurnIsFinal C K ops ↔ ∀ pre, pre <+: ops → AllErased (run (step C K) fresh pre) := by
  have soundAt : ∀ pre, Sound C K (run (step C K) fresh pre) := fun pre =>
    run_invariant (I := Sound C K) step_sound sound_fresh pre
  constructor
  · intro final pre here midBi chanBi burned
    have ⟨r, mem, own, _, _⟩ := burned
    obtain ⟨id, named⟩ := (soundAt pre).named r mem
    obtain rfl := own.symm.trans named
    have now := final pre [] (by simpa using here) id chanBi burned (by simp)
    rw [List.append_nil] at now
    exact now.2.1
  · intro all before after here id chanBi burned others
    have still : Burned (run (step C K) fresh (before ++ after)) (bi C K biMessageId id) chanBi := by
      rw [run_append]
      exact run_burned burned others
    have erased := all _ here _ _ still
    exact ⟨still, erased, not_readable ideal (soundAt _) still erased⟩

/-- Burning is final in a run exactly when every `put` that burns a message by
its flag finds the message without live attachments. -/
theorem burn_final_iff (ideal : C.Ideal) (ops : List Op) :
    BurnIsFinal C K ops ↔ AllSteps (step C K) (BurnsNoAttachment C K) fresh ops := by
  rw [burnIsFinal_iff_allErased ideal]
  exact run_prefix_iff (I := Sound C K) (P := AllErased) (fun db op sound _ => step_sound db op sound)
    step_allErased_iff sound_fresh allErased_fresh ops

/-- A message that is written, burned and replayed from history. -/
theorem replayed_message_stays_burned : symbolicCrypto.Ideal ∧
    BurnIsFinal symbolicCrypto ⟨[], []⟩ [sampleStore false, .markBurned "1", sampleStore false, sampleAttach] := by
  refine ⟨symbolicCrypto_ideal, (burn_final_iff symbolicCrypto_ideal _).2 (allSteps_of_forall ?_)⟩
  intro op mem db msg short d same flag
  rw [same] at mem
  simp only [sampleStore, sampleAttach, List.mem_cons, Op.put.injEq, reduceCtorEq, List.not_mem_nil, or_false,
    false_or] at mem
  rcases mem with ⟨rfl, -⟩ | ⟨rfl, -⟩
  · cases flag
  · cases flag

theorem checkId_sample : checkId field "1" = .ok () ∧ checkId field "a" = .ok () := by
  simp [checkId, String.contains_char_eq]

theorem call_sampleAttach {C : Crypto} {K : Keys} :
    (call C K fresh sampleAttach).map (fun db => (db.messages, db.attachments)) = .ok (.empty,
      empty.put (sealedAttachment C K sampleAttachment (bi C K biCacheKey sampleAttachment.cacheKey)
        (bi C K biMessageId "1") one one sampleAttachmentDraws)) := by
  show (putAttachment C K sampleAttachment sampleAttachmentDraws fresh).map _ = _
  unfold putAttachment
  rw [show checkId "discord_message_id" sampleAttachment.discordMessageId = .ok () from (checkId_sample).1,
    show checkId "random_filename" sampleAttachment.randomFilename = .ok () from (checkId_sample).2]
  rfl

theorem call_sampleStore_burned (empty : db.messages = .empty) :
    call C K db (sampleStore true) =
      .ok (putBurned C K db (sampleMessage true) (bi C K biMessageId "1") one one samplePut) := by
  show put C K (sampleMessage true) samplePut db = _
  unfold put
  rw [show checkId "discord_message_id" (sampleMessage true).discordMessageId = .ok () from (checkId_sample).1,
    empty]
  rfl

/-- The state after caching the attachment, and after the flagged `put` that follows. -/
theorem run_attach_flagged (C : Crypto) (K : Keys) : ∃ db, call C K fresh sampleAttach = .ok db ∧
    db.messages = .empty ∧
    db.attachments = empty.put (sealedAttachment C K sampleAttachment
      (bi C K biCacheKey sampleAttachment.cacheKey) (bi C K biMessageId "1") one one sampleAttachmentDraws) ∧
    run (step C K) fresh [sampleAttach, sampleStore true] =
      putBurned C K db (sampleMessage true) (bi C K biMessageId "1") one one samplePut := by
  obtain ⟨db, attached, rows⟩ := map_ok.1 (call_sampleAttach)
  obtain ⟨messages, attachments⟩ := Prod.mk.inj rows
  have first : step C K fresh sampleAttach = db := by
    rw [step, attached]
  refine ⟨db, attached, messages, attachments, ?_⟩
  rw [run_cons, first, run_cons, run_nil, step, call_sampleStore_burned messages]

/-- The message is burned, its cached attachment keeps wrapper and body. -/
theorem flagged_put_spares_attachment : ¬BurnIsFinal symbolicCrypto ⟨[], []⟩ [sampleAttach, sampleStore true] := by
  intro final
  obtain ⟨db, -, -, attachments, after⟩ := run_attach_flagged symbolicCrypto ⟨[], []⟩
  obtain ⟨r, mem, own, burned⟩ := exists_putBurned (C := symbolicCrypto) (K := ⟨[], []⟩) (sampleMessage true)
    (bi symbolicCrypto ⟨[], []⟩ biMessageId "1") one one samplePut db
  rw [← after] at mem
  have now := final [sampleAttach, sampleStore true] [] (by simp) "1" r.chanBi ⟨r, mem, own, rfl, burned⟩ (by simp)
  rw [List.append_nil, after] at now
  have kept := now.2.1.attachment
  rw [putBurned_attachments, attachments] at kept
  exact Option.some_ne_none _ (kept _ (mem_put.2 (.inl rfl)) rfl).wrappedKey

end Osl.Store
