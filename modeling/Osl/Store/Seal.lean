import Osl.Store.Effects

/-!
# What is sealed opens again

Every encoder of the store is inverted by its reader, and with the ideal laws of
the AEAD every sealed row and manifest authenticates.
-/

namespace Osl.Store

open Base

/-! ## Readers -/

namespace Reader

variable {α β : Type} {r : Reader α} {a : α} {f : α → Reader β} {b : β}

/-- `r` takes exactly `bytes` off the input and returns `a`, whatever follows. -/
def Reads (r : Reader α) (bytes : Bytes) (a : α) : Prop :=
  ∀ offset rest, r ⟨offset, bytes ++ rest⟩ = .ok (a, ⟨offset + bytes.length, rest⟩)

/-- `r` accepts exactly `bytes` and returns `a`. -/
def Accepts (r : Reader α) (bytes : Bytes) (a : α) : Prop := ∀ offset, ∃ c, r ⟨offset, bytes⟩ = .ok (a, c)

theorem bind_apply {c : Cursor} :
    (r >>= f) c = (r c >>= fun p => f p.1 p.2) := rfl

theorem Reads.bind {bytes more : Bytes} (first : Reads r bytes a)
    (second : Reads (f a) more b) : Reads (r >>= f) (bytes ++ more) b := by
  intro offset rest
  rw [bind_apply, List.append_assoc, first, List.length_append, ← Nat.add_assoc]
  exact second _ rest

theorem Reads.pure (a : α) : Reads (Pure.pure a) [] a := fun _ _ => rfl

theorem Reads.map {f : α → β} {bytes : Bytes} (first : Reads r bytes a) :
    Reads (r >>= fun x => Pure.pure (f x)) bytes (f a) := by
  have whole : Reads (r >>= fun x => Pure.pure (f x)) (bytes ++ []) (f a) := first.bind (Reads.pure (f a))
  rwa [List.append_nil] at whole

theorem Reads.accepts {bytes more : Bytes} (first : Reads r bytes a)
    (second : Accepts (f a) more b) : Accepts (r >>= f) (bytes ++ more) b := by
  intro offset
  rw [bind_apply, first]
  exact second _

theorem accepts_finish : Accepts (finish >>= fun _ => Pure.pure a) [] a := fun offset => ⟨⟨offset, []⟩, rfl⟩

theorem Accepts.decode {bytes : Bytes} (whole : Accepts r bytes a) : decode r bytes = .ok a := by
  obtain ⟨c, read⟩ := whole 0
  rw [Reader.decode, read]
  rfl

theorem reads_take {bytes : Bytes} {n : Nat} (size : bytes.length = n) : Reads (take n) bytes bytes := by
  intro offset rest
  have fits : n ≤ (bytes ++ rest).length := by
    rw [List.length_append]
    omega
  simp only [take, fits, if_true]
  rw [← size, List.take_left, List.drop_left]

theorem reads_i64 {v : I64} : Reads i64 v.toLe v := by
  have read := (reads_take (I64.length_toLe v)).map (f := I64.ofLe)
  rwa [I64.ofLe_toLe] at read

theorem reads_u32 {v : Nat} (fits : v < 256 ^ 4) : Reads u32 (toLe 4 v) v := by
  have read := (reads_take (length_toLe 4 v)).map (f := ofLe)
  rwa [ofLe_toLe fits] at read

theorem reads_bytes {part : Bytes} (fits : part.length < 256 ^ 8) : Reads bytes (pushAadPart part) part := by
  refine (reads_take (length_toLe 8 part.length)).bind ?_
  rw [ofLe_toLe fits]
  exact reads_take rfl

theorem reads_str {s : String} (short : Short s) : Reads str (pushStr s) s := by
  have fits : (utf8 s).length < 256 ^ 8 := lt_trans short (by decide)
  refine (reads_take (length_toLe 8 _)).bind ?_
  have decoded : text (utf8 s) = Pure.pure s := by rw [text, fromUtf8_utf8]
  rw [ofLe_toLe fits]
  intro offset rest
  rw [bind_apply, reads_take rfl]
  show text (utf8 s) _ = _
  rw [decoded]
  rfl

theorem reads_optStr {o : Option String} (short : ∀ s ∈ o, Short s) : Reads optStr (pushOpt o) o := by
  cases o with
  | none => exact (@reads_take [0] 1 rfl).bind (Reads.pure none)
  | some s => exact (@reads_take [1] 1 rfl).bind (reads_str (short s rfl)).map

end Reader

/-! ## Metadata -/

structure AttachmentMeta.Short (m : AttachmentMeta) : Prop where
  cacheKey : Store.Short m.cacheKey
  discordMessageId : Store.Short m.discordMessageId
  randomFilename : Store.Short m.randomFilename
  mime : Store.Short m.mime
  scopeType : ∀ s ∈ m.scopeType, Store.Short s
  scopeId : ∀ s ∈ m.scopeId, Store.Short s
  senderDiscordId : ∀ s ∈ m.senderDiscordId, Store.Short s

theorem decode_encodeMessageMeta {msg : StoredMessage} (short : msg.Short) :
    decodeMessageMeta (encodeMessageMeta msg.metadata) = .ok msg.metadata := by
  apply Reader.Accepts.decode
  simp only [encodeMessageMeta, List.append_assoc]
  apply (Reader.reads_str short.discordMessageId).accepts
  apply (Reader.reads_str short.channelId).accepts
  apply (Reader.reads_str short.senderDiscordId).accepts
  apply (Reader.reads_str short.senderOslUserId).accepts
  apply (Reader.reads_i64).accepts
  exact Reader.accepts_finish

theorem decode_encodeAttachmentMeta {m : AttachmentMeta} (short : m.Short) :
    decodeAttachmentMeta (encodeAttachmentMeta m) = .ok m := by
  apply Reader.Accepts.decode
  simp only [encodeAttachmentMeta, List.append_assoc]
  apply (Reader.reads_str short.cacheKey).accepts
  apply (Reader.reads_str short.discordMessageId).accepts
  apply (Reader.reads_str short.randomFilename).accepts
  apply (Reader.reads_str short.mime).accepts
  apply (Reader.reads_i64).accepts
  apply (Reader.reads_i64).accepts
  apply (Reader.reads_optStr short.scopeType).accepts
  apply (Reader.reads_optStr short.scopeId).accepts
  rw [← List.append_nil (pushOpt m.senderDiscordId)]
  apply (Reader.reads_optStr short.senderDiscordId).accepts
  exact Reader.accepts_finish

/-! ## Manifests -/

structure AttachmentManifestEntry.Sized (e : AttachmentManifestEntry) : Prop where
  ckBi : e.ckBi.length = 32
  metadataCommitment : e.metadataCommitment.length = 32
  bodyCommitment : e.bodyCommitment.length = 32
  wrapperCommitment : e.wrapperCommitment.length = 32

variable {e : AttachmentManifestEntry} {entries : List AttachmentManifestEntry} {m : AttachmentManifest} {C : Crypto}
  {K : Keys} {a : AttachmentArgs} {row : AttachmentRow}

theorem AttachmentManifestEntry.Sized.length (sized : e.Sized) : (encodeEntry e).length = 152 := by
  simp [encodeEntry, pushAadPart, sized.ckBi, sized.metadataCommitment, sized.bodyCommitment, sized.wrapperCommitment]

theorem reads_entry (sized : e.Sized) : Reader.Reads readEntry (encodeEntry e) e := by
  have fits : e.ckBi.length < 256 ^ 8 := by
    rw [sized.ckBi]
    decide
  simp only [encodeEntry, List.append_assoc]
  refine (Reader.reads_bytes fits).bind ?_
  rw [if_neg (not_not.2 sized.ckBi)]
  refine (Reader.reads_i64).bind ((Reader.reads_i64).bind ?_)
  refine (Reader.reads_take sized.metadataCommitment).bind ((Reader.reads_take sized.bodyCommitment).bind ?_)
  exact (Reader.reads_take sized.wrapperCommitment).map

theorem reads_entries (sized : ∀ e ∈ entries, e.Sized) :
    Reader.Reads (readEntries entries.length) (entries.map encodeEntry).flatten entries := by
  induction entries with
  | nil => exact Reader.Reads.pure []
  | cons e entries ih =>
    have rest := ih fun x mem => sized x (List.mem_cons_of_mem _ mem)
    exact (reads_entry (sized e (by simp))).bind rest.map

theorem length_entries (sized : ∀ e ∈ entries, e.Sized) :
    (entries.map encodeEntry).flatten.length = 152 * entries.length := by
  induction entries with
  | nil => rfl
  | cons e entries ih =>
    rw [List.map_cons, List.flatten_cons, List.length_append, (sized e (by simp)).length,
      ih fun x mem => sized x (List.mem_cons_of_mem _ mem), List.length_cons]
    omega

/-- A manifest that fits its encoding. -/
structure AttachmentManifest.Sized (m : AttachmentManifest) : Prop where
  entries : ∀ e ∈ m.entries, e.Sized
  count : m.entries.length < 256 ^ 8

theorem decode_encodeAttachmentManifest (sized : m.Sized) :
    decodeAttachmentManifest (encodeAttachmentManifest m) = .ok m := by
  apply Reader.Accepts.decode
  simp only [encodeAttachmentManifest, List.append_assoc]
  apply (Reader.reads_u32 (by decide)).accepts
  apply (Reader.reads_take (n := 1) rfl).accepts
  have coverage : readCoverage [m.complete.toNat] = pure m.complete := by cases m.complete <;> rfl
  rw [coverage, pure_bind]
  apply (Reader.reads_i64).accepts
  apply (Reader.reads_take (length_toLe 8 _)).accepts
  rw [ofLe_toLe sized.count]
  intro offset
  -- the bound is read off the cursor: exactly the entries are left
  have enough : ¬m.entries.length > (m.entries.map encodeEntry).flatten.length / 152 := by
    rw [length_entries sized.entries]
    omega
  have accepted : Reader.Accepts (readEntries m.entries.length >>= fun entries =>
      Reader.finish >>= fun _ => pure ⟨m.complete, m.generation, entries⟩) (m.entries.map encodeEntry).flatten m := by
    rw [← List.append_nil (m.entries.map encodeEntry).flatten]
    exact (reads_entries sized.entries).accepts (Reader.accepts_finish)
  obtain ⟨c, read⟩ := accepted offset
  refine ⟨c, ?_⟩
  rw [← read]
  exact congrFun (if_neg enough) _

/-! ## Sealing -/

theorem unsealWith_sealWith (ideal : C.Ideal) {key aad nonce plaintext : Bytes} (size : nonce.length = nonceSize) :
    unsealWith C key aad nonce (sealWith C key aad nonce plaintext) = .ok plaintext := by
  have opened : C.aead.decrypt key nonce aad (sealWith C key aad nonce plaintext) = some plaintext :=
    (ideal.aead.decrypt_iff _ _ _ _ _).2 rfl
  rw [unsealWith, if_neg (not_not.2 size), opened]

/-- What opens was sealed, with this nonce and associated data. -/
theorem unsealWith_ok (ideal : C.Ideal) {key aad nonce ciphertext plaintext : Bytes}
    (opened : unsealWith C key aad nonce ciphertext = .ok plaintext) :
    nonce.length = nonceSize ∧ ciphertext = sealWith C key aad nonce plaintext := by
  unfold unsealWith at opened
  split at opened
  · cases opened
  · rename_i size
    cases found : C.aead.decrypt key nonce aad ciphertext with
    | none =>
      rw [found] at opened
      cases opened
    | some text =>
      rw [found] at opened
      cases opened
      exact ⟨not_not.1 size, (ideal.aead.decrypt_iff _ _ _ _ _).1 found⟩

theorem unsealAttachmentManifest_seal (ideal : C.Ideal) {key midBi nonce : Bytes}
    (size : nonce.length = nonceSize) (positive : 1 ≤ m.generation.1) (sized : m.Sized) :
    unsealAttachmentManifest C key midBi m.complete m.generation nonce (sealWith C key
      (attachmentManifestAad midBi m.complete m.generation) nonce (encodeAttachmentManifest m)) = .ok m := by
  rw [unsealAttachmentManifest, if_neg (by omega), unsealWith_sealWith ideal size]
  show (decodeAttachmentManifest _ >>= _) = _
  rw [decode_encodeAttachmentManifest sized]
  show (if _ then _ else _) = _
  rw [if_neg (by simp)]

theorem unsealAttachmentBody_seal (ideal : C.Ideal) {key ckBi midBi metadata plaintext metaNonce : Bytes}
    {seq version : I64} {d : BodyDraws} :
    unsealAttachmentBody C key ckBi midBi seq version metadata d.wrapNonce
      (sealAttachmentBody C key ckBi midBi seq version metadata plaintext metaNonce d).wrappedKey d.nonce
      (sealAttachmentBody C key ckBi midBi seq version metadata plaintext metaNonce d).ciphertext = .ok plaintext := by
  unfold unsealAttachmentBody sealAttachmentBody
  simp only []
  rw [unsealWith_sealWith ideal d.wrapNonce_length]
  show (if _ then _ else _) = _
  rw [if_neg (not_not.2 d.contentKey_length), unsealWith_sealWith ideal d.nonce_length]

theorem length_utf8_append {s t : String} : (utf8 (s ++ t)).length = (utf8 s).length + (utf8 t).length := by
  simp [utf8]

theorem AttachmentArgs.Short.metadata (short : a.Short) (now : I64) : (a.metadata now).Short := by
  have key := short.cacheKey
  unfold AttachmentArgs.cacheKey Store.Short at key
  rw [length_utf8_append, length_utf8_append] at key
  refine ⟨short.cacheKey, ?_, ?_, short.mime, short.scopeType, short.scopeId, short.senderDiscordId⟩
  · show (utf8 a.discordMessageId).length < 2 ^ 63
    omega
  · show (utf8 a.randomFilename).length < 2 ^ 63
    omega

/-- The parts of a row that authenticates. -/
structure Authentic (C : Crypto) (K : Keys) (row : AttachmentRow) (metadata : Bytes) (m : AttachmentMeta)
    (wrapperNonce wrapper plaintext : Bytes) : Prop where
  version : 1 ≤ row.contentVersion.1
  opened : unsealWith C K.key (attachmentMetaAad row.ckBi row.midBi row.seq row.contentVersion) row.metaNonce
    row.metaCt = .ok metadata
  decoded : decodeAttachmentMeta metadata = .ok m
  ckBi : bi C K biCacheKey m.cacheKey = row.ckBi
  midBi : bi C K biMessageId m.discordMessageId = row.midBi
  senderBi : m.senderDiscordId.map (bi C K biSenderId) = row.senderBi
  wrappedKeyNonce : row.wrappedKeyNonce = some wrapperNonce
  wrappedKey : row.wrappedKey = some wrapper
  body : unsealAttachmentBody C K.key row.ckBi row.midBi row.seq row.contentVersion metadata wrapperNonce wrapper
    row.nonce row.ciphertext = .ok plaintext

theorem authenticateAttachmentRow_ok :
    authenticateAttachmentRow C K row = .ok e ↔ ∃ metadata m wrapperNonce wrapper plaintext,
      Authentic C K row metadata m wrapperNonce wrapper plaintext ∧
        e = attachmentManifestEntry C row.ckBi row.seq row.contentVersion metadata row.nonce row.ciphertext
          wrapperNonce wrapper := by
  constructor
  · intro done
    unfold authenticateAttachmentRow at done
    split at done
    · cases done
    obtain ⟨metadata, opened, done⟩ := bind_ok.1 done
    obtain ⟨m, decoded, done⟩ := bind_ok.1 done
    split at done
    · cases done
    rename_i selectors
    obtain ⟨ck, rest⟩ := not_or.1 selectors
    obtain ⟨mid, sender⟩ := not_or.1 rest
    obtain ⟨wrapperNonce, nonce, done⟩ := bind_ok.1 done
    obtain ⟨wrapper, key, done⟩ := bind_ok.1 done
    obtain ⟨plaintext, body, done⟩ := bind_ok.1 done
    cases done
    exact ⟨metadata, m, wrapperNonce, wrapper, plaintext, ⟨by omega, opened, decoded, not_not.1 ck, not_not.1 mid,
      not_not.1 sender, required_ok.1 nonce, required_ok.1 key, body⟩, rfl⟩
  · rintro ⟨metadata, m, wrapperNonce, wrapper, plaintext, parts, rfl⟩
    have selectors : ¬(bi C K biCacheKey m.cacheKey ≠ row.ckBi ∨ bi C K biMessageId m.discordMessageId ≠ row.midBi ∨
        m.senderDiscordId.map (bi C K biSenderId) ≠ row.senderBi) := by
      rw [parts.ckBi, parts.midBi, parts.senderBi]
      simp
    have version := parts.version
    unfold authenticateAttachmentRow
    rw [if_neg (by omega)]
    refine bind_ok.2 ⟨metadata, parts.opened, bind_ok.2 ⟨m, parts.decoded, ?_⟩⟩
    rw [if_neg selectors]
    exact bind_ok.2 ⟨_, required_ok.2 parts.wrappedKeyNonce, bind_ok.2 ⟨_, required_ok.2 parts.wrappedKey,
      bind_ok.2 ⟨plaintext, parts.body, rfl⟩⟩⟩

/-- A row just written authenticates, and its entry is the one written with it. -/
theorem authenticate_sealedAttachment (ideal : C.Ideal) (short : a.Short) {seq version : I64}
    {d : AttachmentDraws} (positive : 1 ≤ version.1) :
    authenticateAttachmentRow C K (sealedAttachment C K a (bi C K biCacheKey a.cacheKey)
      (bi C K biMessageId a.discordMessageId) seq version d) = .ok (sealedEntry C K a (bi C K biCacheKey a.cacheKey)
        (bi C K biMessageId a.discordMessageId) seq version d) := by
  have decoded := decode_encodeAttachmentMeta (short.metadata d.now)
  have body := @unsealAttachmentBody_seal C ideal K.key (bi C K biCacheKey a.cacheKey)
    (bi C K biMessageId a.discordMessageId) (encodeAttachmentMeta (a.metadata d.now)) a.plaintext d.metaNonce seq
    version d.body
  have opened := @unsealWith_sealWith C ideal K.key (attachmentMetaAad (bi C K biCacheKey a.cacheKey)
    (bi C K biMessageId a.discordMessageId) seq version) d.metaNonce (encodeAttachmentMeta (a.metadata d.now))
    d.metaNonce_length
  refine authenticateAttachmentRow_ok.2 ⟨encodeAttachmentMeta (a.metadata d.now), a.metadata d.now, d.body.wrapNonce,
    (sealAttachmentBody C K.key (bi C K biCacheKey a.cacheKey) (bi C K biMessageId a.discordMessageId) seq version
      (encodeAttachmentMeta (a.metadata d.now)) a.plaintext d.metaNonce d.body).wrappedKey, a.plaintext,
    ⟨positive, opened, decoded, rfl, rfl, rfl, rfl, rfl, body⟩, rfl⟩

/-- An entry the check computes has the sizes of the encoding. -/
theorem authenticate_sized (ideal : C.Ideal) (done : authenticateAttachmentRow C K row = .ok e) : e.Sized := by
  obtain ⟨metadata, m, wrapperNonce, wrapper, plaintext, parts, rfl⟩ := authenticateAttachmentRow_ok.1 done
  refine ⟨?_, ideal.hkdf.length _ _ _ _, ideal.hkdf.length _ _ _ _, ideal.hkdf.length _ _ _ _⟩
  rw [← parts.ckBi]
  exact ideal.hkdf.length _ _ _ _

/-- It has the row's key and rank. -/
theorem authenticate_rank
    (done : authenticateAttachmentRow C K row = .ok e) : e.ckBi = row.ckBi ∧ e.rank = row.rank := by
  obtain ⟨metadata, m, wrapperNonce, wrapper, plaintext, parts, rfl⟩ := authenticateAttachmentRow_ok.1 done
  exact ⟨rfl, rfl⟩

end Osl.Store
