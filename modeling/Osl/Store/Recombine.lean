import Osl.Store.Reopen

/-!
# Databases put together from past states

Someone without the key can fill every column of every row with what that column
held in some row of some earlier state. Metadata, wrapped key and body of a message
are sealed apart and bound to the message's selector and version, so a read can mix
two puts of one id under one version and nothing else. A version is used twice only
after the id's row was deleted with its channel.
-/

namespace Osl.Store

open Base Table Db

/-! ## The attacker -/

/-- A stored SQL value. -/
inductive Value where
  | null
  | integer (v : Int)
  | blob (bytes : Bytes)

def Value.ofOption : Option Bytes → Value
  | none => .null
  | some bytes => .blob bytes

def MessageRow.columns (r : MessageRow) : List Value :=
  [.blob r.midBi, .blob r.chanBi, .blob r.senderBi, .blob r.metaNonce, .blob r.metaCt, .blob r.ciphertext,
    .blob r.nonce, .integer r.seq.1, .integer r.burned.toNat, .integer r.contentVersion.1,
    .ofOption r.wrappedKeyNonce, .ofOption r.wrappedKey]

def AttachmentRow.columns (r : AttachmentRow) : List Value :=
  [.blob r.ckBi, .blob r.midBi, .ofOption r.senderBi, .blob r.metaNonce, .blob r.metaCt, .blob r.ciphertext,
    .blob r.nonce, .integer r.seq.1, .integer r.burned.toNat, .integer r.contentVersion.1,
    .ofOption r.wrappedKeyNonce, .ofOption r.wrappedKey]

def ManifestRow.columns (r : ManifestRow) : List Value :=
  [.blob r.midBi, .integer r.complete.toNat, .integer r.generation.1, .blob r.nonce, .blob r.ciphertext]

/-- Each column of `x` is that column of one of `rows`. -/
def Mixes {ρ : Type} (columns : ρ → List Value) (rows : ρ → Prop) (x : ρ) : Prop :=
  ∀ i : Nat, ∃ r, rows r ∧ (columns r)[i]? = (columns x)[i]?

section

variable (C : Crypto) (K : Keys)

/-- A state the store was in. -/
def Past (ops : List Op) (db : Db) : Prop := ∃ pre, pre <+: ops ∧ run (step C K) fresh pre = db

structure Recombined (ops : List Op) (db : Db) : Prop where
  messages : ∀ x ∈ db.messages, Mixes MessageRow.columns (fun r => ∃ s, Past C K ops s ∧ r ∈ s.messages) x
  attachments : ∀ x ∈ db.attachments, Mixes AttachmentRow.columns (fun r => ∃ s, Past C K ops s ∧ r ∈ s.attachments) x
  manifests : ∀ x ∈ db.manifests, Mixes ManifestRow.columns (fun r => ∃ s, Past C K ops s ∧ r ∈ s.manifests) x

/-- `get` or `list_by_channel` returns `m` for the message id. -/
def Returned (db : Db) (id : String) (m : StoredMessage) : Prop :=
  get C K db id = .ok (some m) ∨
    (m.discordMessageId = id ∧ ∃ channelId limit msgs, listByChannel C K db channelId limit = .ok msgs ∧ m ∈ msgs)

/-- The put commits and writes a row of `version`. With the burned flag it writes one
only if there is none. -/
structure Writes (db : Db) (msg : StoredMessage) (d : PutDraws) (version : I64) : Prop where
  checks : ∃ seq, PutChecks C K msg db version seq
  done : ∃ next, put C K msg d db = .ok next
  absent : msg.burned = true → ∀ r ∈ db.messages, r.midBi ≠ bi C K biMessageId msg.discordMessageId

/-- The history has a put of `msg` that wrote a row, as `version`. -/
def PutAs (ops : List Op) (msg : StoredMessage) (version : I64) : Prop :=
  ∃ pre short d, pre ++ [.put msg short d] <+: ops ∧ Writes C K (run (step C K) fresh pre) msg d version

/-- One put wrote the identifiers, channel and sender of `p` with the body of `q`. -/
def WrittenTogether (ops : List Op) (p q : StoredMessage) : Prop :=
  ∃ msg version, PutAs C K ops msg version ∧ msg.burned = false ∧ msg.discordMessageId = p.discordMessageId ∧
    msg.channelId = p.channelId ∧ msg.senderDiscordId = p.senderDiscordId ∧
    msg.senderOslUserId = p.senderOslUserId ∧ msg.plaintext = q.plaintext

/-- Whatever a read of a recombined database returns was written by one put of the id. -/
def ReadsWhole (ops : List Op) : Prop :=
  ∀ db, Recombined C K ops db → ∀ id m, Returned C K db id m → m.discordMessageId = id ∧ WrittenTogether C K ops m m

/-- A manifest of the message can be put together that validates. -/
def Assembles (ops : List Op) (id : String) : Prop :=
  ∃ db m, Recombined C K ops db ∧ validateAttachmentManifest C K db (bi C K biMessageId id) = .ok m

/-- Any two puts that share id and version mix to what one put wrote. -/
def MixesWhole (ops : List Op) : Prop :=
  ∀ p q version, PutAs C K ops p version → PutAs C K ops q version → q.burned = false →
    p.discordMessageId = q.discordMessageId → Assembles C K ops p.discordMessageId → WrittenTogether C K ops p q

end

variable {C : Crypto} {K : Keys} {version version' seq : I64} {msg m p q : StoredMessage} {r r' x : MessageRow}
  {ops pre : List Op} {d : PutDraws} {next db : Db} {op : Op} {midBi domain : Bytes} {msgs : List StoredMessage}

/-! ## Where rows come from -/

/-- The row holds what a put of `msg` sealed, the body perhaps shredded. -/
structure SealedBy (C : Crypto) (K : Keys) (msg : StoredMessage) (version : I64) (r : MessageRow) : Prop where
  midBi : r.midBi = bi C K biMessageId msg.discordMessageId
  contentVersion : r.contentVersion = version
  metadata : ∃ nonce, r.metaCt = sealWith C K.key (messageMetaAad (bi C K biMessageId msg.discordMessageId) version)
    nonce (encodeMessageMeta msg.metadata)
  body : (msg.burned = false ∧ ∃ key nonce, r.ciphertext = sealWith C key
      (messageBodyAad (bi C K biMessageId msg.discordMessageId) version) nonce (utf8 msg.plaintext)) ∨
    ∃ n, r.ciphertext = List.replicate n 0

theorem SealedBy.shred (sealed : SealedBy C K msg version r) : SealedBy C K msg version r.shred :=
  ⟨sealed.midBi, sealed.contentVersion, sealed.metadata, .inr ⟨_, rfl⟩⟩

/-- The rows a put adds. -/
theorem put_origin (short : msg.Short)
    (done : put C K msg d (run (step C K) fresh pre) = .ok next) (mem : r ∈ next.messages) :
    r ∈ (run (step C K) fresh pre).messages ∨
      (∃ r' ∈ (run (step C K) fresh pre).messages, r = r'.shred) ∨
      ∃ version, PutAs C K (pre ++ [.put msg short d]) msg version ∧ SealedBy C K msg version r := by
  rcases put_ok done with ⟨_, rfl⟩ | ⟨version, seq, checks, ⟨flag, rfl⟩ | ⟨flag, live⟩⟩
  · exact .inl mem
  · rcases mem_putBurned mem with ⟨mem, _⟩ | ⟨r', rfl, own, mem | ⟨rfl, absent⟩⟩
    · exact .inl mem
    · exact .inr (.inl ⟨r', mem, rfl⟩)
    · exact .inr (.inr ⟨version, ⟨pre, short, d, List.prefix_refl _, ⟨seq, checks⟩, ⟨_, done⟩, fun _ => absent⟩,
        SealedBy.shred ⟨rfl, rfl, ⟨_, rfl⟩, .inr ⟨0, rfl⟩⟩⟩)
  · obtain ⟨⟨seq', rows⟩, _⟩ := putLive_rows live
    rw [rows] at mem
    rcases mem_put.1 mem with rfl | ⟨mem, _⟩
    · refine .inr (.inr ⟨version, ⟨pre, short, d, List.prefix_refl _, ⟨seq, checks⟩, ⟨_, done⟩, ?_⟩,
        ⟨rfl, rfl, ⟨_, rfl⟩, .inl ⟨flag, _, _, rfl⟩⟩⟩)
      intro set
      rw [flag] at set
      cases set
    · exact .inl mem

/-- The rows a call leaves. -/
theorem step_origin (mem : r ∈ (step C K (run (step C K) fresh pre) op).messages) :
    r ∈ (run (step C K) fresh pre).messages ∨
      (∃ r' ∈ (run (step C K) fresh pre).messages, r = r'.shred) ∨
      ∃ msg version, PutAs C K (pre ++ [op]) msg version ∧ SealedBy C K msg version r := by
  rcases step_cases (C := C) (K := K) (run (step C K) fresh pre) op with same | done
  · rw [same] at mem
    exact .inl mem
  by_cases stores : ∃ msg short d, op = .put msg short d
  · obtain ⟨msg, short, d, rfl⟩ := stores
    rcases put_origin short done mem with old | shredded | ⟨version, written, sealed⟩
    · exact .inl old
    · exact .inr (.inl shredded)
    · exact .inr (.inr ⟨msg, version, written, sealed⟩)
  by_cases caches : ∃ a short d, op = .putAttachment a short d
  · obtain ⟨a, short, d, rfl⟩ := caches
    rcases putAttachment_ok done with same | ⟨m, advanced, seq, version, ran⟩
    · rw [same] at mem
      exact .inl mem
    · rw [(putAttachment_rows ran).1] at mem
      exact .inl mem
  · have shrinks := call_shrinks done (fun msg short d same => stores ⟨msg, short, d, same⟩)
      fun a short d same => caches ⟨a, short, d, same⟩
    rcases shrinks.message r mem with old | shredded
    · exact .inl old
    · exact .inr (.inl shredded)

/-- Every row of every past state was written by a put of the history. -/
theorem past_origin (past : Past C K ops db) (mem : r ∈ db.messages) :
    ∃ msg version, PutAs C K ops msg version ∧ SealedBy C K msg version r := by
  obtain ⟨pre, before, rfl⟩ := past
  induction pre using List.reverseRecOn generalizing r with
  | nil => exact absurd mem (not_mem_empty r)
  | append_singleton pre op ih =>
    have earlier : pre <+: ops := (List.prefix_append pre [op]).trans before
    rw [run_snoc] at mem
    rcases step_origin mem with old | ⟨r', old, rfl⟩ | ⟨msg, version, written, sealed⟩
    · exact ih earlier old
    · obtain ⟨msg, version, written, sealed⟩ := ih earlier old
      exact ⟨msg, version, written, sealed.shred⟩
    · obtain ⟨pre', short, d, within, writes⟩ := written
      exact ⟨msg, version, ⟨pre', short, d, within.trans before, writes⟩, sealed⟩

theorem PutAs.short (written : PutAs C K ops msg version) : msg.Short := by
  obtain ⟨_, short, -⟩ := written
  exact short

/-! ## What a read returns -/

theorem versionedAad_inj {selector selector' : Bytes} (size : selector.length = selector'.length)
    (same : versionedAad domain selector version = versionedAad domain selector' version') :
    selector = selector' ∧ version = version' := by
  obtain ⟨front, last⟩ := List.append_inj' same (by rw [I64.length_toLe, I64.length_toLe])
  obtain ⟨_, selectors⟩ := List.append_inj' front size
  exact ⟨selectors, I64.toLe_inj last⟩

theorem length_bi (ideal : C.Ideal) {value : String} : (bi C K domain value).length = 32 :=
  ideal.hkdf.length _ _ _ _

/-- The parts of a message that a read puts together. -/
structure Materialized (C : Crypto) (K : Keys) (midBi : Bytes) (row : MessageRow) (m : StoredMessage) : Prop where
  metadata : ∃ bytes, unsealWith C K.key (messageMetaAad midBi row.contentVersion) row.metaNonce row.metaCt = .ok bytes ∧
    decodeMessageMeta bytes = .ok m.metadata
  selector : bi C K biMessageId m.discordMessageId = midBi
  body : ∃ key bytes, unsealWith C key (messageBodyAad midBi row.contentVersion) row.nonce row.ciphertext = .ok bytes ∧
    fromUtf8 bytes = some m.plaintext

theorem materialize_ok {row : MessageRow}
    (ok : materialize C K midBi row = .ok m) : Materialized C K midBi row m := by
  unfold materialize at ok
  split at ok
  · cases ok
  obtain ⟨bytes, opened, ok⟩ := bind_ok.1 ok
  obtain ⟨found, decoded, ok⟩ := bind_ok.1 ok
  split at ok
  · cases ok
  rename_i selector
  split at ok
  · cases ok
  split at ok
  · cases ok
  obtain ⟨keyNonce, _, ok⟩ := bind_ok.1 ok
  obtain ⟨wrapped, _, ok⟩ := bind_ok.1 ok
  obtain ⟨pt, body, ok⟩ := bind_ok.1 ok
  obtain ⟨plaintext, utf, ok⟩ := bind_ok.1 ok
  cases ok
  obtain ⟨key, _, body⟩ := bind_ok.1 body
  split at body
  · cases body
  exact ⟨⟨bytes, opened, decoded⟩, not_not.1 selector, key, pt, body, required_ok.1 utf⟩

/-- A row put together from past ones reads as the metadata of one put and the body of
another, of one id and under one version. -/
theorem Materialized.origin (ideal : C.Ideal) (zeroFree : C.aead.ZeroFree)
    (size : midBi.length = 32) (read : Materialized C K midBi x m)
    (mixes : Mixes MessageRow.columns (fun r => ∃ s, Past C K ops s ∧ r ∈ s.messages) x) :
    ∃ p q version, PutAs C K ops p version ∧ PutAs C K ops q version ∧ q.burned = false ∧
      p.discordMessageId = q.discordMessageId ∧ m.metadata = p.metadata ∧ m.plaintext = q.plaintext := by
  obtain ⟨bytes, opened, decoded⟩ := read.metadata
  obtain ⟨key, text, body, utf⟩ := read.body
  -- The metadata column.
  obtain ⟨r, ⟨s, past, mem⟩, column⟩ := mixes 4
  have metaCt : r.metaCt = x.metaCt := Value.blob.inj (Option.some.inj column)
  obtain ⟨p, version, putP, sealedP⟩ := past_origin past mem
  obtain ⟨nonce, sealed⟩ := sealedP.metadata
  obtain ⟨_, _, aad, plain⟩ := ideal.aead.inj
    ((sealed.symm.trans metaCt).trans (unsealWith_ok ideal opened).2)
  obtain ⟨selectorP, versionP⟩ := versionedAad_inj (by rw [length_bi ideal, size]) aad
  -- The body column, which is not a shredded one.
  obtain ⟨r', ⟨s', past', mem'⟩, column'⟩ := mixes 5
  have ciphertext : r'.ciphertext = x.ciphertext := Value.blob.inj (Option.some.inj column')
  obtain ⟨q, version', putQ, sealedQ⟩ := past_origin past' mem'
  have cut := (unsealWith_ok ideal body).2
  rcases sealedQ.body with ⟨live, key', nonce', sealed'⟩ | ⟨n, zeros⟩
  · obtain ⟨_, _, aad', plain'⟩ := ideal.aead.inj ((sealed'.symm.trans ciphertext).trans cut)
    obtain ⟨selectorQ, versionQ⟩ := versionedAad_inj (by rw [length_bi ideal, size]) aad'
    obtain rfl : version' = version := versionQ.trans versionP.symm
    refine ⟨p, q, version', putP, putQ, live, (bi_inj ideal (selectorP.trans selectorQ.symm)).2, ?_, ?_⟩
    · rw [← plain, decode_encodeMessageMeta putP.short] at decoded
      exact (Except.ok.inj decoded).symm
    · rw [← plain', fromUtf8_utf8] at utf
      exact (Option.some.inj utf).symm
  · refine absurd ((cut.symm.trans ciphertext.symm).trans zeros) (zeroFree _ _ _ _ _ ?_)
    exact List.append_ne_nil_of_left_ne_nil (List.append_ne_nil_of_left_ne_nil
      (List.append_ne_nil_of_left_ne_nil (by decide) _) _) _

theorem listRows_mem {rows : List MessageRow} (ok : listRows C K db rows = .ok msgs) (mem : m ∈ msgs) :
    ∃ row ∈ rows, (∃ manifest, validateAttachmentManifest C K db row.midBi = .ok manifest) ∧
      materialize C K row.midBi row = .ok m := by
  induction rows generalizing msgs with
  | nil =>
    cases ok
    cases mem
  | cons row rows ih =>
    obtain ⟨manifest, valid, ok⟩ := bind_ok.1 ok
    obtain ⟨first, read, ok⟩ := bind_ok.1 ok
    obtain ⟨rest, others, done⟩ := bind_ok.1 ok
    cases done
    rcases List.mem_cons.1 mem with rfl | later
    · exact ⟨row, List.mem_cons_self, ⟨manifest, valid⟩, read⟩
    · obtain ⟨row', mem', found⟩ := ih others later
      exact ⟨row', List.mem_cons_of_mem row mem', found⟩

/-- Either read materializes a row of the database, after validating its manifest. -/
theorem Returned.row {id : String} (returned : Returned C K db id m) :
    ∃ x ∈ db.messages, (∃ manifest, validateAttachmentManifest C K db x.midBi = .ok manifest) ∧
      Materialized C K x.midBi x m ∧ (x.midBi = bi C K biMessageId id ∨ m.discordMessageId = id) := by
  rcases returned with got | ⟨same, channelId, limit, msgs, listed, mem⟩
  · obtain ⟨_, _, got⟩ := bind_ok.1 got
    simp only [] at got
    cases found : (db.messages.find (bi C K biMessageId id)).filter (!·.burned) with
    | none =>
      rw [found] at got
      cases got
    | some row =>
      rw [found] at got
      obtain ⟨manifest, valid, got⟩ := bind_ok.1 got
      obtain ⟨msg, read, got⟩ := bind_ok.1 got
      cases got
      obtain ⟨mem, own⟩ := find_eq_some.1 (Option.filter_eq_some_iff.1 found).1
      rw [← own] at valid read
      exact ⟨row, mem, ⟨manifest, valid⟩, materialize_ok read, .inl own⟩
  · obtain ⟨row, listed, valid, read⟩ := listRows_mem listed mem
    have there := List.mem_of_mem_take listed
    rw [List.mem_reverse, mem_orderBy] at there
    exact ⟨row, (List.mem_filter.1 there).1, valid, materialize_ok read, .inr same⟩

/-! ## Mixing two puts -/

/-- The version of a put is positive and above that of the row it replaces. -/
theorem nextContentVersion_ok {existing : Option MessageRow}
    (ok : nextContentVersion C K msg existing = .ok version) :
    1 ≤ version.1 ∧ ∀ old ∈ existing, old.contentVersion.1 < version.1 := by
  cases existing with
  | none =>
    cases ok
    exact ⟨le_rfl, by rintro old ⟨⟩⟩
  | some old =>
    unfold nextContentVersion at ok
    simp only [] at ok
    split at ok
    · cases ok
    obtain ⟨_, _, ok⟩ := bind_ok.1 ok
    obtain ⟨_, _, ok⟩ := bind_ok.1 ok
    split at ok
    · cases ok
    split at ok
    · rename_i next
      cases ok
      rw [I64.next?_val next]
      refine ⟨by omega, ?_⟩
      rintro old ⟨⟩
      omega
    · cases ok

theorem PutChecks.above (checks : PutChecks C K msg db version seq)
    (mem : r ∈ db.messages) (own : r.midBi = bi C K biMessageId msg.discordMessageId) :
    r.contentVersion.1 < version.1 :=
  (nextContentVersion_ok checks.version).2 r (find_eq_some.2 ⟨mem, own⟩)

/-- The row a put wrote. -/
structure PutRow (C : Crypto) (K : Keys) (msg : StoredMessage) (version : I64) (r : MessageRow) : Prop where
  midBi : r.midBi = bi C K biMessageId msg.discordMessageId
  contentVersion : r.contentVersion = version
  chanBi : r.chanBi = bi C K biChannelId msg.channelId
  senderBi : r.senderBi = bi C K biSenderId msg.senderDiscordId
  metaNonce : r.metaNonce.length = nonceSize
  metaCt : r.metaCt = sealWith C K.key (messageMetaAad (bi C K biMessageId msg.discordMessageId) version) r.metaNonce
    (encodeMessageMeta msg.metadata)
  live : msg.burned = false → ∃ seq d, r = sealedRow C K msg (bi C K biMessageId msg.discordMessageId) version seq d

theorem Writes.row (writes : Writes C K db msg d version)
    (short : msg.Short) : ∃ r ∈ (step C K db (.put msg short d)).messages, PutRow C K msg version r := by
  obtain ⟨⟨seq, checks⟩, ⟨next, done⟩, absent⟩ := writes
  rw [step, show call C K db (.put msg short d) = .ok next from done]
  rcases put_ok done with ⟨⟨r, mem, own, burned⟩, _⟩ | ⟨version', seq', checks', ⟨flag, rfl⟩ | ⟨flag, live⟩⟩
  · rw [checks.live r mem own] at burned
    cases burned
  · obtain rfl : version' = version := Except.ok.inj (checks'.version.symm.trans checks.version)
    obtain ⟨r, mem, own, _⟩ := exists_putBurned (C := C) (K := K) msg (bi C K biMessageId msg.discordMessageId) version'
      seq' d db
    rcases mem_putBurned mem with ⟨_, other⟩ | ⟨r', rfl, own', old | ⟨rfl, _⟩⟩
    · exact absurd own other
    · exact absurd own' (absent flag r' old)
    · refine ⟨_, mem, rfl, rfl, rfl, rfl, d.metaNonce_length, rfl, fun unflagged => ?_⟩
      rw [flag] at unflagged
      cases unflagged
  · obtain rfl : version' = version := Except.ok.inj (checks'.version.symm.trans checks.version)
    obtain ⟨⟨seq'', rows⟩, _⟩ := putLive_rows live
    refine ⟨sealedRow C K msg (bi C K biMessageId msg.discordMessageId) version' seq'' d, ?_, rfl, rfl, rfl, rfl,
      d.metaNonce_length, rfl, fun _ => ⟨_, _, rfl⟩⟩
    rw [rows]
    exact mem_put.2 (.inl rfl)

theorem PutAs.row (written : PutAs C K ops msg version) :
    ∃ s r, Past C K ops s ∧ r ∈ s.messages ∧ PutRow C K msg version r := by
  obtain ⟨pre, short, d, before, writes⟩ := written
  obtain ⟨r, mem, row⟩ := writes.row short
  exact ⟨_, r, ⟨_, before, run_snoc⟩, mem, row⟩

/-- Metadata and selectors of `r`, the rest of `r'`. -/
def MessageRow.mix (r r' : MessageRow) : MessageRow :=
  { r' with chanBi := r.chanBi, senderBi := r.senderBi, metaNonce := r.metaNonce, metaCt := r.metaCt }

theorem mixes_mix {rows : MessageRow → Prop} (mem : rows r) (mem' : rows r') :
    Mixes MessageRow.columns rows (r.mix r') := by
  intro i
  by_cases own : i = 1 ∨ i = 2 ∨ i = 3 ∨ i = 4
  · refine ⟨r, mem, ?_⟩
    rcases own with rfl | rfl | rfl | rfl <;> rfl
  · refine ⟨r', mem', ?_⟩
    push Not at own
    obtain ⟨not1, not2, not3, not4⟩ := own
    rcases i with _ | _ | _ | _ | _ | i
    · rfl
    · exact absurd rfl not1
    · exact absurd rfl not2
    · exact absurd rfl not3
    · exact absurd rfl not4
    · rfl

/-- What a read of the mixture returns. -/
def StoredMessage.mix (p q : StoredMessage) : StoredMessage := { p with plaintext := q.plaintext, burned := false }

theorem materialize_mix (ideal : C.Ideal) (short : p.Short)
    (positive : 1 ≤ version.1) (first : PutRow C K p version r) (second : PutRow C K q version r')
    (live : q.burned = false) (same : p.discordMessageId = q.discordMessageId) :
    materialize C K (bi C K biMessageId p.discordMessageId) (r.mix r') = .ok (p.mix q) := by
  obtain ⟨seq, d, rfl⟩ := second.live live
  have opened : unsealWith C K.key (messageMetaAad (bi C K biMessageId p.discordMessageId) version) r.metaNonce r.metaCt =
      .ok (encodeMessageMeta p.metadata) := by
    rw [first.metaCt]
    exact unsealWith_sealWith ideal first.metaNonce
  have body : unsealMessageBody C K.key (bi C K biMessageId p.discordMessageId) version d.body.wrapNonce
      (sealMessageBody C K.key (bi C K biMessageId q.discordMessageId) version (utf8 q.plaintext) d.body).wrappedKey
      d.body.nonce
      (sealMessageBody C K.key (bi C K biMessageId q.discordMessageId) version (utf8 q.plaintext) d.body).ciphertext =
      .ok (utf8 q.plaintext) := by
    rw [same]
    refine bind_ok.2 ⟨_, unsealWith_sealWith ideal d.body.wrapNonce_length, ?_⟩
    rw [if_neg (not_not.2 d.body.contentKey_length)]
    exact unsealWith_sealWith ideal d.body.nonce_length
  refine (if_neg (not_lt.2 positive)).trans ?_
  refine bind_ok.2 ⟨_, opened, bind_ok.2 ⟨_, decode_encodeMessageMeta short, ?_⟩⟩
  refine (if_neg (not_not.2 rfl)).trans ?_
  refine (if_neg (not_not.2 first.chanBi.symm)).trans ?_
  refine (if_neg (not_not.2 first.senderBi.symm)).trans ?_
  exact bind_ok.2 ⟨_, rfl, bind_ok.2 ⟨_, rfl, bind_ok.2 ⟨_, body, bind_ok.2 ⟨_, required_ok.2 (fromUtf8_utf8), rfl⟩⟩⟩⟩

/-- The two puts can be mixed and the mixture read. -/
theorem exists_mixture (ideal : C.Ideal)
    (putP : PutAs C K ops p version) (putQ : PutAs C K ops q version) (live : q.burned = false)
    (same : p.discordMessageId = q.discordMessageId) (assembles : Assembles C K ops p.discordMessageId) :
    ∃ db, Recombined C K ops db ∧ get C K db p.discordMessageId = .ok (some (p.mix q)) := by
  obtain ⟨s, r, past, mem, first⟩ := putP.row
  obtain ⟨s', r', past', mem', second⟩ := putQ.row
  have ⟨_, short, _, _, ⟨⟨_, checks⟩, _, _⟩⟩ := putP
  obtain ⟨base, manifest, recombined, valid⟩ := assembles
  have selector : (r.mix r').midBi = bi C K biMessageId p.discordMessageId := by
    rw [same]
    exact second.midBi
  have unburned : (r.mix r').burned = false := by
    obtain ⟨seq, d, rfl⟩ := second.live live
    rfl
  refine ⟨{ base with messages := empty.put (r.mix r') }, ⟨?_, recombined.attachments, recombined.manifests⟩, ?_⟩
  · intro x only
    rcases mem_put.1 only with rfl | ⟨none, _⟩
    · exact mixes_mix ⟨s, past, mem⟩ ⟨s', past', mem'⟩
    · exact absurd none (not_mem_empty x)
  · have found : (((empty : Table MessageRow.midBi).put (r.mix r')).find (bi C K biMessageId p.discordMessageId)).filter
        (!·.burned) = some (r.mix r') := by
      rw [← selector, find_put_self, Option.filter_some, unburned]
      rfl
    refine bind_ok.2 ⟨(), checks.id, ?_⟩
    simp only [found]
    have positive := (nextContentVersion_ok checks.version).1
    exact bind_ok.2 ⟨_, valid, bind_ok.2 ⟨_, materialize_mix ideal short positive first second live same, rfl⟩⟩

/-! ## Histories that keep their rows -/

/-- Some row of the message has at least this version. -/
def Reached (db : Db) (midBi : Bytes) (version : I64) : Prop :=
  ∃ r ∈ db.messages, r.midBi = midBi ∧ version.1 ≤ r.contentVersion.1

theorem put_reached
    (reached : Reached db midBi version) (done : put C K msg d db = .ok next) : Reached next midBi version := by
  obtain ⟨r, mem, own, above⟩ := reached
  rcases put_ok done with ⟨_, rfl⟩ | ⟨version', seq, checks, ⟨flag, rfl⟩ | ⟨flag, live⟩⟩
  · exact ⟨r, mem, own, above⟩
  · by_cases same : r.midBi = bi C K biMessageId msg.discordMessageId
    · obtain ⟨r', mem', own', _⟩ := exists_putBurned (C := C) (K := K) msg (bi C K biMessageId msg.discordMessageId)
        version' seq d db
      rcases mem_putBurned mem' with ⟨_, other⟩ | ⟨old, rfl, named, was | ⟨_, absent⟩⟩
      · exact absurd own' other
      · obtain rfl : old = r := eq_of_key was mem (named.trans same.symm)
        exact ⟨_, mem', own, above⟩
      · exact absurd same (absent r mem)
    · exact ⟨r, putBurned_kept mem same, own, above⟩
  · obtain ⟨⟨seq', rows⟩, _⟩ := putLive_rows live
    rw [Reached, rows]
    by_cases same : r.midBi = bi C K biMessageId msg.discordMessageId
    · refine ⟨_, mem_put.2 (.inl rfl), same.symm.trans own, ?_⟩
      exact above.trans (checks.above mem same).le
    · exact ⟨r, mem_put.2 (.inr ⟨mem, same⟩), own, above⟩

theorem step_reached (reached : Reached db midBi version)
    (kept : ∀ channelId, op ≠ .deleteMessagesInChannel channelId) : Reached (step C K db op) midBi version := by
  rcases step_cases (C := C) (K := K) db op with same | done
  · rw [same]
    exact reached
  by_cases stores : ∃ msg short d, op = .put msg short d
  · obtain ⟨msg, short, d, rfl⟩ := stores
    exact put_reached reached done
  · exact call_keeps_row (fun _ holds => holds) done (fun msg short d same => stores ⟨msg, short, d, same⟩)
      (fun channelId same => absurd same (kept channelId)) reached

section
variable (kept : ∀ channelId, .deleteMessagesInChannel channelId ∉ ops)
include kept

/-- Without a deletion, a put of the same id writes a higher version. -/
theorem version_lt_of_later (same : p.discordMessageId = q.discordMessageId) {pre' : List Op} (short : p.Short)
    {d' : PutDraws} (earlier : pre ++ [.put p short d] <+: pre') (within : pre' <+: ops)
    (first : Writes C K (run (step C K) fresh pre) p d version)
    (second : Writes C K (run (step C K) fresh pre') q d' version') : version.1 < version'.1 := by
  obtain ⟨rest, rfl⟩ := earlier
  obtain ⟨r, mem, row⟩ := first.row short
  have start : Reached (run (step C K) fresh (pre ++ [.put p short d])) (bi C K biMessageId p.discordMessageId)
      version := by
    rw [run_snoc]
    exact ⟨r, mem, row.midBi, row.contentVersion.symm ▸ le_rfl⟩
  have spared : ∀ op ∈ rest, ∀ (_ : Db) channelId, op ≠ .deleteMessagesInChannel channelId := by
    rintro op here _ channelId rfl
    exact kept channelId (within.subset (List.mem_append_right _ here))
  have reached := run_invariant_of (I := fun db => Reached db (bi C K biMessageId p.discordMessageId) version)
    (fun _ _ reached spared => step_reached (C := C) (K := K) reached spared) start (allSteps_of_forall spared)
  rw [← run_append, same] at reached
  obtain ⟨old, there, own, above⟩ := reached
  obtain ⟨seq, checks⟩ := second.checks
  exact above.trans_lt (checks.above there own)

/-- A history that deletes no channel reads whole. -/
theorem mixesWhole_of_undeleted : MixesWhole C K ops := by
  intro p q version putP putQ live same _
  have prefixOf : ∀ {pre : List Op} {op : Op}, pre ++ [op] <+: ops → pre <+: ops :=
    fun before => (List.prefix_append _ _).trans before
  obtain ⟨pre, short, d, before, writes⟩ := putP
  obtain ⟨pre', short', d', before', writes'⟩ := id putQ
  rcases lt_trichotomy pre.length pre'.length with less | equal | more
  · refine absurd (version_lt_of_later kept same short ?_ (prefixOf before') writes writes') (lt_irrefl _)
    exact List.prefix_of_prefix_length_le before (prefixOf before') (by rw [List.length_append]; exact less)
  · have whole := (List.prefix_of_prefix_length_le before before' (by simp [equal])).eq_of_length (by simp [equal])
    injection (List.append_inj' whole rfl).2 with ops
    injection ops with messages
    subst messages
    exact ⟨_, version, putQ, live, rfl, rfl, rfl, rfl, rfl⟩
  · refine absurd (version_lt_of_later kept same.symm short' ?_ (prefixOf before) writes' writes) (lt_irrefl _)
    exact List.prefix_of_prefix_length_le before' (prefixOf before) (by rw [List.length_append]; exact more)

end

/-! ## Main result -/

theorem WrittenTogether.congr (written : WrittenTogether C K ops p q)
    (metadata : m.metadata = p.metadata) (plaintext : m.plaintext = q.plaintext) : WrittenTogether C K ops m m := by
  obtain ⟨msg, version, put, live, id, channel, sender, user, text⟩ := written
  injection metadata with id' channel' sender' user'
  exact ⟨msg, version, put, live, id.trans id'.symm, channel.trans channel'.symm, sender.trans sender'.symm,
    user.trans user'.symm, text.trans plaintext.symm⟩

theorem readsWhole_of_mixesWhole (ideal : C.Ideal) (zeroFree : C.aead.ZeroFree)
    (mixes : MixesWhole C K ops) : ReadsWhole C K ops := by
  intro db recombined id m returned
  obtain ⟨x, mem, ⟨manifest, valid⟩, read, named⟩ := returned.row
  -- The selector column holds the blind index of some id.
  have size : x.midBi.length = 32 := by
    rw [← read.selector]
    exact length_bi ideal
  obtain ⟨p, q, version, putP, putQ, live, same, metadata, plaintext⟩ := read.origin ideal zeroFree size
    (recombined.messages x mem)
  have id' : m.discordMessageId = p.discordMessageId := congrArg MessageMeta.discordMessageId metadata
  constructor
  · rcases named with selector | named
    · exact (bi_inj ideal (read.selector.trans selector)).2
    · exact named
  · rw [← read.selector, id'] at valid
    exact (mixes p q version putP putQ live same ⟨db, manifest, recombined, valid⟩).congr metadata plaintext

theorem mixesWhole_of_readsWhole (ideal : C.Ideal) (reads : ReadsWhole C K ops) : MixesWhole C K ops := by
  intro p q version putP putQ live same assembles
  obtain ⟨db, recombined, got⟩ := exists_mixture ideal putP putQ live same assembles
  exact (reads db recombined _ _ (.inl got)).2

/-- **What a recombined database shows.** -/
theorem readsWhole_iff_mixesWhole (ideal : C.Ideal) (zeroFree : C.aead.ZeroFree) (ops : List Op) :
    ReadsWhole C K ops ↔ MixesWhole C K ops :=
  ⟨mixesWhole_of_readsWhole ideal, readsWhole_of_mixesWhole ideal zeroFree⟩

/-- Two edits of one message and its attachment, with no deletion. -/
theorem edited_message_reads_whole : symbolicCrypto.Ideal ∧ symbolicCrypto.aead.ZeroFree ∧
    ReadsWhole symbolicCrypto ⟨[], []⟩ [sampleStore false, sampleAttach, sampleStore false] := by
  refine ⟨symbolicCrypto_ideal, symbolicAead_zeroFree, ?_⟩
  refine (readsWhole_iff_mixesWhole symbolicCrypto_ideal symbolicAead_zeroFree _).2 (mixesWhole_of_undeleted ?_)
  intro channelId mem
  simp [sampleStore, sampleAttach] at mem

/-! ## An id stored again after its channel was deleted -/

def sampleReply : StoredMessage := ⟨"1", "2", "5", "6", "bye", I64.one, false⟩

theorem sampleReply_short : sampleReply.Short := ⟨by decide, by decide, by decide, by decide⟩

/-- A message, its channel deleted, and the id stored again by another sender. -/
def sampleReuse : List Op :=
  [sampleStore false, .deleteMessagesInChannel "2", .put sampleReply sampleReply_short samplePut]

theorem put_fresh (id : checkId "discord_message_id" msg.discordMessageId = .ok ())
    (live : msg.burned = false) (d : PutDraws) : ∃ manifest : ManifestRow,
      manifest.midBi = bi C K biMessageId msg.discordMessageId ∧ put C K msg d fresh = .ok
        ⟨empty.put (sealedRow C K msg (bi C K biMessageId msg.discordMessageId) I64.one I64.one d), .empty,
          empty.put manifest⟩ := by
  obtain ⟨ciphertext, sealed⟩ : ∃ ciphertext, sealAttachmentManifest C K.key (bi C K biMessageId msg.discordMessageId)
      ⟨true, I64.one, []⟩ d.manifestNonce = .ok ciphertext := ⟨_, if_neg (show ¬I64.one.1 < 1 by decide)⟩
  refine ⟨⟨_, true, I64.one, d.manifestNonce, ciphertext⟩, rfl, ?_⟩
  have written : writeAttachmentManifest C K
      ⟨empty.put (sealedRow C K msg (bi C K biMessageId msg.discordMessageId) I64.one I64.one d), .empty, .empty⟩
      (bi C K biMessageId msg.discordMessageId) ⟨true, I64.one, []⟩ d.manifestNonce = .ok _ :=
    bind_ok.2 ⟨ciphertext, sealed, rfl⟩
  unfold put
  rw [id, live]
  exact written

theorem writes_fresh (id : checkId "discord_message_id" msg.discordMessageId = .ok ())
    (live : msg.burned = false) : Writes C K fresh msg d I64.one := by
  obtain ⟨manifest, _, done⟩ := put_fresh (C := C) (K := K) id live d
  refine ⟨⟨I64.one, id, ?_, ?_, rfl, rfl⟩, ⟨_, done⟩, ?_⟩
  · intro r mem
    exact absurd mem (not_mem_empty r)
  · intro r mem
    exact absurd mem (not_mem_empty r)
  · intro _ r mem
    exact absurd mem (not_mem_empty r)

/-- Deleting the channel of every message leaves a fresh database. -/
theorem delete_all {channelId : String} (opens : db.opens C K)
    (channel : ∀ r ∈ db.messages, r.chanBi = bi C K biChannelId channelId)
    (attachments : ∀ a ∈ db.attachments, ∃ r ∈ db.messages, r.midBi = a.midBi)
    (manifests : ∀ m ∈ db.manifests, ∃ r ∈ db.messages, r.midBi = m.midBi) :
    ∃ n, deleteMessagesInChannel C K channelId db = .ok (n, fresh) := by
  have scope : ∀ r ∈ db.messages, inScope C K channelId none r = true := by
    intro r mem
    simp [inScope, channel r mem]
  have covered : ∀ midBi, (∃ r ∈ db.messages, r.midBi = midBi) →
      db.ofMessages (inScope C K channelId none) midBi = true := by
    rintro midBi ⟨r, mem, rfl⟩
    exact List.any_eq_true.2 ⟨r, mem, by simp [scope r mem]⟩
  refine ⟨(db.messages.rows.filter (inScope C K channelId none)).length, bind_ok.2 ⟨(), forM_ok.2 ?_, ?_⟩⟩
  · intro r mem
    obtain ⟨mem, kept⟩ := List.mem_filter.1 mem
    have live : r.burned = false := by simpa [scope r mem] using kept
    obtain ⟨m, valid⟩ := (opens_iff.1 opens r.midBi).valid (owned_iff.2 (.inl ⟨r, mem, rfl, live⟩))
    exact bind_ok.2 ⟨m, valid, rfl⟩
  · simp only [delete_eq_empty scope, delete_eq_empty fun a mem => covered _ (attachments a mem),
      delete_eq_empty fun m mem => covered _ (manifests m mem)]
    rfl

theorem recombined_past (past : Past C K ops db) : Recombined C K ops db :=
  ⟨fun x mem _ => ⟨x, ⟨db, past, mem⟩, rfl⟩, fun x mem _ => ⟨x, ⟨db, past, mem⟩, rfl⟩,
    fun x mem _ => ⟨x, ⟨db, past, mem⟩, rfl⟩⟩

theorem putAs_sampleReuse (written : PutAs C K sampleReuse msg version) :
    msg = sampleMessage false ∨ msg = sampleReply := by
  obtain ⟨pre, short, d, before, _⟩ := written
  have mem : Op.put msg short d ∈ sampleReuse := before.subset (by simp)
  simp only [sampleReuse, sampleStore, List.mem_cons, Op.put.injEq, reduceCtorEq, List.not_mem_nil, or_false,
    false_or] at mem
  rcases mem with ⟨rfl, _⟩ | ⟨rfl, _⟩
  · exact .inl rfl
  · exact .inr rfl

theorem sample_deleted : ∃ next, put symbolicCrypto ⟨[], []⟩ (sampleMessage false) samplePut fresh = .ok next ∧
    Valid symbolicCrypto ⟨[], []⟩ next (bi symbolicCrypto ⟨[], []⟩ biMessageId "1") ∧
    ∃ n, deleteMessagesInChannel symbolicCrypto ⟨[], []⟩ "2" next = .ok (n, fresh) := by
  obtain ⟨manifest, own, done⟩ := put_fresh (C := symbolicCrypto) (K := ⟨[], []⟩) (checkId_sample).1
    (show (sampleMessage false).burned = false from rfl) samplePut
  have opens := (put_opens_iff symbolicCrypto_ideal numbered_fresh opens_fresh done).2 (by rintro ⟨⟩)
  refine ⟨_, done, (opens_iff.1 opens _).valid (owned_iff.2 (.inl ⟨_, mem_put.2 (.inl rfl), rfl, rfl⟩)),
    delete_all opens ?_ ?_ ?_⟩
  · intro r mem
    rcases mem_put.1 mem with rfl | ⟨none, _⟩
    · rfl
    · exact absurd none (not_mem_empty r)
  · intro a mem
    exact absurd mem (not_mem_empty a)
  · intro m mem
    rcases mem_put.1 mem with rfl | ⟨none, _⟩
    · exact ⟨_, mem_put.2 (.inl rfl), own.symm⟩
    · exact absurd none (not_mem_empty m)

/-- **A reused id mixes two messages.** The first sender is shown with the second body. -/
theorem reused_id_mixes : ¬ReadsWhole symbolicCrypto ⟨[], []⟩ sampleReuse := by
  intro reads
  have id : checkId "discord_message_id" "1" = .ok () := (checkId_sample).1
  obtain ⟨next, done, ⟨m, valid⟩, n, deleted⟩ := sample_deleted
  have first : step symbolicCrypto ⟨[], []⟩ fresh (sampleStore false) = next := by
    rw [step, show call symbolicCrypto ⟨[], []⟩ fresh (sampleStore false) = .ok next from done]
  have second : step symbolicCrypto ⟨[], []⟩ next (.deleteMessagesInChannel "2") = fresh := by
    rw [step, show call symbolicCrypto ⟨[], []⟩ next (.deleteMessagesInChannel "2") = .ok fresh from
      map_ok.2 ⟨_, deleted, rfl⟩]
  have putP : PutAs symbolicCrypto ⟨[], []⟩ sampleReuse (sampleMessage false) I64.one :=
    ⟨[], sampleMessage_short, samplePut, ⟨_, rfl⟩, writes_fresh id rfl⟩
  have putQ : PutAs symbolicCrypto ⟨[], []⟩ sampleReuse sampleReply I64.one := by
    refine ⟨[sampleStore false, .deleteMessagesInChannel "2"], sampleReply_short, samplePut, ⟨[], rfl⟩, ?_⟩
    rw [run_cons, run_cons, run_nil, first, second]
    exact writes_fresh id rfl
  have past : Past symbolicCrypto ⟨[], []⟩ sampleReuse next := ⟨[sampleStore false], ⟨_, rfl⟩, first⟩
  obtain ⟨msg, version, written, _, _, _, sender, _, text⟩ := mixesWhole_of_readsWhole symbolicCrypto_ideal reads
    (sampleMessage false) sampleReply I64.one putP putQ rfl rfl ⟨next, m, recombined_past past, valid⟩
  rcases putAs_sampleReuse written with rfl | rfl
  · exact absurd text (by decide)
  · exact absurd sender (by decide)

end Osl.Store
