import Mathlib.Data.Prod.Lex
import Mathlib.Data.List.Lex
import Osl.Base.Run
import Osl.Base.Table
import Osl.Store.Cipher

/-!
# The message store (`crates/store/src/lib.rs`)

Three tables: messages, attachments and one sealed manifest of the attachments of
each message. A call runs in one transaction, so an error leaves the database as
it was. The write-ahead log and its checkpoint marker, and errors of SQLite
other than an overflowing counter, are left out; so are the schema versions
before the current one and the columns that are always `NULL`.
-/

namespace Osl.Store

open Base

/-! ## Tables -/

structure MessageRow where
  midBi : Bytes
  chanBi : Bytes
  senderBi : Bytes
  metaNonce : Bytes
  metaCt : Bytes
  ciphertext : Bytes
  nonce : Bytes
  seq : I64
  burned : Bool
  contentVersion : I64
  wrappedKeyNonce : Option Bytes
  wrappedKey : Option Bytes
  deriving DecidableEq

structure AttachmentRow where
  ckBi : Bytes
  midBi : Bytes
  senderBi : Option Bytes
  metaNonce : Bytes
  metaCt : Bytes
  ciphertext : Bytes
  nonce : Bytes
  seq : I64
  burned : Bool
  contentVersion : I64
  wrappedKeyNonce : Option Bytes
  wrappedKey : Option Bytes
  deriving DecidableEq

structure ManifestRow where
  midBi : Bytes
  complete : Bool
  generation : I64
  nonce : Bytes
  ciphertext : Bytes
  deriving DecidableEq

structure Db where
  messages : Table MessageRow.midBi
  attachments : Table AttachmentRow.ckBi
  manifests : Table ManifestRow.midBi

/-- A database as it is created. -/
def Db.fresh : Db := ⟨.empty, .empty, .empty⟩

/-- `zeroblob(length(blob))`. -/
def zeroblob (blob : Bytes) : Bytes := List.replicate blob.length 0

/-- The columns `shred_row` sets. -/
def MessageRow.shred (r : MessageRow) : MessageRow :=
  { r with
    ciphertext := zeroblob r.ciphertext
    nonce := zeroblob r.nonce
    wrappedKeyNonce := none
    wrappedKey := none
    burned := true }

/-- The columns `shred_attachment_rows` sets. -/
def AttachmentRow.shred (r : AttachmentRow) : AttachmentRow :=
  { r with
    metaNonce := zeroblob r.metaNonce
    metaCt := zeroblob r.metaCt
    ciphertext := zeroblob r.ciphertext
    nonce := zeroblob r.nonce
    wrappedKeyNonce := none
    wrappedKey := none
    burned := true }

def Db.shredMessages (db : Db) (p : MessageRow → Bool) : Db :=
  { db with messages := db.messages.update p MessageRow.shred fun _ => rfl }

def Db.shredAttachments (db : Db) (p : AttachmentRow → Bool) : Db :=
  { db with attachments := db.attachments.update p AttachmentRow.shred fun _ => rfl }

def Db.deleteManifests (db : Db) (p : ManifestRow → Bool) : Db :=
  { db with manifests := db.manifests.delete p }

/-! ## Manifests -/

variable (C : Crypto) (K : Keys)

def bi (domain : Bytes) (value : String) : Bytes := blindIndex C K.indexKey domain value

def readAttachmentManifest (db : Db) (midBi : Bytes) : Result (Option AttachmentManifest) :=
  match db.manifests.find midBi with
  | none => .ok none
  | some row =>
    (unsealAttachmentManifest C K.key midBi row.complete row.generation row.nonce row.ciphertext).map some

def writeAttachmentManifest (db : Db) (midBi : Bytes) (m : AttachmentManifest) (nonce : Bytes) : Result Db := do
  let ciphertext ← sealAttachmentManifest C K.key midBi m nonce
  .ok { db with manifests := db.manifests.put ⟨midBi, m.complete, m.generation, nonce, ciphertext⟩ }

/-- `ORDER BY seq ASC, ck_bi ASC`. -/
def AttachmentRow.rank (r : AttachmentRow) : I64 ×ₗ Bytes := toLex (r.seq, r.ckBi)

def AttachmentManifestEntry.rank (e : AttachmentManifestEntry) : I64 ×ₗ Bytes := toLex (e.seq, e.ckBi)

/-- The rows `WHERE mid_bi = ?1 AND burned = 0`. -/
def Db.liveAttachments (db : Db) (midBi : Bytes) : List AttachmentRow :=
  db.attachments.rows.filter fun r => r.midBi = midBi && !r.burned

def required {α : Type} (x : Option α) (msg : String) : Result α :=
  match x with
  | some a => .ok a
  | none => .error (.corrupted msg)

/-- One row of `validate_attachment_manifest`: every part authenticates; what the
manifest must say about it. -/
def authenticateAttachmentRow (row : AttachmentRow) : Result AttachmentManifestEntry := do
  if row.contentVersion.1 < 1 then .error (.corrupted "attachment content version must be positive")
  else
    let metadata ← unsealWith C K.key (attachmentMetaAad row.ckBi row.midBi row.seq row.contentVersion)
      row.metaNonce row.metaCt
    let m ← decodeAttachmentMeta metadata
    if bi C K biCacheKey m.cacheKey ≠ row.ckBi ∨ bi C K biMessageId m.discordMessageId ≠ row.midBi ∨
        m.senderDiscordId.map (bi C K biSenderId) ≠ row.senderBi then
      .error (.corrupted "attachment selectors do not match authenticated metadata")
    else
      let wrapperNonce ← required row.wrappedKeyNonce "live attachment row has no wrapped-key nonce"
      let wrapper ← required row.wrappedKey "live attachment row has no wrapped content key"
      let _ ← unsealAttachmentBody C K.key row.ckBi row.midBi row.seq row.contentVersion metadata wrapperNonce
        wrapper row.nonce row.ciphertext
      .ok (attachmentManifestEntry C row.ckBi row.seq row.contentVersion metadata row.nonce row.ciphertext
        wrapperNonce wrapper)

/-- The loop of `validate_attachment_manifest`. -/
def validateRows : Option AttachmentRow → List (AttachmentRow × AttachmentManifestEntry) → Result Unit
  | _, [] => .ok ()
  | previous, (row, expected) :: rest => do
    if previous.any fun p => row.seq.1 < p.seq.1 || (row.seq = p.seq && row.ckBi ≤ p.ckBi) then
      .error (.corrupted "attachment manifest order is not canonical")
    else
      let actual ← authenticateAttachmentRow C K row
      if actual ≠ expected then .error (.corrupted "attachment row does not match authenticated manifest")
      else validateRows (some row) rest

def validateAttachmentManifest (db : Db) (midBi : Bytes) : Result AttachmentManifest := do
  let m ← required (← readAttachmentManifest C K db midBi) "live message or attachment set has no manifest"
  let rows := orderBy AttachmentRow.rank (db.liveAttachments midBi)
  if rows.length ≠ m.entries.length then
    .error (.corrupted "attachment rows do not match authenticated manifest count")
  else
    validateRows C K none (rows.zip m.entries)
    .ok m

/-- `(SELECT COUNT(*) FROM messages ..) + (SELECT COUNT(*) FROM attachments ..) <> 0`. -/
def Db.owned (db : Db) (midBi : Bytes) : Bool :=
  (db.messages.rows.any fun r => r.midBi = midBi && !r.burned) ||
    db.attachments.rows.any fun r => r.midBi = midBi && !r.burned

/-- The selectors of live messages, live attachments and manifests, `ORDER BY mid_bi`. -/
def Db.selectors (db : Db) : List Bytes :=
  orderBy id ((db.messages.rows.filter fun r => !r.burned).map (·.midBi) ++
    (db.attachments.rows.filter fun r => !r.burned).map (·.midBi) ++ db.manifests.rows.map (·.midBi)).dedup

def validateSelector (db : Db) (midBi : Bytes) : Result Unit := do
  if !db.owned midBi then
    -- older builds could leave the manifest of a burned message
    if db.messages.rows.any fun r => r.midBi = midBi && r.burned then .ok ()
    else .error (.corrupted "attachment manifest has no live owner or attachment rows")
  else
    let _ ← validateAttachmentManifest C K db midBi
    .ok ()

def validateAllAttachmentManifests (db : Db) : Result Unit := db.selectors.forM (validateSelector C K db)

/-- `MessageStore::open` on a database of the current schema whose canary opens:
no call writes either. -/
def Db.opens (db : Db) : Prop := validateAllAttachmentManifests C K db = .ok ()

instance (db : Db) : Decidable (db.opens C K) := by
  unfold Db.opens
  infer_instance

def generationOverflow : StoreError := .corrupted "attachment manifest generation overflow"

def AttachmentManifest.advance (m : AttachmentManifest) (entries : List AttachmentManifestEntry) :
    Result AttachmentManifest :=
  match m.generation.next? with
  | some generation => .ok { m with generation := generation, entries := entries }
  | none => .error generationOverflow

def transitionManifestToEmpty (db : Db) (midBi nonce : Bytes) : Result Db := do
  let m ← validateAttachmentManifest C K db midBi
  let next ← m.advance []
  writeAttachmentManifest C K db midBi next nonce

/-! ## Calls -/

structure StoredMessage where
  discordMessageId : String
  channelId : String
  senderDiscordId : String
  senderOslUserId : String
  plaintext : String
  decryptedAt : I64
  burned : Bool
  deriving DecidableEq

def checkId (field value : String) : Result Unit :=
  if value.contains '/' || value.contains '\x00' then
    .error (.invalidId (field ++ " may not contain '/' or NUL"))
  else .ok ()

/-- `COALESCE(MAX(seq), 0) + 1`. A sum that overflows is a `REAL`, which is not read
as an integer. -/
def nextSeq (seqs : List I64) : Result I64 :=
  match (seqs.max?.getD I64.zero).next? with
  | some seq => .ok seq
  | none => .error (.sqlite "Invalid column type Real at index: 0, name: COALESCE(MAX(seq), 0) + 1")

/-- What `put` draws. -/
structure PutDraws where
  metaNonce : Bytes
  body : BodyDraws
  manifestNonce : Bytes
  metaNonce_length : metaNonce.length = nonceSize
  manifestNonce_length : manifestNonce.length = nonceSize

def StoredMessage.metadata (msg : StoredMessage) : MessageMeta :=
  ⟨msg.discordMessageId, msg.channelId, msg.senderDiscordId, msg.senderOslUserId, msg.decryptedAt⟩

/-- The version of a new row, or the one after an existing row's. -/
def nextContentVersion (msg : StoredMessage) (existing : Option MessageRow) : Result I64 := do
  match existing with
  | none => .ok I64.one
  | some old =>
    if old.contentVersion.1 < 1 then .error (.corrupted "message content version must be positive")
    else
      let bytes ← unsealWith C K.key (messageMetaAad old.midBi old.contentVersion) old.metaNonce old.metaCt
      let oldMeta ← decodeMessageMeta bytes
      if oldMeta.discordMessageId ≠ msg.discordMessageId then
        .error (.corrupted "message blind-index selector collision")
      else
        match old.contentVersion.next? with
        | some version => .ok version
        | none => .error (.corrupted "message content version overflow")

/-- The row of a live `put`, before a conflict is resolved. -/
def sealedRow (msg : StoredMessage) (midBi : Bytes) (version seq : I64) (d : PutDraws) : MessageRow :=
  let body := sealMessageBody C K.key midBi version (utf8 msg.plaintext) d.body
  { midBi := midBi
    chanBi := bi C K biChannelId msg.channelId
    senderBi := bi C K biSenderId msg.senderDiscordId
    metaNonce := d.metaNonce
    metaCt := sealWith C K.key (messageMetaAad midBi version) d.metaNonce (encodeMessageMeta msg.metadata)
    ciphertext := body.ciphertext
    nonce := body.nonce
    seq := seq
    burned := false
    contentVersion := version
    wrappedKeyNonce := some body.wrappedKeyNonce
    wrappedKey := some body.wrappedKey }

/-- The row of a `put` with the burned flag, if there is none yet. -/
def burnedStub (msg : StoredMessage) (midBi : Bytes) (version seq : I64) (d : PutDraws) : MessageRow :=
  { sealedRow C K msg midBi version seq d with
    ciphertext := []
    nonce := []
    burned := true
    wrappedKeyNonce := none
    wrappedKey := none }

/-- `ON CONFLICT(mid_bi) DO NOTHING`, then `shred_row`. -/
def putBurned (db : Db) (msg : StoredMessage) (midBi : Bytes) (version seq : I64) (d : PutDraws) : Db :=
  let inserted := match db.messages.find midBi with
    | some _ => db
    | none => { db with messages := db.messages.put (burnedStub C K msg midBi version seq d) }
  (inserted.shredMessages (·.midBi = midBi)).deleteManifests (·.midBi = midBi)

/-- `ON CONFLICT(mid_bi) DO UPDATE`: an existing row keeps its `seq`. -/
def putLive (db : Db) (msg : StoredMessage) (midBi : Bytes) (version seq : I64) (d : PutDraws) : Result Db := do
  let seq := ((db.messages.find midBi).map (·.seq)).getD seq
  let stored := { db with messages := db.messages.put (sealedRow C K msg midBi version seq d) }
  match ← readAttachmentManifest C K stored midBi with
  | some _ => .ok stored
  | none => writeAttachmentManifest C K stored midBi ⟨true, I64.one, []⟩ d.manifestNonce

def put (msg : StoredMessage) (d : PutDraws) (db : Db) : Result Db := do
  checkId "discord_message_id" msg.discordMessageId
  let midBi := bi C K biMessageId msg.discordMessageId
  let seq ← nextSeq (db.messages.rows.map (·.seq))
  let existing := db.messages.find midBi
  if existing.any (·.burned) then .ok db
  else
    if existing.isSome then let _ ← validateAttachmentManifest C K db midBi
    let version ← nextContentVersion C K msg existing
    if msg.burned then .ok (putBurned C K db msg midBi version seq d)
    else putLive C K db msg midBi version seq d

def materialize (midBi : Bytes) (row : MessageRow) : Result StoredMessage := do
  if row.contentVersion.1 < 1 then .error (.corrupted "message content version must be positive")
  else
    let metaBytes ← unsealWith C K.key (messageMetaAad midBi row.contentVersion) row.metaNonce row.metaCt
    let m ← decodeMessageMeta metaBytes
    if bi C K biMessageId m.discordMessageId ≠ midBi then
      .error (.corrupted ("row message selector does not match its sealed metadata — " ++
        "the row was retargeted on disk"))
    else if bi C K biChannelId m.channelId ≠ row.chanBi then
      .error (.corrupted ("row channel selector does not match its sealed metadata — " ++
        "the row was retargeted on disk"))
    else if bi C K biSenderId m.senderDiscordId ≠ row.senderBi then
      .error (.corrupted ("row sender selector does not match its sealed metadata — " ++
        "the row was retargeted on disk"))
    else
      let wrappedKeyNonce ← required row.wrappedKeyNonce "live message row has no wrapped-key nonce"
      let wrappedKey ← required row.wrappedKey "live message row has no wrapped content key"
      let pt ← unsealMessageBody C K.key midBi row.contentVersion wrappedKeyNonce wrappedKey row.nonce
        row.ciphertext
      let plaintext ← required (fromUtf8 pt) "decoded plaintext is not valid UTF-8"
      .ok ⟨m.discordMessageId, m.channelId, m.senderDiscordId, m.senderOslUserId, plaintext, m.decryptedAt,
        row.burned⟩

def get (db : Db) (discordMessageId : String) : Result (Option StoredMessage) := do
  checkId "discord_message_id" discordMessageId
  let midBi := bi C K biMessageId discordMessageId
  match (db.messages.find midBi).filter (!·.burned) with
  | none => .ok none
  | some row =>
    let _ ← validateAttachmentManifest C K db midBi
    let msg ← materialize C K midBi row
    .ok (some msg)

/-- `ORDER BY seq DESC, mid_bi DESC LIMIT ?2`. -/
def channelRows (db : Db) (chanBi : Bytes) (limit : Nat) : List MessageRow :=
  ((orderBy (fun r : MessageRow => (toLex (r.seq, r.midBi) : I64 ×ₗ Bytes))
    (db.messages.rows.filter fun r => r.chanBi = chanBi && !r.burned)).reverse).take limit

def listRows (db : Db) : List MessageRow → Result (List StoredMessage)
  | [] => .ok []
  | row :: rest => do
    let _ ← validateAttachmentManifest C K db row.midBi
    let msg ← materialize C K row.midBi row
    let msgs ← listRows db rest
    .ok (msg :: msgs)

def listByChannel (db : Db) (channelId : String) (limit : Nat) : Result (List StoredMessage) :=
  listRows C K db (channelRows db (bi C K biChannelId channelId) limit)

def markBurned (discordMessageId : String) (db : Db) : Result Db := do
  let midBi := bi C K biMessageId discordMessageId
  match db.messages.find midBi with
  | none => .error (.notFound discordMessageId)
  | some row =>
    if !row.burned then let _ ← validateAttachmentManifest C K db midBi
    .ok (((db.shredMessages (·.midBi = midBi)).shredAttachments (·.midBi = midBi)).deleteManifests
      (·.midBi = midBi))

/-- The messages of a scope, all of them or one sender's. -/
def inScope (scopeId : String) (onlySender : Option String) (r : MessageRow) : Bool :=
  r.chanBi = bi C K biChannelId scopeId &&
    onlySender.all fun sender => r.senderBi = bi C K biSenderId sender

/-- `mid_bi IN (SELECT mid_bi FROM messages WHERE ..)`. -/
def Db.ofMessages (db : Db) (p : MessageRow → Bool) (midBi : Bytes) : Bool :=
  db.messages.rows.any fun r => r.midBi = midBi && p r

def validateLive (db : Db) (p : MessageRow → Bool) : Result Unit :=
  (db.messages.rows.filter fun r => p r && !r.burned).forM fun r => do
    let _ ← validateAttachmentManifest C K db r.midBi
    .ok ()

def wipeWrappedKeysInScope (scopeId : String) (onlySender : Option String) (db : Db) : Result (Nat × Db) := do
  let scope := inScope C K scopeId onlySender
  validateLive C K db scope
  let wiped := ((db.deleteManifests fun m => db.ofMessages scope m.midBi).shredAttachments
    fun a => db.ofMessages scope a.midBi).shredMessages scope
  .ok ((db.messages.rows.filter scope).length, wiped)

def deleteMessagesInChannel (channelId : String) (db : Db) : Result (Nat × Db) := do
  let channel := inScope C K channelId none
  validateLive C K db channel
  .ok ((db.messages.rows.filter channel).length, {
    messages := db.messages.delete channel
    attachments := db.attachments.delete fun a => db.ofMessages channel a.midBi
    manifests := db.manifests.delete fun m => db.ofMessages channel m.midBi })

/-- The arguments of `put_attachment`. -/
structure AttachmentArgs where
  discordMessageId : String
  randomFilename : String
  mime : String
  plaintext : Bytes
  scopeType : Option String
  scopeId : Option String
  senderDiscordId : Option String
  short : plaintext.length < 2 ^ 63

structure AttachmentDraws where
  now : I64
  metaNonce : Bytes
  body : BodyDraws
  manifestNonce : Bytes
  metaNonce_length : metaNonce.length = nonceSize
  manifestNonce_length : manifestNonce.length = nonceSize

def AttachmentArgs.cacheKey (a : AttachmentArgs) : String := a.discordMessageId ++ "/" ++ a.randomFilename

def AttachmentArgs.metadata (a : AttachmentArgs) (now : I64) : AttachmentMeta where
  cacheKey := a.cacheKey
  discordMessageId := a.discordMessageId
  randomFilename := a.randomFilename
  mime := a.mime
  byteLen := ⟨a.plaintext.length, by have := a.short; omega⟩
  createdAt := now
  scopeType := a.scopeType
  scopeId := a.scopeId
  senderDiscordId := a.senderDiscordId

/-- `seq` and version of the row: a new one's, or an existing one's after its
whole envelope is checked. -/
def nextAttachment (db : Db) (cacheKey : String) (existing : Option AttachmentRow) : Result (I64 × I64) := do
  match existing with
  | none =>
    let seq ← nextSeq (db.attachments.rows.map (·.seq))
    .ok (seq, I64.one)
  | some old =>
    if old.contentVersion.1 < 1 then .error (.corrupted "attachment content version must be positive")
    else
      let metadata ← unsealWith C K.key (attachmentMetaAad old.ckBi old.midBi old.seq old.contentVersion)
        old.metaNonce old.metaCt
      let oldMeta ← decodeAttachmentMeta metadata
      if oldMeta.cacheKey ≠ cacheKey then .error (.corrupted "attachment blind-index selector collision")
      else if old.midBi ≠ bi C K biMessageId oldMeta.discordMessageId ∨
          old.senderBi ≠ oldMeta.senderDiscordId.map (bi C K biSenderId) then
        .error (.corrupted "existing attachment selectors do not match sealed metadata")
      else
        let wrapperNonce ← required old.wrappedKeyNonce "live attachment row has no wrapped-key nonce"
        let wrapper ← required old.wrappedKey "live attachment row has no wrapped content key"
        let _ ← unsealAttachmentBody C K.key old.ckBi old.midBi old.seq old.contentVersion metadata wrapperNonce
          wrapper old.nonce old.ciphertext
        match old.contentVersion.next? with
        | some version => .ok (old.seq, version)
        | none => .error (.corrupted "attachment content version overflow")

def sealedAttachment (a : AttachmentArgs) (ckBi midBi : Bytes) (seq version : I64) (d : AttachmentDraws) :
    AttachmentRow :=
  let body := sealAttachmentBody C K.key ckBi midBi seq version (encodeAttachmentMeta (a.metadata d.now))
    a.plaintext d.metaNonce d.body
  { ckBi := ckBi
    midBi := midBi
    senderBi := a.senderDiscordId.map (bi C K biSenderId)
    metaNonce := body.metaNonce
    metaCt := body.metaCt
    ciphertext := body.ciphertext
    nonce := body.nonce
    seq := seq
    burned := false
    contentVersion := version
    wrappedKeyNonce := some body.wrappedKeyNonce
    wrappedKey := some body.wrappedKey }

/-- The entry for a row just sealed. -/
def sealedEntry (a : AttachmentArgs) (ckBi midBi : Bytes) (seq version : I64) (d : AttachmentDraws) :
    AttachmentManifestEntry :=
  let body := sealAttachmentBody C K.key ckBi midBi seq version (encodeAttachmentMeta (a.metadata d.now))
    a.plaintext d.metaNonce d.body
  attachmentManifestEntry C ckBi seq version (encodeAttachmentMeta (a.metadata d.now)) body.nonce body.ciphertext
    body.wrappedKeyNonce body.wrappedKey

/-- Replace the entry of this selector or add it, then sort. -/
def replaceEntry (entries : List AttachmentManifestEntry) (e : AttachmentManifestEntry) :
    List AttachmentManifestEntry :=
  orderBy AttachmentManifestEntry.rank (place (·.ckBi = e.ckBi) e entries)

/-- The manifest `put_attachment` starts from; generation 0 if there is none. -/
def currentManifest (db : Db) (midBi : Bytes) : Result AttachmentManifest := do
  match ← readAttachmentManifest C K db midBi with
  | some _ => validateAttachmentManifest C K db midBi
  | none => .ok ⟨true, I64.zero, []⟩

def putAttachment (a : AttachmentArgs) (d : AttachmentDraws) (db : Db) : Result Db := do
  checkId "discord_message_id" a.discordMessageId
  checkId "random_filename" a.randomFilename
  let ckBi := bi C K biCacheKey a.cacheKey
  let midBi := bi C K biMessageId a.discordMessageId
  if (db.messages.find midBi).any (·.burned) then .ok db
  else
    let m ← currentManifest C K db midBi
    let existing := db.attachments.find ckBi
    if existing.any (·.burned) then .ok db
    else if existing.isSome ∧ m.generation = I64.zero then
      .error (.corrupted "live attachment row has no authenticated manifest")
    else
      let (seq, version) ← nextAttachment C K db a.cacheKey existing
      let stored := { db with attachments := db.attachments.put (sealedAttachment C K a ckBi midBi seq version d) }
      let next ← m.advance (replaceEntry m.entries (sealedEntry C K a ckBi midBi seq version d))
      writeAttachmentManifest C K stored midBi next d.manifestNonce

def emptyManifests (nonce : Bytes → Bytes) : List Bytes → Db → Result Db
  | [], db => .ok db
  | midBi :: rest, db => do
    let next ← transitionManifestToEmpty C K db midBi (nonce midBi)
    emptyManifests nonce rest next

def wipeAttachmentsInScope (scopeId : String) (onlySender : Option String) (nonce : Bytes → Bytes) (db : Db) :
    Result (Nat × Db) := do
  let scope := inScope C K scopeId onlySender
  let targets := (db.messages.rows.filter fun r => scope r && !r.burned).map (·.midBi)
  let emptied ← emptyManifests C K nonce targets db
  let victim := fun a : AttachmentRow => !a.burned && db.ofMessages scope a.midBi
  .ok ((db.attachments.rows.filter victim).length, emptied.shredAttachments victim)

/-- The live rows beyond the newest `keep`. -/
def Db.trimVictims (db : Db) (keep : Nat) : List AttachmentRow :=
  let live := db.attachments.rows.filter fun r => !r.burned
  let kept := ((orderBy AttachmentRow.rank live).reverse.take keep).map (·.ckBi)
  live.filter fun r => r.ckBi ∉ kept

def trimManifests (victims : List AttachmentRow) (nonce : Bytes → Bytes) : List Bytes → Db → Result Db
  | [], db => .ok db
  | midBi :: rest, db => do
    let m ← validateAttachmentManifest C K db midBi
    let next ← m.advance (m.entries.filter fun e => !victims.any fun v => v.midBi = midBi && v.ckBi = e.ckBi)
    let written ← writeAttachmentManifest C K db midBi next (nonce midBi)
    trimManifests victims nonce rest written

def trimAttachments (keep : Nat) (nonce : Bytes → Bytes) (db : Db) : Result (Nat × Db) := do
  let victims := db.trimVictims keep
  let trimmed ← trimManifests C K victims nonce (orderBy id (victims.map (·.midBi)).dedup) db
  .ok (victims.length,
    { trimmed with attachments := trimmed.attachments.delete fun a => victims.any (·.ckBi = a.ckBi) })

def deleteAttachmentsForMessage (discordMessageId : String) (nonce : Bytes) (db : Db) : Result (Nat × Db) := do
  let midBi := bi C K biMessageId discordMessageId
  match ← readAttachmentManifest C K db midBi with
  | some _ =>
    let emptied ← transitionManifestToEmpty C K db midBi nonce
    .ok ((db.attachments.rows.filter (·.midBi = midBi)).length, emptied.shredAttachments (·.midBi = midBi))
  | none =>
    if db.owned midBi then .error (.corrupted "live message or attachment set has no manifest")
    else .ok (0, db)

/-- One round of the loop of `shred_expired_messages`. -/
def shredExpired (db : Db) (midBi : Bytes) : Result (Nat × Db) := do
  let live := (db.messages.find midBi).any (!·.burned)
  if live then let _ ← validateAttachmentManifest C K db midBi
  .ok (live.toNat, ((db.shredMessages fun r => r.midBi = midBi && !r.burned).shredAttachments
    (·.midBi = midBi)).deleteManifests (·.midBi = midBi))

def shredExpiredMessages : List String → Db → Result (Nat × Db)
  | [], db => .ok (0, db)
  | id :: ids, db => do
    let (shredded, next) ← shredExpired C K db (bi C K biMessageId id)
    let (rest, last) ← shredExpiredMessages ids next
    .ok (shredded + rest, last)

def getAttachment (db : Db) (discordMessageId randomFilename : String) : Result (Option (String × Bytes)) := do
  checkId "discord_message_id" discordMessageId
  checkId "random_filename" randomFilename
  let cacheKey := discordMessageId ++ "/" ++ randomFilename
  let ckBi := bi C K biCacheKey cacheKey
  let midBi := bi C K biMessageId discordMessageId
  let hasManifest := (← readAttachmentManifest C K db midBi).isSome
  if hasManifest then let _ ← validateAttachmentManifest C K db midBi
  if !hasManifest && db.owned midBi then
    .error (.corrupted "live message or attachment set has no manifest")
  else
    match (db.attachments.find ckBi).filter (!·.burned) with
    | none => .ok none
    | some row =>
      if !hasManifest then .error (.corrupted "live attachment row has no authenticated manifest")
      else if row.contentVersion.1 < 1 then .error (.corrupted "attachment content version must be positive")
      else
        let metaBytes ← unsealWith C K.key (attachmentMetaAad ckBi row.midBi row.seq row.contentVersion)
          row.metaNonce row.metaCt
        let m ← decodeAttachmentMeta metaBytes
        if bi C K biCacheKey m.cacheKey ≠ ckBi ∨ m.cacheKey ≠ cacheKey then
          .error (.corrupted "attachment cache selector does not match its sealed metadata")
        else if bi C K biMessageId m.discordMessageId ≠ row.midBi then
          .error (.corrupted "attachment message selector does not match its sealed metadata")
        else if m.senderDiscordId.map (bi C K biSenderId) ≠ row.senderBi then
          .error (.corrupted "attachment sender selector does not match its sealed metadata")
        else if m.byteLen.1 < 0 then .error (.corrupted "attachment byte length must not be negative")
        else
          let wrapperNonce ← required row.wrappedKeyNonce "live attachment row has no wrapped-key nonce"
          let wrapper ← required row.wrappedKey "live attachment row has no wrapped content key"
          let pt ← unsealAttachmentBody C K.key ckBi row.midBi row.seq row.contentVersion metaBytes wrapperNonce
            wrapper row.nonce row.ciphertext
          if (pt.length : Int) ≠ m.byteLen.1 then
            .error (.corrupted "attachment body length does not match sealed metadata")
          else .ok (some (m.mime, pt))

/-! ## Runs -/

/-- The texts of a call are Rust strings. -/
def Short (s : String) : Prop := (utf8 s).length < 2 ^ 63

instance (s : String) : Decidable (Short s) := inferInstanceAs (Decidable (_ < _))

structure StoredMessage.Short (m : StoredMessage) : Prop where
  discordMessageId : Store.Short m.discordMessageId
  channelId : Store.Short m.channelId
  senderDiscordId : Store.Short m.senderDiscordId
  senderOslUserId : Store.Short m.senderOslUserId

structure AttachmentArgs.Short (a : AttachmentArgs) : Prop where
  cacheKey : Store.Short a.cacheKey
  mime : Store.Short a.mime
  scopeType : ∀ s ∈ a.scopeType, Store.Short s
  scopeId : ∀ s ∈ a.scopeId, Store.Short s
  senderDiscordId : ∀ s ∈ a.senderDiscordId, Store.Short s

/-- A nonce for each manifest a call may write. -/
structure Nonces where
  nonce : Bytes → Bytes
  length : ∀ midBi, (nonce midBi).length = nonceSize

/-- The mutating calls of a store. -/
inductive Op where
  | put (msg : StoredMessage) (short : msg.Short) (d : PutDraws)
  | putAttachment (a : AttachmentArgs) (short : a.Short) (d : AttachmentDraws)
  | markBurned (discordMessageId : String)
  | wipeWrappedKeysInScope (scopeId : String) (onlySender : Option String)
  | wipeAttachmentsInScope (scopeId : String) (onlySender : Option String) (nonces : Nonces)
  | deleteMessagesInChannel (channelId : String)
  | trimAttachments (keep : Nat) (nonces : Nonces)
  | deleteAttachmentsForMessage (discordMessageId : String) (nonces : Nonces)
  | shredExpiredMessages (ids : List String)

/-- The database a call commits. -/
def call (db : Db) : Op → Result Db
  | .put msg _ d => put C K msg d db
  | .putAttachment a _ d => putAttachment C K a d db
  | .markBurned id => markBurned C K id db
  | .wipeWrappedKeysInScope scopeId onlySender => (wipeWrappedKeysInScope C K scopeId onlySender db).map (·.2)
  | .wipeAttachmentsInScope scopeId onlySender nonces =>
    (wipeAttachmentsInScope C K scopeId onlySender nonces.nonce db).map (·.2)
  | .deleteMessagesInChannel channelId => (deleteMessagesInChannel C K channelId db).map (·.2)
  | .trimAttachments keep nonces => (trimAttachments C K keep nonces.nonce db).map (·.2)
  | .deleteAttachmentsForMessage id nonces =>
    (deleteAttachmentsForMessage C K id (nonces.nonce (bi C K biMessageId id)) db).map (·.2)
  | .shredExpiredMessages ids => (shredExpiredMessages C K ids db).map (·.2)

/-- A failed call rolls back. -/
def step (db : Db) (op : Op) : Db :=
  match call C K db op with
  | .ok next => next
  | .error _ => db

/-! ## Sample calls -/

def sampleNonce : Bytes := List.replicate nonceSize 7

def sampleNonces : Nonces := ⟨fun _ => sampleNonce, fun _ => rfl⟩

def sampleBody : BodyDraws := ⟨List.replicate keySize 3, sampleNonce, sampleNonce, rfl, rfl, rfl⟩

def samplePut : PutDraws := ⟨sampleNonce, sampleBody, sampleNonce, rfl, rfl⟩

def sampleAttachmentDraws : AttachmentDraws := ⟨I64.one, sampleNonce, sampleBody, sampleNonce, rfl, rfl⟩

def sampleMessage (burned : Bool) : StoredMessage := ⟨"1", "2", "3", "4", "hi", I64.one, burned⟩

theorem sampleMessage_short {burned : Bool} : (sampleMessage burned).Short :=
  ⟨by cases burned <;> decide, by cases burned <;> decide, by cases burned <;> decide,
    by cases burned <;> decide⟩

def sampleAttachment : AttachmentArgs := ⟨"1", "a", "image/png", [1, 2, 3], none, none, none, by decide⟩

theorem sampleAttachment_short : sampleAttachment.Short :=
  ⟨by decide, by decide, by rintro s ⟨⟩, by rintro s ⟨⟩, by rintro s ⟨⟩⟩

/-- Cache the attachment, write the message. -/
def sampleAttach : Op := .putAttachment sampleAttachment sampleAttachment_short sampleAttachmentDraws

def sampleStore (burned : Bool) : Op := .put (sampleMessage burned) (sampleMessage_short) samplePut

end Osl.Store
