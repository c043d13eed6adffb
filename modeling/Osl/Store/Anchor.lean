import Osl.Base.Process
import Osl.Base.Slice
import Osl.Store.Model

/-!
# The anchored store (`crates/store/src/anchor.rs`, `open_anchored`)

A commit writes a record, a generation and a digest of the database, with the
transaction and then advances an anchor held outside. Opening reconciles the two.
A process may be cut off between any two durable writes, and the database file may
be replaced while no store is open.

The anchor is `KeystoreBackedAnchor` over an atomic keystore. The bytes `digest`
hashes and the migrations to schema 7 are parameters; a checkpoint of the
write-ahead log and `VACUUM` change no content.
-/

namespace Osl.Store

open Base

/-! ## The database file -/

structure AnchorRecord where
  generation : Nat
  digest : Bytes
  deriving DecidableEq

/-- The `_meta` table, by key. The two pending marks are there or not. -/
structure Meta where
  schemaVersion : Option Bytes
  canaryNonce : Option Bytes
  canaryCt : Option Bytes
  anchorMigration : Option Bytes
  vacuumPending : Bool
  shredCheckpointPending : Bool
  anchorGeneration : Option Bytes
  anchorDigest : Option Bytes

def Meta.empty : Meta := ⟨none, none, none, none, false, false, none, none⟩

/-- The other tables: none, those of a schema before 7, or the present ones. -/
inductive Tables where
  | absent
  | older (raw : Bytes)
  | current (db : Db)

structure File where
  metaTable : Option Meta
  tables : Tables

namespace File

def empty : File := ⟨none, .absent⟩

def mapMeta (f : File) (change : Meta → Meta) : File := { f with metaTable := f.metaTable.map change }

/-- What `digest` covers: all but the two fields of the record. -/
def content (f : File) : File := f.mapMeta fun m => { m with anchorGeneration := none, anchorDigest := none }

def db? (f : File) : Option Db :=
  match f.tables with
  | .current db => some db
  | _ => none

def readMetaU32 : Option Bytes → Result (Option Nat)
  | none => .ok none
  | some bytes =>
    if bytes.length ≠ 4 then .error (.schema s!"_meta[schema_version] has length {bytes.length} (want 4)")
    else .ok (some (ofLe bytes))

def inspectSchemaVersion (f : File) : Result (Option Nat) := readMetaU32 (f.metaTable.bind (·.schemaVersion))

def readRecord : Option Bytes → Option Bytes → Result (Option AnchorRecord)
  | none, none => .ok none
  | some generation, some digest =>
    if generation.length ≠ 8 then .error (.anchor "anchor generation has invalid length")
    else if digest.length ≠ 32 then .error (.anchor "anchor digest has invalid length")
    else .ok (some ⟨ofLe generation % 2 ^ 64, digest⟩)
  | _, _ => .error (.anchor "partial anchor record; refusing crash/tamper ambiguity")

def rawRecord (f : File) : Result (Option AnchorRecord) :=
  readRecord (f.metaTable.bind (·.anchorGeneration)) (f.metaTable.bind (·.anchorDigest))

def writeRecord (f : File) (r : AnchorRecord) : File :=
  f.mapMeta fun m => { m with anchorGeneration := some (toLe 8 r.generation), anchorDigest := some r.digest }

end File

/-! ## The migration journal -/

inductive MigrationPhase where
  | prepared
  | vacuumV8
  deriving DecidableEq

structure MigrationJournal where
  storeId : Bytes
  source : Nat
  target : Nat
  plan : Bytes
  nonce : Bytes
  phase : MigrationPhase
  deriving DecidableEq

def MigrationPhase.byte : MigrationPhase → Nat
  | .prepared => 1
  | .vacuumV8 => 2

def encodeJournal (j : MigrationJournal) : Bytes :=
  label "AMJ1" ++ ([1] ++ (j.storeId ++ (toLe 4 j.source ++ (toLe 4 j.target ++ (j.plan ++ (j.nonce ++
    [j.phase.byte]))))))

def readPhase (byte : Bytes) : Result MigrationPhase :=
  if byte = [1] then .ok .prepared
  else if byte = [2] then .ok .vacuumV8
  else .error (.anchor "migration journal has unknown phase")

def decodeJournal (bytes : Bytes) : Result MigrationJournal :=
  if bytes.length ≠ 110 ∨ slice 0 4 bytes ≠ label "AMJ1" ∨ slice 4 1 bytes ≠ [1] then
    .error (.anchor "migration journal has invalid format")
  else do
    let phase ← readPhase (slice 109 1 bytes)
    .ok { storeId := slice 5 32 bytes
          source := ofLe (slice 37 4 bytes)
          target := ofLe (slice 41 4 bytes)
          plan := slice 45 32 bytes
          nonce := slice 77 32 bytes
          phase := phase }

namespace File

def readJournal (f : File) : Result (Option MigrationJournal) :=
  match f.metaTable.bind (·.anchorMigration) with
  | none => .ok none
  | some bytes => (decodeJournal bytes).map some

def writeJournal (f : File) (j : MigrationJournal) : File :=
  f.mapMeta fun m => { m with anchorMigration := some (encodeJournal j) }

/-- `clear_vacuum_pending_tx` and `delete_journal`. -/
def clearMigration (f : File) : File :=
  f.mapMeta fun m => { m with vacuumPending := false, anchorMigration := none }

/-- `apply_v7_to_v8_tx`; the column it drops is not modelled. -/
def applyV7ToV8 (f : File) : Result File :=
  match f.tables with
  | .current _ => .ok (f.mapMeta fun m => { m with schemaVersion := some (toLe 4 8), vacuumPending := true })
  | _ => .error (.sqlite "no such table: messages")

def clearVacuumPending (f : File) : File := f.mapMeta fun m => { m with vacuumPending := false }

def setShredCheckpointPending (f : File) (pending : Bool) : File :=
  f.mapMeta fun m => { m with shredCheckpointPending := pending }

def vacuumPending (f : File) : Bool := f.metaTable.any (·.vacuumPending)

def shredCheckpointPending (f : File) : Bool := f.metaTable.any (·.shredCheckpointPending)

end File

/-! ## The world of a store -/

structure Env where
  crypto : Crypto
  identitySecret : Bytes
  /-- The canonical bytes `digest` hashes. -/
  encode : File → Bytes
  /-- The database after each transaction of the migrations up to schema 7. -/
  legacy : File → Result (List File)

namespace Env

variable (E : Env)

def keys : Keys := Keys.derive E.crypto E.identitySecret

def storeId : Bytes := derive32 E.crypto [] E.identitySecret (label "osl-message-store-anchor/store-id-v1")

def digestKey : Bytes := derive32 E.crypto [] E.identitySecret (label "osl-message-store-anchor/digest-key-v1")

def anchorDigest (canonical : Bytes) : Bytes :=
  derive32 E.crypto E.digestKey canonical (label "osl-message-store-anchor/digest-v1")

def digest (f : File) : Result Bytes :=
  match f.tables with
  | .current _ => .ok (E.anchorDigest (E.encode f))
  | _ => .error (.sqlite "no such table: messages")

def planDigest (source target : Nat) : Bytes :=
  E.anchorDigest (label "osl-store-anchor/migration-plan/v1" ++ toLe 4 source ++ toLe 4 target ++
    label "v7-drop-burned-at/v1")

/-- The record of the file, if it binds what the file holds. -/
def record (f : File) : Result (Option AnchorRecord) := do
  let raw ← f.rawRecord
  match raw with
  | none => .ok none
  | some r =>
    let expected ← E.digest f
    if r.digest ≠ expected then .error (.anchor "database anchor digest does not bind current state")
    else .ok (some r)

end Env

/-- The file, the anchor, and the record the open store holds. The last three are
history: every file the store wrote, the contents it recorded or adopted in order,
and how many of those there were at the last commit reported as successful. -/
structure World where
  disk : Option File
  anchor : Option AnchorRecord
  current : Option AnchorRecord
  disks : List File
  written : List (File × AnchorRecord)
  reported : Nat

namespace World

def file (w : World) : File := w.disk.getD .empty

def save (f : File) (w : World) : World := { w with disk := some f, disks := f :: w.disks }

/-- `write_record` and the commit of the transaction with content `f`. -/
def attest (f : File) (r : AnchorRecord) (w : World) : World :=
  { w.save (f.writeRecord r) with written := w.written ++ [(f.content, r)] }

def advance (r : AnchorRecord) (w : World) : World := { w with anchor := some r }

def bind (r : AnchorRecord) (w : World) : World := { w with current := some r }

def report (r : AnchorRecord) (w : World) : World := { w with current := some r, reported := w.written.length }

/-- Reconciliation took the file for the successor of the anchored state. -/
def adopt (r : AnchorRecord) (w : World) : World := { w with written := w.written ++ [(w.file.content, r)] }

end World

abbrev Proc := Process StoreError World

open Process

/-! ## The anchor -/

def checkAdvance (expected held : Option AnchorRecord) (next : AnchorRecord) : Result Unit :=
  if ∃ e ∈ expected, next.generation ≤ e.generation then .error (.anchor "keystore anchor generation must advance")
  else if expected = none ∧ next.generation = 0 then .error (.anchor "keystore anchor generation must be nonzero")
  else if held ≠ expected then .error (.anchor "keystore anchor compare-and-set rejected stale state")
  else .ok ()

def compareAndAdvance (expected : Option AnchorRecord) (next : AnchorRecord) : Proc Unit := do
  let held ← observe World.anchor
  attempt (checkAdvance expected held next)
  durable (World.advance next)

/-- How a local record stands to the anchor. -/
inductive Standing where
  | unanchored
  | agreed (r : AnchorRecord)
  | ahead (remote : Option AnchorRecord) (r : AnchorRecord)

def reconcile : Option AnchorRecord → Option AnchorRecord → Result Standing
  | none, none => .ok .unanchored
  | none, some _ =>
    .error (.anchor "database has no anchor record but provider already has state; refusing replay")
  | some l, none =>
    if l.generation ≠ 1 then .error (.anchor "provider lost anchored generation; refusing rollback")
    else .ok (.ahead none l)
  | some l, some r =>
    if l.generation = r.generation ∧ l.digest = r.digest then .ok (.agreed l)
    else if l.generation = min (r.generation + 1) (2 ^ 64 - 1) then .ok (.ahead (some r) l)
    else if l.generation < r.generation then
      .error (.anchor "database generation is behind external anchor; refusing coherent replay")
    else .error (.anchor "database and external anchor disagree")

def settle : Standing → Proc (Option AnchorRecord)
  | .unanchored => pure none
  | .agreed r => pure (some r)
  | .ahead remote r => do
    compareAndAdvance remote r
    note (World.adopt r)
    pure (some r)

variable (E : Env)

def reconcileExisting : Proc (Option AnchorRecord) := do
  let w ← observe id
  let found ← attempt (E.record w.file)
  let standing ← attempt (reconcile found w.anchor)
  settle standing

def successor (current : AnchorRecord) (f : File) : Result AnchorRecord := do
  let raw ← f.rawRecord
  if raw ≠ some current then .error (.anchor "stale local anchor generation; refusing concurrent mutation")
  else if 2 ^ 64 ≤ current.generation + 1 then .error (.anchor "generation counter overflow")
  else
    let digest ← E.digest f
    .ok ⟨current.generation + 1, digest⟩

/-- `AnchorBinding::commit`, of a transaction that leaves `f`. -/
def anchorCommit (current : AnchorRecord) (f : File) : Proc Unit := do
  let next ← attempt (successor E current f)
  durable (World.attest f next)
  compareAndAdvance (some current) next
  note (World.report next)

def commitBound (f : File) : Option AnchorRecord → Proc Unit
  | some current => anchorCommit E current f
  | none => durable (World.save f)

/-- `MessageStore::commit`. -/
def commit (f : File) : Proc Unit := do
  let bound ← observe World.current
  commitBound E f bound

def enrollOrReconcile : Proc Unit := do
  let binding ← reconcileExisting E
  match binding with
  | some r => note (World.bind r)
  | none =>
    let f ← observe World.file
    let digest ← attempt (E.digest f)
    durable (World.attest f ⟨1, digest⟩)
    compareAndAdvance none ⟨1, digest⟩
    note (World.report ⟨1, digest⟩)

/-! ## Migration of an anchored store -/

def File.expectVersion (f : File) (version : Nat) (msg : String) : Result Unit := do
  let found ← f.inspectSchemaVersion
  if found = some version then .ok () else .error (.anchor msg)

def validateJournal (j : MigrationJournal) : Result Unit :=
  if j.storeId ≠ E.storeId ∨ j.source ≠ 7 ∨ j.target ≠ 8 ∨ j.plan ≠ E.planDigest 7 8 then
    .error (.anchor "migration journal store, version, or plan does not match this anchor")
  else .ok ()

def newJournal (nonce : Bytes) : MigrationJournal := ⟨E.storeId, 7, 8, E.planDigest 7 8, nonce, .prepared⟩

def prepareMigration (nonce : Bytes) : Proc MigrationJournal := do
  let f ← observe World.file
  let found ← attempt f.readJournal
  match found with
  | none =>
    attempt (f.expectVersion 7 "anchored migration needs v7 source state before journal preparation")
    commit E (f.writeJournal (newJournal E nonce))
    pure (newJournal E nonce)
  | some j =>
    attempt (validateJournal E j)
    pure j

def applyMigration (j : MigrationJournal) : Proc Unit :=
  match j.phase with
  | .vacuumV8 => pure ()
  | .prepared => do
    let f ← observe World.file
    attempt (f.expectVersion 7 "prepared migration journal does not match source schema")
    let g ← attempt f.applyV7ToV8
    commit E (g.writeJournal { j with phase := .vacuumV8 })

def finishMigration : Proc Unit := do
  let f ← observe World.file
  attempt (f.expectVersion 8 "anchored migration step does not match target schema")
  commit E f.clearMigration

/-- `AnchorBinding::migrate_v7_to_v8`. -/
def migrateAnchored (nonce : Bytes) : Proc Unit := do
  let j ← prepareMigration E nonce
  applyMigration E j
  finishMigration E

/-! ## Schema (`crates/store/src/schema.rs`) -/

/-- A stamped version decides between the formats the tables can have. -/
def File.refuseAmbiguousLegacyWrappers (f : File) : Result Unit := do
  let version ← f.inspectSchemaVersion
  match f.tables with
  | .current _ =>
    if version = some 7 ∨ version = some 8 then .ok ()
    else .error (.schema ("pre-v7 database already contains an attachment_manifests table; " ++
      "refusing ambiguous partial migration state"))
  | _ => .ok ()

def ensureMetaTable : Proc Unit := do
  let f ← observe World.file
  match f.metaTable with
  | some _ => pure ()
  | none => durable (World.save { f with metaTable := some .empty })

def canaryPlaintext : Bytes := label "osl-message-store-canary-v1"

def canaryAad : Bytes := label "osl-message-store/canary"

/-- `unseal_canary` and the comparison with the known text. -/
def verifyCanary (nonce ct : Bytes) : Result Unit :=
  if nonce.length ≠ nonceSize then
    .error (.sealer s!"canary nonce length {nonce.length} != {nonceSize}")
  else
    match E.crypto.aead.decrypt E.keys.key nonce canaryAad ct with
    | none => .error (.sealer "wrong identity_secret (canary unseal failed)")
    | some plaintext =>
      if plaintext ≠ canaryPlaintext then .error (.sealer "canary plaintext mismatch (corruption?)") else .ok ()

/-- The first canary may only be written into a new file. -/
def File.refuseMissingCanary (f : File) : Result Unit := do
  let version ← f.inspectSchemaVersion
  match version, f.tables with
  | none, .absent => .ok ()
  | _, _ => .error (.sealer ("message store has data but no canary — refusing to open. " ++
      "The canary was removed; opening would re-seal it under whatever secret was supplied " ++
      "and could destroy the store"))

def File.setCanary (f : File) (nonce ct : Bytes) : File :=
  f.mapMeta fun m => { m with canaryNonce := some nonce, canaryCt := some ct }

def checkCanary (nonce : Bytes) : Proc Unit := do
  let f ← observe World.file
  match f.metaTable.bind (·.canaryNonce), f.metaTable.bind (·.canaryCt) with
  | none, none =>
    attempt f.refuseMissingCanary
    durable (World.save (f.setCanary nonce (sealWith E.crypto E.keys.key canaryAad nonce canaryPlaintext)))
  | some stored, some ct => attempt (verifyCanary E stored ct)
  | _, _ => fail (.schema "canary partially present (nonce or ct missing)")

def runPendingVacuum : Proc Unit := do
  let f ← observe World.file
  if f.vacuumPending then durable (World.save f.clearVacuumPending) else pure ()

/-- `schema::migrate_v7_to_v8`, without an anchor. -/
def migrateV7ToV8 : Proc Unit := do
  let f ← observe World.file
  let g ← attempt f.applyV7ToV8
  durable (World.save g)
  runPendingVacuum

def saveEach : List File → Proc Unit
  | [] => pure ()
  | f :: fs => do
    durable (World.save f)
    saveEach fs

/-- The tables of a new file, and its version, in one transaction. -/
def File.create (f : File) : File :=
  { f.mapMeta fun m => { m with schemaVersion := some (toLe 4 8) } with tables := .current .fresh }

def File.requireCurrent (f : File) : Result Unit :=
  match f.tables with
  | .current _ => .ok ()
  | _ => .error (.sqlite "no such table: messages")

/-- Where `migrate` starts. -/
inductive MigrationPath where
  | new
  | upToDate
  | fromV7
  | older
  deriving DecidableEq

def File.migrationPath (f : File) : Result MigrationPath := do
  let version ← f.inspectSchemaVersion
  match version, f.tables with
  | none, .absent => .ok .new
  | none, _ => .ok .older
  | some v, _ =>
    if 8 < v then
      .error (.schema s!"on-disk schema version {v} is newer than this binary supports (8); refusing to open")
    else if v = 8 then .ok .upToDate
    else if v = 7 then .ok .fromV7
    else .ok .older

/-- `schema::migrate`. -/
def migrate : Proc Unit := do
  let f ← observe World.file
  let path ← attempt f.migrationPath
  match path with
  | .new => durable (World.save f.create)
  | .upToDate =>
    attempt f.requireCurrent
    runPendingVacuum
  | .fromV7 => migrateV7ToV8
  | .older =>
    let files ← attempt (E.legacy f)
    saveEach files
    migrateV7ToV8

/-! ## Opening -/

structure OpenDraws where
  canaryNonce : Bytes
  journalNonce : Bytes
  canaryNonce_length : canaryNonce.length = nonceSize
  journalNonce_length : journalNonce.length = 32

def createFile : Proc Unit := do
  let w ← observe id
  match w.disk, w.anchor with
  | some _, _ => pure ()
  | none, some _ =>
    fail (.anchor "provider has anchor state but local database is absent; refusing creation")
  | none, none => durable (World.save .empty)

/-- The reconciliation before anything is written. -/
def reconcileFirst : Proc (Option AnchorRecord × Option Nat) := do
  let f ← observe World.file
  attempt f.refuseAmbiguousLegacyWrappers
  let version ← attempt f.inspectSchemaVersion
  let binding ← reconcileExisting E
  match binding with
  | none => pure (none, version)
  | some r =>
    if version = some 7 ∨ version = some 8 then
      note (World.bind r)
      pure (some r, version)
    else fail (.anchor "anchored migration before v7 is not journal-supported; refusing mutation")

def migrateOpened (d : OpenDraws) : Option AnchorRecord → Option Nat → Proc Unit
  | none, _ => do
    migrate E
    enrollOrReconcile E
  | some _, version => do
    let f ← observe World.file
    if version = some 7 then migrateAnchored E d.journalNonce
    else
      let journal ← attempt f.readJournal
      if journal.isSome then migrateAnchored E d.journalNonce else pure ()

def validateOpened : Proc Unit := do
  let f ← observe World.file
  match f.db? with
  | some db => attempt (validateAllAttachmentManifests E.crypto E.keys db)
  | none => fail (.sqlite "no such table: messages")

def finishShred : Proc Unit := do
  let f ← observe World.file
  if f.shredCheckpointPending then commit E (f.setShredCheckpointPending false) else pure ()

/-- Opening up to the point where the store has a binding and the present schema. -/
def bindStore (d : OpenDraws) : Proc Unit := do
  createFile
  let opened ← reconcileFirst E
  ensureMetaTable
  checkCanary E d.canaryNonce
  migrateOpened E d opened.1 opened.2

def openAnchored (d : OpenDraws) : Proc Unit := do
  bindStore E d
  validateOpened E
  finishShred E

/-! ## Calls on the open store -/

/-- What a call commits: the database, whether with the checkpoint mark, and
whether a second commit clears the mark. -/
structure Transaction where
  db : Db
  marks : Bool
  syncs : Bool

/-- The transaction of a call; `none` where the call returns without committing. -/
def transactionOf (C : Crypto) (K : Keys) (db : Db) : Op → Result (Option Transaction)
  | .put msg _ d => (put C K msg d db).map fun next =>
    if (db.messages.find (bi C K biMessageId msg.discordMessageId)).any (·.burned) then none
    else some ⟨next, msg.burned, msg.burned⟩
  | .putAttachment a _ d => (putAttachment C K a d db).map fun next =>
    if (db.messages.find (bi C K biMessageId a.discordMessageId)).any (·.burned) ∨
        (db.attachments.find (bi C K biCacheKey a.cacheKey)).any (·.burned) then none
    else some ⟨next, false, false⟩
  | .markBurned id => (markBurned C K id db).map fun next => some ⟨next, true, true⟩
  | .wipeWrappedKeysInScope scopeId onlySender =>
    (wipeWrappedKeysInScope C K scopeId onlySender db).map fun done => some ⟨done.2, true, true⟩
  | .wipeAttachmentsInScope scopeId onlySender nonces =>
    (wipeAttachmentsInScope C K scopeId onlySender nonces.nonce db).map fun done => some ⟨done.2, done.1 ≠ 0, true⟩
  | .deleteMessagesInChannel channelId =>
    (deleteMessagesInChannel C K channelId db).map fun done => some ⟨done.2, true, true⟩
  | .trimAttachments keep nonces =>
    (trimAttachments C K keep nonces.nonce db).map fun done => some ⟨done.2, done.1 ≠ 0, done.1 ≠ 0⟩
  | .deleteAttachmentsForMessage id nonces =>
    (deleteAttachmentsForMessage C K id (nonces.nonce (bi C K biMessageId id)) db).map fun done =>
      if (db.manifests.find (bi C K biMessageId id)).isNone then some ⟨done.2, false, false⟩
      else some ⟨done.2, done.1 ≠ 0, true⟩
  | .shredExpiredMessages ids => (shredExpiredMessages C K ids db).map fun done =>
    if ids = [] then none else some ⟨done.2, true, true⟩

def File.withTransaction (f : File) (t : Transaction) : File :=
  { f.setShredCheckpointPending (f.shredCheckpointPending || t.marks) with tables := .current t.db }

/-- `sync_anchor_after_checkpoint`. -/
def syncAnchorAfterCheckpoint : Proc Unit := do
  let f ← observe World.file
  commit E (f.setShredCheckpointPending false)

/-- The commits of a call on the file `f`. -/
def transact (f : File) : Option Transaction → Proc Unit
  | none => pure ()
  | some t => do
    commit E (f.withTransaction t)
    if t.syncs then syncAnchorAfterCheckpoint E else pure ()

def callOn (op : Op) (f : File) : Option Db → Proc Unit
  | none => fail (.sqlite "no such table: messages")
  | some db => do
    let transaction ← attempt (transactionOf E.crypto E.keys db op)
    transact E f transaction

def callAnchored (op : Op) : Proc Unit := do
  let f ← observe World.file
  callOn E op f f.db?

/-! ## Runs -/

/-- What can happen to a store. A number is the durable writes the process makes
before it is cut off. -/
inductive Action where
  | open (d : OpenDraws) (writes : Nat)
  | call (op : Op) (writes : Nat)
  | close
  | replace (f : Option File)

def World.close (w : World) : World := { w with current := none }

/-- A store that failed to open is not open; one cut off is gone. -/
def openedWorld : Except (Stop StoreError) Unit × World × Nat → World
  | (.ok _, w, _) => w
  | (.error _, w, _) => w.close

def calledWorld : Except (Stop StoreError) Unit × World × Nat → World
  | (.ok _, w, _) => w
  | (.error (.failed _), w, _) => w
  | (.error .crash, w, _) => w.close

def anchoredStep (w : World) : Action → World
  | .open d writes => if w.current.isSome then w else openedWorld (openAnchored E d w writes)
  | .call op writes => if w.current.isSome then calledWorld (callAnchored E op w writes) else w
  | .close => w.close
  | .replace f => if w.current.isSome then w else { w with disk := f }

end Osl.Store
