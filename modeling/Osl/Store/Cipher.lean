import Osl.Base.Fixed
import Osl.Base.Outcome

/-!
# Sealing of the message store (`crates/store/src/cipher.rs`)

A message has three sealed parts: its metadata and its wrapped content key under
the store key, and its body under the content key. Each binds the blind index of
the message id and the row's version. An attachment adds commitments, and a
manifest lists the attachments of one message. XChaCha20-Poly1305 and HKDF enter
through `Crypto`; nonces and content keys are arguments.
-/

namespace Osl.Store

open Base

inductive StoreError where
  | sqlite (msg : String)
  | sealer (msg : String)
  | notFound (id : String)
  | invalidId (msg : String)
  | corrupted (msg : String)
  | anchor (msg : String)
  | schema (msg : String)
  deriving DecidableEq, Repr

abbrev Result := Except StoreError

structure Crypto where
  aead : Aead
  hkdf : Kdf

def nonceSize : Nat := 24
def keySize : Nat := 32
def tagSize : Nat := 16

structure Crypto.Ideal (C : Crypto) : Prop where
  aead : C.aead.Ideal tagSize
  hkdf : C.hkdf.Ideal

/-- The ideal laws hold together. -/
def symbolicCrypto : Crypto := ⟨symbolicAead tagSize, symbolicKdf⟩

theorem symbolicCrypto_ideal : symbolicCrypto.Ideal := ⟨symbolicAead_ideal (by decide), symbolicKdf_ideal⟩

/-- `key` and `index_key` of the opened store. -/
structure Keys where
  key : Bytes
  indexKey : Bytes

variable (C : Crypto)

def derive32 (salt ikm info : Bytes) : Bytes := C.hkdf.derive salt ikm info 32

def Keys.derive (identitySecret : Bytes) : Keys where
  key := derive32 C [] identitySecret (label "osl-message-store-v1")
  indexKey := derive32 C [] identitySecret (label "osl-message-store-index-v1")

def biMessageId : Bytes := label "osl-store-bi/discord_message_id-v1"
def biChannelId : Bytes := label "osl-store-bi/channel_id-v1"
def biSenderId : Bytes := label "osl-store-bi/sender_discord_id-v1"
def biCacheKey : Bytes := label "osl-store-bi/cache_key-v1"

def blindIndex (indexKey domain : Bytes) (value : String) : Bytes := derive32 C indexKey (utf8 value) domain

/-- `seal` without its random nonce. -/
def sealWith (key aad nonce plaintext : Bytes) : Bytes := C.aead.encrypt key nonce aad plaintext

def unsealWith (key aad nonce ciphertext : Bytes) : Result Bytes :=
  if nonce.length ≠ nonceSize then
    .error (.corrupted s!"nonce field has wrong length {nonce.length} (want {nonceSize})")
  else
    match C.aead.decrypt key nonce aad ciphertext with
    | some plaintext => .ok plaintext
    | none => .error (.corrupted "AEAD tag failure")

/-! ## Messages -/

def versionedAad (domain selector : Bytes) (version : I64) : Bytes :=
  domain ++ toLe 8 selector.length ++ selector ++ version.toLe

def messageMetaAad (midBi : Bytes) (version : I64) : Bytes :=
  versionedAad (label "osl-store/meta/v5/message") midBi version

def messageBodyAad (midBi : Bytes) (version : I64) : Bytes :=
  versionedAad (label "osl-store/body/v5/message") midBi version

def messageWrapAad (midBi : Bytes) (version : I64) : Bytes :=
  versionedAad (label "osl-store/wrap/v5/message") midBi version

/-- The content key and the two nonces of one body. -/
structure BodyDraws where
  contentKey : Bytes
  nonce : Bytes
  wrapNonce : Bytes
  contentKey_length : contentKey.length = keySize
  nonce_length : nonce.length = nonceSize
  wrapNonce_length : wrapNonce.length = nonceSize

structure SealedMessageBody where
  nonce : Bytes
  ciphertext : Bytes
  wrappedKeyNonce : Bytes
  wrappedKey : Bytes

def sealMessageBody (masterKey midBi : Bytes) (version : I64) (plaintext : Bytes) (d : BodyDraws) :
    SealedMessageBody where
  nonce := d.nonce
  ciphertext := sealWith C d.contentKey (messageBodyAad midBi version) d.nonce plaintext
  wrappedKeyNonce := d.wrapNonce
  wrappedKey := sealWith C masterKey (messageWrapAad midBi version) d.wrapNonce d.contentKey

def unsealMessageBody (masterKey midBi : Bytes) (version : I64)
    (wrappedKeyNonce wrappedKey nonce ciphertext : Bytes) : Result Bytes := do
  let contentKey ← unsealWith C masterKey (messageWrapAad midBi version) wrappedKeyNonce wrappedKey
  if contentKey.length ≠ keySize then
    .error (.corrupted s!"wrapped message content key has length {contentKey.length} (want {keySize})")
  else unsealWith C contentKey (messageBodyAad midBi version) nonce ciphertext

/-! ## Attachments -/

def pushAadPart (part : Bytes) : Bytes := toLe 8 part.length ++ part

def attachmentAad (domain ckBi midBi : Bytes) (seq version : I64) (metadataDigest bodyDigest : Option Bytes) :
    Bytes :=
  pushAadPart domain ++ pushAadPart ckBi ++ pushAadPart midBi ++ seq.toLe ++ version.toLe ++
    metadataDigest.getD [] ++ bodyDigest.getD []

def attachmentMetaAad (ckBi midBi : Bytes) (seq version : I64) : Bytes :=
  attachmentAad (label "osl-store/meta/v6/attachment") ckBi midBi seq version none none

def attachmentBodyAad (ckBi midBi : Bytes) (seq version : I64) (metadataDigest : Bytes) : Bytes :=
  attachmentAad (label "osl-store/body/v6/attachment") ckBi midBi seq version (some metadataDigest) none

def attachmentWrapAad (ckBi midBi : Bytes) (seq version : I64) (metadataDigest bodyDigest : Bytes) : Bytes :=
  attachmentAad (label "osl-store/wrap/v6/attachment") ckBi midBi seq version (some metadataDigest)
    (some bodyDigest)

def attachmentCommitment (parts : List Bytes) : Bytes :=
  derive32 C [] (parts.map pushAadPart).flatten (label "osl-store/commitment/v6/attachment")

structure SealedAttachmentBody where
  metaNonce : Bytes
  metaCt : Bytes
  nonce : Bytes
  ciphertext : Bytes
  wrappedKeyNonce : Bytes
  wrappedKey : Bytes

def sealAttachmentBody (masterKey ckBi midBi : Bytes) (seq version : I64) (metadata plaintext metaNonce : Bytes)
    (d : BodyDraws) : SealedAttachmentBody :=
  let metadataDigest := attachmentCommitment C [metadata]
  let ciphertext := sealWith C d.contentKey (attachmentBodyAad ckBi midBi seq version metadataDigest) d.nonce
    plaintext
  let bodyDigest := attachmentCommitment C [d.nonce, ciphertext]
  { metaNonce := metaNonce
    metaCt := sealWith C masterKey (attachmentMetaAad ckBi midBi seq version) metaNonce metadata
    nonce := d.nonce
    ciphertext := ciphertext
    wrappedKeyNonce := d.wrapNonce
    wrappedKey := sealWith C masterKey (attachmentWrapAad ckBi midBi seq version metadataDigest bodyDigest)
      d.wrapNonce d.contentKey }

def unsealAttachmentBody (masterKey ckBi midBi : Bytes) (seq version : I64)
    (metadata wrappedKeyNonce wrappedKey nonce ciphertext : Bytes) : Result Bytes := do
  let metadataDigest := attachmentCommitment C [metadata]
  let bodyDigest := attachmentCommitment C [nonce, ciphertext]
  let contentKey ← unsealWith C masterKey (attachmentWrapAad ckBi midBi seq version metadataDigest bodyDigest)
    wrappedKeyNonce wrappedKey
  if contentKey.length ≠ keySize then
    .error (.corrupted s!"wrapped attachment content key has length {contentKey.length} (want {keySize})")
  else unsealWith C contentKey (attachmentBodyAad ckBi midBi seq version metadataDigest) nonce ciphertext

/-! ## Reading encoded metadata -/

/-- `Reader`: the offset and the bytes from there on. -/
structure Cursor where
  offset : Nat
  rest : Bytes

abbrev Reader := StateT Cursor Result

namespace Reader

def take (n : Nat) : Reader Bytes := fun c =>
  if n ≤ c.rest.length then .ok (c.rest.take n, ⟨c.offset + n, c.rest.drop n⟩)
  else if 2 ^ 64 ≤ c.offset + n then .error (.corrupted "sealed metadata length overflow")
  else .error (.corrupted "sealed metadata is truncated")

def text (raw : Bytes) : Reader String :=
  match fromUtf8 raw with
  | some s => return s
  | none => throw (.corrupted "sealed metadata is not valid UTF-8")

def str : Reader String := do
  let len ← take 8
  let raw ← take (ofLe len)
  text raw

def optStr : Reader (Option String) := do
  let presence ← take 1
  match presence with
  | [0] => return none
  | [1] => return some (← str)
  | other => throw (.corrupted s!"sealed metadata has invalid presence byte {other.headD 0}")

def finish : Reader Unit := fun c =>
  if c.rest ≠ [] then
    .error (.corrupted (s!"sealed metadata has {c.rest.length} trailing bytes — it is not the record " ++
      "type this row claims"))
  else .ok ((), c)

def i64 : Reader I64 := do
  let raw ← take 8
  return I64.ofLe raw

def u32 : Reader Nat := do
  let raw ← take 4
  return ofLe raw

def bytes : Reader Bytes := do
  let len ← take 8
  take (ofLe len)

def decode {α : Type} (r : Reader α) (buf : Bytes) : Result α :=
  (r ⟨0, buf⟩).map (·.1)

end Reader

def pushStr (s : String) : Bytes := toLe 8 (utf8 s).length ++ utf8 s

def pushOpt : Option String → Bytes
  | some v => 1 :: pushStr v
  | none => [0]

structure MessageMeta where
  discordMessageId : String
  channelId : String
  senderDiscordId : String
  senderOslUserId : String
  decryptedAt : I64
  deriving DecidableEq

def encodeMessageMeta (m : MessageMeta) : Bytes :=
  pushStr m.discordMessageId ++ pushStr m.channelId ++ pushStr m.senderDiscordId ++ pushStr m.senderOslUserId ++
    m.decryptedAt.toLe

def readMessageMeta : Reader MessageMeta := do
  let discordMessageId ← Reader.str
  let channelId ← Reader.str
  let senderDiscordId ← Reader.str
  let senderOslUserId ← Reader.str
  let decryptedAt ← Reader.i64
  Reader.finish
  return ⟨discordMessageId, channelId, senderDiscordId, senderOslUserId, decryptedAt⟩

def decodeMessageMeta (buf : Bytes) : Result MessageMeta := readMessageMeta.decode buf

structure AttachmentMeta where
  cacheKey : String
  discordMessageId : String
  randomFilename : String
  mime : String
  byteLen : I64
  createdAt : I64
  scopeType : Option String
  scopeId : Option String
  senderDiscordId : Option String
  deriving DecidableEq

def encodeAttachmentMeta (m : AttachmentMeta) : Bytes :=
  pushStr m.cacheKey ++ pushStr m.discordMessageId ++ pushStr m.randomFilename ++ pushStr m.mime ++
    m.byteLen.toLe ++ m.createdAt.toLe ++ pushOpt m.scopeType ++ pushOpt m.scopeId ++ pushOpt m.senderDiscordId

def readAttachmentMeta : Reader AttachmentMeta := do
  let cacheKey ← Reader.str
  let discordMessageId ← Reader.str
  let randomFilename ← Reader.str
  let mime ← Reader.str
  let byteLen ← Reader.i64
  let createdAt ← Reader.i64
  let scopeType ← Reader.optStr
  let scopeId ← Reader.optStr
  let senderDiscordId ← Reader.optStr
  Reader.finish
  return ⟨cacheKey, discordMessageId, randomFilename, mime, byteLen, createdAt, scopeType, scopeId, senderDiscordId⟩

def decodeAttachmentMeta (buf : Bytes) : Result AttachmentMeta := readAttachmentMeta.decode buf

/-! ## Manifests -/

structure AttachmentManifestEntry where
  ckBi : Bytes
  seq : I64
  contentVersion : I64
  metadataCommitment : Bytes
  bodyCommitment : Bytes
  wrapperCommitment : Bytes
  deriving DecidableEq

structure AttachmentManifest where
  complete : Bool
  generation : I64
  entries : List AttachmentManifestEntry
  deriving DecidableEq

def attachmentManifestFormatV7 : Nat := 1

def attachmentManifestAad (midBi : Bytes) (complete : Bool) (generation : I64) : Bytes :=
  pushAadPart (label "osl-store/manifest/v7/attachment") ++ pushAadPart midBi ++ [complete.toNat] ++
    generation.toLe

def attachmentManifestEntry (ckBi : Bytes) (seq contentVersion : I64)
    (metadata nonce ciphertext wrappedKeyNonce wrappedKey : Bytes) : AttachmentManifestEntry where
  ckBi := ckBi
  seq := seq
  contentVersion := contentVersion
  metadataCommitment := attachmentCommitment C [metadata]
  bodyCommitment := attachmentCommitment C [nonce, ciphertext]
  wrapperCommitment := attachmentCommitment C [wrappedKeyNonce, wrappedKey]

def encodeEntry (e : AttachmentManifestEntry) : Bytes :=
  pushAadPart e.ckBi ++ e.seq.toLe ++ e.contentVersion.toLe ++ e.metadataCommitment ++ e.bodyCommitment ++
    e.wrapperCommitment

def encodeAttachmentManifest (m : AttachmentManifest) : Bytes :=
  toLe 4 attachmentManifestFormatV7 ++ [m.complete.toNat] ++ m.generation.toLe ++ toLe 8 m.entries.length ++
    (m.entries.map encodeEntry).flatten

def readEntry : Reader AttachmentManifestEntry := do
  let ckBi ← Reader.bytes
  if ckBi.length ≠ 32 then throw (.corrupted "attachment manifest selector has wrong length")
  else
    let seq ← Reader.i64
    let contentVersion ← Reader.i64
    let metadataCommitment ← Reader.take 32
    let bodyCommitment ← Reader.take 32
    let wrapperCommitment ← Reader.take 32
    return ⟨ckBi, seq, contentVersion, metadataCommitment, bodyCommitment, wrapperCommitment⟩

def readEntries : Nat → Reader (List AttachmentManifestEntry)
  | 0 => return []
  | n + 1 => do
    let entry ← readEntry
    let rest ← readEntries n
    return entry :: rest

def readCoverage (marker : Bytes) : Reader Bool :=
  match marker with
  | [0] => return false
  | [1] => return true
  | _ => throw (.corrupted "attachment manifest has invalid coverage marker")

def readAttachmentManifestV7 : Reader AttachmentManifest := do
  let format ← Reader.u32
  if format ≠ attachmentManifestFormatV7 then throw (.corrupted "unsupported attachment manifest format")
  else
    let complete ← readCoverage (← Reader.take 1)
    let generation ← Reader.i64
    let rawCount ← Reader.take 8
    let count := ofLe rawCount
    let cursor ← get
    -- bounded by the bytes left before anything is allocated
    if count > cursor.rest.length / 152 then
      throw (.corrupted "attachment manifest count exceeds encoded entries")
    else
      let entries ← readEntries count
      Reader.finish
      return ⟨complete, generation, entries⟩

def decodeAttachmentManifest (plaintext : Bytes) : Result AttachmentManifest :=
  readAttachmentManifestV7.decode plaintext

def sealAttachmentManifest (masterKey midBi : Bytes) (m : AttachmentManifest) (nonce : Bytes) : Result Bytes :=
  if m.generation.1 < 1 then .error (.corrupted "attachment manifest generation must be positive")
  else
    .ok (sealWith C masterKey (attachmentManifestAad midBi m.complete m.generation) nonce
      (encodeAttachmentManifest m))

def unsealAttachmentManifest (masterKey midBi : Bytes) (complete : Bool) (generation : I64)
    (nonce ciphertext : Bytes) : Result AttachmentManifest := do
  if generation.1 < 1 then .error (.corrupted "attachment manifest generation must be positive")
  else
    let plaintext ← unsealWith C masterKey (attachmentManifestAad midBi complete generation) nonce ciphertext
    let m ← decodeAttachmentManifest plaintext
    if m.complete ≠ complete ∨ m.generation ≠ generation then
      .error (.corrupted "attachment manifest columns do not match authenticated contents")
    else .ok m

end Osl.Store
