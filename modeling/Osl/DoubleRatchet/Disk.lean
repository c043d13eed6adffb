import Osl.DoubleRatchet.Network

/-!
# A Double Ratchet on disk (`RatchetStateOnDisk`)

The mirror keeps every field of a ratchet, the keys as base64 text and the time a
skipped key was cached as whole seconds since the Unix epoch. What comes back is
the ratchet with those times rounded down (`tryInto_toOnDisk`), so it is the same
ratchet exactly when every cached time is a whole second (`restores_iff`).

Times are nanoseconds from an arbitrary origin, and `unixEpoch` is the epoch's.
-/

namespace Osl.DoubleRatchet

open Base Crypto

/-! ## Times -/

def nanosPerSec : Nat := 10 ^ 9

/-- `t.duration_since(UNIX_EPOCH).map(|d| d.as_secs()).unwrap_or(0)`. -/
def unixSecs (unixEpoch t : Nat) : Nat := if unixEpoch ≤ t then (t - unixEpoch) / nanosPerSec else 0

/-- `UNIX_EPOCH + Duration::from_secs(secs)`. -/
def ofUnixSecs (unixEpoch secs : Nat) : Nat := unixEpoch + secs * nanosPerSec

def WholeSecond (unixEpoch t : Nat) : Prop := ∃ secs, t = ofUnixSecs unixEpoch secs

theorem ofUnixSecs_unixSecs_iff {unixEpoch t : Nat} : ofUnixSecs unixEpoch (unixSecs unixEpoch t) = t ↔ WholeSecond unixEpoch t := by
  constructor
  · intro same
    exact ⟨_, same.symm⟩
  · rintro ⟨secs, rfl⟩
    unfold unixSecs ofUnixSecs
    rw [if_pos (Nat.le_add_right ..), Nat.add_sub_cancel_left, Nat.mul_div_cancel _ (by decide)]

/-! ## The mirror -/

inductive RatchetPersistError where
  | unsupportedVersion (got want : Nat)
  | base64 (field source : String)
  | badLength (field : String) (got want : Nat)
  deriving DecidableEq

def ratchetStateOnDiskVersion : Nat := 0x01

structure SkippedKeyOnDisk where
  hkB64 : Bytes
  counter : Nat
  mkB64 : Bytes
  insertedAtUnixSecs : Nat

structure SessionContextOnDisk where
  localIkX25519PubB64 : Bytes
  localIkMlkemPubB64 : Bytes
  peerIkX25519PubB64 : Bytes
  peerIkMlkemPubB64 : Bytes
  conversationIdB64 : Bytes
  sessionVersion : Nat

structure RatchetStateOnDisk where
  version : Nat
  rootKeyB64 : Bytes
  dhsSecretB64 : Bytes
  dhsPubB64 : Bytes
  dhrB64 : Option Bytes
  sendingChainB64 : Option Bytes
  sendingCounter : Nat
  receivingChainB64 : Option Bytes
  receivingCounter : Nat
  prevSendingCount : Nat
  hksB64 : Option Bytes
  hkrB64 : Option Bytes
  nhksB64 : Bytes
  nhkrB64 : Bytes
  skipped : List SkippedKeyOnDisk
  ctx : SessionContextOnDisk

section

variable (standard : Codec) (unixEpoch : Nat)

def SkippedKey.toOnDisk (e : SkippedKey) : SkippedKeyOnDisk where
  hkB64 := standard.encode e.hk
  counter := e.counter
  mkB64 := standard.encode e.messageKey
  insertedAtUnixSecs := unixSecs unixEpoch e.insertedAt

def SessionContext.toOnDisk (ctx : SessionContext) : SessionContextOnDisk where
  localIkX25519PubB64 := standard.encode ctx.localIkX25519Pub
  localIkMlkemPubB64 := standard.encode ctx.localIkMlkemPub
  peerIkX25519PubB64 := standard.encode ctx.peerIkX25519Pub
  peerIkMlkemPubB64 := standard.encode ctx.peerIkMlkemPub
  conversationIdB64 := standard.encode ctx.conversationId
  sessionVersion := ctx.sessionVersion

/-- `From<&DoubleRatchet> for RatchetStateOnDisk`. -/
def toOnDisk (dr : DoubleRatchet) : RatchetStateOnDisk where
  version := ratchetStateOnDiskVersion
  rootKeyB64 := standard.encode dr.rootKey
  dhsSecretB64 := standard.encode dr.dhsSecret
  dhsPubB64 := standard.encode dr.dhsPub
  dhrB64 := dr.dhr.map standard.encode
  sendingChainB64 := dr.sendingChain.map standard.encode
  sendingCounter := dr.sendingCounter
  receivingChainB64 := dr.receivingChain.map standard.encode
  receivingCounter := dr.receivingCounter
  prevSendingCount := dr.prevSendingCount
  hksB64 := dr.hks.map standard.encode
  hkrB64 := dr.hkr.map standard.encode
  nhksB64 := standard.encode dr.nhks
  nhkrB64 := standard.encode dr.nhkr
  skipped := dr.skipped.map (SkippedKey.toOnDisk standard unixEpoch)
  ctx := dr.ctx.toOnDisk standard

def decodeVar (text : Bytes) (field : String) : Except RatchetPersistError Bytes :=
  (standard.decode text).mapError (.base64 field)

def decode32 (text : Bytes) (field : String) : Except RatchetPersistError Bytes := do
  let bytes ← (standard.decode text).mapError (.base64 field)
  if bytes.length ≠ 32 then .error (.badLength field bytes.length 32) else .ok bytes

/-- The fields that may be absent. -/
def decodeOption (text : Option Bytes) (field : String) : Except RatchetPersistError (Option Bytes) :=
  match text with
  | some text => (decode32 standard text field).map some
  | none => .ok none

def SkippedKeyOnDisk.tryInto (entry : SkippedKeyOnDisk) : Except RatchetPersistError SkippedKey := do
  let hk ← decode32 standard entry.hkB64 "skipped.hk"
  let messageKey ← decode32 standard entry.mkB64 "skipped.mk"
  .ok ⟨hk, entry.counter, messageKey, ofUnixSecs unixEpoch entry.insertedAtUnixSecs⟩

def SessionContextOnDisk.tryInto (ctx : SessionContextOnDisk) : Except RatchetPersistError SessionContext := do
  let localIkX25519Pub ← decode32 standard ctx.localIkX25519PubB64 "ctx.local_ik_x25519_pub"
  let localIkMlkemPub ← decodeVar standard ctx.localIkMlkemPubB64 "ctx.local_ik_mlkem_pub"
  let peerIkX25519Pub ← decode32 standard ctx.peerIkX25519PubB64 "ctx.peer_ik_x25519_pub"
  let peerIkMlkemPub ← decodeVar standard ctx.peerIkMlkemPubB64 "ctx.peer_ik_mlkem_pub"
  let conversationId ← decodeVar standard ctx.conversationIdB64 "ctx.conversation_id"
  .ok ⟨localIkX25519Pub, localIkMlkemPub, peerIkX25519Pub, peerIkMlkemPub, conversationId, ctx.sessionVersion⟩

/-- `TryFrom<RatchetStateOnDisk> for DoubleRatchet`. -/
def RatchetStateOnDisk.tryInto (s : RatchetStateOnDisk) : Except RatchetPersistError DoubleRatchet :=
  if s.version ≠ ratchetStateOnDiskVersion then .error (.unsupportedVersion s.version ratchetStateOnDiskVersion)
  else do
    let rootKey ← decode32 standard s.rootKeyB64 "root_key"
    let dhsSecret ← decode32 standard s.dhsSecretB64 "dhs_secret"
    let dhsPub ← decode32 standard s.dhsPubB64 "dhs_pub"
    let dhr ← decodeOption standard s.dhrB64 "dhr"
    let sendingChain ← decodeOption standard s.sendingChainB64 "sending_chain"
    let receivingChain ← decodeOption standard s.receivingChainB64 "receiving_chain"
    let hks ← decodeOption standard s.hksB64 "hks"
    let hkr ← decodeOption standard s.hkrB64 "hkr"
    let nhks ← decode32 standard s.nhksB64 "nhks"
    let nhkr ← decode32 standard s.nhkrB64 "nhkr"
    let skipped ← s.skipped.mapM (SkippedKeyOnDisk.tryInto standard unixEpoch)
    let ctx ← s.ctx.tryInto standard
    .ok {
      rootKey, dhsSecret, dhsPub, dhr, sendingChain, sendingCounter := s.sendingCounter, receivingChain
      receivingCounter := s.receivingCounter, prevSendingCount := s.prevSendingCount, hks, hkr, nhks, nhkr, skipped, ctx }

end

/-! ## What comes back -/

/-- The keys of an entry are of the size the key types have. -/
structure SkippedKey.Sized (e : SkippedKey) : Prop where
  hk : e.hk.length = 32
  messageKey : e.messageKey.length = 32

structure SessionContext.Sized (ctx : SessionContext) : Prop where
  localIk : ctx.localIkX25519Pub.length = 32
  peerIk : ctx.peerIkX25519Pub.length = 32

structure Sized (s : DoubleRatchet) : Prop where
  rootKey : s.rootKey.length = 32
  dhsSecret : s.dhsSecret.length = 32
  dhsPub : s.dhsPub.length = 32
  dhr : ∀ key ∈ s.dhr, key.length = 32
  sendingChain : ∀ key ∈ s.sendingChain, key.length = 32
  receivingChain : ∀ key ∈ s.receivingChain, key.length = 32
  hks : ∀ key ∈ s.hks, key.length = 32
  hkr : ∀ key ∈ s.hkr, key.length = 32
  nhks : s.nhks.length = 32
  nhkr : s.nhkr.length = 32
  skipped : ∀ e ∈ s.skipped, SkippedKey.Sized e
  ctx : s.ctx.Sized

section

variable {standard : Codec} (ideal : standard.Ideal) (unixEpoch : Nat) {field : String} {bytes : Bytes}
include ideal

theorem decodeVar_encode : decodeVar standard (standard.encode bytes) field = .ok bytes := by
  unfold decodeVar
  rw [ideal.decode_encode]
  rfl

theorem decode32_encode (size : bytes.length = 32) :
    decode32 standard (standard.encode bytes) field = .ok bytes := by
  unfold decode32
  rw [ideal.decode_encode]
  exact if_neg (not_not.2 size)

theorem decodeOption_encode {bytes : Option Bytes} (size : ∀ b ∈ bytes, b.length = 32) :
    decodeOption standard (bytes.map standard.encode) field = .ok bytes := by
  cases bytes with
  | none => rfl
  | some b =>
    simp only [Option.map_some, decodeOption, decode32_encode ideal (size b rfl)]
    rfl

/-- The entry with its time rounded down. -/
def SkippedKey.rounded (unixEpoch : Nat) (e : SkippedKey) : SkippedKey :=
  { e with insertedAt := ofUnixSecs unixEpoch (unixSecs unixEpoch e.insertedAt) }

theorem SkippedKey.Sized.tryInto_toOnDisk {e : SkippedKey} (sized : SkippedKey.Sized e) :
    (e.toOnDisk standard unixEpoch).tryInto standard unixEpoch = .ok (e.rounded unixEpoch) := by
  unfold SkippedKeyOnDisk.tryInto SkippedKey.toOnDisk
  simp only [decode32_encode ideal sized.hk, decode32_encode ideal sized.messageKey]
  rfl

theorem skipped_tryInto_toOnDisk {keys : List SkippedKey} (sized : ∀ e ∈ keys, SkippedKey.Sized e) :
    (keys.map (SkippedKey.toOnDisk standard unixEpoch)).mapM (SkippedKeyOnDisk.tryInto standard unixEpoch) =
      .ok (keys.map (SkippedKey.rounded unixEpoch)) := by
  induction keys with
  | nil => rfl
  | cons e keys ih =>
    rw [List.forall_mem_cons] at sized
    rw [List.map_cons, List.mapM_cons, sized.1.tryInto_toOnDisk ideal, ih sized.2]
    rfl

theorem SessionContext.Sized.tryInto_toOnDisk {ctx : SessionContext} (sized : ctx.Sized) :
    (ctx.toOnDisk standard).tryInto standard = .ok ctx := by
  unfold SessionContextOnDisk.tryInto SessionContext.toOnDisk
  simp only [decode32_encode ideal sized.localIk, decode32_encode ideal sized.peerIk, decodeVar_encode ideal]
  rfl

theorem Sized.tryInto_toOnDisk {s : DoubleRatchet} (sized : s.Sized) :
    (s.toOnDisk standard unixEpoch).tryInto standard unixEpoch =
      .ok { s with skipped := s.skipped.map (SkippedKey.rounded unixEpoch) } := by
  unfold RatchetStateOnDisk.tryInto toOnDisk
  simp only [decode32_encode ideal sized.rootKey, decode32_encode ideal sized.dhsSecret, decode32_encode ideal sized.dhsPub,
    decodeOption_encode ideal sized.dhr, decodeOption_encode ideal sized.sendingChain,
    decodeOption_encode ideal sized.receivingChain, decodeOption_encode ideal sized.hks, decodeOption_encode ideal sized.hkr,
    decode32_encode ideal sized.nhks, decode32_encode ideal sized.nhkr, skipped_tryInto_toOnDisk ideal unixEpoch sized.skipped,
    sized.ctx.tryInto_toOnDisk ideal]
  rfl

end

theorem rounded_eq_iff {unixEpoch : Nat} {keys : List SkippedKey} :
    keys.map (SkippedKey.rounded unixEpoch) = keys ↔ ∀ e ∈ keys, WholeSecond unixEpoch e.insertedAt := by
  have one : ∀ e : SkippedKey, e.rounded unixEpoch = e ↔ WholeSecond unixEpoch e.insertedAt := by
    intro e
    rw [← ofUnixSecs_unixSecs_iff]
    constructor
    · exact congrArg SkippedKey.insertedAt
    · intro same
      unfold SkippedKey.rounded
      rw [same]
  induction keys with
  | nil => simp
  | cons e keys ih => simp only [List.map_cons, List.cons.injEq, List.forall_mem_cons, one, ih]

variable {s : DoubleRatchet} {P : Primitives}

theorem Sized.restores_iff {standard : Codec} (ideal : standard.Ideal) (unixEpoch : Nat) (sized : s.Sized) :
    (s.toOnDisk standard unixEpoch).tryInto standard unixEpoch = .ok s ↔ ∀ e ∈ s.skipped, WholeSecond unixEpoch e.insertedAt := by
  rw [sized.tryInto_toOnDisk ideal, ← rounded_eq_iff]
  constructor
  · intro same
    exact congrArg DoubleRatchet.skipped (Except.ok.inj same)
  · intro same
    rw [same]

/-! ## Every state of a run has keys of the right sizes -/

/-- What the key types say of the primitives. -/
structure SizedPrimitives (P : Primitives) : Prop where
  hkdf : ∀ salt ikm info len, (P.hkdf.derive salt ikm info len).length = len
  pub : ∀ secret, (P.x25519.pub secret).length = 32

/-- A `[u8; 32]`. -/
abbrev Key32 := { bytes : Bytes // bytes.length = 32 }

section

variable {P : Primitives} {header : Header} {bytes : Bytes}

section

variable (sizes : SizedPrimitives P)
include sizes

theorem SizedPrimitives.derive32 (salt ikm info : Bytes) : (derive32 P salt ikm info).length = 32 :=
  sizes.hkdf ..

theorem SizedPrimitives.kdfRkHe (rootKey dhOut : Bytes) :
    (kdfRkHe P rootKey dhOut).rootKey.length = 32 ∧ (kdfRkHe P rootKey dhOut).chainKey.length = 32 ∧
      (kdfRkHe P rootKey dhOut).headerKey.length = 32 := by
  have third : ∀ j < 3, (block j (P.hkdf.derive rootKey dhOut rootKdfHeInfo 96)).length = 32 := by
    intro j small
    unfold block
    rw [List.length_take, List.length_drop, sizes.hkdf]
    omega
  exact ⟨third 0 (by decide), third 1 (by decide), third 2 (by decide)⟩

theorem SizedPrimitives.sessionKey {sk : SessionKey P} : sk.bytes.length = 32 := by
  obtain ⟨ikm, derived⟩ := sk.derived
  rw [derived]
  exact sizes.derive32 ..

theorem SizedPrimitives.passed {hk ck : Bytes} (size : hk.length = 32) (now : Nat) {c gap : Nat} :
    ∀ e ∈ passed P hk now ck c gap, SkippedKey.Sized e := by
  induction gap generalizing ck c with
  | zero =>
    intro e mem
    cases mem
  | succ gap ih =>
    intro e mem
    rcases List.mem_cons.1 mem with rfl | mem
    · exact ⟨size, sizes.derive32 ..⟩
    · exact ih e mem

end

theorem Sized.inserted (sized : s.Sized) {new : List SkippedKey} (fresh : ∀ e ∈ new, SkippedKey.Sized e) :
    ∀ e ∈ new.foldl SkippedKeyCache.insert s.skipped, SkippedKey.Sized e := by
  intro e mem
  rcases List.mem_append.1 ((foldl_insert_sublist s.skipped new).subset mem) with old | new
  · exact sized.skipped e old
  · exact fresh e new

theorem fromBytes_dhPub (parsed : Header.fromBytes bytes = .ok header) : header.dhPub.length = 32 := by
  unfold Header.fromBytes at parsed
  split at parsed
  case isTrue => cases parsed
  case isFalse sized =>
    cases parsed
    rw [List.length_take, not_not.1 sized]
    rfl

theorem findHeader_dhPub {msg : EncryptedMessage} {step : Bool}
    (found : s.findHeader P msg = .ok (header, step)) : header.dhPub.length = 32 := by
  unfold findHeader at found
  split at found
  case h_1 header' opened =>
    cases found
    obtain ⟨hkr, -, opened⟩ := Option.bind_eq_some_iff.1 opened
    unfold openHeader at opened
    split at opened
    case h_1 bytes _ =>
      cases parsed : Header.fromBytes bytes with
      | error e =>
        rw [parsed] at opened
        cases opened
      | ok h =>
        rw [parsed] at opened
        cases opened
        exact fromBytes_dhPub parsed
    case h_2 => cases opened
  case h_2 =>
    split at found
    case h_1 => cases found
    case h_2 bytes _ =>
      obtain ⟨h, parsed, same⟩ := map_ok.1 found
      cases same
      exact fromBytes_dhPub parsed

theorem Sized.swept (sized : s.Sized) (now : Nat) : (s.swept now).Sized :=
  { sized with skipped := fun e mem => sized.skipped e (List.mem_filter.1 mem).1 }

section

variable (sizes : SizedPrimitives P) (sized : s.Sized) {now : Nat} {old : List SkippedKey}
include sizes sized

theorem Sized.encrypt (plaintext : Bytes) (nonces : MessageNonces) : (s.encrypt P plaintext nonces).1.Sized := by
  have next : ∀ ck, ∀ key ∈ some (advance P ck), key.length = 32 := by
    rintro ck key ⟨⟩
    exact sizes.derive32 ..
  unfold DoubleRatchet.encrypt
  split
  case h_1 => exact sized
  split
  case h_1 => exact sized
  case h_2 =>
    split
    case isTrue => exact { sized with sendingChain := next _ }
    case isFalse => exact { sized with sendingChain := next _ }

theorem Sized.decryptSameChain (msg : EncryptedMessage) (header : Header) (now : Nat) :
    (s.decryptSameChain P msg header now).1.Sized := by
  unfold DoubleRatchet.decryptSameChain
  split
  case isTrue => exact sized
  split
  case isTrue => exact sized
  split
  case h_1 => exact sized
  case h_2 => exact sized
  rename_i chain hkr _ held
  split
  case h_1 => exact sized
  rename_i t skipped
  obtain rfl := skipKeys_ok skipped
  split
  case h_1 => exact sized
  split
  case isTrue => exact sized
  refine { sized with receivingChain := ?_, skipped := sized.inserted ?_ }
  · rintro key ⟨⟩
    exact sizes.derive32 ..
  · exact sizes.passed (sized.hkr hkr held) now

theorem Sized.drainChain (drained : s.drainChain P header now = .ok old) : ∀ e ∈ old, SkippedKey.Sized e := by
  unfold DoubleRatchet.drainChain at drained
  split at drained
  case h_1 chain hkr _ held =>
    obtain ⟨t, skipped, rfl⟩ := map_ok.1 drained
    obtain rfl := skipKeys_ok skipped
    exact sizes.passed (sized.hkr hkr held) now
  case h_2 =>
    cases drained
    exact fun e mem => by cases mem

theorem Sized.decryptDhStep (msg : EncryptedMessage)
    (dhPub : header.dhPub.length = 32) (now : Nat) (secret : Key32) : (s.decryptDhStep P msg header now secret).1.Sized := by
  unfold DoubleRatchet.decryptDhStep
  split
  case isTrue => exact sized
  split
  case isTrue => exact sized
  split
  case h_1 => exact sized
  rename_i old drained
  split
  case h_1 => exact sized
  rename_i step1 step2 made
  obtain ⟨dh1, dh2, steps⟩ := rootSteps_ok made
  obtain ⟨rfl, rfl⟩ := Prod.mk.inj steps
  split
  case h_1 => exact sized
  rename_i t skipped
  obtain rfl := skipKeys_ok skipped
  split
  case h_1 => exact sized
  split
  case isTrue => exact sized
  obtain ⟨-, -, headerKey⟩ := sizes.kdfRkHe s.rootKey dh1
  obtain ⟨rootKey, chainKey, headerKey'⟩ := sizes.kdfRkHe (DoubleRatchet.kdfRkHe P s.rootKey dh1).rootKey dh2
  refine
    { rootKey, dhsSecret := secret.2, dhsPub := sizes.pub _, dhr := ?_, sendingChain := ?_, receivingChain := ?_,
      hks := ?_, hkr := ?_, nhks := headerKey', nhkr := headerKey, skipped := sized.inserted ?_, ctx := sized.ctx }
  · rintro key ⟨⟩
    exact dhPub
  · rintro key ⟨⟩
    exact chainKey
  · rintro key ⟨⟩
    exact sizes.derive32 ..
  · rintro key ⟨⟩
    exact sized.nhks
  · rintro key ⟨⟩
    exact sized.nhkr
  · intro e mem
    rcases List.mem_append.1 mem with left | left
    · exact sized.drainChain sizes drained e left
    · exact sizes.passed sized.nhkr now e left

theorem Sized.decryptAt (msg : EncryptedMessage) (now : Nat) (secret : Key32) :
    (s.decryptAt P msg now secret).1.Sized := by
  have swept := sized.swept now
  unfold DoubleRatchet.decryptAt
  split
  case h_1 => exact swept
  case h_2 plaintext skipped found =>
    obtain ⟨idx, entry, header, -, -, rfl⟩ := tryDecryptSkipped_some found
    exact { swept with skipped := fun e mem => swept.skipped e (List.mem_of_mem_eraseIdx mem) }
  case h_3 =>
    unfold decryptFresh
    split
    case h_1 => exact swept
    rename_i header step found
    split
    case h_1 => exact swept
    case h_2 =>
      split
      case isTrue => exact swept.decryptDhStep sizes msg (findHeader_dhPub found) now secret
      case isFalse => exact swept.decryptSameChain sizes msg header now

end

end

/-! ## A session that goes on -/

inductive Call where
  | encrypt (plaintext : Bytes) (nonces : MessageNonces)
  | decrypt (msg : EncryptedMessage) (now : Nat) (secret : Key32)

inductive Answer where
  | encrypted (result : Result EncryptedMessage)
  | decrypted (result : Result Bytes)

/-- A ratchet as `new_initiator` or `new_responder` makes it. -/
inductive Fresh (P : Primitives) : DoubleRatchet → Prop where
  | initiator {s : DoubleRatchet} (sk : SessionKey P) (peerInitialRatchetPub : Key32) {ctx : SessionContext} (sized : ctx.Sized)
      (secret : Key32) (made : newInitiator P sk peerInitialRatchetPub ctx secret = .ok s) : Fresh P s
  | responder (sk : SessionKey P) (initialRatchetSecret : Key32) {ctx : SessionContext} (sized : ctx.Sized) :
      Fresh P (newResponder P sk initialRatchetSecret ctx)

section

variable (P : Primitives)

def call (s : DoubleRatchet) : Call → DoubleRatchet × Answer
  | .encrypt plaintext nonces => ((s.encrypt P plaintext nonces).1, .encrypted (s.encrypt P plaintext nonces).2)
  | .decrypt msg now secret => ((s.decryptAt P msg now secret).1, .decrypted (s.decryptAt P msg now secret).2)

def after (s : DoubleRatchet) (c : Call) : DoubleRatchet := (call P s c).1

def answers (s : DoubleRatchet) : List Call → List Answer
  | [] => []
  | c :: calls => (call P s c).2 :: answers (call P s c).1 calls

end

theorem Fresh.sized (sizes : SizedPrimitives P) (fresh : Fresh P s) : s.Sized := by
  cases fresh with
  | initiator sk peer sized secret made =>
    obtain ⟨dh, -, same⟩ := bind_ok.1 made
    cases same
    obtain ⟨rootKey, chainKey, headerKey⟩ := sizes.kdfRkHe sk.bytes dh
    refine
      { rootKey, dhsSecret := secret.2, dhsPub := sizes.pub _, dhr := ?_, sendingChain := ?_, receivingChain := ?_, hks := ?_,
        hkr := ?_, nhks := headerKey, nhkr := sizes.derive32 .., skipped := ?_, ctx := sized }
    · rintro key ⟨⟩
      exact peer.2
    · rintro key ⟨⟩
      exact chainKey
    · exact fun key mem => by cases mem
    · rintro key ⟨⟩
      exact sizes.derive32 ..
    · exact fun key mem => by cases mem
    · exact fun e mem => by cases mem
  | responder sk secret sized =>
    have absent : ∀ key ∈ (none : Option Bytes), key.length = 32 := fun key mem => by cases mem
    exact
      { rootKey := sizes.sessionKey, dhsSecret := secret.2, dhsPub := sizes.pub _, dhr := absent, sendingChain := absent,
        receivingChain := absent, hks := absent, hkr := absent, nhks := sizes.derive32 .., nhkr := sizes.derive32 ..
        skipped := (fun e mem => by cases mem), ctx := sized }

theorem Sized.after (sizes : SizedPrimitives P) (s : DoubleRatchet) (c : Call) (sized : s.Sized) : (after P s c).Sized := by
  cases c with
  | encrypt plaintext nonces => exact sized.encrypt sizes plaintext nonces
  | decrypt msg now secret => exact sized.decryptAt sizes msg now secret

/-- Every state of a run comes back from disk, as it was exactly when the keys it has cached were
all cached at whole seconds; and then whatever is asked of the two later gets the same answers. -/
theorem on_disk_restores (P : Primitives) (sizes : SizedPrimitives P) (standard : Codec) (ideal : standard.Ideal) (unixEpoch : Nat)
    (s : DoubleRatchet) (fresh : Fresh P s) (calls : List Call) :
    ∃ r, ((run (after P) s calls).toOnDisk standard unixEpoch).tryInto standard unixEpoch = .ok r ∧
      (r = run (after P) s calls ↔ ∀ e ∈ (run (after P) s calls).skipped, WholeSecond unixEpoch e.insertedAt) ∧
      ((∀ e ∈ (run (after P) s calls).skipped, WholeSecond unixEpoch e.insertedAt) →
        ∀ later, answers P r later = answers P (run (after P) s calls) later) := by
  have sized : (run (after P) s calls).Sized := run_invariant (fun s c => Sized.after sizes s c) (fresh.sized sizes) calls
  have restores := sized.restores_iff ideal unixEpoch
  rw [sized.tryInto_toOnDisk ideal, Except.ok.injEq] at restores
  refine ⟨_, sized.tryInto_toOnDisk ideal unixEpoch, restores, fun whole later => ?_⟩
  rw [restores.2 whole]

/-! ## A key cached within a second -/

section

variable (P : Primitives) (sk : SessionKey P) (bootstrap secret : Bytes) (ctx : Role → SessionContext)

/-- The responder after message 1, with the key of message 0 cached at `now`. -/
def skippedFirst (now : Nat) (secret' : Bytes) : DoubleRatchet :=
  let step1 := kdfRkHe P sk.bytes (P.x25519.shared bootstrap (P.x25519.pub secret))
  let step2 := kdfRkHe P step1.rootKey (P.x25519.shared secret' (P.x25519.pub secret))
  { rootKey := step2.rootKey, dhsSecret := secret', dhsPub := P.x25519.pub secret', dhr := some (P.x25519.pub secret)
    sendingChain := some step2.chainKey, sendingCounter := 0
    receivingChain := some (advance P (advance P (firstChain P sk bootstrap secret))), receivingCounter := 2
    prevSendingCount := 0, hks := some (derive32 P [] sk.bytes sharedNhkbInfo)
    hkr := some (derive32 P [] sk.bytes sharedHkaInfo), nhks := step2.headerKey, nhkr := step1.headerKey
    skipped := [⟨derive32 P [] sk.bytes sharedHkaInfo, 0, messageKey P (firstChain P sk bootstrap secret), now⟩]
    ctx := ctx .responder }

end

section

variable {msg : EncryptedMessage} {header : Header} {now : Nat} {secret plaintext : Bytes}

/-- The only key of the cache opens the message it is for. -/
theorem decryptAt_of_cached {entry : SkippedKey} (held : (s.swept now).skipped = [entry])
    (found : matchEntry P msg entry = some header) (version : (s.swept now).checkVersion header = .ok ())
    (body : (s.swept now).openBody P msg entry.messageKey header = .ok plaintext) :
    (s.decryptAt P msg now secret).2 = .ok plaintext := by
  have opened : (s.swept now).tryDecryptSkipped P msg = .ok (some (plaintext, [])) := by
    have first : (s.swept now).skipped.findIdx? (fun e => (matchEntry P msg e).isSome) = some 0 := by
      rw [held, List.findIdx?_cons, found]
      rfl
    have there : (s.swept now).skipped[0]? = some entry := by
      rw [held]
      rfl
    unfold tryDecryptSkipped
    rw [first]
    dsimp only
    rw [there]
    dsimp only
    rw [found]
    dsimp only
    rw [version, body, held]
    rfl
  unfold decryptAt
  rw [opened]

/-- A message the chain has passed is refused once its key is gone. -/
theorem decryptAt_of_passed (dropped : (s.swept now).skipped = [])
    (found : (s.swept now).findHeader P msg = .ok (header, false)) (version : (s.swept now).checkVersion header = .ok ())
    (passed : header.counter < (s.swept now).receivingCounter) : ∃ e, (s.decryptAt P msg now secret).2 = .error e := by
  have cache : (s.swept now).tryDecryptSkipped P msg = .ok none := by
    unfold tryDecryptSkipped
    rw [dropped]
    rfl
  unfold decryptAt
  rw [cache]
  unfold decryptFresh
  rw [found]
  dsimp only
  rw [version, if_neg (by decide)]
  unfold decryptSameChain
  rw [if_pos passed]
  exact ⟨_, rfl⟩

end

section

variable (ideal : P.Ideal) {ctx : Role → SessionContext} (matching : Matching ctx) (sk : SessionKey P)
  (bootstrap secret plaintext : Bytes) (nonces : MessageNonces) {now cachedAt unixEpoch : Nat} {secret' secret'' : Bytes}
  {secret' start : Key32}
include ideal matching

theorem decryptAt_second :
    (newResponder P sk bootstrap (ctx .responder)).decryptAt P (firstMessage P sk bootstrap secret ctx nonces plaintext 1) now
      secret' = (skippedFirst P sk bootstrap secret ctx now secret', .ok plaintext) := by
  have skips : skipKeys P (derive32 P [] sk.bytes sharedHkaInfo) now 1 ⟨[], firstChain P sk bootstrap secret, 0⟩ =
      .ok ⟨[⟨derive32 P [] sk.bytes sharedHkaInfo, 0, messageKey P (firstChain P sk bootstrap secret), now⟩],
        advance P (firstChain P sk bootstrap secret), 1⟩ := by
    rw [skipKeys]
    dsimp only
    rw [if_neg (by decide), skipKeys]
    rfl
  exact decryptAt_firstMessage ideal matching sk bootstrap secret plaintext nonces now (by decide) skips secret'

/-- Within its time limit the cached key opens message 0. -/
theorem decryptAt_cached (alive : now - cachedAt < skippedKeyTtl) (secret' secret'' : Bytes) :
    ((skippedFirst P sk bootstrap secret ctx cachedAt secret').decryptAt P (firstMessage P sk bootstrap secret ctx nonces plaintext 0)
      now secret'').2 = .ok plaintext := by
  have held : ((skippedFirst P sk bootstrap secret ctx cachedAt secret').swept now).skipped = [_] :=
    List.filter_eq_self.2 fun e mem => by
      rw [List.mem_singleton.1 mem]
      exact decide_eq_true (.inr alive)
  refine decryptAt_of_cached held ?_ (checkVersion_firstMessage matching secret rfl 0)
    (openBody_firstMessage ideal matching sk bootstrap secret plaintext nonces rfl 0)
  unfold matchEntry
  rw [openHeader_firstMessage ideal matching sk bootstrap secret plaintext nonces (Nat.zero_le _)]
  rfl

/-- After it the message is refused. -/
theorem decryptAt_expired (expired : cachedAt + skippedKeyTtl ≤ now) :
    ∃ e, ((skippedFirst P sk bootstrap secret ctx cachedAt secret').decryptAt P
      (firstMessage P sk bootstrap secret ctx nonces plaintext 0) now secret'').2 = .error e := by
  have dropped : ((skippedFirst P sk bootstrap secret ctx cachedAt secret').swept now).skipped = [] := by
    refine List.filter_eq_nil_iff.2 fun e mem => ?_
    rw [List.mem_singleton.1 mem, decide_eq_true_iff]
    dsimp only
    omega
  refine decryptAt_of_passed dropped ?_ (checkVersion_firstMessage (P := P) matching secret rfl 0) Nat.two_pos
  have held : ((skippedFirst P sk bootstrap secret ctx cachedAt secret').swept now).hkr = some _ := rfl
  unfold findHeader
  rw [held, Option.bind_some, openHeader_firstMessage ideal matching sk bootstrap secret plaintext nonces (Nat.zero_le _)]

theorem run_second :
    run (after P) (newResponder P sk bootstrap (ctx .responder))
      [.decrypt (firstMessage P sk bootstrap secret ctx nonces plaintext 1) now secret'] =
      skippedFirst P sk bootstrap secret ctx now secret' :=
  congrArg Prod.fst (decryptAt_second ideal matching sk bootstrap secret plaintext nonces)

/-- Whatever part of a second is dropped, in that part of the last second the original still opens
the message and the restored ratchet does not. -/
theorem restored_refuses {standard : Codec} (text : standard.Ideal) (since : unixEpoch ≤ cachedAt)
    (within : ¬WholeSecond unixEpoch cachedAt) (sized : (ctx .responder).Sized) :
    ∃ r now, ((skippedFirst P sk start secret ctx cachedAt secret').toOnDisk standard unixEpoch).tryInto standard unixEpoch = .ok r ∧
      answers P r [.decrypt (firstMessage P sk start secret ctx nonces plaintext 0) now secret'] ≠
        answers P (skippedFirst P sk start secret ctx cachedAt secret')
          [.decrypt (firstMessage P sk start secret ctx nonces plaintext 0) now secret'] := by
  have sizes : SizedPrimitives P := ⟨ideal.hkdf.length, ideal.x25519.pub_length⟩
  have fits : (skippedFirst P sk start secret ctx cachedAt secret').Sized := by
    rw [← run_second ideal matching sk start secret plaintext nonces]
    exact Sized.after sizes _ _ ((Fresh.responder sk start sized).sized sizes)
  have earlier : ofUnixSecs unixEpoch (unixSecs unixEpoch cachedAt) < cachedAt := by
    have below : ofUnixSecs unixEpoch (unixSecs unixEpoch cachedAt) ≤ cachedAt := by
      have floor := Nat.div_mul_le_self (cachedAt - unixEpoch) nanosPerSec
      unfold unixSecs ofUnixSecs
      rw [if_pos since]
      omega
    exact lt_of_le_of_ne below fun same => within (ofUnixSecs_unixSecs_iff.1 same)
  obtain ⟨rounded, same⟩ : ∃ rounded, ofUnixSecs unixEpoch (unixSecs unixEpoch cachedAt) = rounded := ⟨_, rfl⟩
  have back : ((skippedFirst P sk start secret ctx cachedAt secret').toOnDisk standard unixEpoch).tryInto standard unixEpoch =
      .ok (skippedFirst P sk start secret ctx rounded secret') := by
    rw [fits.tryInto_toOnDisk text, ← same]
    rfl
  have alive : rounded + skippedKeyTtl - cachedAt < skippedKeyTtl := by
    have : 0 < skippedKeyTtl := by decide
    omega
  refine ⟨_, rounded + skippedKeyTtl, back, ?_⟩
  intro equal
  obtain ⟨e, refused⟩ :=
    decryptAt_expired ideal matching sk start secret plaintext nonces (le_refl (rounded + skippedKeyTtl))
  have opened := decryptAt_cached ideal matching sk start secret plaintext nonces alive secret' secret'
  have results := Answer.decrypted.inj (List.cons.inj equal).1
  rw [refused, opened] at results
  cases results

end

def sampleKey (b : Nat) : Key32 := ⟨List.replicate 32 b, List.length_replicate⟩

def sampleSized : Role → SessionContext
  | .initiator => ⟨sampleKey 1, [2], sampleKey 3, [4], [5], 1⟩
  | .responder => ⟨sampleKey 3, [4], sampleKey 1, [2], [5], 1⟩

theorem sampleSized_matching : Matching sampleSized := ⟨fun _ => rfl, rfl, by decide⟩

theorem sampleSized_sized : (sampleSized .responder).Sized := ⟨(sampleKey 3).2, (sampleKey 1).2⟩

def sampleSession : SessionKey symbolicPrimitives := deriveSk symbolicPrimitives [1] [2] [3] none [4]

/-- The responder gets the initiator's second message, and so caches the key of the first. -/
def sampleCalls (now : Nat) : List Call :=
  [.decrypt (firstMessage symbolicPrimitives sampleSession (sampleKey 5) (sampleKey 6) sampleSized sampleNonces [104, 105] 1) now
    (sampleKey 7)]

theorem run_sampleCalls {now : Nat} :
    run (after symbolicPrimitives) (newResponder symbolicPrimitives sampleSession (sampleKey 5) (sampleSized .responder))
      (sampleCalls now) =
      skippedFirst symbolicPrimitives sampleSession (sampleKey 5) (sampleKey 6) sampleSized now (sampleKey 7) :=
  run_second symbolicPrimitives_ideal sampleSized_matching ..

theorem on_disk_restores_sample :
    ∃ r, ((run (after symbolicPrimitives) (newResponder symbolicPrimitives sampleSession (sampleKey 5) (sampleSized .responder))
        (sampleCalls (1800000000 * nanosPerSec))).toOnDisk symbolicCodec 0).tryInto symbolicCodec 0 = .ok r ∧
      r.skipped.length = 1 ∧
      ∀ later, answers symbolicPrimitives r later =
        answers symbolicPrimitives (run (after symbolicPrimitives)
          (newResponder symbolicPrimitives sampleSession (sampleKey 5) (sampleSized .responder))
          (sampleCalls (1800000000 * nanosPerSec))) later := by
  obtain ⟨r, back, same, answers⟩ := on_disk_restores symbolicPrimitives
    ⟨symbolicPrimitives_ideal.hkdf.length, symbolicPrimitives_ideal.x25519.pub_length⟩ symbolicCodec symbolicCodec_ideal 0 _ (.responder sampleSession (sampleKey 5) sampleSized_sized) (sampleCalls (1800000000 * nanosPerSec))
  have whole : ∀ e ∈ (run (after symbolicPrimitives)
      (newResponder symbolicPrimitives sampleSession (sampleKey 5) (sampleSized .responder))
      (sampleCalls (1800000000 * nanosPerSec))).skipped, WholeSecond 0 e.insertedAt := by
    rw [run_sampleCalls]
    intro e mem
    rw [List.mem_singleton.1 mem]
    exact ⟨1800000000, (Nat.zero_add _).symm⟩
  refine ⟨r, back, ?_, answers whole⟩
  rw [same.2 whole, run_sampleCalls]
  rfl

/-- The first key is cached half a second into a second. -/
theorem half_second_not_restored :
    Fresh symbolicPrimitives (newResponder symbolicPrimitives sampleSession (sampleKey 5) (sampleSized .responder)) ∧
    ∃ r later, ((run (after symbolicPrimitives)
        (newResponder symbolicPrimitives sampleSession (sampleKey 5) (sampleSized .responder))
        (sampleCalls (1800000000 * nanosPerSec + nanosPerSec / 2))).toOnDisk symbolicCodec 0).tryInto symbolicCodec 0 = .ok r ∧
      answers symbolicPrimitives r later ≠
        answers symbolicPrimitives (run (after symbolicPrimitives)
          (newResponder symbolicPrimitives sampleSession (sampleKey 5) (sampleSized .responder))
          (sampleCalls (1800000000 * nanosPerSec + nanosPerSec / 2))) later := by
  have within : ¬WholeSecond 0 (1800000000 * nanosPerSec + nanosPerSec / 2) := by
    rintro ⟨secs, same⟩
    unfold ofUnixSecs nanosPerSec at same
    omega
  refine ⟨.responder sampleSession (sampleKey 5) sampleSized_sized, ?_⟩
  rw [run_sampleCalls]
  obtain ⟨r, now, back, differ⟩ := restored_refuses symbolicPrimitives_ideal sampleSized_matching sampleSession (sampleKey 6)
    [104, 105] sampleNonces symbolicCodec_ideal (Nat.zero_le _) within sampleSized_sized
  exact ⟨r, _, back, differ⟩

end Osl.DoubleRatchet
