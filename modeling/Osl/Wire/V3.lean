import Osl.Wire.Crypto

/-!
# The v=3 envelope (`crates/ipc/src/wire_v2.rs`)

```text
header   version=0x03 (1) | msg_type (1) | sender_ik (32) | N (1)
slot     hash (8) | ek (32) | ct_len LE (2) | mlkem_ct (1088) | wrap_nonce (12) | wrap_ct (48)
trailer  body_nonce (12) | body_ct
```

One fresh body key is wrapped to each recipient in its slot; the body is sealed
once under it. A wire is `DPC0::` and the base64 of these bytes.
-/

namespace Osl.Wire

open Base

def wireVersionV3 : Nat := 0x03
def msgTypeContent : Nat := 0x00
def msgTypeBurn : Nat := 0x01
def msgTypeSenderKeyDistribution : Nat := 0x05
def msgTypeSessionReset : Nat := 0x07

def recipientHashPrefixLen : Nat := 8
def slotV3Bytes : Nat := recipientHashPrefixLen + 32 + 2 + ciphertextSize + nonceSize + keySize + tagSize

def adWrapV3 : Bytes := label "OSL/A1/wrap/v3"
def adBodyV3 : Bytes := label "OSL/A1/body/v3"
def hkdfInfoWrapV3 : Bytes := label "OSL/A1/wrap-key/v3"

def coverPrefix : Bytes := label "DPC0::"

inductive V2Error where
  | badPrefix
  | senderIdentityMismatch
  | base64 (msg : String)
  | tooShort (got expected : Nat)
  | wrongVersion (got expected : Nat)
  | zeroRecipients
  | noMatchingSlot
  | crypto (msg : String)
  deriving DecidableEq, Repr

/-- A recipient's public keys. -/
structure RecipientV3 where
  x25519Pub : Bytes
  mlkemPub : Bytes
  deriving DecidableEq

structure DecryptedV2 where
  msgType : Nat
  plaintext : Bytes
  deriving DecidableEq

/-- The randomness of one slot. -/
structure SlotRng extends HandshakeRng where
  wrapNonce : Bytes
  wrapNonce_length : wrapNonce.length = nonceSize

/-- The randomness of one `encrypt_v3` call. -/
structure V3Rng where
  key : Bytes
  bodyNonce : Bytes
  slot : Nat → SlotRng
  key_length : key.length = keySize
  bodyNonce_length : bodyNonce.length = nonceSize

/-- `u16::to_le_bytes`. -/
def le16 (n : Nat) : Bytes := [n % 256, n / 256 % 256]

variable (C : Crypto)

def pubkeyHashPrefix (pk : Bytes) : Bytes := (C.sha256 pk).take recipientHashPrefixLen

/-- `.map_err(|e| V2Error::Crypto(format!("{what}: {e}")))`. -/
def mapCrypto {α : Type} (what : String) : Except CryptoError α → Except V2Error α
  | .ok a => .ok a
  | .error e => .error (.crypto (what ++ ": " ++ e.display))

/-- One recipient's slot: the body key `k` under a PQXDH session with them. -/
def encodeSlot (senderIkSk k : Bytes) (rng : SlotRng) (ix : Nat) (recip : RecipientV3) :
    Except V2Error Bytes := do
  let (sessionKey, handshake) ← mapCrypto s!"slot {ix} pqxdh::initiate"
    (initiate C rng.toHandshakeRng senderIkSk recip.x25519Pub recip.x25519Pub none recip.mlkemPub)
  let wrapKey := derive32 C [] sessionKey hkdfInfoWrapV3
  let wrapCt := C.gcm.encrypt wrapKey rng.wrapNonce adWrapV3 k
  if wrapCt.length ≠ keySize + tagSize then
    .error (.crypto s!"slot {ix} wrap ct length {wrapCt.length} != {keySize + tagSize}")
  else
    .ok (pubkeyHashPrefix C recip.x25519Pub ++ handshake.ekX25519Pub ++
      le16 handshake.mlkemCiphertext.length ++ handshake.mlkemCiphertext ++ rng.wrapNonce ++ wrapCt)

/-- The slot loop, from slot `ix` on. -/
def encodeSlots (senderIkSk k : Bytes) (rng : Nat → SlotRng) :
    Nat → List RecipientV3 → Except V2Error (List Bytes)
  | _, [] => .ok []
  | ix, recip :: rest => do
    let slot ← encodeSlot C senderIkSk k (rng ix) ix recip
    let slots ← encodeSlots senderIkSk k rng (ix + 1) rest
    .ok (slot :: slots)

def encryptV3 (rng : V3Rng) (senderIkSk senderIkPub : Bytes) (recipients : List RecipientV3)
    (msgType : Nat) (plaintext : Bytes) : Except V2Error Bytes :=
  if recipients.isEmpty then .error .zeroRecipients
  else if recipients.length > 255 then
    .error (.crypto s!"v=3 recipient count {recipients.length} exceeds u8 max 255")
  else do
    let bodyCt := C.gcm.encrypt rng.key rng.bodyNonce adBodyV3 plaintext
    let slots ← encodeSlots C senderIkSk rng.key rng.slot 0 recipients
    .ok (coverPrefix ++ C.base64.encode (wireVersionV3 :: msgType :: (senderIkPub ++ [recipients.length] ++
      slots.flatten ++ rng.bodyNonce ++ bodyCt)))

/-! ## Decoding -/

/-- `raw[i]` behind a length check. -/
def byteAt (raw : Bytes) (i : Nat) : Nat := raw.getD i 0

/-- The fields of slot `ix` a recipient reads once the hash matches. -/
structure SlotFields where
  ekX25519Pub : Bytes
  ctLen : Nat
  mlkemCt : Bytes
  wrapNonce : Bytes
  wrapCt : Bytes

def slotsStart : Nat := 35

def slotHash (raw : Bytes) (ix : Nat) : Bytes :=
  slice (slotsStart + ix * slotV3Bytes) recipientHashPrefixLen raw

def slotFields (raw : Bytes) (ix : Nat) : SlotFields :=
  let base := slotsStart + ix * slotV3Bytes
  let ek := base + recipientHashPrefixLen
  let len := ek + 32
  let ct := len + 2
  let nonce := ct + ciphertextSize
  ⟨slice ek 32 raw, byteAt raw len + 256 * byteAt raw (len + 1), slice ct ciphertextSize raw,
    slice nonce nonceSize raw, slice (nonce + nonceSize) (keySize + tagSize) raw⟩

/-- The key a recipient derives for a slot. -/
def slotWrapKey (recipientIkSk recipientMlkemSk senderIkPub : Bytes) (slot : SlotFields) :
    Except CryptoError Bytes := do
  let sessionKey ← respond C recipientIkSk recipientIkSk none recipientMlkemSk senderIkPub
    ⟨slot.ekX25519Pub, slot.mlkemCt, true, none⟩
  .ok (derive32 C [] sessionKey hkdfInfoWrapV3)

/-- The slot scan: `count` slots from `ix` on, up to the first that unwraps. -/
def scanSlots (raw recipientIkSk recipientMlkemSk senderIkPub : Bytes) :
    Nat → Nat → Except V2Error (Option Bytes)
  | 0, _ => .ok none
  | count + 1, ix =>
    if slotHash raw ix ≠ pubkeyHashPrefix C (C.x25519.pub recipientIkSk) then
      scanSlots raw recipientIkSk recipientMlkemSk senderIkPub count (ix + 1)
    else
      let slot := slotFields raw ix
      if slot.ctLen ≠ ciphertextSize then
        .error (.crypto s!"slot {ix} mlkem_ct_len {slot.ctLen} != {ciphertextSize}")
      else do
        let wrapKey ← mapCrypto s!"slot {ix} pqxdh::respond"
          (slotWrapKey C recipientIkSk recipientMlkemSk senderIkPub slot)
        match gcmOpen C wrapKey slot.wrapNonce adWrapV3 slot.wrapCt with
        | .ok k =>
          if k.length = keySize then .ok (some k)
          else scanSlots raw recipientIkSk recipientMlkemSk senderIkPub count (ix + 1)
        | .error _ => scanSlots raw recipientIkSk recipientMlkemSk senderIkPub count (ix + 1)

/-- `version + msg_type + sender_ik(32) + N + ≥1 slot + body_nonce + tag`, as the
decoder counts it. -/
def minFraming : Nat := 4 + 32 + slotV3Bytes + nonceSize + tagSize

/-- The decoder behind the cover string. -/
def decryptV3Raw (raw recipientIkSk recipientMlkemSk : Bytes) (expectedSenderIk : Option Bytes) :
    Except V2Error DecryptedV2 :=
  if raw.length < minFraming then .error (.tooShort raw.length minFraming)
  else if byteAt raw 0 ≠ wireVersionV3 then .error (.wrongVersion (byteAt raw 0) wireVersionV3)
  else
    let msgType := byteAt raw 1
    let senderIkPub := slice 2 32 raw
    if expectedSenderIk.any (· ≠ senderIkPub) then .error .senderIdentityMismatch
    else
      let n := byteAt raw 34
      if n = 0 then .error .zeroRecipients
      else
        let slotsEnd := slotsStart + n * slotV3Bytes
        if raw.length < slotsEnd + nonceSize + tagSize then
          .error (.tooShort raw.length (slotsEnd + nonceSize + tagSize))
        else do
          let recovered ← scanSlots C raw recipientIkSk recipientMlkemSk senderIkPub n 0
          match recovered with
          | none => .error .noMatchingSlot
          | some k =>
            let bodyNonce := slice slotsEnd nonceSize raw
            let bodyCt := raw.drop (slotsEnd + nonceSize)
            let plaintext ← mapCrypto "v3 body open" (gcmOpen C k bodyNonce adBodyV3 bodyCt)
            .ok ⟨msgType, plaintext⟩

def decryptV3Inner (wire : Bytes) (recipientIkSk recipientMlkemSk : Bytes)
    (expectedSenderIk : Option Bytes) : Except V2Error DecryptedV2 :=
  if !coverPrefix.isPrefixOf wire then .error .badPrefix
  else
    match C.base64.decode (wire.drop coverPrefix.length) with
    | .error msg => .error (.base64 msg)
    | .ok raw => decryptV3Raw C raw recipientIkSk recipientMlkemSk expectedSenderIk

def decryptV3 (wire : Bytes) (recipientIkSk recipientMlkemSk : Bytes) :
    Except V2Error DecryptedV2 :=
  decryptV3Inner C wire recipientIkSk recipientMlkemSk none

def decryptV3ForSender (wire : Bytes) (recipientIkSk recipientMlkemSk expectedSenderIk : Bytes) :
    Except V2Error DecryptedV2 :=
  decryptV3Inner C wire recipientIkSk recipientMlkemSk (some expectedSenderIk)

end Osl.Wire
