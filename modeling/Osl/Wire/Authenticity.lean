import Osl.Wire.RoundTrip

/-!
# Where an accepted v=3 envelope comes from

A `World` is the honest parties and the `encrypt_v3` calls they made, possibly to
dishonest recipients as well. An attacker may assemble any bytes, but no
ciphertext under a key that stays among honest parties (`World.Unforged`).

The body key and the plaintext are bound to their call; the header byte that
carries `msg_type` enters neither an associated datum nor a key derivation.
-/

namespace Osl.Wire

open Base

structure Party where
  ikSk : Bytes
  mlkemSk : Bytes
  deriving DecidableEq

/-- What a party publishes. -/
def Party.bundle (C : Crypto) (p : Party) : RecipientV3 := ⟨C.x25519.pub p.ikSk, C.mlkem.pub p.mlkemSk⟩

/-- One `encrypt_v3` call. -/
structure Call where
  sender : Party
  rng : V3Rng
  recipients : List RecipientV3
  msgType : Nat
  plaintext : Bytes

/-- The wrapped body key in the slot of the `ix`-th recipient, `recip`. -/
def Call.wrapCt (C : Crypto) (c : Call) (ix : Nat) (recip : RecipientV3) : Bytes :=
  C.gcm.encrypt (wrapKeyFor C c.sender.ikSk (c.rng.slot ix) recip) (c.rng.slot ix).wrapNonce adWrapV3
    c.rng.key

structure World (C : Crypto) where
  parties : List Party
  calls : List Call
  honest : ∀ c ∈ calls, c.sender ∈ parties
  /-- Calls address honest parties by their own bundles. -/
  genuine : ∀ c ∈ calls, ∀ recip ∈ c.recipients, ∀ p ∈ parties,
    recip.mlkemPub = C.mlkem.pub p.mlkemSk → recip = p.bundle C
  /-- Body keys are fresh. -/
  fresh : ∀ c ∈ calls, ∀ d ∈ calls, c.rng.key = d.rng.key → c = d

namespace World

variable {C : Crypto} (world : World C)

/-- No recipient of the call is the attacker's. -/
def Private (c : Call) : Prop := ∀ recip ∈ c.recipients, ∃ p ∈ world.parties, recip = p.bundle C

/-- Keys the attacker cannot have: derived from the Diffie-Hellman secret of two
honest parties, or the body key of a call to honest parties only. -/
inductive Secret : Bytes → Prop where
  | wrap {a b : Party} (ha : a ∈ world.parties) (hb : b ∈ world.parties) (ek ct : Bytes) :
    Secret (unwrapKeyFor C b.ikSk b.mlkemSk (C.x25519.pub a.ikSk) ek ct)
  | body {c : Call} (hc : c ∈ world.calls) (priv : world.Private c) : Secret c.rng.key

/-- The ciphertexts the calls made. -/
inductive Sealed : Bytes → Prop where
  | wrap {c : Call} (hc : c ∈ world.calls) {ix : Nat} {recip : RecipientV3}
    (get : c.recipients[ix]? = some recip) : Sealed (c.wrapCt C ix recip)
  | body {c : Call} (hc : c ∈ world.calls) :
    Sealed (C.gcm.encrypt c.rng.key c.rng.bodyNonce adBodyV3 c.plaintext)

/-- The ciphertexts a decoder finds in `raw`. -/
inductive Framed (raw : Bytes) : Bytes → Prop where
  | wrap {ix : Nat} (lt : ix < byteAt raw 34) : Framed raw (slotFields raw ix).wrapCt
  | body : Framed raw (raw.drop (slotsStart + byteAt raw 34 * slotV3Bytes + nonceSize))

/-- The ideal AEAD: under a secret key there is nothing but what was sealed. -/
def Unforged (raw : Bytes) : Prop :=
  ∀ key nonce ad m, world.Secret key → Framed raw (C.gcm.encrypt key nonce ad m) →
    world.Sealed (C.gcm.encrypt key nonce ad m)

def AttackerWire (wire : Bytes) : Prop :=
  ∀ raw, C.base64.decode (wire.drop coverPrefix.length) = .ok raw → world.Unforged raw

end World

variable {C : Crypto} {recipientIkSk recipientMlkemSk nonce m raw senderIk wire : Bytes} {out : DecryptedV2} {c : Call}

/-! ## What acceptance says -/

theorem gcmOpen_ok (ideal : C.Ideal) {key ad ct : Bytes} (h : gcmOpen C key nonce ad ct = .ok m) :
    ct = C.gcm.encrypt key nonce ad m := by
  unfold gcmOpen at h
  split at h
  · cases h
  · split at h
    · rename_i opened
      cases h
      exact (ideal.gcm.decrypt_iff ..).1 opened
    · cases h

theorem mapCrypto_ok {α : Type} {what : String} {x : Except CryptoError α} {a : α}
    (h : mapCrypto what x = .ok a) : x = .ok a := by
  cases x with
  | ok b => simpa [mapCrypto] using h
  | error e => cases h

/-- A recovered body key was sealed in one of the scanned slots, under the key
derived for it. -/
theorem scanSlots_some (ideal : C.Ideal) {senderIkPub k : Bytes} {count ix : Nat}
    (h : scanSlots C raw recipientIkSk recipientMlkemSk senderIkPub count ix = .ok (some k)) :
    ∃ j < ix + count, (slotFields raw j).wrapCt =
      C.gcm.encrypt (unwrapKeyFor C recipientIkSk recipientMlkemSk senderIkPub
        (slotFields raw j).ekX25519Pub (slotFields raw j).mlkemCt) (slotFields raw j).wrapNonce adWrapV3 k := by
  induction count generalizing ix with
  | zero => cases h
  | succ count ih =>
    have later : scanSlots C raw recipientIkSk recipientMlkemSk senderIkPub count (ix + 1) = .ok (some k) →
        ∃ j < ix + (count + 1), (slotFields raw j).wrapCt =
          C.gcm.encrypt (unwrapKeyFor C recipientIkSk recipientMlkemSk senderIkPub
            (slotFields raw j).ekX25519Pub (slotFields raw j).mlkemCt) (slotFields raw j).wrapNonce
            adWrapV3 k := by
      intro h
      obtain ⟨j, lt, eq⟩ := ih h
      exact ⟨j, by omega, eq⟩
    simp only [scanSlots, slotWrapKey_ok ideal, mapCrypto, bind, Except.bind] at h
    split at h
    · exact later h
    · split at h
      · cases h
      · split at h
        · rename_i opened
          split at h
          · cases h
            exact ⟨ix, by omega, gcmOpen_ok ideal opened⟩
          · exact later h
        · exact later h

/-- The decoder's checks, read off an accepted envelope. -/
theorem decryptV3Raw_ok (ideal : C.Ideal)
    (h : decryptV3Raw C raw recipientIkSk recipientMlkemSk (some senderIk) = .ok out) :
    ∃ k, (∃ j < byteAt raw 34, (slotFields raw j).wrapCt =
        C.gcm.encrypt (unwrapKeyFor C recipientIkSk recipientMlkemSk senderIk
          (slotFields raw j).ekX25519Pub (slotFields raw j).mlkemCt) (slotFields raw j).wrapNonce adWrapV3 k) ∧
      raw.drop (slotsStart + byteAt raw 34 * slotV3Bytes + nonceSize) =
        C.gcm.encrypt k (slice (slotsStart + byteAt raw 34 * slotV3Bytes) nonceSize raw) adBodyV3
          out.plaintext ∧
      out.msgType = byteAt raw 1 := by
  unfold decryptV3Raw at h
  split at h
  · cases h
  split at h
  · cases h
  simp only [Option.any_some, decide_eq_true_eq] at h
  split at h
  · cases h
  rename_i pinned
  split at h
  · cases h
  split at h
  · cases h
  simp only [bind, Except.bind] at h
  split at h
  · cases h
  rename_i scan
  split at h
  · cases h
  split at h
  · cases h
  rename_i opened
  cases h
  rw [← not_not.1 pinned] at scan
  obtain ⟨j, lt, eq⟩ := scanSlots_some ideal scan
  rw [Nat.zero_add] at lt
  exact ⟨_, ⟨j, lt, eq⟩, gcmOpen_ok ideal (mapCrypto_ok opened), rfl⟩

theorem decryptV3Inner_ok {expected : Option Bytes}
    (h : decryptV3Inner C wire recipientIkSk recipientMlkemSk expected = .ok out) :
    ∃ raw, C.base64.decode (wire.drop coverPrefix.length) = .ok raw ∧
      decryptV3Raw C raw recipientIkSk recipientMlkemSk expected = .ok out := by
  unfold decryptV3Inner at h
  split at h
  · cases h
  · split at h
    · cases h
    · rename_i raw decoded
      exact ⟨raw, decoded, h⟩

/-! ## Which call it came from -/

theorem adBody_ne_adWrap : adBodyV3 ≠ adWrapV3 := by decide

/-- A sealed slot that opens for `b` as coming from `a` is `a`'s slot for `b`. -/
theorem World.wrap_origin (ideal : C.Ideal) (world : World C) {a b : Party} (hb : b ∈ world.parties)
    {ek ct k : Bytes} (made : world.Sealed (C.gcm.encrypt
      (unwrapKeyFor C b.ikSk b.mlkemSk (C.x25519.pub a.ikSk) ek ct) nonce adWrapV3 k)) :
    ∃ c ∈ world.calls, C.x25519.pub c.sender.ikSk = C.x25519.pub a.ikSk ∧ k = c.rng.key ∧
      ∃ ix, c.recipients[ix]? = some (b.bundle C) ∧ C.gcm.encrypt
        (unwrapKeyFor C b.ikSk b.mlkemSk (C.x25519.pub a.ikSk) ek ct) nonce adWrapV3 k =
          c.wrapCt C ix (b.bundle C) := by
  generalize same : C.gcm.encrypt (unwrapKeyFor C b.ikSk b.mlkemSk (C.x25519.pub a.ikSk) ek ct) nonce
    adWrapV3 k = sealed at made
  cases made with
  | @wrap c hc ix recip get =>
    obtain ⟨keys, -, -, rfl⟩ := ideal.gcm.inj same
    obtain ⟨own, -, dh, -⟩ := (unwrapKey_eq_iff ideal ..).1 keys
    obtain rfl := world.genuine c hc recip (List.mem_of_getElem? get) b hb own
    refine ⟨c, hc, ?_, rfl, ix, get, rfl⟩
    -- Both readings of the shared secret name the same sender.
    rcases ideal.x25519.inj (dh.trans (ideal.x25519.comm c.sender.ikSk b.ikSk)) with ⟨-, eq⟩ | ⟨left, right⟩
    · exact eq.symm
    · exact left.symm.trans right.symm
  | body hc =>
    obtain ⟨-, -, ads, -⟩ := ideal.gcm.inj same
    exact absurd ads.symm adBody_ne_adWrap

/-- Under a call's body key only its own body was sealed. -/
theorem World.body_origin (ideal : C.Ideal) (world : World C) (hc : c ∈ world.calls)
    (made : world.Sealed (C.gcm.encrypt c.rng.key nonce adBodyV3 m)) : m = c.plaintext := by
  generalize same : C.gcm.encrypt c.rng.key nonce adBodyV3 m = sealed at made
  cases made with
  | wrap hd get =>
    obtain ⟨-, -, ads, -⟩ := ideal.gcm.inj same
    exact absurd ads adBody_ne_adWrap
  | @body d hd =>
    obtain ⟨keys, -, -, rfl⟩ := ideal.gcm.inj same
    rw [world.fresh c hc d hd keys]

/-- `raw` has, among its slots, the call's slot for `p`. -/
def Call.SlotIn (C : Crypto) (c : Call) (p : Party) (raw : Bytes) : Prop :=
  ∃ j < byteAt raw 34, ∃ ix, c.recipients[ix]? = some (p.bundle C) ∧
    (slotFields raw j).wrapCt = c.wrapCt C ix (p.bundle C)

/-- The body of `raw` is the call's plaintext under the call's body key. -/
def Call.BodyIn (C : Crypto) (c : Call) (raw : Bytes) : Prop :=
  raw.drop (slotsStart + byteAt raw 34 * slotV3Bytes + nonceSize) =
    C.gcm.encrypt c.rng.key (slice (slotsStart + byteAt raw 34 * slotV3Bytes) nonceSize raw) adBodyV3
      c.plaintext

/-- An accepted envelope carries, for this recipient, a slot of a call the expected
sender made to them. The pair returned is that call's exactly when byte 1 is the
call's message type and the body the call's; the latter always holds for a call
to honest recipients only. -/
theorem v3_accepted_pair_iff (ideal : C.Ideal) (world : World C) {wire : Bytes}
    (attacker : world.AttackerWire wire) {a b : Party} (ha : a ∈ world.parties) (hb : b ∈ world.parties)
    {out : DecryptedV2} (accepted : decryptV3ForSender C wire b.ikSk b.mlkemSk (C.x25519.pub a.ikSk) = .ok out) :
    ∃ raw, C.base64.decode (wire.drop coverPrefix.length) = .ok raw ∧
      ∃ c ∈ world.calls, C.x25519.pub c.sender.ikSk = C.x25519.pub a.ikSk ∧ c.SlotIn C b raw ∧
        (out = ⟨c.msgType, c.plaintext⟩ ↔ byteAt raw 1 = c.msgType ∧ c.BodyIn C raw) ∧
        (world.Private c → c.BodyIn C raw) := by
  obtain ⟨raw, decoded, accepted⟩ := decryptV3Inner_ok accepted
  have unforged := attacker raw decoded
  obtain ⟨k, ⟨j, lt, wrapped⟩, body, type⟩ := decryptV3Raw_ok ideal accepted
  -- The slot was sealed by a call, and so the key it gives is that call's.
  have framed := World.Framed.wrap lt
  rw [wrapped] at framed
  have made := unforged _ _ _ _ (.wrap ha hb _ _) framed
  obtain ⟨c, hc, sender, rfl, ix, get, slot⟩ := world.wrap_origin ideal hb made
  have bodyIn : c.BodyIn C raw ↔ out.plaintext = c.plaintext := by
    unfold Call.BodyIn
    rw [body]
    exact ⟨fun same => (ideal.gcm.inj same).2.2.2, fun same => by rw [same]⟩
  refine ⟨raw, decoded, c, hc, sender, ⟨j, lt, ix, get, wrapped.trans slot⟩, ?_, ?_⟩
  · rw [bodyIn, ← type]
    cases out
    simp
  · intro priv
    rw [bodyIn]
    have framed := @World.Framed.body raw
    rw [body] at framed
    exact world.body_origin ideal hc (unforged _ _ _ _ (.body hc priv) framed)

/-! ## Rewriting the message type

Byte 1 of a wire is free: with another value there the bytes are those of the
call that the sender would have made with that type. -/

/-- A call's bytes with `msgType` in byte 1. -/
def Call.bytesAs (C : Crypto) (c : Call) (msgType : Nat) : Bytes :=
  (wireBytes C c.rng c.sender.ikSk c.recipients c.msgType c.plaintext).set 1 msgType

theorem Call.bytesAs_eq (c : Call) (msgType : Nat) :
    c.bytesAs C msgType = wireBytes C c.rng c.sender.ikSk c.recipients msgType c.plaintext := rfl

theorem World.attackerWire_bytesAs (ideal : C.Ideal) (world : World C) (hc : c ∈ world.calls)
    (msgType : Nat) : world.AttackerWire (coverPrefix ++ C.base64.encode (c.bytesAs C msgType)) := by
  intro raw decoded key nonce ad m _ framed
  rw [List.drop_left, ideal.base64.decode_encode, c.bytesAs_eq] at decoded
  cases decoded
  obtain ⟨-, -, -, count⟩ := wire_headerFields ideal c.rng c.sender.ikSk c.recipients msgType c.plaintext
  generalize C.gcm.encrypt key nonce ad m = ct at framed
  cases framed with
  | @wrap ix lt =>
    rw [count] at lt
    obtain ⟨-, fields⟩ := slotFields_wire ideal c.rng c.sender.ikSk msgType c.plaintext
      (List.getElem?_eq_getElem lt)
    rw [fields]
    exact .wrap hc (List.getElem?_eq_getElem lt)
  | body =>
    rw [count, wire_bodyCt ideal]
    exact .body hc

theorem decryptV3ForSender_bytesAs (ideal : C.Ideal) {b : Party} (mem : b.bundle C ∈ c.recipients)
    (long : c.plaintext ≠ []) (msgType : Nat) :
    decryptV3ForSender C (coverPrefix ++ C.base64.encode (c.bytesAs C msgType)) b.ikSk b.mlkemSk
      (C.x25519.pub c.sender.ikSk) = .ok ⟨msgType, c.plaintext⟩ := by
  unfold decryptV3ForSender
  rw [decryptV3_wire ideal, c.bytesAs_eq, decryptV3Raw_wire ideal c.rng c.sender.ikSk
    (List.ne_nil_of_mem mem) (by simp), if_neg (fun short => long short.2)]
  exact if_pos mem

/-- Alice sends Bob one content message. -/
def sampleCall : Call where
  sender := ⟨[1], [10]⟩
  rng := sampleRng
  recipients := [(⟨[2], [20]⟩ : Party).bundle symbolicCrypto]
  msgType := msgTypeContent
  plaintext := [104]

def sampleWorld : World symbolicCrypto where
  parties := [⟨[1], [10]⟩, ⟨[2], [20]⟩]
  calls := [sampleCall]
  honest c mem := by simp_all [sampleCall]
  genuine c mem recip listed p hp own := by
    obtain rfl : c = sampleCall := by simpa using mem
    obtain rfl : recip = (⟨[2], [20]⟩ : Party).bundle symbolicCrypto := by simpa [sampleCall] using listed
    have same : [20] = p.mlkemSk := tagged_inj own
    obtain rfl | rfl : p = ⟨[1], [10]⟩ ∨ p = ⟨[2], [20]⟩ := by simpa using hp
    · simp at same
    · rfl
  fresh c hc d hd _ := by simp_all

theorem v3_accepted_pair_untouched :
    ∃ raw, symbolicCrypto.base64.decode
        ((coverPrefix ++ symbolicCrypto.base64.encode (sampleCall.bytesAs symbolicCrypto msgTypeContent)).drop
          coverPrefix.length) = .ok raw ∧
      ∃ c ∈ sampleWorld.calls,
        symbolicCrypto.x25519.pub c.sender.ikSk = symbolicCrypto.x25519.pub [1] ∧
        c.SlotIn symbolicCrypto ⟨[2], [20]⟩ raw ∧
        ((⟨msgTypeContent, [104]⟩ : DecryptedV2) = ⟨c.msgType, c.plaintext⟩ ↔
          byteAt raw 1 = c.msgType ∧ c.BodyIn symbolicCrypto raw) ∧
        (sampleWorld.Private c → c.BodyIn symbolicCrypto raw) :=
  v3_accepted_pair_iff symbolicCrypto_ideal sampleWorld
    (sampleWorld.attackerWire_bytesAs symbolicCrypto_ideal (c := sampleCall) (by simp [sampleWorld]) _)
    (a := ⟨[1], [10]⟩) (b := ⟨[2], [20]⟩) (by simp [sampleWorld]) (by simp [sampleWorld])
    (decryptV3ForSender_bytesAs symbolicCrypto_ideal (c := sampleCall) (by simp [sampleCall])
      (by simp [sampleCall]) _)

/-- The network turns the content message into a burn. -/
theorem v3_content_becomes_burn :
    let wire := coverPrefix ++ symbolicCrypto.base64.encode (sampleCall.bytesAs symbolicCrypto msgTypeBurn)
    sampleWorld.AttackerWire wire ∧
      decryptV3ForSender symbolicCrypto wire [2] [20] (symbolicCrypto.x25519.pub [1]) =
        .ok ⟨msgTypeBurn, [104]⟩ ∧
      ∀ c ∈ sampleWorld.calls, c.msgType = msgTypeContent := by
  refine ⟨sampleWorld.attackerWire_bytesAs symbolicCrypto_ideal (by simp [sampleWorld]) _, ?_, ?_⟩
  · exact decryptV3ForSender_bytesAs symbolicCrypto_ideal (c := sampleCall) (b := ⟨[2], [20]⟩)
      (by simp [sampleCall]) (by simp [sampleCall]) _
  · simp [sampleWorld, sampleCall]

end Osl.Wire
