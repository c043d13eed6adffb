import Osl.Wire.V3

/-!
# What the v=3 decoder reads of an honest wire

The encoder's output in closed form (`wireBytes`), the decoder's reads of it
field by field, and the slot scan over it. The decoder's minimum length counts
one header byte too many, so it refuses exactly the shortest honest wire: one
recipient and an empty plaintext (`v3_round_trip_iff`).
-/

namespace Osl.Wire

open Base

variable {C : Crypto} {recipients : List RecipientV3}

/-! ## The encoder in closed form -/

/-- The key that wraps the body key for `recip`. -/
def wrapKeyFor (C : Crypto) (senderIkSk : Bytes) (rng : SlotRng) (recip : RecipientV3) : Bytes :=
  derive32 C [] (deriveSk C (C.x25519.shared senderIkSk recip.x25519Pub)
    (C.x25519.shared rng.ephemeral recip.x25519Pub) (C.x25519.shared rng.ephemeral recip.x25519Pub)
    none (C.mlkem.encap recip.mlkemPub rng.encaps).2) hkdfInfoWrapV3

def slotBytes (C : Crypto) (senderIkSk k : Bytes) (rng : SlotRng) (recip : RecipientV3) : Bytes :=
  pubkeyHashPrefix C recip.x25519Pub ++ C.x25519.pub rng.ephemeral ++ le16 ciphertextSize ++
    (C.mlkem.encap recip.mlkemPub rng.encaps).1 ++ rng.wrapNonce ++
    C.gcm.encrypt (wrapKeyFor C senderIkSk rng recip) rng.wrapNonce adWrapV3 k

def slotsBytes (C : Crypto) (senderIkSk : Bytes) (rng : V3Rng) (recipients : List RecipientV3) :
    List Bytes :=
  recipients.mapIdx fun ix recip => slotBytes C senderIkSk rng.key (rng.slot ix) recip

def wireBytes (C : Crypto) (rng : V3Rng) (senderIkSk : Bytes) (recipients : List RecipientV3)
    (msgType : Nat) (plaintext : Bytes) : Bytes :=
  wireVersionV3 :: msgType :: (C.x25519.pub senderIkSk ++ [recipients.length] ++
    (slotsBytes C senderIkSk rng recipients).flatten ++ rng.bodyNonce ++
    C.gcm.encrypt rng.key rng.bodyNonce adBodyV3 plaintext)

section

variable (ideal : C.Ideal) {k senderIkSk plaintext : Bytes} {recipients : List RecipientV3} {recip : RecipientV3} {ix msgType n : Nat}
  {rng : V3Rng}
include ideal

theorem diffieHellman_ok {secret peer : Bytes} : diffieHellman C secret peer = .ok (C.x25519.shared secret peer) := by
  exact if_neg (ideal.x25519.nonzero secret peer)

theorem encodeSlot_ok (size : k.length = keySize) {rng : SlotRng} :
    encodeSlot C senderIkSk k rng ix recip = .ok (slotBytes C senderIkSk k rng recip) := by
  have length := ideal.mlkem.ct_length recip.mlkemPub rng.encaps
  unfold encodeSlot initiate
  simp only [diffieHellman_ok ideal, bind, Except.bind, mapCrypto]
  rw [if_neg (by rw [ideal.gcm.length, size]; simp)]
  rw [length]
  rfl

theorem encodeSlots_ok (size : k.length = keySize) {rng : Nat → SlotRng} :
    encodeSlots C senderIkSk k rng ix recipients =
      .ok (recipients.mapIdx fun i recip => slotBytes C senderIkSk k (rng (ix + i)) recip) := by
  induction recipients generalizing ix with
  | nil => rfl
  | cons recip rest ih =>
    simp only [encodeSlots, encodeSlot_ok ideal size, ih, bind, Except.bind,
      List.mapIdx_cons, Nat.add_zero]
    congr 2
    refine congrFun (congrArg _ (funext fun i => ?_)) _
    rw [Nat.add_right_comm, Nat.add_assoc]

theorem encryptV3_ok (some : recipients ≠ []) (few : recipients.length ≤ 255) :
    encryptV3 C rng senderIkSk (C.x25519.pub senderIkSk) recipients msgType plaintext =
      .ok (coverPrefix ++ C.base64.encode (wireBytes C rng senderIkSk recipients msgType plaintext)) := by
  unfold encryptV3
  rw [if_neg (by simpa using some), if_neg (by omega)]
  simp only [encodeSlots_ok ideal rng.key_length, bind, Except.bind, Nat.zero_add]
  rfl

theorem decryptV3_wire (raw recipientIkSk recipientMlkemSk : Bytes) (expected : Option Bytes) :
    decryptV3Inner C (coverPrefix ++ C.base64.encode raw) recipientIkSk recipientMlkemSk expected =
      decryptV3Raw C raw recipientIkSk recipientMlkemSk expected := by
  have front : coverPrefix.isPrefixOf (coverPrefix ++ C.base64.encode raw) = true := by simp
  unfold decryptV3Inner
  rw [front, List.drop_left, ideal.base64.decode_encode]
  rfl

/-! ## Reading the fields back -/

theorem length_slotBytes (size : k.length = keySize) {rng : SlotRng} :
    (slotBytes C senderIkSk k rng recip).length = slotV3Bytes := by
  simp only [slotBytes, List.length_append, ideal.gcm.length, ideal.mlkem.ct_length,
    ideal.x25519.pub_length, rng.wrapNonce_length, size, pubkeyHashPrefix, List.length_take, ideal.sha256,
    le16, List.length_cons, List.length_nil]
  rfl

theorem length_slotsBytes :
    ∀ slot ∈ slotsBytes C senderIkSk rng recipients, slot.length = slotV3Bytes := by
  intro slot mem
  obtain ⟨ix, h, rfl⟩ := List.mem_mapIdx.1 mem
  exact length_slotBytes ideal rng.key_length

theorem length_flatten_slots :
    (slotsBytes C senderIkSk rng recipients).flatten.length = recipients.length * slotV3Bytes := by
  rw [length_flatten_equal (length_slotsBytes ideal)]
  simp [slotsBytes]

def headerBytes (C : Crypto) (senderIkSk : Bytes) (n msgType : Nat) : Bytes :=
  wireVersionV3 :: msgType :: (C.x25519.pub senderIkSk ++ [n])

theorem length_headerBytes :
    (headerBytes C senderIkSk n msgType).length = slotsStart := by
  simp [headerBytes, ideal.x25519.pub_length, slotsStart]

end

/-- Header, slots, trailer. -/
theorem wireBytes_eq {rng : V3Rng} {senderIkSk : Bytes} {msgType : Nat} {plaintext : Bytes} :
    wireBytes C rng senderIkSk recipients msgType plaintext =
      headerBytes C senderIkSk recipients.length msgType ++
        ((slotsBytes C senderIkSk rng recipients).flatten ++
          (rng.bodyNonce ++ C.gcm.encrypt rng.key rng.bodyNonce adBodyV3 plaintext)) := by
  simp [wireBytes, headerBytes]

theorem length_wireBytes (ideal : C.Ideal) (rng : V3Rng) (senderIkSk : Bytes)
    (recipients : List RecipientV3) (msgType : Nat) (plaintext : Bytes) :
    (wireBytes C rng senderIkSk recipients msgType plaintext).length =
      slotsStart + recipients.length * slotV3Bytes + nonceSize + (plaintext.length + tagSize) := by
  rw [wireBytes_eq]
  simp only [List.length_append, length_headerBytes ideal, length_flatten_slots ideal,
    rng.bodyNonce_length, ideal.gcm.length]
  omega

theorem byteAt_eq_slice {raw : Bytes} {i : Nat} : byteAt raw i = (slice i 1 raw).getD 0 0 := by
  simp [byteAt, slice, List.getD_eq_getElem?_getD]

section
variable (ideal : C.Ideal) (rng : V3Rng) (senderIkSk : Bytes) (recipients : List RecipientV3) (msgType : Nat)
  (plaintext : Bytes) {recip : RecipientV3}
include ideal

theorem wire_header {off len : Nat} (inside : off + len ≤ slotsStart) :
    slice off len (wireBytes C rng senderIkSk recipients msgType plaintext) =
      slice off len (headerBytes C senderIkSk recipients.length msgType) := by
  rw [wireBytes_eq, slice_append_left (by rw [length_headerBytes ideal]; exact inside)]

theorem wire_slot {ix off len : Nat} (get : recipients[ix]? = some recip) (inside : off + len ≤ slotV3Bytes) :
    slice (slotsStart + ix * slotV3Bytes + off) len
        (wireBytes C rng senderIkSk recipients msgType plaintext) =
      slice off len (slotBytes C senderIkSk rng.key (rng.slot ix) recip) := by
  have lt : ix < recipients.length := (List.getElem?_eq_some_iff.1 get).1
  have bound : ix * slotV3Bytes + slotV3Bytes ≤ recipients.length * slotV3Bytes := by
    rw [← Nat.succ_mul]
    exact Nat.mul_le_mul_right _ lt
  rw [wireBytes_eq, slice_append_right (by rw [length_headerBytes ideal]; omega),
    length_headerBytes ideal, slice_append_left (by rw [length_flatten_slots ideal]; omega),
    show slotsStart + ix * slotV3Bytes + off - slotsStart = ix * slotV3Bytes + off by omega]
  exact slice_flatten (length_slotsBytes ideal) (by simp [slotsBytes, get]) inside

theorem wire_bodyNonce :
    slice (slotsStart + recipients.length * slotV3Bytes) nonceSize
      (wireBytes C rng senderIkSk recipients msgType plaintext) = rng.bodyNonce := by
  rw [wireBytes_eq, slice_append_right (by rw [length_headerBytes ideal]; omega),
    length_headerBytes ideal, slice_append_right (by rw [length_flatten_slots ideal]; omega),
    length_flatten_slots ideal, show slotsStart + recipients.length * slotV3Bytes - slotsStart -
      recipients.length * slotV3Bytes = 0 by omega]
  exact slice_field rng.bodyNonce_length

theorem wire_bodyCt :
    (wireBytes C rng senderIkSk recipients msgType plaintext).drop
        (slotsStart + recipients.length * slotV3Bytes + nonceSize) =
      C.gcm.encrypt rng.key rng.bodyNonce adBodyV3 plaintext := by
  have split : wireBytes C rng senderIkSk recipients msgType plaintext =
      (headerBytes C senderIkSk recipients.length msgType ++
        (slotsBytes C senderIkSk rng recipients).flatten ++ rng.bodyNonce) ++
        C.gcm.encrypt rng.key rng.bodyNonce adBodyV3 plaintext := by
    rw [wireBytes_eq]; simp
  rw [split, List.drop_left']
  simp only [List.length_append, length_headerBytes ideal, length_flatten_slots ideal, rng.bodyNonce_length]

end

section

variable (ideal : C.Ideal) {recip : RecipientV3}
include ideal

/-- The offsets of the six slot fields. -/
theorem slotBytes_fields {senderIkSk k : Bytes} (size : k.length = keySize) {rng : SlotRng} :
    let slot := slotBytes C senderIkSk k rng recip
    slice 0 8 slot = pubkeyHashPrefix C recip.x25519Pub ∧ slice 8 32 slot = C.x25519.pub rng.ephemeral ∧
      slice 40 1 slot = [64] ∧ slice 41 1 slot = [4] ∧
      slice 42 1088 slot = (C.mlkem.encap recip.mlkemPub rng.encaps).1 ∧
      slice 1130 12 slot = rng.wrapNonce ∧
      slice 1142 48 slot = C.gcm.encrypt (wrapKeyFor C senderIkSk rng recip) rng.wrapNonce adWrapV3 k := by
  have hash : (pubkeyHashPrefix C recip.x25519Pub).length = 8 := by
    simp [pubkeyHashPrefix, ideal.sha256, recipientHashPrefixLen]
  have ek : (C.x25519.pub rng.ephemeral).length = 32 := ideal.x25519.pub_length _
  have ct : (C.mlkem.encap recip.mlkemPub rng.encaps).1.length = 1088 := ideal.mlkem.ct_length _ _
  have nonce : rng.wrapNonce.length = 12 := rng.wrapNonce_length
  have wrap : (C.gcm.encrypt (wrapKeyFor C senderIkSk rng recip) rng.wrapNonce adWrapV3 k).length = 48 := by
    rw [ideal.gcm.length, size]; rfl
  have len : le16 ciphertextSize = [64] ++ [4] := by decide
  intro slot
  have shape : slot = pubkeyHashPrefix C recip.x25519Pub ++ (C.x25519.pub rng.ephemeral ++ ([64] ++ ([4] ++
      ((C.mlkem.encap recip.mlkemPub rng.encaps).1 ++ (rng.wrapNonce ++
        C.gcm.encrypt (wrapKeyFor C senderIkSk rng recip) rng.wrapNonce adWrapV3 k))))) := by
    show slotBytes C senderIkSk k rng recip = _
    simp only [slotBytes, len, List.append_assoc]
  rw [shape]
  refine ⟨slice_field hash, ?_, ?_, ?_, ?_, ?_, ?_⟩
  · rw [slice_append_right hash.le, hash]
    exact slice_field ek
  all_goals rw [slice_append_right (by omega), hash, slice_append_right (by omega), ek]
  · rfl
  all_goals rw [slice_append_right (by simp)]
  · rfl
  all_goals rw [slice_append_right (by simp)]
  · exact slice_field ct
  all_goals rw [slice_append_right (by simp [ct]), ct]
  · exact slice_field nonce
  · rw [slice_append_right (by simp [nonce]), nonce]
    exact slice_self wrap

/-- The decoder's six reads of slot `ix`. -/
theorem slotFields_wire (rng : V3Rng) (senderIkSk : Bytes) (msgType : Nat) (plaintext : Bytes) {ix : Nat}
    (get : recipients[ix]? = some recip) :
    let raw := wireBytes C rng senderIkSk recipients msgType plaintext
    slotHash raw ix = pubkeyHashPrefix C recip.x25519Pub ∧
      slotFields raw ix = ⟨C.x25519.pub (rng.slot ix).ephemeral, ciphertextSize,
        (C.mlkem.encap recip.mlkemPub (rng.slot ix).encaps).1, (rng.slot ix).wrapNonce,
        C.gcm.encrypt (wrapKeyFor C senderIkSk (rng.slot ix) recip) (rng.slot ix).wrapNonce adWrapV3
          rng.key⟩ := by
  intro raw
  obtain ⟨hash, ek, low, high, ct, nonce, wrap⟩ :=
    slotBytes_fields ideal rng.key_length
  have read : ∀ off len, off + len ≤ slotV3Bytes → slice (slotsStart + ix * slotV3Bytes + off) len raw =
      slice off len (slotBytes C senderIkSk rng.key (rng.slot ix) recip) :=
    fun off len => wire_slot ideal rng senderIkSk recipients msgType plaintext get
  constructor
  · exact (read 0 8 (by decide)).trans hash
  · unfold slotFields
    simp only [byteAt_eq_slice, recipientHashPrefixLen, ciphertextSize, nonceSize, keySize, tagSize,
      Nat.add_assoc, Nat.reduceAdd] at read ⊢
    rw [read 8 32 (by decide), read 40 1 (by decide), read 41 1 (by decide), read 42 1088 (by decide),
      read 1130 12 (by decide), read 1142 48 (by decide), ek, low, high, ct, nonce, wrap]
    rfl

/-! ## Whose slot opens -/

theorem derive32_inj {s i f s' i' f' : Bytes}
    (h : derive32 C s i f = derive32 C s' i' f') : s = s' ∧ i = i' ∧ f = f' := by
  have whole : ∀ s i f, block 0 (C.hkdf.derive s i f 32) = derive32 C s i f := by
    intro s i f
    simp [block, derive32, ideal.hkdf.length]
  obtain ⟨hs, hi, hf, -⟩ := ideal.hkdf.inj (by decide) (by decide)
    ((whole s i f).trans (h.trans (whole s' i' f').symm))
  exact ⟨hs, hi, hf⟩

theorem deriveSk_inj {a b c d a' b' c' d' : Bytes} (ha : a.length = a'.length)
    (hb : b.length = b'.length) (hc : c.length = c'.length)
    (h : deriveSk C a b c none d = deriveSk C a' b' c' none d') : a = a' ∧ b = b' ∧ c = c' ∧ d = d' := by
  obtain ⟨-, concat, -⟩ := derive32_inj ideal h
  simp only [Option.getD_none, List.append_nil, List.append_assoc] at concat
  obtain ⟨ea, concat⟩ := List.append_inj concat ha
  obtain ⟨eb, concat⟩ := List.append_inj concat hb
  obtain ⟨ec, ed⟩ := List.append_inj concat hc
  exact ⟨ea, eb, ec, ed⟩

/-- The key a recipient derives for a slot, in closed form. -/
def unwrapKeyFor (C : Crypto) (recipientIkSk recipientMlkemSk senderIkPub ek ct : Bytes) : Bytes :=
  derive32 C [] (deriveSk C (C.x25519.shared recipientIkSk senderIkPub) (C.x25519.shared recipientIkSk ek)
    (C.x25519.shared recipientIkSk ek) none (C.mlkem.decap recipientMlkemSk ct)) hkdfInfoWrapV3

theorem slotWrapKey_ok (recipientIkSk recipientMlkemSk senderIkPub : Bytes) (slot : SlotFields) :
    slotWrapKey C recipientIkSk recipientMlkemSk senderIkPub slot =
      .ok (unwrapKeyFor C recipientIkSk recipientMlkemSk senderIkPub slot.ekX25519Pub slot.mlkemCt) := by
  unfold slotWrapKey respond
  simp only [diffieHellman_ok ideal, bind, Except.bind]
  rfl

/-- A recipient derives the wrap key of an honest slot from what they read
exactly when they were its addressee, the sender is the one they suppose and the
handshake bytes are the slot's. -/
theorem unwrapKey_eq_iff (senderIkSk : Bytes) (rng : SlotRng) (recip : RecipientV3)
    (recipientIkSk recipientMlkemSk senderIkPub ek ct : Bytes) :
    unwrapKeyFor C recipientIkSk recipientMlkemSk senderIkPub ek ct = wrapKeyFor C senderIkSk rng recip ↔
      recip.mlkemPub = C.mlkem.pub recipientMlkemSk ∧ ct = (C.mlkem.encap recip.mlkemPub rng.encaps).1 ∧
        C.x25519.shared recipientIkSk senderIkPub = C.x25519.shared senderIkSk recip.x25519Pub ∧
        C.x25519.shared recipientIkSk ek = C.x25519.shared rng.ephemeral recip.x25519Pub := by
  have size := ideal.x25519.shared_length
  constructor
  · intro h
    obtain ⟨-, sk, -⟩ := derive32_inj ideal h
    obtain ⟨dh1, dh2, -, ss⟩ := deriveSk_inj ideal (by rw [size, size]) (by rw [size, size])
      (by rw [size, size]) sk
    obtain ⟨own, same⟩ := ideal.mlkem.separate ss
    exact ⟨own, same, dh1, dh2⟩
  · rintro ⟨own, rfl, dh1, dh2⟩
    unfold unwrapKeyFor wrapKeyFor
    rw [dh1, dh2, own, ideal.mlkem.correct]

/-- Of an honest slot of a genuine sender: the addressee's bundle. -/
theorem unwrapKey_eq_iff_addressee {senderIkSk : Bytes} {rng : SlotRng} {recipientIkSk recipientMlkemSk : Bytes} :
    unwrapKeyFor C recipientIkSk recipientMlkemSk (C.x25519.pub senderIkSk) (C.x25519.pub rng.ephemeral)
        (C.mlkem.encap recip.mlkemPub rng.encaps).1 = wrapKeyFor C senderIkSk rng recip ↔
      recip = ⟨C.x25519.pub recipientIkSk, C.mlkem.pub recipientMlkemSk⟩ := by
  rw [unwrapKey_eq_iff ideal]
  constructor
  · rintro ⟨own, -, dh1, -⟩
    have same : recip.x25519Pub = C.x25519.pub recipientIkSk := by
      rcases ideal.x25519.inj dh1 with ⟨left, right⟩ | ⟨left, -⟩
      · exact right.symm.trans left.symm
      · exact left.symm
    cases recip
    simp_all
  · rintro rfl
    exact ⟨rfl, rfl, ideal.x25519.comm _ _, ideal.x25519.comm _ _⟩

/-- Opening succeeds with the sealing key only. -/
theorem gcmOpen_encrypt {key key' nonce ad m : Bytes} :
    gcmOpen C key nonce ad (C.gcm.encrypt key' nonce ad m) =
      if key = key' then .ok m else .error .aeadFailure := by
  have long : ¬ (C.gcm.encrypt key' nonce ad m).length < tagSize := by
    rw [ideal.gcm.length]
    omega
  unfold gcmOpen
  rw [if_neg long]
  split
  · rename_i opened
    obtain ⟨same, -, -, rfl⟩ := ideal.gcm.inj ((ideal.gcm.decrypt_iff ..).1 opened)
    rw [if_pos same.symm]
  · rename_i refused
    rw [if_neg]
    rintro rfl
    rw [(ideal.gcm.decrypt_iff ..).2 rfl] at refused
    cases refused

/-! ## The scan and the decoder over an honest wire -/

section
variable (rng : V3Rng) (senderIkSk : Bytes) {expected : Option Bytes}
include rng senderIkSk

theorem scanSlots_wire (recipients : List RecipientV3)
    (msgType : Nat) (plaintext recipientIkSk recipientMlkemSk : Bytes) (count ix : Nat)
    (rest : ix + count = recipients.length) :
    scanSlots C (wireBytes C rng senderIkSk recipients msgType plaintext) recipientIkSk recipientMlkemSk
        (C.x25519.pub senderIkSk) count ix =
      .ok (if (⟨C.x25519.pub recipientIkSk, C.mlkem.pub recipientMlkemSk⟩ : RecipientV3) ∈
        recipients.drop ix then some rng.key else none) := by
  induction count generalizing ix with
  | zero => simp [scanSlots, List.drop_eq_nil_of_le, ← rest]
  | succ count ih =>
    have lt : ix < recipients.length := by omega
    have get : recipients[ix]? = some recipients[ix] := List.getElem?_eq_getElem lt
    obtain ⟨hash, fields⟩ := slotFields_wire ideal rng senderIkSk msgType plaintext get
    specialize ih (ix + 1) (by omega)
    simp only [List.drop_eq_getElem_cons lt, List.mem_cons]
    generalize recipients[ix] = recip at get hash fields ⊢
    simp only [scanSlots, hash, fields]
    split
    -- Another hash: not this recipient's slot.
    · rename_i other
      have foreign : (⟨C.x25519.pub recipientIkSk, C.mlkem.pub recipientMlkemSk⟩ : RecipientV3) ≠ recip := by
        rintro rfl
        exact other rfl
      simp [ih, foreign]
    · rw [if_neg (by simp)]
      simp only [slotWrapKey_ok ideal, mapCrypto, bind, Except.bind, gcmOpen_encrypt ideal,
        unwrapKey_eq_iff_addressee ideal]
      by_cases own : recip = ⟨C.x25519.pub recipientIkSk, C.mlkem.pub recipientMlkemSk⟩
      · simp [own, rng.key_length]
      · simp [own, Ne.symm own, ih]

theorem wire_headerFields (recipients : List RecipientV3) (msgType : Nat) (plaintext : Bytes) :
    let raw := wireBytes C rng senderIkSk recipients msgType plaintext
    byteAt raw 0 = wireVersionV3 ∧ byteAt raw 1 = msgType ∧ slice 2 32 raw = C.x25519.pub senderIkSk ∧
      byteAt raw 34 = recipients.length := by
  have header := @wire_header C ideal rng senderIkSk recipients msgType plaintext
  have pub := ideal.x25519.pub_length senderIkSk
  intro raw
  refine ⟨?_, ?_, ?_, ?_⟩
  · rw [byteAt_eq_slice, header (by decide)]
    rfl
  · rw [byteAt_eq_slice, header (by decide)]
    rfl
  · rw [header (by decide)]
    exact slice_field pub
  · rw [byteAt_eq_slice, header (by decide), headerBytes,
      show ∀ l : Bytes, wireVersionV3 :: msgType :: l = [wireVersionV3, msgType] ++ l from fun _ => rfl,
      slice_append_right (by simp), slice_append_right (by simp [pub])]
    simp [pub, slice]

/-- What any key pair gets from an honest wire, with its sender pinned or not. -/
theorem decryptV3Raw_wire (some : recipients ≠ []) {msgType : Nat} {plaintext recipientIkSk recipientMlkemSk : Bytes}
    (pin : ∀ e ∈ expected, e = C.x25519.pub senderIkSk) :
    decryptV3Raw C (wireBytes C rng senderIkSk recipients msgType plaintext) recipientIkSk recipientMlkemSk
        expected =
      if recipients.length = 1 ∧ plaintext = [] then .error (.tooShort 1253 1254)
      else if (⟨C.x25519.pub recipientIkSk, C.mlkem.pub recipientMlkemSk⟩ : RecipientV3) ∈ recipients then
        .ok ⟨msgType, plaintext⟩
      else .error .noMatchingSlot := by
  have length := length_wireBytes ideal rng senderIkSk recipients msgType plaintext
  obtain ⟨version, type, sender, count⟩ := wire_headerFields ideal rng senderIkSk recipients msgType plaintext
  have slots : 1190 ≤ recipients.length * 1190 :=
    Nat.le_mul_of_pos_left _ (List.length_pos_iff.2 some)
  unfold decryptV3Raw
  simp only [version, type, sender, count, length, slotsStart, slotV3Bytes, minFraming, recipientHashPrefixLen,
    ciphertextSize, nonceSize, keySize, tagSize, Nat.reduceAdd]
  by_cases short : recipients.length = 1 ∧ plaintext = []
  · obtain ⟨one, rfl⟩ := short
    simp [one]
  have long : ¬ 35 + recipients.length * 1190 + 12 + (plaintext.length + 16) < 1254 := by
    intro lt
    refine short ⟨by omega, List.length_eq_zero_iff.1 (by omega)⟩
  have pinned : ¬ expected.any (· ≠ C.x25519.pub senderIkSk) = true := by
    cases expected <;> simp_all
  rw [if_neg long, if_neg (by simp), if_neg pinned, if_neg (by omega), if_neg (by omega), if_neg short]
  rw [scanSlots_wire ideal rng senderIkSk recipients msgType plaintext recipientIkSk recipientMlkemSk _ 0
    (by omega)]
  have nonce := wire_bodyNonce ideal rng senderIkSk recipients msgType plaintext
  have body := wire_bodyCt ideal rng senderIkSk recipients msgType plaintext
  simp only [slotsStart, slotV3Bytes, recipientHashPrefixLen, ciphertextSize, nonceSize, keySize, tagSize,
    Nat.reduceAdd] at nonce body
  simp only [List.drop_zero, bind, Except.bind]
  by_cases own : (⟨C.x25519.pub recipientIkSk, C.mlkem.pub recipientMlkemSk⟩ : RecipientV3) ∈ recipients
  · simp only [if_pos own, nonce, body, gcmOpen_encrypt ideal, mapCrypto, if_true]
  · simp only [if_neg own]

end

end

/-- Encoding one to 255 recipients succeeds; a listed key pair reads the message
back exactly when it is not the empty message to a single recipient, and no other
key pair reads anything. -/
theorem v3_round_trip_iff (ideal : C.Ideal) (rng : V3Rng) (senderIkSk : Bytes)
    {recipients : List RecipientV3} (some : recipients ≠ []) (few : recipients.length ≤ 255)
    (msgType : Nat) (plaintext : Bytes) :
    ∃ wire, encryptV3 C rng senderIkSk (C.x25519.pub senderIkSk) recipients msgType plaintext = .ok wire ∧
      ∀ recipientIkSk recipientMlkemSk,
        let own : RecipientV3 := ⟨C.x25519.pub recipientIkSk, C.mlkem.pub recipientMlkemSk⟩
        (own ∈ recipients → (decryptV3 C wire recipientIkSk recipientMlkemSk = .ok ⟨msgType, plaintext⟩ ↔
          plaintext ≠ [] ∨ 2 ≤ recipients.length)) ∧
        (own ∉ recipients → ∀ out, decryptV3 C wire recipientIkSk recipientMlkemSk ≠ .ok out) := by
  refine ⟨_, encryptV3_ok ideal some few, ?_⟩
  intro recipientIkSk recipientMlkemSk own
  have pos : 0 < recipients.length := List.length_pos_iff.2 some
  unfold decryptV3
  rw [decryptV3_wire ideal, decryptV3Raw_wire ideal rng senderIkSk some (by simp)]
  by_cases short : recipients.length = 1 ∧ plaintext = []
  · rw [if_pos short]
    simp [short.1, short.2]
  rw [if_neg short]
  have long : plaintext ≠ [] ∨ 2 ≤ recipients.length := by
    by_cases empty : plaintext = []
    · have : recipients.length ≠ 1 := fun one => short ⟨one, empty⟩
      exact .inr (by omega)
    · exact .inl empty
  constructor
  · intro mem
    rw [if_pos mem]
    exact ⟨fun _ => long, fun _ => rfl⟩
  · intro foreign out
    rw [if_neg foreign]
    rintro ⟨⟩

def sampleRng : V3Rng where
  key := List.replicate 32 7
  bodyNonce := List.replicate 12 8
  slot ix := ⟨⟨[20, ix], [21, ix]⟩, List.replicate 12 ix, by simp [nonceSize]⟩
  key_length := by decide
  bodyNonce_length := by decide

/-- A one-symbol plaintext to one recipient. -/
theorem v3_round_trip_one_recipient :
    let C := symbolicCrypto
    ∃ wire, encryptV3 C sampleRng [1] (C.x25519.pub [1]) [⟨C.x25519.pub [2], C.mlkem.pub [3]⟩] 0 [104] =
        .ok wire ∧
      decryptV3 C wire [2] [3] = .ok ⟨0, [104]⟩ := by
  intro C
  obtain ⟨wire, made, read⟩ := v3_round_trip_iff symbolicCrypto_ideal sampleRng [1]
    (show [(⟨C.x25519.pub [2], C.mlkem.pub [3]⟩ : RecipientV3)] ≠ [] by simp) (by simp) 0 [104]
  exact ⟨wire, made, ((read [2] [3]).1 (by simp [C])).2 (.inl (by simp))⟩

/-- The empty plaintext to one recipient: encoded, then refused as too short. -/
theorem v3_empty_to_one_recipient_refused :
    let C := symbolicCrypto
    ∃ wire, encryptV3 C sampleRng [1] (C.x25519.pub [1]) [⟨C.x25519.pub [2], C.mlkem.pub [3]⟩] 0 [] =
        .ok wire ∧
      decryptV3 C wire [2] [3] = .error (.tooShort 1253 1254) := by
  intro C
  refine ⟨_, encryptV3_ok symbolicCrypto_ideal (by simp) (by simp), ?_⟩
  unfold decryptV3
  rw [decryptV3_wire symbolicCrypto_ideal, decryptV3Raw_wire symbolicCrypto_ideal sampleRng [1] (by simp) (by simp)]
  simp

end Osl.Wire
