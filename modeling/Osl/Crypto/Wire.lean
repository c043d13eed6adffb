import Osl.Base.Parser
import Osl.Base.Slice
import Osl.DoubleRatchet.Model
import Osl.SenderKeys.Model

/-!
# The outer envelopes (`crates/crypto/src/wire.rs`)

Ratchet messages, sender-keys messages and initiator handshakes, each with a magic of
seven bytes in front. The readers work by offset; `At` says where in the input a reader
stands, so that a decoder's successful reads spell out its input field by field.
-/

namespace Osl.Crypto.Wire

open Base Crypto

def ratchetMagic : Bytes := label "DPCRDM" ++ [1]
def senderKeysMagic : Bytes := label "DPCSKG" ++ [1]
def handshakeMagic : Bytes := label "DPCPQX" ++ [1]

def publicKeySize : Nat := 32
def ciphertextSize : Nat := 1088

/-! ## Shared helpers -/

def checkMagic (bytes magic : Bytes) (what : String) : Result Nat :=
  if bytes.length < magic.length then .error (.internal s!"{what}: too short for magic")
  else if bytes.take magic.length ≠ magic then
    .error (.internal s!"{what}: bad magic / version byte (expected {magic}, got {bytes.take magic.length})")
  else .ok magic.length

def readU32 (bytes : Bytes) (off : Nat) (what : String) : Result (Nat × Nat) :=
  if bytes.length < off + 4 then .error (.internal s!"{what}: truncated u32 at offset {off}")
  else .ok (ofBe32 (slice off 4 bytes), off + 4)

def readLp (bytes : Bytes) (off : Nat) (what : String) : Result (Bytes × Nat) := do
  let (len, off) ← readU32 bytes off what
  if bytes.length < off + len then
    .error (.internal s!"{what}: truncated length-prefixed payload (declared {len} bytes from offset {off})")
  else .ok (slice off len bytes, off + len)

def readFixed (bytes : Bytes) (off n : Nat) (what : String) : Result (Bytes × Nat) :=
  if bytes.length < off + n then .error (.internal s!"{what}: truncated fixed {n}-byte field at offset {off}")
  else .ok (slice off n bytes, off + n)

/-- The length is written as a `u32`, whatever it is. -/
def writeLp (bytes : Bytes) : Bytes := be32 bytes.length ++ bytes

def checkEnd (bytes : Bytes) (off : Nat) (what : String) : Result Unit :=
  if off ≠ bytes.length then .error (.internal s!"{what}: trailing {bytes.length - off} bytes after last field")
  else .ok ()

/-! ## Message envelopes -/

/-- The fields the two message types have in common. -/
structure Envelope where
  headerNonce : Bytes
  encHeader : Bytes
  messageNonce : Bytes
  ciphertext : Bytes
  deriving DecidableEq

def encodeEnvelope (magic : Bytes) (e : Envelope) : Bytes :=
  magic ++ e.headerNonce ++ writeLp e.encHeader ++ e.messageNonce ++ writeLp e.ciphertext

def decodeEnvelope (magic : Bytes) (what : String) (bytes : Bytes) : Result Envelope := do
  let off ← checkMagic bytes magic what
  let (headerNonce, off) ← readFixed bytes off nonceSize what
  let (encHeader, off) ← readLp bytes off what
  let (messageNonce, off) ← readFixed bytes off nonceSize what
  let (ciphertext, off) ← readLp bytes off what
  checkEnd bytes off what
  .ok ⟨headerNonce, encHeader, messageNonce, ciphertext⟩

def encodeRatchetMessage (m : DoubleRatchet.EncryptedMessage) : Bytes :=
  encodeEnvelope ratchetMagic ⟨m.headerNonce, m.encHeader, m.messageNonce, m.ciphertext⟩

def decodeRatchetMessage (bytes : Bytes) : Result DoubleRatchet.EncryptedMessage :=
  (decodeEnvelope ratchetMagic "wire::ratchet_message" bytes).map fun e =>
    ⟨e.headerNonce, e.encHeader, e.messageNonce, e.ciphertext⟩

def encodeSenderKeysMessage (m : SenderKeys.EncryptedMessage) : Bytes :=
  encodeEnvelope senderKeysMagic ⟨m.headerNonce, m.encHeader, m.messageNonce, m.ciphertext⟩

def decodeSenderKeysMessage (bytes : Bytes) : Result SenderKeys.EncryptedMessage :=
  (decodeEnvelope senderKeysMagic "wire::sender_keys_message" bytes).map fun e =>
    ⟨e.headerNonce, e.encHeader, e.messageNonce, e.ciphertext⟩

/-! ## Initiator handshakes -/

structure InitiatorHandshake where
  ekX25519Pub : Bytes
  mlkemCiphertext : Bytes
  noOpk : Bool
  opkId : Option Nat
  deriving DecidableEq

def handshakeOpkFlagPresent : Nat := 1
def handshakeOpkFlagAbsent : Nat := 0

def writeOpkId : Option Nat → Bytes
  | some id => handshakeOpkFlagPresent :: be32 id
  | none => [handshakeOpkFlagAbsent]

def encodeInitiatorHandshake (h : InitiatorHandshake) : Bytes :=
  handshakeMagic ++ h.ekX25519Pub ++ writeLp h.mlkemCiphertext ++ [if h.noOpk then 1 else 0] ++ writeOpkId h.opkId

def readNoOpk (what : String) : Bytes → Result Bool
  | [0] => .ok false
  | [1] => .ok true
  | field => .error (.internal s!"{what}: invalid no_opk byte {field.headD 0} (must be 0 or 1)")

def readOpkId (bytes : Bytes) (off : Nat) (what : String) : Result (Option Nat × Nat) := do
  let (flag, off) ← readFixed bytes off 1 what
  if flag = [handshakeOpkFlagAbsent] then .ok (none, off)
  else if flag = [handshakeOpkFlagPresent] then
    let (id, off) ← readU32 bytes off what
    .ok (some id, off)
  else .error (.internal s!"{what}: invalid opk_id flag {flag.headD 0} (must be 0 or 1)")

def decodeInitiatorHandshake (bytes : Bytes) : Result InitiatorHandshake := do
  let what := "wire::initiator_handshake"
  let off ← checkMagic bytes handshakeMagic what
  let (ek, off) ← readFixed bytes off publicKeySize what
  let (ct, off) ← readLp bytes off what
  if ct.length ≠ ciphertextSize then
    .error (.internal s!"{what}: mlkem_ciphertext length {ct.length} != expected {ciphertextSize}")
  let (noOpkField, off) ← readFixed bytes off 1 what
  let noOpk ← readNoOpk what noOpkField
  let (opkId, off) ← readOpkId bytes off what
  if noOpk ∧ opkId.isSome then .error (.internal s!"{what}: no_opk=true but opk_id present")
  if !noOpk ∧ opkId.isNone then .error (.internal s!"{what}: no_opk=false but opk_id absent")
  checkEnd bytes off what
  .ok ⟨ek, ct, noOpk, opkId⟩

/-! ## What the readers accept -/

variable {bytes seen rest magic xs : Bytes} {off n v off' : Nat} {what : String}

/-- A reader at offset `off` has seen `seen` and has `rest` before it. -/
structure At (bytes : Bytes) (off : Nat) (seen rest : Bytes) : Prop where
  whole : bytes = seen ++ rest
  here : off = seen.length

theorem At.field (at_ : At bytes off seen (xs ++ rest)) : At bytes (off + xs.length) (seen ++ xs) rest :=
  ⟨by rw [at_.whole, List.append_assoc], by rw [at_.here, List.length_append]⟩

theorem checkMagic_ok : checkMagic bytes magic what = .ok off ↔ ∃ rest, At bytes off magic rest := by
  unfold checkMagic
  constructor
  · intro h
    split at h
    case isTrue => cases h
    split at h
    case isTrue => cases h
    case isFalse front =>
      cases h
      refine ⟨bytes.drop magic.length, ?_, rfl⟩
      conv_lhs => rw [← List.take_append_drop magic.length bytes, not_not.1 front]
  · rintro ⟨rest, rfl, rfl⟩
    rw [if_neg (by simp), if_neg (by simp)]

section

variable (at_ : At bytes off seen rest)
include at_

theorem readFixed_ok :
    readFixed bytes off n what = .ok (xs, off') ↔
      ∃ tail, rest = xs ++ tail ∧ xs.length = n ∧ At bytes off' (seen ++ xs) tail := by
  obtain ⟨rfl, rfl⟩ := at_
  have cut : slice seen.length n (seen ++ rest) = rest.take n := by
    unfold slice
    rw [List.drop_left]
  unfold readFixed
  rw [cut]
  constructor
  · intro h
    split at h
    case isTrue => cases h
    rename_i long
    cases h
    have size : (rest.take n).length = n := by
      rw [List.length_append] at long
      rw [List.length_take]
      omega
    have whole : rest = rest.take n ++ rest.drop n := (List.take_append_drop n rest).symm
    refine ⟨rest.drop n, whole, size, ?_, ?_⟩
    · rw [List.append_assoc, ← whole]
    · rw [List.length_append, size]
  · rintro ⟨tail, rfl, rfl, -, rfl⟩
    rw [if_neg (by simp), List.take_left, List.length_append]

theorem readU32_ok (small : AreBytes rest) :
    readU32 bytes off what = .ok (v, off') ↔ ∃ tail, v ≤ u32Max ∧ rest = be32 v ++ tail ∧ At bytes off' (seen ++ be32 v) tail := by
  have fixed : readU32 bytes off what = .ok (v, off') ↔ ∃ xs, readFixed bytes off 4 what = .ok (xs, off') ∧ v = ofBe32 xs := by
    unfold readU32 readFixed
    split
    case isTrue => simp
    simp only [Except.ok.injEq, Prod.mk.injEq]
    constructor
    · rintro ⟨rfl, rfl⟩
      exact ⟨_, ⟨rfl, rfl⟩, rfl⟩
    · rintro ⟨xs, ⟨rfl, rfl⟩, rfl⟩
      exact ⟨rfl, rfl⟩
  rw [fixed]
  constructor
  · rintro ⟨xs, read, rfl⟩
    obtain ⟨tail, rfl, size, next⟩ := (readFixed_ok at_).1 read
    have field := (AreBytes.append.1 small).1
    have back := be32_ofBe32 size field
    exact ⟨tail, ofBe32_le size field, by rw [back], by rwa [back]⟩
  · rintro ⟨tail, fits, rfl, next⟩
    exact ⟨be32 v, (readFixed_ok at_).2 ⟨tail, rfl, length_be32, next⟩, (ofBe32_be32 fits).symm⟩

theorem readLp_ok (small : AreBytes rest) :
    readLp bytes off what = .ok (xs, off') ↔
      ∃ tail, xs.length ≤ u32Max ∧ rest = writeLp xs ++ tail ∧ At bytes off' (seen ++ writeLp xs) tail := by
  unfold readLp
  rw [bind_ok]
  have payload : ∀ {len off₁ seen₁ tail₁}, At bytes off₁ seen₁ tail₁ →
      ((if bytes.length < off₁ + len then
          .error (.internal s!"{what}: truncated length-prefixed payload (declared {len} bytes from offset {off₁})")
        else .ok (slice off₁ len bytes, off₁ + len) : Result (Bytes × Nat)) = .ok (xs, off') ↔
      ∃ tail, tail₁ = xs ++ tail ∧ xs.length = len ∧ At bytes off' (seen₁ ++ xs) tail) := by
    intro len off₁ seen₁ tail₁ at₁
    have fixed : readFixed bytes off₁ len what = .ok (xs, off') ↔ _ := readFixed_ok at₁
    rw [← fixed]
    unfold readFixed
    split <;> simp
  constructor
  · rintro ⟨⟨len, off₁⟩, first, second⟩
    obtain ⟨tail₁, fits, rfl, at₁⟩ := (readU32_ok at_ small).1 first
    obtain ⟨tail, rfl, rfl, next⟩ := (payload at₁).1 second
    refine ⟨tail, fits, ?_, ?_⟩
    · rw [writeLp, List.append_assoc]
    · rwa [writeLp, ← List.append_assoc]
  · rintro ⟨tail, fits, rfl, next⟩
    rw [writeLp, List.append_assoc] at at_ small
    have at₁ := at_.field
    refine ⟨(xs.length, off + (be32 xs.length).length), (readU32_ok at_ small).2 ⟨_, fits, rfl, at₁⟩, ?_⟩
    refine (payload at₁).2 ⟨tail, rfl, rfl, ?_⟩
    rwa [writeLp, ← List.append_assoc] at next

theorem checkEnd_ok : checkEnd bytes off what = .ok () ↔ rest = [] := by
  obtain ⟨rfl, rfl⟩ := at_
  unfold checkEnd
  cases rest with
  | nil => simp
  | cons x rest => simp

theorem At.areBytes (small : AreBytes bytes) : AreBytes rest :=
  (AreBytes.append.1 (at_.whole ▸ small)).2

end

/-! ## The envelopes are exact -/

/-- What decodes is what was encoded, and only values that fit come back. -/
structure Exact {α : Type} (encode : α → Bytes) (decode : Bytes → Result α) (fits : α → Prop) : Prop where
  round_trip : ∀ v, AreBytes (encode v) → (decode (encode v) = .ok v ↔ fits v)
  reencode : ∀ b v, AreBytes b → decode b = .ok v → encode v = b

theorem Exact.of_iff {α : Type} {encode : α → Bytes} {decode : Bytes → Result α} {fits : α → Prop}
    (accepts : ∀ b v, AreBytes b → (decode b = .ok v ↔ fits v ∧ b = encode v)) : Exact encode decode fits where
  round_trip v small := by
    rw [accepts _ _ small]
    exact and_iff_left rfl
  reencode b v small decoded := ((accepts b v small).1 decoded).2.symm

structure Envelope.Fits (e : Envelope) : Prop where
  headerNonce : e.headerNonce.length = nonceSize
  encHeader : e.encHeader.length ≤ u32Max
  messageNonce : e.messageNonce.length = nonceSize
  ciphertext : e.ciphertext.length ≤ u32Max

theorem decodeEnvelope_ok {e : Envelope} (small : AreBytes bytes) :
    decodeEnvelope magic what bytes = .ok e ↔ e.Fits ∧ bytes = encodeEnvelope magic e := by
  constructor
  · intro decoded
    obtain ⟨off, front, decoded⟩ := bind_ok.1 decoded
    obtain ⟨⟨hn, off₁⟩, read₁, decoded⟩ := bind_ok.1 decoded
    obtain ⟨⟨eh, off₂⟩, read₂, decoded⟩ := bind_ok.1 decoded
    obtain ⟨⟨mn, off₃⟩, read₃, decoded⟩ := bind_ok.1 decoded
    obtain ⟨⟨ct, off₄⟩, read₄, decoded⟩ := bind_ok.1 decoded
    obtain ⟨u, ended, made⟩ := bind_ok.1 decoded
    cases made
    obtain ⟨rest, at_⟩ := checkMagic_ok.1 front
    obtain ⟨tail₁, rfl, size₁, at₁⟩ := (readFixed_ok at_).1 read₁
    obtain ⟨tail₂, le₂, rfl, at₂⟩ := (readLp_ok at₁ (at₁.areBytes small)).1 read₂
    obtain ⟨tail₃, rfl, size₃, at₃⟩ := (readFixed_ok at₂).1 read₃
    obtain ⟨tail₄, le₄, rfl, at₄⟩ := (readLp_ok at₃ (at₃.areBytes small)).1 read₄
    obtain rfl := (checkEnd_ok at₄).1 ended
    refine ⟨⟨size₁, le₂, size₃, le₄⟩, ?_⟩
    rw [at₄.whole, List.append_nil]
    rfl
  · rintro ⟨fits, rfl⟩
    have at_ : At (encodeEnvelope magic e) magic.length magic
        (e.headerNonce ++ (writeLp e.encHeader ++ (e.messageNonce ++ (writeLp e.ciphertext ++ [])))) :=
      ⟨by simp only [encodeEnvelope, List.append_assoc, List.append_nil], rfl⟩
    have at₁ := at_.field
    have at₂ := at₁.field
    have at₃ := at₂.field
    have at₄ := at₃.field
    refine bind_ok.2 ⟨_, checkMagic_ok.2 ⟨_, at_⟩, ?_⟩
    refine bind_ok.2 ⟨(_, _), (readFixed_ok at_).2 ⟨_, rfl, fits.headerNonce, at₁⟩, ?_⟩
    refine bind_ok.2 ⟨(_, _), (readLp_ok at₁ (at₁.areBytes small)).2 ⟨_, fits.encHeader, rfl, at₂⟩, ?_⟩
    refine bind_ok.2 ⟨(_, _), (readFixed_ok at₂).2 ⟨_, rfl, fits.messageNonce, at₃⟩, ?_⟩
    refine bind_ok.2 ⟨(_, _), (readLp_ok at₃ (at₃.areBytes small)).2 ⟨_, fits.ciphertext, rfl, at₄⟩, ?_⟩
    exact bind_ok.2 ⟨(), (checkEnd_ok at₄).2 rfl, rfl⟩

def RatchetFits (m : DoubleRatchet.EncryptedMessage) : Prop :=
  Envelope.Fits ⟨m.headerNonce, m.encHeader, m.messageNonce, m.ciphertext⟩

def SenderKeysFits (m : SenderKeys.EncryptedMessage) : Prop :=
  Envelope.Fits ⟨m.headerNonce, m.encHeader, m.messageNonce, m.ciphertext⟩

theorem decodeRatchetMessage_ok {m : DoubleRatchet.EncryptedMessage} (small : AreBytes bytes) :
    decodeRatchetMessage bytes = .ok m ↔ RatchetFits m ∧ bytes = encodeRatchetMessage m := by
  unfold decodeRatchetMessage RatchetFits encodeRatchetMessage
  rw [← decodeEnvelope_ok small, map_ok]
  constructor
  · rintro ⟨e, decoded, rfl⟩
    exact decoded
  · intro decoded
    exact ⟨_, decoded, rfl⟩

theorem decodeSenderKeysMessage_ok {m : SenderKeys.EncryptedMessage} (small : AreBytes bytes) :
    decodeSenderKeysMessage bytes = .ok m ↔ SenderKeysFits m ∧ bytes = encodeSenderKeysMessage m := by
  unfold decodeSenderKeysMessage SenderKeysFits encodeSenderKeysMessage
  rw [← decodeEnvelope_ok small, map_ok]
  constructor
  · rintro ⟨e, decoded, rfl⟩
    exact decoded
  · intro decoded
    exact ⟨_, decoded, rfl⟩

/-- `None` iff `no_opk = true`. -/
structure InitiatorHandshake.Fits (h : InitiatorHandshake) : Prop where
  ekX25519Pub : h.ekX25519Pub.length = publicKeySize
  mlkemCiphertext : h.mlkemCiphertext.length = ciphertextSize
  opkId : ∀ id ∈ h.opkId, id ≤ u32Max
  consistent : h.noOpk = h.opkId.isNone

theorem readNoOpk_ok {b : Bool} : readNoOpk what xs = .ok b ↔ xs = [if b then 1 else 0] := by
  unfold readNoOpk
  split
  · cases b <;> simp
  · cases b <;> simp
  rename_i not0 not1
  constructor
  · intro h
    cases h
  · rintro rfl
    cases b
    · exact absurd rfl not0
    · exact absurd rfl not1

theorem readOpkId_ok (at_ : At bytes off seen rest) (small : AreBytes rest) {id : Option Nat} :
    readOpkId bytes off what = .ok (id, off') ↔
      ∃ tail, (∀ n ∈ id, n ≤ u32Max) ∧ rest = writeOpkId id ++ tail ∧ At bytes off' (seen ++ writeOpkId id) tail := by
  unfold readOpkId
  simp only [bind_ok, Prod.exists]
  constructor
  · rintro ⟨flag, off₁, read, h⟩
    obtain ⟨tail, rfl, size, at₁⟩ := (readFixed_ok at_).1 read
    have small₁ := (AreBytes.append.1 small).2
    split at h
    case isTrue absent =>
      subst absent
      cases h
      exact ⟨tail, fun n mem => (by cases mem), rfl, at₁⟩
    case isFalse =>
      split at h
      case isFalse => cases h
      rename_i present
      subst present
      obtain ⟨⟨v, off₂⟩, read₂, eq⟩ := bind_ok.1 h
      cases eq
      obtain ⟨tail₂, fits, rfl, at₂⟩ := (readU32_ok at₁ small₁).1 read₂
      refine ⟨tail₂, fun n mem => ?_, rfl, ?_⟩
      · cases mem
        exact fits
      · rwa [List.append_assoc] at at₂
  · rintro ⟨tail, fits, rfl, next⟩
    cases id with
    | none => exact ⟨_, _, (readFixed_ok at_).2 ⟨tail, rfl, rfl, next⟩, if_pos rfl⟩
    | some v =>
      have flagged : At bytes off seen ([handshakeOpkFlagPresent] ++ (be32 v ++ tail)) := at_
      have at₁ := flagged.field
      have next₁ : At bytes off' (seen ++ [handshakeOpkFlagPresent] ++ be32 v) tail := by
        rw [List.append_assoc]
        exact next
      refine ⟨_, _, (readFixed_ok flagged).2 ⟨_, rfl, rfl, at₁⟩, ?_⟩
      rw [if_neg (by decide), if_pos rfl]
      have small₁ : AreBytes (be32 v ++ tail) := (AreBytes.append.1 (show AreBytes ([handshakeOpkFlagPresent] ++ _) from small)).2
      exact bind_ok.2 ⟨_, (readU32_ok at₁ small₁).2 ⟨tail, fits v rfl, rfl, next₁⟩, rfl⟩

theorem decodeInitiatorHandshake_ok {h : InitiatorHandshake} (small : AreBytes bytes) :
    decodeInitiatorHandshake bytes = .ok h ↔ h.Fits ∧ bytes = encodeInitiatorHandshake h := by
  constructor
  · intro decoded
    obtain ⟨off, front, decoded⟩ := bind_ok.1 decoded
    obtain ⟨⟨ek, off₁⟩, read₁, decoded⟩ := bind_ok.1 decoded
    obtain ⟨⟨ct, off₂⟩, read₂, decoded⟩ := bind_ok.1 decoded
    obtain ⟨size, decoded⟩ := guard_ok.1 decoded
    obtain ⟨⟨field, off₃⟩, read₃, decoded⟩ := bind_ok.1 decoded
    obtain ⟨noOpk, flag, decoded⟩ := bind_ok.1 decoded
    obtain ⟨⟨opkId, off₄⟩, read₄, decoded⟩ := bind_ok.1 decoded
    obtain ⟨both, decoded⟩ := guard_ok.1 decoded
    obtain ⟨neither, decoded⟩ := guard_ok.1 decoded
    obtain ⟨u, ended, made⟩ := bind_ok.1 decoded
    cases made
    obtain ⟨rest, at_⟩ := checkMagic_ok.1 front
    obtain ⟨tail₁, rfl, size₁, at₁⟩ := (readFixed_ok at_).1 read₁
    obtain ⟨tail₂, le₂, rfl, at₂⟩ := (readLp_ok at₁ (at₁.areBytes small)).1 read₂
    obtain ⟨tail₃, rfl, size₃, at₃⟩ := (readFixed_ok at₂).1 read₃
    obtain rfl := readNoOpk_ok.1 flag
    obtain ⟨tail₄, le₄, rfl, at₄⟩ := (readOpkId_ok at₃ (at₃.areBytes small)).1 read₄
    obtain rfl := (checkEnd_ok at₄).1 ended
    refine ⟨⟨size₁, not_not.1 size, le₄, ?_⟩, ?_⟩
    · cases noOpk <;> cases opkId <;> simp_all
    · rw [at₄.whole, List.append_nil]
      rfl
  · rintro ⟨fits, rfl⟩
    have at_ : At (encodeInitiatorHandshake h) handshakeMagic.length handshakeMagic
        (h.ekX25519Pub ++ (writeLp h.mlkemCiphertext ++ ([if h.noOpk then 1 else 0] ++ (writeOpkId h.opkId ++ [])))) :=
      ⟨by simp only [encodeInitiatorHandshake, List.append_assoc, List.append_nil], rfl⟩
    have at₁ := at_.field
    have at₂ := at₁.field
    have at₃ := at₂.field
    have at₄ := at₃.field
    have size : h.mlkemCiphertext.length ≤ u32Max := fits.mlkemCiphertext.trans_le (by decide)
    refine bind_ok.2 ⟨_, checkMagic_ok.2 ⟨_, at_⟩, ?_⟩
    refine bind_ok.2 ⟨(_, _), (readFixed_ok at_).2 ⟨_, rfl, fits.ekX25519Pub, at₁⟩, ?_⟩
    refine bind_ok.2 ⟨(_, _), (readLp_ok at₁ (at₁.areBytes small)).2 ⟨_, size, rfl, at₂⟩, ?_⟩
    refine guard_ok.2 ⟨not_not.2 fits.mlkemCiphertext, ?_⟩
    refine bind_ok.2 ⟨(_, _), (readFixed_ok at₂).2 ⟨_, rfl, rfl, at₃⟩, ?_⟩
    refine bind_ok.2 ⟨_, readNoOpk_ok.2 rfl, ?_⟩
    refine bind_ok.2 ⟨(_, _), (readOpkId_ok at₃ (at₃.areBytes small)).2 ⟨_, fits.opkId, rfl, at₄⟩, ?_⟩
    refine guard_ok.2 ⟨?_, guard_ok.2 ⟨?_, ?_⟩⟩
    · rw [fits.consistent]
      cases h.opkId <;> simp
    · rw [fits.consistent]
      cases h.opkId <;> simp
    · exact bind_ok.2 ⟨(), (checkEnd_ok at₄).2 rfl, rfl⟩

/-! ## No input is of two formats -/

def Accepted {α : Type} (decode : Bytes → Result α) (bytes : Bytes) : Prop := ∃ v, decode bytes = .ok v

theorem ratchet_front (accepted : Accepted decodeRatchetMessage bytes) : bytes.take 7 = ratchetMagic := by
  obtain ⟨m, decoded⟩ := accepted
  obtain ⟨e, decoded, -⟩ := map_ok.1 decoded
  obtain ⟨off, front, -⟩ := bind_ok.1 decoded
  obtain ⟨rest, rfl, -⟩ := checkMagic_ok.1 front
  rfl

theorem senderKeys_front (accepted : Accepted decodeSenderKeysMessage bytes) : bytes.take 7 = senderKeysMagic := by
  obtain ⟨m, decoded⟩ := accepted
  obtain ⟨e, decoded, -⟩ := map_ok.1 decoded
  obtain ⟨off, front, -⟩ := bind_ok.1 decoded
  obtain ⟨rest, rfl, -⟩ := checkMagic_ok.1 front
  rfl

theorem handshake_front (accepted : Accepted decodeInitiatorHandshake bytes) : bytes.take 7 = handshakeMagic := by
  obtain ⟨h, decoded⟩ := accepted
  obtain ⟨off, front, -⟩ := bind_ok.1 decoded
  obtain ⟨rest, rfl, -⟩ := checkMagic_ok.1 front
  rfl

/-! ## The three formats -/

theorem areBytes_be32 : AreBytes (be32 n) := by
  have digits : ∀ k v, ∀ b ∈ toLe k v, b < 256 := by
    intro k
    induction k with
    | zero =>
      intro v b mem
      cases mem
    | succ k ih =>
      intro v
      exact List.forall_mem_cons.2 ⟨Nat.mod_lt v (by decide), ih (v / 256)⟩
  intro b mem
  exact digits 4 n b (List.mem_reverse.1 mem)

theorem areBytes_replicate {k b : Nat} (small : b < 256) : AreBytes (List.replicate k b) := by
  intro c mem
  rw [List.eq_of_mem_replicate mem]
  exact small

/-- A handshake that says both that no one-time prekey was used and which one was. -/
def contradictory : InitiatorHandshake := ⟨List.replicate 32 0, List.replicate ciphertextSize 0, true, some 0⟩

theorem contradictory_areBytes : AreBytes (encodeInitiatorHandshake contradictory) := by
  unfold encodeInitiatorHandshake writeLp
  simp only [AreBytes.append]
  refine ⟨⟨⟨⟨?_, areBytes_replicate (by decide)⟩, areBytes_be32, areBytes_replicate (by decide)⟩, ?_⟩,
    AreBytes.cons.2 ⟨by decide, areBytes_be32⟩⟩
  · unfold AreBytes
    decide
  · unfold AreBytes
    decide

theorem contradictory_not_decoded :
    decodeInitiatorHandshake (encodeInitiatorHandshake contradictory) ≠ .ok contradictory := by
  intro decoded
  have consistent := ((decodeInitiatorHandshake_ok contradictory_areBytes).1 decoded).1.consistent
  cases consistent

/-- Each decoder inverts its encoder on the values its fields can hold, re-encoding gives the input back, and the
languages are disjoint. -/
theorem envelopes_exact :
    Exact encodeRatchetMessage decodeRatchetMessage RatchetFits ∧
      Exact encodeSenderKeysMessage decodeSenderKeysMessage SenderKeysFits ∧
      Exact encodeInitiatorHandshake decodeInitiatorHandshake InitiatorHandshake.Fits ∧
      ∀ bytes, ¬(Accepted decodeRatchetMessage bytes ∧ Accepted decodeSenderKeysMessage bytes) ∧
        ¬(Accepted decodeRatchetMessage bytes ∧ Accepted decodeInitiatorHandshake bytes) ∧
        ¬(Accepted decodeSenderKeysMessage bytes ∧ Accepted decodeInitiatorHandshake bytes) := by
  refine ⟨.of_iff fun _ _ => decodeRatchetMessage_ok, .of_iff fun _ _ => decodeSenderKeysMessage_ok,
    .of_iff fun _ _ => decodeInitiatorHandshake_ok, fun bytes => ⟨?_, ?_, ?_⟩⟩
  · rintro ⟨ratchet, group⟩
    exact absurd ((ratchet_front ratchet).symm.trans (senderKeys_front group)) (by decide)
  · rintro ⟨ratchet, handshake⟩
    exact absurd ((ratchet_front ratchet).symm.trans (handshake_front handshake)) (by decide)
  · rintro ⟨group, handshake⟩
    exact absurd ((senderKeys_front group).symm.trans (handshake_front handshake)) (by decide)

def sampleMessage : DoubleRatchet.EncryptedMessage := ⟨List.replicate 24 1, [2, 3], List.replicate 24 4, [5, 6, 7]⟩

theorem envelopes_exact_sample :
    decodeRatchetMessage (encodeRatchetMessage sampleMessage) = .ok sampleMessage ∧
      ¬Accepted decodeSenderKeysMessage (encodeRatchetMessage sampleMessage) := by
  have small : AreBytes (encodeRatchetMessage sampleMessage) := by
    unfold AreBytes
    decide
  have decoded := (envelopes_exact.1.round_trip sampleMessage small).2 ⟨rfl, by decide, rfl, by decide⟩
  exact ⟨decoded, fun group => (envelopes_exact.2.2.2 _).1 ⟨⟨_, decoded⟩, group⟩⟩

end Osl.Crypto.Wire
