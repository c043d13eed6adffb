import Osl.Ratchet.PqSteps

/-!
# One message, sealed and opened

A `Sealing` is all a wire is made of. Its wire parses back to its regions, only its
own header key opens its header and only its own message key opens its body, so
what `encrypt` can do (`encrypt_effect`) and when `openParsed` succeeds
(`openParsed_ok`, `openParsed_of_advance`) is said without ciphertexts.
-/

namespace Osl.Ratchet

open Base

structure Sealing where
  headerKey : Bytes
  messageKey : Bytes
  bootstrap : Option Preamble
  nonce : Bytes
  header : RatchetHeader
  plaintext : Bytes

namespace Sealing

section
variable (P : Primitives) (x : Sealing)

def head : Bytes := Session.wireHead x.bootstrap

def headerCt : Bytes := P.aead.encrypt x.headerKey (headerNonce x.nonce) (adHeader ++ x.head) x.header.bytes

def preBody : Bytes := x.head ++ x.nonce ++ (Writer.varint (x.headerCt P).length ++ x.headerCt P)

def bodyCt : Bytes :=
  P.aead.encrypt x.messageKey (bodyNonce P x.messageKey) (adBody ++ x.preBody P) x.plaintext

def raw : Bytes := x.preBody P ++ x.bodyCt P

def wire : Bytes := wirePrefix ++ P.base64.encode (x.raw P)

def parsed : ParsedWire := ⟨x.head, x.bootstrap, x.nonce, x.headerCt P, x.preBody P, x.bodyCt P⟩

structure Valid : Prop where
  bootstrap : ∀ p ∈ x.bootstrap, p.Valid
  nonce : x.nonce.length = headerNonceWire
  header : x.header.Valid
  headerCt : (x.headerCt P).length ≤ maxHeaderCtBytes
  raw : (x.raw P).length ≤ maxWireBytes

end

variable {P : Primitives} {x y : Sealing}

/-! ## The wire -/

/-- The longest header, with its tag, is well within the limit. -/
theorem headerCt_le (ideal : P.Ideal) (valid : x.header.Valid) : (x.headerCt P).length ≤ maxHeaderCtBytes := by
  have := valid.length_le
  rw [headerCt, ideal.aead.length]
  unfold maxHeaderCtBytes aeadTag
  omega

theorem raw_le (ideal : P.Ideal) (boot : ∀ p ∈ x.bootstrap, p.Valid) (nonce : x.nonce.length = headerNonceWire)
    (valid : x.header.Valid) : (x.raw P).length ≤ x.plaintext.length + 2048 + 192 := by
  have head : x.head.length ≤ 1159 := by
    unfold Sealing.head Session.wireHead
    split
    · rename_i p some
      have := (boot p some).length_le
      rw [List.length_cons, List.length_cons]
      omega
    · decide
  have ct := headerCt_le ideal valid
  have framing := Writer.length_varint (ct.trans (by decide : maxHeaderCtBytes ≤ u32Max))
  unfold maxHeaderCtBytes at ct
  simp only [raw, preBody, bodyCt, List.length_append, ideal.aead.length, nonce, headerNonceWire, aeadTag]
  omega

section

variable (ideal : P.Ideal) (valid : x.Valid P)
include ideal valid

theorem Valid.decodeWire : decodeWire P (x.wire P) = .ok (x.raw P) := by
  have front : (!wirePrefix.isPrefixOf (x.wire P)) = false := by simp [wire]
  have body : (x.wire P).drop wirePrefix.length = P.base64.encode (x.raw P) := by simp [wire]
  have raw := valid.raw
  have length := ideal.base64.length (x.raw P)
  have room : ¬ (P.base64.encode (x.raw P)).length > maxWireBytes * 2 := by
    unfold maxWireBytes at *
    omega
  unfold Ratchet.decodeWire
  simp only [front, body, ideal.base64.decode_encode, if_neg room, if_neg (by omega : ¬ (x.raw P).length > maxWireBytes),
    Bool.false_eq_true, if_false]

theorem Valid.parse : ParsedWire.parse (x.raw P) = .ok (x.parsed P) := by
  refine parse_message valid.bootstrap valid.nonce valid.headerCt ?_
  rw [bodyCt, ideal.aead.length]
  omega

theorem Valid.parsed_inj (valid' : y.Valid P) (same : x.wire P = y.wire P) : x.parsed P = y.parsed P := by
  have raw : x.raw P = y.raw P := by
    have decoded := valid.decodeWire ideal
    rw [same, valid'.decodeWire ideal] at decoded
    exact (Except.ok.inj decoded).symm
  have parsed := valid.parse ideal
  rw [raw, valid'.parse ideal] at parsed
  exact (Except.ok.inj parsed).symm

theorem headerCt_inj (valid' : y.Valid P) (same : x.headerCt P = y.headerCt P) :
    x.headerKey = y.headerKey ∧ x.header = y.header := by
  obtain ⟨key, -, -, bytes⟩ := ideal.aead.inj same
  have header := valid.header.wellFormed.decode_bytes
  rw [bytes, valid'.header.wellFormed.decode_bytes] at header
  exact ⟨key, (Except.ok.inj header).symm⟩

/-- A wire has one message in it. -/
theorem Valid.wire_inj (valid' : y.Valid P) (same : x.wire P = y.wire P) :
    x.header = y.header ∧ x.messageKey = y.messageKey ∧ x.plaintext = y.plaintext := by
  have parsed := valid.parsed_inj ideal valid' same
  have body : x.bodyCt P = y.bodyCt P := congrArg ParsedWire.bodyCt parsed
  obtain ⟨key, -, -, text⟩ := ideal.aead.inj body
  exact ⟨(headerCt_inj ideal valid valid' (congrArg ParsedWire.headerCt parsed)).2, key, text⟩

/-! ## Opening -/

theorem openHeader_eq (keys : List (Opener × Bytes)) :
    Session.openHeader P (headerNonce x.nonce) (adHeader ++ x.head) (x.headerCt P) keys =
      match keys.find? (·.2 = x.headerKey) with
      | some (which, _) => .ok (which, x.header)
      | none => .error .authFailed := by
  induction keys with
  | nil => rfl
  | cons key keys ih =>
    obtain ⟨which, hk⟩ := key
    unfold Session.openHeader
    by_cases own : hk = x.headerKey
    · subst own
      rw [headerCt, aeadOpen_encrypt ideal]
      simp only [valid.header.wellFormed.decode_bytes, List.find?_cons, decide_true]
      rfl
    · rw [headerCt, aeadOpen_other_key ideal own]
      simpa [List.find?_cons, own, headerCt] using ih

end

end Sealing

namespace Session

variable {P : Primitives} {s s' t : Session} {x : Sealing} {rng : Rng} {args : List RootArgs}

/-- What is left to do once the message key has opened the body. -/
def commit (s : Session) : Session := { s with skipped := s.skipped.advanceTick, bootstrap := none }

theorem openParsed_ok (ideal : P.Ideal) (valid : x.Valid P) {opened : Opened}
    (h : s.openParsed P (x.parsed P) rng = .ok (s', opened, args)) :
    ∃ which t, s.candidates.find? (·.2 = x.headerKey) = some (which, x.headerKey) ∧
      s.advanceFor P which x.header rng = .ok (t, x.messageKey, args) ∧ s' = t.commit ∧
      opened = ⟨x.header.msgType, x.plaintext⟩ := by
  unfold openParsed Sealing.parsed at h
  simp only [Sealing.openHeader_eq ideal valid] at h
  split at h
  swap
  · cases h
  rename_i which hk found
  obtain rfl : hk = x.headerKey := by simpa using List.find?_some found
  simp only [bind, Except.bind] at h
  split at h
  · cases h
  rename_i r advanced
  obtain ⟨t, key, args'⟩ := r
  split at h
  · cases h
  rename_i text body
  cases h
  obtain ⟨rfl, -, -, rfl⟩ := ideal.aead.inj ((aeadOpen_eq_ok_iff ideal).1 body)
  exact ⟨which, t, found, advanced, rfl, rfl⟩

theorem openParsed_of_advance (ideal : P.Ideal) (valid : x.Valid P) {which : Opener} {hk : Bytes}
    (found : s.candidates.find? (·.2 = x.headerKey) = some (which, hk))
    (advanced : s.advanceFor P which x.header rng = .ok (t, x.messageKey, args)) :
    s.openParsed P (x.parsed P) rng = .ok (t.commit, ⟨x.header.msgType, x.plaintext⟩, args) := by
  have body : aeadOpen P x.messageKey (bodyNonce P x.messageKey) (adBody ++ x.preBody P) (x.bodyCt P) =
      .ok x.plaintext := aeadOpen_encrypt ideal ..
  unfold openParsed Sealing.parsed
  simp only [Sealing.openHeader_eq ideal valid, found, bind, Except.bind, advanced, body]
  rfl

/-! ## Encrypting -/

/-- All a session writes into a header fits its field. -/
structure Bounded (s : Session) : Prop where
  dhsPub : s.dhsPub.length = x25519Pub
  ns : s.ns ≤ u32Max
  pn : s.pn ≤ u32Max
  mix : s.sendMixEpoch ≤ u32Max
  pq : s.pq.Bounded
  bootstrap : ∀ p ∈ s.bootstrap, p.Valid

/-- What the next message is sealed from. -/
def nextSealing (P : Primitives) (s : Session) (hk ck : Bytes) (msgType : Nat) (plaintext : Bytes) (rng : Rng) :
    Sealing :=
  ⟨hk, (chainStep P ck).1, s.bootstrap, rng.nonce, (s.nextHeader P msgType rng).2, plaintext⟩

inductive EncryptEffect (P : Primitives) (s : Session) (msgType : Nat) (plaintext : Bytes) (rng : Rng) :
    Session → Result Bytes → Prop where
  | refused (e : Error) (why : s.cks = none ∨ s.hks = none ∨ s.ns = u32Max) :
    EncryptEffect P s msgType plaintext rng s (.error e)
  | sealed {ck hk : Bytes} {r : Result Bytes} (chain : s.cks = some ck) (key : s.hks = some hk)
    (left : s.ns < u32Max)
    (out : (maxWireBytes < ((s.nextSealing P hk ck msgType plaintext rng).raw P).length ∧ ∃ e, r = .error e) ∨
      (s.nextSealing P hk ck msgType plaintext rng).Valid P ∧
        r = .ok ((s.nextSealing P hk ck msgType plaintext rng).wire P)) :
    EncryptEffect P s msgType plaintext rng
      { s with pq := (s.nextHeader P msgType rng).1, cks := some (chainStep P ck).2, ns := s.ns + 1 } r

theorem nextHeader_valid (ideal : P.Ideal) (b : s.Bounded) (left : s.ns < u32Max) {msgType : Nat} :
    (s.nextHeader P msgType rng).1.Bounded ∧ (s.nextHeader P msgType rng).2.Valid := by
  obtain ⟨pq, valid⟩ := (PqRatchet.onSend_effect (P := P) b.pq.have_le rng).bounded ideal b.pq
  exact ⟨pq, b.dhsPub, b.pn, left, pq.have_le, b.mix, valid⟩

/-- The same of any session: a header over its limit is found out once the epoch ratchet
has moved on, a message over the budget only after the sending chain has as well. -/
inductive Attempt (P : Primitives) (s : Session) (msgType : Nat) (plaintext : Bytes) (rng : Rng) :
    Session × Result Bytes → Prop where
  | refused (e : Error) (why : s.cks = none ∨ s.hks = none ∨ s.ns = u32Max) :
    Attempt P s msgType plaintext rng (s, .error e)
  | oversized {ck hk : Bytes} (e : Error) (chain : s.cks = some ck) (key : s.hks = some hk) (left : s.ns ≠ u32Max)
    (long : u32Max < (s.nextHeader P msgType rng).2.bytes.length ∨
      maxHeaderCtBytes < ((s.nextSealing P hk ck msgType plaintext rng).headerCt P).length) :
    Attempt P s msgType plaintext rng ({ s with pq := (s.nextHeader P msgType rng).1 }, .error e)
  | sealed {ck hk : Bytes} (chain : s.cks = some ck) (key : s.hks = some hk) (left : s.ns ≠ u32Max)
    (fits : ((s.nextSealing P hk ck msgType plaintext rng).headerCt P).length ≤ maxHeaderCtBytes) :
    Attempt P s msgType plaintext rng
      ({ s with pq := (s.nextHeader P msgType rng).1, cks := some (chainStep P ck).2, ns := satAdd 32 s.ns 1 },
        if ((s.nextSealing P hk ck msgType plaintext rng).raw P).length > maxWireBytes then
          .error (.policyBound "message exceeds wire budget")
        else .ok ((s.nextSealing P hk ck msgType plaintext rng).wire P))

theorem encrypt_attempt (s : Session) (msgType : Nat) (plaintext : Bytes) (rng : Rng) :
    Attempt P s msgType plaintext rng (s.encrypt P msgType plaintext rng) := by
  unfold encrypt
  split
  · exact .refused _ (.inl ‹_›)
  rename_i ck chain
  split
  · exact .refused _ (.inr (.inl ‹_›))
  rename_i hk key
  split
  · exact .refused _ (.inr (.inr ‹_›))
  rename_i left
  rcases (s.nextHeader P msgType rng).2.encode_cases with written | ⟨long, e, written⟩
  · simp only [written]
    split
    · rename_i long
      exact .oversized _ chain key left (.inr long)
    · rename_i short
      have limit : maxHeaderCtBytes ≤ u32Max := by decide
      have framed : Writer.varBytes _ = _ := if_neg (fun long => short (limit.trans_lt long))
      simp only [framed]
      rw [← apply_ite (Prod.mk _)]
      exact .sealed chain key left (Nat.le_of_not_lt short)
  · simp only [written]
    exact .oversized e chain key left (.inl long)

theorem encrypt_effect (ideal : P.Ideal) (b : s.Bounded) (msgType : Nat) (plaintext : Bytes) (rng : Rng) :
    EncryptEffect P s msgType plaintext rng (s.encrypt P msgType plaintext rng).1
      (s.encrypt P msgType plaintext rng).2 := by
  have valid (left : s.ns ≠ u32Max) : (s.nextHeader P msgType rng).2.Valid :=
    (nextHeader_valid ideal b (Nat.lt_of_le_of_ne b.ns left)).2
  have attempt := encrypt_attempt (P := P) s msgType plaintext rng
  generalize s.encrypt P msgType plaintext rng = out at attempt ⊢
  cases attempt with
  | refused e why => exact .refused e why
  | @oversized ck hk e chain key left long =>
    have short := Sealing.headerCt_le (x := s.nextSealing P hk ck msgType plaintext rng) ideal (valid left)
    exact absurd (valid left).length_le (by unfold u32Max at long; omega)
  | sealed chain key last fits =>
    have left : s.ns < u32Max := Nat.lt_of_le_of_ne b.ns last
    rw [u32_succ left]
    refine .sealed chain key left ?_
    split
    · rename_i long
      exact .inl ⟨long, _, rfl⟩
    · rename_i fits
      exact .inr ⟨⟨b.bootstrap, rng.nonce_length, valid last, Sealing.headerCt_le ideal (valid last),
        Nat.le_of_not_lt fits⟩, rfl⟩

/-- A session with a sending chain encrypts whatever leaves room for the header. -/
theorem encrypt_ok (ideal : P.Ideal) (b : s.Bounded) {ck hk : Bytes} (chain : s.cks = some ck) (key : s.hks = some hk)
    (left : s.ns < u32Max) (msgType : Nat) {plaintext : Bytes} (short : plaintext.length ≤ 60 * 1024) (rng : Rng) :
    (s.encrypt P msgType plaintext rng).2 = .ok ((s.nextSealing P hk ck msgType plaintext rng).wire P) := by
  have effect := encrypt_effect ideal b msgType plaintext rng
  generalize (s.encrypt P msgType plaintext rng).1 = s' at effect
  generalize (s.encrypt P msgType plaintext rng).2 = r at effect ⊢
  cases effect with
  | refused e why =>
    rw [chain, key] at why
    simp only [reduceCtorEq, false_or] at why
    omega
  | sealed chain' key' _ out =>
    cases chain.symm.trans chain'
    cases key.symm.trans key'
    rcases out with ⟨long, -⟩ | ⟨-, eq⟩
    · have fits := Sealing.raw_le (x := s.nextSealing P hk ck msgType plaintext rng) ideal b.bootstrap rng.nonce_length
        (nextHeader_valid ideal b left).2
      have same : (s.nextSealing P hk ck msgType plaintext rng).plaintext = plaintext := rfl
      unfold maxWireBytes at long
      rw [same] at fits
      omega
    · exact eq

end Session

end Osl.Ratchet
