import Osl.Ratchet.Session

/-!
# What a wire says

Headers and preambles read back as written, and the parser finds in the bytes of
a message the regions the sender sealed (`parse_message`).
-/

namespace Osl.Ratchet

open Base ParsedWire

variable {P : Primitives} {p : Preamble} {bootstrap : Option Preamble}

/-! ## Headers and preambles -/

structure Fragment.Valid (f : Fragment) : Prop where
  kind : f.kind = fragKindEk ∨ f.kind = fragKindCt
  epoch : f.epoch ≤ u32Max
  index : f.index < f.total
  total : f.total ≤ maxFragments
  nonempty : f.data ≠ []
  data : f.data.length ≤ maxFragmentBytes

structure RatchetHeader.Valid (h : RatchetHeader) : Prop where
  dhPub : h.dhPub.length = x25519Pub
  pn : h.pn ≤ u32Max
  n : h.n < u32Max
  pqHave : h.pqHave ≤ u32Max
  mixEpoch : h.mixEpoch ≤ u32Max
  fragment : ∀ f ∈ h.fragment, f.Valid

/-- What `decode` accepts; every `u32` is a counter here. -/
structure RatchetHeader.WellFormed (h : RatchetHeader) : Prop where
  dhPub : h.dhPub.length = x25519Pub
  pn : h.pn ≤ u32Max
  n : h.n ≤ u32Max
  pqHave : h.pqHave ≤ u32Max
  mixEpoch : h.mixEpoch ≤ u32Max
  fragment : ∀ f ∈ h.fragment, f.Valid

structure Preamble.Valid (p : Preamble) : Prop where
  identity : p.initiatorIdentity.length = x25519Pub
  ephemeral : p.initiatorEphemeral.length = x25519Pub
  opk : p.oneTimePrekeyId ≤ u32Max
  ciphertext : p.kemCiphertext.length = mlkemCt

namespace Fragment

/-- The bytes of a fragment whose data fits its length field. -/
def bytes (f : Fragment) : Bytes :=
  f.kind :: (Writer.varint f.epoch ++ Writer.varint f.index ++ Writer.varint f.total ++
    (Writer.varint f.data.length ++ f.data))

variable {f : Fragment}

theorem encode_eq (fits : f.data.length ≤ u32Max) : f.encode = .ok f.bytes := by
  simp only [Fragment.encode, Writer.varBytes, if_neg (Nat.not_lt_of_le fits), bind, Except.bind, bytes]

theorem Valid.fits (valid : f.Valid) : f.data.length ≤ u32Max := valid.data.trans (by decide)

theorem Valid.decode_bytes (valid : f.Valid) (rest : Bytes) : Fragment.decode (f.bytes ++ rest) = .ok (f, rest) := by
  have fits := valid.fits
  obtain ⟨kind, epoch, index, total, nonempty, data⟩ := valid
  have small : ∀ n, n ≤ maxFragments → n ≤ u32Max := fun n h => le_trans h (by decide)
  have known : ¬ (f.kind ≠ fragKindEk ∧ f.kind ≠ fragKindCt) := by tauto
  have range : ¬ (f.total = 0 ∨ f.total > maxFragments) := by omega
  have some : ¬ (f.data.isEmpty = true ∨ f.data.length > maxFragmentBytes) := by
    simp only [List.isEmpty_iff]
    rintro (empty | long)
    · exact nonempty empty
    · omega
  have payload := Reader.varBytes_writer fits rest
  simp only [List.append_assoc] at payload
  unfold Fragment.decode bytes
  simp only [List.cons_append, List.append_assoc, bind, StateT.bind, Reader.u8_cons, Except.bind,
    if_neg known, Reader.pure_ok, Reader.varint_writer epoch,
    Reader.varint_writer (small _ (by omega : f.index ≤ maxFragments)), Reader.varint_writer (small _ total),
    if_neg range, if_neg (by omega : ¬ f.index ≥ f.total), payload, if_neg some]

theorem Valid.length_le (valid : f.Valid) : f.bytes.length ≤ 533 := by
  obtain ⟨-, epoch, index, total, -, data⟩ := valid
  have small : maxFragments ≤ u32Max := by decide
  have e := Writer.length_varint epoch
  have i := Writer.length_varint (by omega : f.index ≤ u32Max)
  have t := Writer.length_varint (total.trans small)
  have d := Writer.length_varint (data.trans (by decide : maxFragmentBytes ≤ u32Max))
  simp only [maxFragmentBytes] at data
  simp only [bytes, List.length_cons, List.length_append]
  omega

end Fragment

namespace RatchetHeader

def fragmentBytes : Option Fragment → Bytes
  | some f => 1 :: f.bytes
  | none => [0]

def bytes (h : RatchetHeader) : Bytes :=
  h.msgType :: (h.dhPub ++ Writer.varint h.pn ++ Writer.varint h.n ++ Writer.varint h.pqHave ++
    Writer.varint h.mixEpoch ++ fragmentBytes h.fragment)

variable {h : RatchetHeader}

theorem encode_eq (fits : ∀ f ∈ h.fragment, f.data.length ≤ u32Max) : h.encode = .ok h.bytes := by
  unfold encode bytes
  cases frag : h.fragment with
  | none => rfl
  | some f =>
    have inner := Fragment.encode_eq (fits f frag)
    simp only [inner]
    rfl

theorem WellFormed.encode_eq (formed : h.WellFormed) : h.encode = .ok h.bytes :=
  RatchetHeader.encode_eq fun f frag => (formed.fragment f frag).fits

theorem Valid.wellFormed (valid : h.Valid) : h.WellFormed := { valid with n := valid.n.le }

/-- Only a header longer than any `u32` has no encoding. -/
theorem encode_cases (h : RatchetHeader) : h.encode = .ok h.bytes ∨ u32Max < h.bytes.length ∧ ∃ e, h.encode = .error e := by
  by_cases fits : ∀ f ∈ h.fragment, f.data.length ≤ u32Max
  · exact .inl (encode_eq fits)
  · simp only [not_forall, Nat.not_le] at fits
    obtain ⟨f, frag, long⟩ := fits
    rw [Option.mem_def] at frag
    refine .inr ⟨?_, .policyBound "var_bytes too long", ?_⟩
    · simp only [bytes, frag, fragmentBytes, Fragment.bytes, List.length_cons, List.length_append]
      omega
    · simp only [encode, frag, Fragment.encode, Writer.varBytes, if_pos long]
      rfl

theorem Valid.length_le (valid : h.Valid) : h.bytes.length ≤ 592 := by
  have pn := Writer.length_varint valid.pn
  have n := Writer.length_varint valid.n.le
  have pqHave := Writer.length_varint valid.pqHave
  have mixEpoch := Writer.length_varint valid.mixEpoch
  have fragment : (fragmentBytes h.fragment).length ≤ 534 := by
    cases frag : h.fragment with
    | none => simp [fragmentBytes]
    | some f =>
      have length := (valid.fragment f frag).length_le
      rw [fragmentBytes, List.length_cons]
      omega
  simp only [bytes, List.length_cons, List.length_append, valid.dhPub, x25519Pub]
  omega

theorem decodeFragment_bytes {fragment : Option Fragment} (valid : ∀ f ∈ fragment, f.Valid) (rest : Bytes) :
    decodeFragment (fragmentBytes fragment ++ rest) = .ok (fragment, rest) := by
  cases fragment with
  | none => rfl
  | some f =>
    have read := (valid f rfl).decode_bytes rest
    simp only [decodeFragment, fragmentBytes, List.cons_append, bind, StateT.bind, Reader.u8_cons,
      Except.bind]
    rw [if_neg (by decide), if_pos trivial]
    exact Reader.bind_ok _ read

theorem WellFormed.decode_bytes (formed : h.WellFormed) : decode h.bytes = .ok h := by
  have frag := decodeFragment_bytes formed.fragment []
  rw [List.append_nil] at frag
  unfold decode bytes
  simp only [List.append_assoc, bind, StateT.bind, Reader.u8_cons, Except.bind, Reader.array_append formed.dhPub,
    Reader.varint_writer formed.pn, Reader.varint_writer formed.n, Reader.varint_writer formed.pqHave,
    Reader.varint_writer formed.mixEpoch, frag, Reader.finish_nil, Reader.pure_ok]
  rfl

end RatchetHeader

theorem Preamble.Valid.decode_encode (valid : p.Valid) (rest : Bytes) :
    Preamble.decode (p.encode ++ rest) = .ok (p, rest) := by
  unfold Preamble.decode Preamble.encode
  simp only [List.append_assoc, bind, StateT.bind, Except.bind, Reader.array_append valid.identity,
    Reader.array_append valid.ephemeral, Reader.varint_writer valid.opk,
    Reader.array_append valid.ciphertext, Reader.pure_ok]

/-! ## Messages -/

theorem Preamble.Valid.length_le (valid : p.Valid) : p.encode.length ≤ 1157 := by
  have opk := Writer.length_varint valid.opk
  simp only [Preamble.encode, List.length_append, valid.identity, valid.ephemeral, valid.ciphertext, x25519Pub, mlkemCt]
  omega

@[simp] theorem readPart_append {xs rest : Bytes} : readPart (xs ++ rest) rest = xs := by
  simp [readPart]

theorem readRest_message {nonce headerCt bodyCt : Bytes} (head : Bytes) (preamble : Option Preamble)
    (size : nonce.length = headerNonceWire) (small : headerCt.length ≤ maxHeaderCtBytes)
    (tag : aeadTag ≤ bodyCt.length) :
    let preBody := head ++ nonce ++ (Writer.varint headerCt.length ++ headerCt)
    readRest (preBody ++ bodyCt) preamble
        (nonce ++ (Writer.varint headerCt.length ++ (headerCt ++ bodyCt))) =
      .ok (⟨head, preamble, nonce, headerCt, preBody, bodyCt⟩, []) := by
  intro preBody
  have len : headerCt.length ≤ u32Max := le_trans small (by decide)
  have front : readPart (preBody ++ bodyCt)
      (nonce ++ (Writer.varint headerCt.length ++ (headerCt ++ bodyCt))) = head := by
    rw [show preBody ++ bodyCt = head ++ (nonce ++ (Writer.varint headerCt.length ++ (headerCt ++ bodyCt))) by
      simp [preBody]]
    exact readPart_append
  have all := Reader.take_append (rfl : bodyCt.length = bodyCt.length) []
  rw [List.append_nil] at all
  simp only [readRest, bind, StateT.bind, Except.bind, Reader.get_ok, Reader.pure_ok, front,
    Reader.array_append size, Reader.varint_writer len,
    if_neg (by omega : ¬ headerCt.length > maxHeaderCtBytes), Reader.take_append rfl,
    readPart_append, all, if_neg (by omega : ¬ bodyCt.length < aeadTag), Reader.finish_nil]

/-- The flags byte of a wire with or without a preamble, and what it announces. -/
theorem readPreamble_head (boot : ∀ p ∈ bootstrap, p.Valid) (rest : Bytes) :
    ∃ flags tail, Session.wireHead bootstrap ++ rest = wireVersionRn :: flags :: tail ∧
      flags &&& rnFlagReservedMask = 0 ∧ readPreamble flags tail = .ok (bootstrap, rest) := by
  cases bootstrap with
  | none => exact ⟨0, rest, rfl, by decide, rfl⟩
  | some preamble =>
    refine ⟨rnFlagBootstrap, preamble.encode ++ rest, rfl, by decide, ?_⟩
    unfold readPreamble
    rw [if_pos (by decide)]
    exact Reader.bind_ok _ ((boot preamble rfl).decode_encode rest)

theorem parse_message {nonce headerCt bodyCt : Bytes}
    (boot : ∀ p ∈ bootstrap, p.Valid) (size : nonce.length = headerNonceWire)
    (small : headerCt.length ≤ maxHeaderCtBytes) (tag : aeadTag ≤ bodyCt.length) :
    let head := Session.wireHead bootstrap
    let preBody := head ++ nonce ++ (Writer.varint headerCt.length ++ headerCt)
    parse (preBody ++ bodyCt) = .ok ⟨head, bootstrap, nonce, headerCt, preBody, bodyCt⟩ := by
  intro head preBody
  have rest := readRest_message head bootstrap size small tag
  obtain ⟨flags, tail, front, unreserved, announced⟩ :=
    readPreamble_head boot (nonce ++ (Writer.varint headerCt.length ++ (headerCt ++ bodyCt)))
  have raw : preBody ++ bodyCt = wireVersionRn :: flags :: tail := by
    rw [← front]
    simp [preBody, head]
  change readRest (preBody ++ bodyCt) _ _ = _ at rest
  rw [raw] at rest ⊢
  simp only [parse, ne_eq, not_true_eq_false, if_false]
  rw [Reader.u8_bind, Reader.u8_bind, if_neg (not_not.2 unreserved),
    Reader.bind_ok _ announced, rest]
  rfl

end Osl.Ratchet
