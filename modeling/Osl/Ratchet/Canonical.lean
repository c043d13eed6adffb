import Osl.Base.Parser
import Osl.Ratchet.Wire

/-!
# One encoding a value

The decoders accept exactly what the encoders write: varints in their shortest form
(`varint_ok_iff`), flags of 0 and 1, and nothing after the end. So each decoder is
the inverse of its encoder.
-/

namespace Osl.Ratchet

open Base

theorem Writer.areBytes_varint {v : Nat} : AreBytes (varint v) := by
  induction v using varint.induct with
  | case1 v last =>
    rw [varint, if_pos last]
    intro b mem
    cases List.mem_singleton.1 mem
    omega
  | case2 v more ih =>
    rw [varint, if_neg more]
    exact AreBytes.cons.2 ⟨by omega, ih⟩

namespace Reader

variable {buf rest : Bytes} {n v b : Nat} {xs : Bytes}

theorem u8_ok_iff : u8 buf = .ok (b, rest) ↔ buf = b :: rest := by
  cases buf with
  | nil => simp [u8]
  | cons c tail => simp [u8]

theorem take_ok_iff : take n buf = .ok (xs, rest) ↔ buf = xs ++ rest ∧ xs.length = n := by
  constructor
  · intro h
    unfold take at h
    split at h
    case isTrue le =>
      cases h
      exact ⟨(List.take_append_drop n buf).symm, List.length_take_of_le le⟩
    case isFalse => cases h
  · rintro ⟨rfl, size⟩
    exact take_append size rest

theorem array_ok_iff : array n buf = .ok (xs, rest) ↔ buf = xs ++ rest ∧ xs.length = n := take_ok_iff

theorem finish_ok_iff {u : Unit} : finish buf = .ok (u, rest) ↔ buf = [] ∧ rest = [] := by
  cases buf with
  | nil => simp [finish, eq_comm]
  | cons c tail => simp [finish]

/-- The induction is on the groups left. The groups read are those of `w`, which is not 0
unless it is all of the number. -/
theorem varintGroups_ok {result group left : Nat} (low : result < 2 ^ (group * 7))
    (read : varintGroups result group left buf = .ok (v, rest)) :
    v ≤ u32Max ∧ (AreBytes buf →
      ∃ w, buf = Writer.varint w ++ rest ∧ v = result + w * 2 ^ (group * 7) ∧ (0 < group → w ≠ 0)) := by
  induction left generalizing result group buf with
  | zero => cases read
  | succ left ih =>
    cases buf with
    | nil => cases read
    | cons byte tail =>
    rw [varintGroups_cons low] at read
    split at read
    · cases read
    rename_i fits
    split at read
    · rename_i last
      split at read
      · cases read
      rename_i shortest
      cases read
      refine ⟨Nat.not_lt.1 fits, fun small => ?_⟩
      have byte_lt := (AreBytes.cons.1 small).1
      have seven : byte % 128 = byte := by omega
      refine ⟨byte, ?_, by rw [seven], fun more zero => shortest ⟨more, by omega⟩⟩
      rw [Writer.varint, if_pos (by omega), seven]
      rfl
    · obtain ⟨bound, whole⟩ := ih (group_lt low) read
      refine ⟨bound, fun small => ?_⟩
      obtain ⟨byte_lt, small'⟩ := AreBytes.cons.1 small
      obtain ⟨w, rfl, value, more⟩ := whole small'
      have nonzero := more (Nat.succ_pos group)
      refine ⟨byte % 128 + 128 * w, ?_, value.trans (group_add ..), fun _ => by omega⟩
      have digits : (byte % 128 + 128 * w) / 128 = w ∧ (byte % 128 + 128 * w) % 128 + 128 = byte := by omega
      have written : Writer.varint (byte % 128 + 128 * w) = byte :: Writer.varint w := by
        rw [Writer.varint, digits.1, digits.2, if_neg nonzero]
      rw [written]
      rfl

theorem varint_le (read : varint buf = .ok (v, rest)) : v ≤ u32Max := (varintGroups_ok (by decide) read).1

theorem varint_ok_iff (small : AreBytes buf) :
    varint buf = .ok (v, rest) ↔ v ≤ u32Max ∧ buf = Writer.varint v ++ rest := by
  constructor
  · intro read
    obtain ⟨w, same, value, -⟩ := (varintGroups_ok (by decide) read).2 small
    rw [Nat.zero_mul, Nat.pow_zero, Nat.mul_one, Nat.zero_add] at value
    exact ⟨varint_le read, value ▸ same⟩
  · rintro ⟨bound, rfl⟩
    exact varint_writer bound rest

/-- A varint read, and the bytes after it. -/
theorem varint_ok (small : AreBytes buf) (read : varint buf = .ok (v, rest)) :
    v ≤ u32Max ∧ buf = Writer.varint v ++ rest ∧ AreBytes rest := by
  obtain ⟨bound, same⟩ := (varint_ok_iff small).1 read
  rw [same] at small
  exact ⟨bound, same, (AreBytes.append.1 small).2⟩

theorem varBytes_ok_iff (small : AreBytes buf) :
    varBytes buf = .ok (xs, rest) ↔ xs.length ≤ u32Max ∧ buf = Writer.varint xs.length ++ (xs ++ rest) := by
  unfold varBytes
  rw [Parser.bind_ok_iff]
  constructor
  · rintro ⟨len, tail, first, second⟩
    obtain ⟨bound, rfl⟩ := (varint_ok_iff small).1 first
    obtain ⟨rfl, rfl⟩ := take_ok_iff.1 second
    exact ⟨bound, rfl⟩
  · rintro ⟨bound, rfl⟩
    exact ⟨xs.length, xs ++ rest, varint_writer bound _, take_append rfl rest⟩

end Reader

/-! ## Fragments, headers and preambles -/

variable {buf rest wire raw : Bytes} {P : Primitives}

theorem Fragment.decode_ok {f : Fragment} (read : decode buf = .ok (f, rest)) :
    f.Valid ∧ (AreBytes buf → buf = f.bytes ++ rest) := by
  unfold decode at read
  simp only [Parser.bind_ok_iff, Parser.guard_ok_iff, Parser.pure_ok_iff, Reader.u8_ok_iff] at read
  obtain ⟨kind, buf, rfl, known, epoch, buf₁, readEpoch, index, buf₂, readIndex, total, buf₃, readTotal, range, below, data,
    buf₄, readData, payload, rfl, rfl⟩ := read
  obtain ⟨nonempty, fits⟩ := not_or.1 payload
  refine ⟨⟨by tauto, Reader.varint_le readEpoch, Nat.not_le.1 below, Nat.not_lt.1 (not_or.1 range).2,
    fun empty => nonempty (List.isEmpty_iff.2 empty), Nat.not_lt.1 fits⟩, fun small => ?_⟩
  obtain ⟨-, small₁⟩ := AreBytes.cons.1 small
  obtain ⟨-, rfl, small₂⟩ := Reader.varint_ok small₁ readEpoch
  obtain ⟨-, rfl, small₃⟩ := Reader.varint_ok small₂ readIndex
  obtain ⟨-, rfl, small₄⟩ := Reader.varint_ok small₃ readTotal
  obtain ⟨-, rfl⟩ := (Reader.varBytes_ok_iff small₄).1 readData
  simp only [bytes, List.cons_append, List.append_assoc]

namespace RatchetHeader

theorem decodeFragment_ok {fragment : Option Fragment} (read : decodeFragment buf = .ok (fragment, rest)) :
    (∀ f ∈ fragment, f.Valid) ∧ (AreBytes buf → buf = fragmentBytes fragment ++ rest) := by
  unfold decodeFragment at read
  simp only [Parser.bind_ok_iff, Parser.ite_ok_iff, Parser.throw_ok_iff, Parser.pure_ok_iff, Reader.u8_ok_iff, and_false,
    or_false] at read
  obtain ⟨flag, buf, rfl, ⟨rfl, rfl, rfl⟩ | ⟨-, rfl, f, buf', decoded, rfl, rfl⟩⟩ := read
  · exact ⟨fun f none => (by cases none), fun _ => rfl⟩
  · obtain ⟨valid, whole⟩ := Fragment.decode_ok decoded
    refine ⟨fun f' same => ?_, fun small => ?_⟩
    · cases same
      exact valid
    · rw [whole (AreBytes.cons.1 small).2]
      rfl

variable {h : RatchetHeader}

theorem decode_ok {buf : Bytes} (read : decode buf = .ok h) : h.WellFormed ∧ (AreBytes buf → buf = h.bytes) := by
  obtain ⟨end_, read⟩ := Parser.map_fst_ok_iff.1 read
  simp only [Parser.bind_ok_iff, Parser.pure_ok_iff, Reader.u8_ok_iff, Reader.array_ok_iff, Reader.finish_ok_iff] at read
  obtain ⟨msgType, buf, rfl, dhPub, buf, ⟨rfl, size⟩, pn, buf₁, readPn, n, buf₂, readN, pqHave, buf₃, readPqHave, mixEpoch,
    buf₄, readMixEpoch, fragment, buf₅, readFragment, -, -, ⟨rfl, rfl⟩, rfl, rfl⟩ := read
  obtain ⟨valid, whole⟩ := decodeFragment_ok readFragment
  refine ⟨⟨size, Reader.varint_le readPn, Reader.varint_le readN, Reader.varint_le readPqHave, Reader.varint_le readMixEpoch,
    valid⟩, fun small => ?_⟩
  obtain ⟨-, small₁⟩ := AreBytes.cons.1 small
  obtain ⟨-, small₂⟩ := AreBytes.append.1 small₁
  obtain ⟨-, rfl, small₃⟩ := Reader.varint_ok small₂ readPn
  obtain ⟨-, rfl, small₄⟩ := Reader.varint_ok small₃ readN
  obtain ⟨-, rfl, small₅⟩ := Reader.varint_ok small₄ readPqHave
  obtain ⟨-, rfl, small₆⟩ := Reader.varint_ok small₅ readMixEpoch
  obtain rfl := whole small₆
  simp only [bytes, List.append_assoc, List.append_nil]

end RatchetHeader

theorem Preamble.decode_ok {p : Preamble} (small : AreBytes buf) (read : decode buf = .ok (p, rest)) :
    p.Valid ∧ buf = p.encode ++ rest := by
  unfold decode at read
  simp only [Parser.bind_ok_iff, Parser.pure_ok_iff, Reader.array_ok_iff] at read
  obtain ⟨identity, buf, ⟨rfl, size⟩, ephemeral, buf, ⟨rfl, size'⟩, opk, buf₁, readOpk, ciphertext, buf₂, ⟨rfl, size''⟩, rfl,
    rfl⟩ := read
  obtain ⟨-, small₁⟩ := AreBytes.append.1 small
  obtain ⟨-, small₂⟩ := AreBytes.append.1 small₁
  obtain ⟨opk_le, rfl⟩ := (Reader.varint_ok_iff small₂).1 readOpk
  refine ⟨⟨size, size', opk_le, size''⟩, ?_⟩
  simp only [encode, List.append_assoc]

/-! ## Wires -/

namespace ParsedWire

/-- What `parse` accepts: the two regions under the tags are those of the parts. -/
structure Valid (p : ParsedWire) : Prop where
  preamble : ∀ q ∈ p.preamble, q.Valid
  nonce : p.headerNonce.length = headerNonceWire
  headerCt : p.headerCt.length ≤ maxHeaderCtBytes
  bodyCt : aeadTag ≤ p.bodyCt.length
  prefixBytes : p.prefixBytes = Session.wireHead p.preamble
  preBody : p.preBody = p.prefixBytes ++ p.headerNonce ++ (Writer.varint p.headerCt.length ++ p.headerCt)

/-- The wire of the parts, as `encrypt` writes it. -/
def encode (p : ParsedWire) : Bytes :=
  Session.wireHead p.preamble ++ p.headerNonce ++ (Writer.varint p.headerCt.length ++ p.headerCt) ++ p.bodyCt

variable {p : ParsedWire} {raw : Bytes}

theorem Valid.parse_encode (valid : p.Valid) : parse p.encode = .ok p := by
  have parsed := parse_message valid.preamble valid.nonce valid.headerCt valid.bodyCt
  refine parsed.trans ?_
  rw [← valid.prefixBytes, ← valid.preBody]

theorem readPart_of_append {xs rest : Bytes} (same : raw = xs ++ rest) : readPart raw rest = xs := by
  rw [same, readPart_append]

theorem readPreamble_ok {flags : Nat} {preamble : Option Preamble} (flag : flags < 256)
    (known : flags &&& rnFlagReservedMask = 0) (small : AreBytes buf) (read : readPreamble flags buf = .ok (preamble, rest)) :
    (∀ q ∈ preamble, q.Valid) ∧ wireVersionRn :: flags :: buf = Session.wireHead preamble ++ rest := by
  -- With the reserved bits clear the flags are 0 or 1.
  have flags_eq : flags = 0 ∨ flags = rnFlagBootstrap := by
    have every : ∀ f : Fin 256, f.1 &&& rnFlagReservedMask = 0 → f.1 = 0 ∨ f.1 = rnFlagBootstrap := by decide +kernel
    exact every ⟨flags, flag⟩ known
  unfold readPreamble at read
  simp only [Parser.ite_ok_iff, Parser.bind_ok_iff, Parser.pure_ok_iff] at read
  obtain ⟨set, q, buf', decoded, rfl, rfl⟩ | ⟨clear, rfl, rfl⟩ := read
  · obtain rfl : flags = rnFlagBootstrap := flags_eq.resolve_left fun zero => set (by rw [zero]; rfl)
    obtain ⟨valid, rfl⟩ := Preamble.decode_ok small decoded
    refine ⟨fun q' same => ?_, rfl⟩
    cases same
    exact valid
  · obtain rfl : flags = 0 := flags_eq.resolve_right fun one => clear (by rw [one]; decide)
    exact ⟨fun q none => (by cases none), rfl⟩

theorem parse_ok (small : AreBytes raw) (read : parse raw = .ok p) : p.Valid ∧ raw = p.encode := by
  unfold parse at read
  split at read
  case h_1 => cases read
  rename_i version tail
  split at read
  case isTrue => cases read
  rename_i current
  obtain rfl := not_not.1 current
  obtain ⟨end_, read⟩ := Parser.map_fst_ok_iff.1 read
  unfold readRest at read
  simp only [Parser.bind_ok_iff, Parser.guard_ok_iff, Parser.pure_ok_iff, Parser.get_ok_iff, Reader.u8_ok_iff,
    Reader.array_ok_iff, Reader.take_ok_iff, Reader.finish_ok_iff] at read
  obtain ⟨version, buf, same, flags, buf₁, rfl, known, preamble, buf₂, announced, -, -, ⟨rfl, rfl⟩, nonce, buf₃,
    ⟨rfl, size⟩, length, buf₄, readLength, limit, headerCt, buf₅, ⟨rfl, rfl⟩, -, -, ⟨rfl, rfl⟩, -, -, ⟨rfl, rfl⟩, bodyCt, buf₆,
    ⟨rfl, -⟩, tag, -, -, ⟨rfl, rfl⟩, rfl, rfl⟩ := read
  obtain ⟨rfl, rfl⟩ := List.cons.inj same
  obtain ⟨flag, small₁⟩ := AreBytes.cons.1 (AreBytes.cons.1 small).2
  obtain ⟨valid, front⟩ := readPreamble_ok flag (not_not.1 known) small₁ announced
  have small₂ : AreBytes buf₃ := by
    rw [front] at small
    exact (AreBytes.append.1 (AreBytes.append.1 small).2).2
  obtain ⟨-, rfl, -⟩ := Reader.varint_ok small₂ readLength
  have whole : wireVersionRn :: flags :: buf₁ = Session.wireHead preamble ++ nonce ++
      (Writer.varint headerCt.length ++ headerCt) ++ bodyCt := by
    rw [front]
    simp only [List.append_assoc, List.append_nil]
  refine ⟨⟨valid, size, Nat.not_lt.1 limit, Nat.not_lt.1 tag, ?_, ?_⟩, whole⟩
  · exact readPart_of_append front
  · dsimp only
    rw [readPart_of_append front, List.append_nil, readPart_of_append whole]

end ParsedWire

theorem decodeWire_body (read : decodeWire P wire = .ok raw) :
    raw.length ≤ maxWireBytes ∧ ∃ body, wire = wirePrefix ++ body ∧ P.base64.decode body = .ok raw := by
  unfold decodeWire at read
  split at read
  case isTrue => cases read
  rename_i named
  dsimp only at read
  split at read
  case isTrue => cases read
  split at read
  case h_1 => cases read
  rename_i raw' decoded
  split at read
  case isTrue => cases read
  rename_i short
  cases read
  obtain ⟨body, rfl⟩ : wirePrefix <+: wire := List.isPrefixOf_iff_prefix.1 (by simpa using named)
  rw [List.drop_left] at decoded
  exact ⟨Nat.not_lt.1 short, body, rfl, decoded⟩

theorem decodeWire_encode (base64 : P.base64.Ideal) (short : raw.length ≤ maxWireBytes) :
    decodeWire P (wirePrefix ++ P.base64.encode raw) = .ok raw := by
  have length := base64.length raw
  unfold maxWireBytes at short
  unfold decodeWire
  rw [List.drop_left]
  dsimp only
  rw [if_neg (by simp), length, if_neg (by unfold maxWireBytes; omega), base64.decode_encode]
  exact if_neg (by unfold maxWireBytes; omega)

/-- Headers, fragments, preambles, parsed wires and the text around them: what is decoded is
what is encoded again, byte for byte. -/
theorem encodings_canonical (P : Primitives) (base64 : P.base64.Ideal) (strict : P.base64.Strict) :
    Canonical RatchetHeader.encode RatchetHeader.decode RatchetHeader.WellFormed ∧
    CanonicalParser Fragment.encode Fragment.decode Fragment.Valid ∧
    CanonicalParser (fun p => (.ok p.encode : Result Bytes)) Preamble.decode Preamble.Valid ∧
    Canonical (fun p => (.ok p.encode : Result Bytes)) ParsedWire.parse ParsedWire.Valid ∧
    Canonical (fun raw => (.ok (wirePrefix ++ P.base64.encode raw) : Result Bytes)) (decodeWire P)
      (fun raw => raw.length ≤ maxWireBytes) := by
  refine ⟨?_, ?_, ?_, ?_, ?_⟩
  · exact .of_iff (fun h formed => formed.encode_eq) (fun h formed => formed.decode_bytes)
      (fun b h small read => (RatchetHeader.decode_ok read).imp_right (· small))
  · exact .of_iff (fun f valid => Fragment.encode_eq valid.fits) (fun f valid rest => valid.decode_bytes rest)
      (fun b f rest small read => (Fragment.decode_ok read).imp_right (· small))
  · exact .of_iff (fun p _ => rfl) (fun p valid rest => valid.decode_encode rest)
      (fun b p rest small read => Preamble.decode_ok small read)
  · exact .of_iff (fun p _ => rfl) (fun p valid => valid.parse_encode) (fun b p small read => ParsedWire.parse_ok small read)
  · refine .of_iff (fun raw _ => rfl) (fun raw short => decodeWire_encode base64 short) fun wire raw _ read => ?_
    obtain ⟨short, body, rfl, decoded⟩ := decodeWire_body read
    exact ⟨short, by rw [strict body raw decoded]⟩

def strictPrimitives : Primitives := { symbolicPrimitives with base64 := symbolicCodec.checked }

theorem encodings_canonical_sample :
    RatchetHeader.decode (2 :: List.replicate 32 7 ++ [0x81, 0x01, 5, 0, 0, 0]) =
      .ok ⟨2, List.replicate 32 7, 129, 5, 0, 0, none⟩ ∧
    RatchetHeader.encode ⟨2, List.replicate 32 7, 129, 5, 0, 0, none⟩ = .ok (2 :: List.replicate 32 7 ++ [0x81, 0x01, 5, 0, 0, 0]) := by
  have decoded : RatchetHeader.decode (2 :: List.replicate 32 7 ++ [0x81, 0x01, 5, 0, 0, 0]) =
      .ok ⟨2, List.replicate 32 7, 129, 5, 0, 0, none⟩ := by decide +kernel
  have canonical := encodings_canonical strictPrimitives symbolicCodec_ideal.checked (Codec.checked_strict)
  exact ⟨decoded, (canonical.1.reencode _ _ (by unfold AreBytes; decide) decoded).2⟩

end Osl.Ratchet
