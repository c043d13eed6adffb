import Osl.Ratchet.Canonical
import Osl.RnStore.Pins

/-!
# The prekey id of a bootstrap wire (`peek_bootstrap_one_time_prekey_id` of `wire_rn.rs`)

The id is read ahead of the session parser, with a varint reader of its own that asks
for the length of the shortest form where the ratchet's asks for a last group that is
not zero. The two accept the same bytes.
-/

namespace Osl.RnStore

open Base Ratchet

def preambleOpkOffset : Nat := 2 + 32 + 32

/-- The number of groups in the shortest form. -/
def canonicalLen (value : Nat) : Nat :=
  if value < 2 ^ 7 then 1
  else if value < 2 ^ 14 then 2
  else if value < 2 ^ 21 then 3
  else if value < 2 ^ 28 then 4
  else 5

/-- The loop from `group` on; `result` holds the groups before. -/
def readCanonicalGroups (bytes : Bytes) (result group : Nat) : Nat → Except RnError Nat
  | 0 => .error (.protocol "overlong OSL-RN OPK id")
  | left + 1 =>
    match bytes[group]? with
    | none => .error (.protocol "truncated OSL-RN OPK id")
    | some byte =>
      let result := result ||| (byte &&& 0x7f) <<< (group * 7)
      if result > u32Max then .error (.protocol "OSL-RN OPK id overflow")
      else if byte &&& 0x80 = 0 then
        if group + 1 ≠ canonicalLen result then .error (.protocol "non-canonical OSL-RN OPK id") else .ok result
      else readCanonicalGroups bytes result (group + 1) left

def readCanonicalU32Varint (bytes : Bytes) : Except RnError Nat := readCanonicalGroups bytes 0 0 5

def peekBootstrapOneTimePrekeyId (P : Primitives) (wire : Bytes) : Except RnError (Option Nat) :=
  if !wirePrefix.isPrefixOf wire then .error (.protocol "malformed OSL-RN wire prefix")
  else
    match P.base64.decode (wire.drop wirePrefix.length) with
    | .error e => .error (.protocol ("wire base64: " ++ e))
    | .ok raw =>
      if raw.head? ≠ some Ratchet.wireVersionRn then
        .error (.protocol ("wrong OSL-RN wire version " ++ toString (raw.head?.getD 0) ++ ", expected " ++
          toString Ratchet.wireVersionRn))
      else
        match raw[1]? with
        | none => .error (.protocol "malformed OSL-RN wire flags")
        | some flags =>
          if flags &&& rnFlagReservedMask ≠ 0 then .error (.protocol "reserved OSL-RN flag bits set")
          else if flags &&& rnFlagBootstrap = 0 then .ok none
          else if raw.length < preambleOpkOffset then .error (.protocol "truncated OSL-RN bootstrap preamble")
          else (readCanonicalU32Varint (raw.drop preambleOpkOffset)).map some

/-- A last group is the shortest form's unless it is zero and not the first. -/
theorem canonicalLen_iff {result group payload : Nat} (low : result < 2 ^ (group * 7)) (seven : payload < 128)
    (fits : result + payload * 2 ^ (group * 7) ≤ u32Max) (lt : group < 5) :
    group + 1 ≠ canonicalLen (result + payload * 2 ^ (group * 7)) ↔ 0 < group ∧ payload = 0 := by
  unfold u32Max at fits
  unfold canonicalLen
  obtain rfl | rfl | rfl | rfl | rfl : group = 0 ∨ group = 1 ∨ group = 2 ∨ group = 3 ∨ group = 4 := by omega
  all_goals
    repeat' split
    all_goals omega

variable {bytes : Bytes}

/-- The induction is on the groups left. -/
theorem readCanonicalGroups_ok_iff {result group left v : Nat} (low : result < 2 ^ (group * 7))
    (five : group + left = 5) :
    readCanonicalGroups bytes result group left = .ok v ↔
      ∃ rest, Reader.varintGroups result group left (bytes.drop group) = .ok (v, rest) := by
  induction left generalizing result group with
  | zero => exact ⟨nofun, fun ⟨_, read⟩ => nomatch read⟩
  | succ left ih =>
    unfold readCanonicalGroups
    cases get : bytes[group]? with
    | none =>
      rw [List.drop_eq_nil_of_le (List.getElem?_eq_none_iff.1 get)]
      exact ⟨nofun, fun ⟨_, read⟩ => nomatch read⟩
    | some byte =>
      obtain ⟨inside, rfl⟩ := List.getElem?_eq_some_iff.1 get
      rw [List.drop_eq_getElem_cons inside, Reader.varintGroups_cons low]
      dsimp only
      rw [Reader.and_seven_bits, Reader.or_shift low]
      simp only [Reader.and_high_bit]
      split
      · simp
      rename_i fits
      split
      · rw [if_congr (canonicalLen_iff low (Nat.mod_lt _ (by decide)) (Nat.not_lt.1 fits) (by omega)) rfl rfl]
        split <;> simp
      · exact ih (Reader.group_lt low) (by omega)

theorem readCanonicalU32Varint_ok_iff {v : Nat} :
    readCanonicalU32Varint bytes = .ok v ↔ ∃ rest, Reader.varint bytes = .ok (v, rest) :=
  readCanonicalGroups_ok_iff (by decide) rfl

variable {P : Primitives}

theorem peek_of_decode {body keys rest : Bytes} {id : Nat} (size : keys.length = 64) (fits : id ≤ u32Max)
    (opened : P.base64.decode body =
      .ok (Ratchet.wireVersionRn :: rnFlagBootstrap :: (keys ++ (Writer.varint id ++ rest)))) :
    peekBootstrapOneTimePrekeyId P (wirePrefix ++ body) = .ok (some id) := by
  have there : ¬(keys ++ (Writer.varint id ++ rest)).length + 2 < preambleOpkOffset := by
    rw [List.length_append, size]
    unfold preambleOpkOffset
    omega
  have left : (keys ++ (Writer.varint id ++ rest)).drop 64 = Writer.varint id ++ rest := List.drop_left' size
  unfold peekBootstrapOneTimePrekeyId
  rw [if_neg (by simp), List.drop_left, opened]
  refine (if_neg there).trans ?_
  change (readCanonicalU32Varint ((keys ++ (Writer.varint id ++ rest)).drop 64)).map some = _
  rw [left, readCanonicalU32Varint_ok_iff.2 ⟨rest, Reader.varint_writer fits rest⟩]
  rfl

/-- On every wire with a preamble that the session parser accepts, the id is the preamble's;
and the two varint readers read the same numbers from the same bytes. -/
theorem peek_reads_opk_id (P : Primitives) :
    (∀ wire raw parsed preamble, AreBytes raw → decodeWire P wire = .ok raw → ParsedWire.parse raw = .ok parsed →
      parsed.preamble = some preamble → peekBootstrapOneTimePrekeyId P wire = .ok (some preamble.oneTimePrekeyId)) ∧
    ∀ bytes v, AreBytes bytes →
      (readCanonicalU32Varint bytes = .ok v ↔ ∃ rest, Reader.varint bytes = .ok (v, rest)) ∧
      ∀ rest, Reader.varint bytes = .ok (v, rest) →
        bytes = Writer.varint v ++ rest ∧ readCanonicalU32Varint (Writer.varint v) = .ok v := by
  constructor
  · intro wire raw parsed preamble small decoded read carries
    obtain ⟨valid, rfl⟩ := ParsedWire.parse_ok small read
    obtain ⟨-, body, rfl, opened⟩ := decodeWire_body decoded
    have sizes := valid.preamble preamble carries
    rw [ParsedWire.encode, carries] at opened
    simp only [Session.wireHead, Preamble.encode, List.cons_append, List.append_assoc] at opened
    rw [← List.append_assoc preamble.initiatorIdentity] at opened
    refine peek_of_decode ?_ sizes.opk opened
    rw [List.length_append, sizes.identity, sizes.ephemeral]
    rfl
  · refine fun bytes v small => ⟨readCanonicalU32Varint_ok_iff, fun rest read => ?_⟩
    obtain ⟨bound, same⟩ := (Reader.varint_ok_iff small).1 read
    refine ⟨same, readCanonicalU32Varint_ok_iff.2 ⟨[], ?_⟩⟩
    have whole := Reader.varint_writer bound []
    rwa [List.append_nil] at whole

def samplePreamble : Preamble := ⟨List.replicate x25519Pub 1, List.replicate x25519Pub 2, 300, List.replicate mlkemCt 3⟩

/-- The wire of a message without header and body, cut to the tag. -/
def sampleWire : Bytes :=
  Session.wireHead (some samplePreamble) ++ List.replicate headerNonceWire 0 ++ (Writer.varint 0 ++ []) ++ List.replicate aeadTag 0

theorem peek_reads_opk_id_sample :
    peekBootstrapOneTimePrekeyId symbolicPrimitives (wirePrefix ++ symbolicPrimitives.base64.encode sampleWire) = .ok (some 300) := by
  have small : AreBytes sampleWire := by
    unfold AreBytes
    decide +kernel
  have valid : samplePreamble.Valid := ⟨List.length_replicate, List.length_replicate, by decide, List.length_replicate⟩
  have parsed := @parse_message (some samplePreamble) (List.replicate headerNonceWire 0) [] (List.replicate aeadTag 0)
    (by rintro p ⟨⟩; exact valid) (by decide) (by decide) (by decide)
  have decoded := decodeWire_encode symbolicPrimitives_ideal.base64 (show sampleWire.length ≤ maxWireBytes by decide +kernel)
  exact (peek_reads_opk_id symbolicPrimitives).1 _ _ _ _ small decoded parsed rfl

end Osl.RnStore
