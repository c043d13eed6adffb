import Osl.Ratchet.StoreState
import Osl.Ratchet.PqSteps

/-!
# The exported session (`crates/osl-ratchet-next/src/session.rs`, `pq.rs`)

`Session::export_state` and `Session::import_state` with the parts for the epoch
ratchet. `Storable` says what a session must be for the fields of the format to hold
it; such a session comes back as it was (`Session.Storable.import_export`).
-/

namespace Osl.Ratchet

open Base Std

def mlkemDk : Nat := 2400

def stateFormatVersion : Nat := 1

/-- `as u32`. -/
def asU32 (v : Nat) : Nat := v % 2 ^ 32

/-! ## Optional parts -/

def writeOpt {α : Type} (write : α → Bytes) : Option α → Bytes
  | some a => 1 :: write a
  | none => [0]

/-- Flags other than 0 and 1 are refused. -/
def readOpt {α : Type} (read : Reader α) : Reader (Option α) := do
  let flag ← Reader.u8
  if flag = 0 then return none
  else if flag = 1 then
    let a ← read
    return some a
  else throw .badStateFormat

/-- `if r.u8()? == 1`: any other flag means none. -/
def readIfFlag {α : Type} (read : Reader α) : Reader (Option α) := do
  let flag ← Reader.u8
  if flag = 1 then
    let a ← read
    return some a
  else return none

def Role.toByte : Role → Nat
  | .initiator => 0
  | .responder => 1

def readRole : Reader Role := do
  let b ← Reader.u8
  if b = 0 then return .initiator
  else if b = 1 then return .responder
  else throw .badStateFormat

/-! ## The epoch ratchet -/

namespace PqRatchet

def exportSecret (s : Nat × Bytes) : Bytes := Writer.varint s.1 ++ s.2

def exportOutbox : Option Outbox → Result Bytes
  | some ob => do
    let payload ← Writer.varBytes ob.payload
    .ok (1 :: ob.kind :: (Writer.varint ob.epoch ++ Writer.varint ob.cursor ++ payload))
  | none => .ok [0]

def exportChunks : List (Option Bytes) → Result Bytes
  | [] => .ok []
  | some bytes :: rest => do
    let chunk ← Writer.varBytes bytes
    let tail ← exportChunks rest
    .ok (1 :: (chunk ++ tail))
  | none :: rest => do
    let tail ← exportChunks rest
    .ok (0 :: tail)

def exportInbox : Option Assembler → Result Bytes
  | some asm => do
    let chunks ← exportChunks asm.chunks
    .ok (1 :: asm.kind :: (Writer.varint asm.epoch ++ Writer.varint asm.total ++ chunks))
  | none => .ok [0]

/-- Everything before the two streams. -/
def exportFields (q : PqRatchet) : Bytes :=
  Writer.varint (asU32 q.params.fragmentBytes) ++ Writer.varint q.params.rekeyInterval ++ [q.role.toByte] ++
    Writer.varint q.pqHave ++ Writer.varint q.mixed ++ Writer.varint q.peerHave ++ Writer.varint q.sinceComplete ++
    Writer.varint (asU32 q.secrets.size) ++ q.secrets.toList.flatMap exportSecret ++
    writeOpt (fun k => Writer.varint k.1 ++ k.2) q.ownKem ++ writeOpt Writer.varint q.answered

def exportState (q : PqRatchet) : Result Bytes := do
  let outbox ← exportOutbox q.outbox
  let inbox ← exportInbox q.inbox
  .ok (q.exportFields ++ outbox ++ inbox)

def importSecret (secrets : ExtTreeMap Nat Bytes) : Reader (ExtTreeMap Nat Bytes) := do
  let e ← Reader.varint
  let s ← Reader.array 32
  return secrets.insert e s

def importOwnKem : Reader (Nat × Bytes) := do
  let e ← Reader.varint
  let dk ← Reader.array mlkemDk
  return (e, dk)

def importOutbox (fragmentBytes : Nat) : Reader Outbox := do
  let kind ← Reader.u8
  if kind ≠ fragKindEk ∧ kind ≠ fragKindCt then throw .badStateFormat
  let epoch ← Reader.varint
  let cursor ← Reader.varint
  let payload ← Reader.varBytes
  if payload.length ≠ mlkemEk ∧ payload.length ≠ mlkemCt then throw .badStateFormat
  return ⟨kind, epoch, payload, fragmentBytes, cursor⟩

/-- The chunks and how many of them are there, with one more. -/
def importChunk (acc : List (Option Bytes) × Nat) : Reader (List (Option Bytes) × Nat) := do
  let flag ← Reader.u8
  if flag = 1 then
    let bytes ← Reader.varBytes
    if bytes.length > maxFragmentBytes then throw .badStateFormat
    return (acc.1 ++ [some bytes], acc.2 + 1)
  else return (acc.1 ++ [none], acc.2)

def importInbox : Reader Assembler := do
  let kind ← Reader.u8
  if kind ≠ fragKindEk ∧ kind ≠ fragKindCt then throw .badStateFormat
  let epoch ← Reader.varint
  let total ← Reader.varint
  if total = 0 ∨ total > maxFragments then throw .badStateFormat
  let (chunks, received) ← Parser.loop importChunk total ([], 0)
  return ⟨kind, epoch, total, chunks, received⟩

def importState : Reader PqRatchet := do
  let fragmentBytes ← Reader.varint
  let rekeyInterval ← Reader.varint
  let params ← StateT.lift (PqParams.validated ⟨fragmentBytes, rekeyInterval⟩)
  let role ← readRole
  let pqHave ← Reader.varint
  let mixed ← Reader.varint
  let peerHave ← Reader.varint
  let sinceComplete ← Reader.varint
  let n ← Reader.varint
  if n > maxRetainedEpochs then throw .badStateFormat
  let secrets ← Parser.loop importSecret n ∅
  let ownKem ← readIfFlag importOwnKem
  let answered ← readOpt Reader.varint
  let outbox ← readIfFlag (importOutbox fragmentBytes)
  let inbox ← readIfFlag importInbox
  return { params, role, pqHave, mixed, peerHave, secrets, ownKem, answered, outbox, inbox, sinceComplete }

end PqRatchet

/-! ## The session -/

namespace Session

variable (P : Primitives)

def exportState (s : Session) : Result Bytes := do
  let pq ← s.pq.exportState
  .ok (stateFormatVersion :: s.role.toByte :: (s.sessionId ++ s.root ++ s.dhs ++ writeOpt id s.dhr ++ writeOpt id s.cks ++
    writeOpt id s.hks ++ s.nhks ++ writeOpt id s.ckr ++ writeOpt id s.hkr ++ s.nhkr ++ Writer.varint s.ns ++
    Writer.varint s.nr ++ Writer.varint s.pn ++ Writer.varint s.sendMixEpoch ++ pq ++ s.skipped.exportState ++
    writeOpt Preamble.encode s.bootstrap))

/-- `r.finish().map_err(|_| Error::BadStateFormat)`. -/
def finishState : Reader Unit
  | [] => .ok ((), [])
  | _ :: _ => .error .badStateFormat

def readState : Reader Session := do
  let version ← Reader.u8
  if version ≠ stateFormatVersion then throw .badStateFormat
  let role ← readRole
  let sessionId ← Reader.array 16
  let root ← Reader.array 32
  let dhs ← Reader.array 32
  let dhr ← readIfFlag (Reader.array 32)
  let cks ← readOpt (Reader.array 32)
  let hks ← readOpt (Reader.array aeadKey)
  let nhks ← Reader.array aeadKey
  let ckr ← readOpt (Reader.array 32)
  let hkr ← readOpt (Reader.array aeadKey)
  let nhkr ← Reader.array aeadKey
  let ns ← Reader.varint
  let nr ← Reader.varint
  let pn ← Reader.varint
  let sendMixEpoch ← Reader.varint
  let pq ← PqRatchet.importState
  let skipped ← SkippedKeys.importState
  let bootstrap ← readIfFlag Preamble.decode
  finishState
  return {
    role, sessionId, root, dhs, dhsPub := P.x25519.pub dhs, dhr, cks, hks, nhks, ckr, hkr, nhkr, ns, nr, pn, sendMixEpoch
    pq, skipped, bootstrap }

def importState (bytes : Bytes) : Result Session := (readState P bytes).map (·.1)

end Session

/-! ## What the format can hold -/

structure Outbox.Storable (fragmentBytes : Nat) (ob : Outbox) : Prop where
  kind : ob.kind = fragKindEk ∨ ob.kind = fragKindCt
  epoch : ob.epoch ≤ u32Max
  cursor : ob.cursor ≤ u32Max
  payload : ob.payload.length = mlkemEk ∨ ob.payload.length = mlkemCt
  chunk : ob.chunk = fragmentBytes

structure Assembler.Storable (a : Assembler) : Prop where
  kind : a.kind = fragKindEk ∨ a.kind = fragKindCt
  epoch : a.epoch ≤ u32Max
  pos : 0 < a.total
  total : a.total ≤ maxFragments
  length : a.chunks.length = a.total
  chunks : ∀ c ∈ a.chunks, ∀ bytes ∈ c, bytes.length ≤ maxFragmentBytes
  received : a.received = a.chunks.countP Option.isSome

structure PqRatchet.Storable (q : PqRatchet) : Prop where
  params : q.params.Valid
  rekeyInterval : q.params.rekeyInterval ≤ u32Max
  pqHave : q.pqHave ≤ u32Max
  mixed : q.mixed ≤ u32Max
  peerHave : q.peerHave ≤ u32Max
  sinceComplete : q.sinceComplete ≤ u32Max
  few : q.secrets.size ≤ maxRetainedEpochs
  secrets : ∀ {e s}, q.secrets[e]? = some s → e ≤ u32Max ∧ s.length = 32
  ownKem : ∀ k ∈ q.ownKem, k.1 ≤ u32Max ∧ k.2.length = mlkemDk
  answered : ∀ e ∈ q.answered, e ≤ u32Max
  outbox : ∀ ob ∈ q.outbox, ob.Storable q.params.fragmentBytes
  inbox : ∀ a ∈ q.inbox, a.Storable

structure Session.Storable (P : Primitives) (s : Session) : Prop where
  sessionId : s.sessionId.length = 16
  root : s.root.length = 32
  dhs : s.dhs.length = 32
  dhsPub : s.dhsPub = P.x25519.pub s.dhs
  dhr : ∀ k ∈ s.dhr, k.length = 32
  cks : ∀ k ∈ s.cks, k.length = 32
  hks : ∀ k ∈ s.hks, k.length = aeadKey
  nhks : s.nhks.length = aeadKey
  ckr : ∀ k ∈ s.ckr, k.length = 32
  hkr : ∀ k ∈ s.hkr, k.length = aeadKey
  nhkr : s.nhkr.length = aeadKey
  ns : s.ns ≤ u32Max
  nr : s.nr ≤ u32Max
  pn : s.pn ≤ u32Max
  sendMixEpoch : s.sendMixEpoch ≤ u32Max
  pq : s.pq.Storable
  skipped : s.skipped.Storable
  bootstrap : ∀ p ∈ s.bootstrap, p.Valid

/-! ## Reading back -/

section

variable {α : Type} {write : α → Bytes} {read : Reader α} {x : Option α} {bytes : Bytes}

section
variable (back : ∀ a ∈ x, ∀ rest, read (write a ++ rest) = .ok (a, rest)) (rest : Bytes)
include back rest

theorem readOpt_write : readOpt read (writeOpt write x ++ rest) = .ok (x, rest) := by
  cases x with
  | none => rfl
  | some a =>
    show (read >>= fun a => pure (some a)) (write a ++ rest) = _
    rw [Reader.bind_ok _ (back a rfl rest)]
    rfl

theorem readIfFlag_write : readIfFlag read (writeOpt write x ++ rest) = .ok (x, rest) := by
  cases x with
  | none => rfl
  | some a =>
    show (read >>= fun a => pure (some a)) (write a ++ rest) = _
    rw [Reader.bind_ok _ (back a rfl rest)]
    rfl

end

theorem readRole_byte {role : Role} {rest : Bytes} : readRole (role.toByte :: rest) = .ok (role, rest) := by
  cases role <;> rfl

theorem Writer.varBytes_eq (short : bytes.length ≤ u32Max) :
    varBytes bytes = .ok (varint bytes.length ++ bytes) := if_neg (Nat.not_lt.2 short)

theorem Reader.varBytes_append (short : bytes.length ≤ u32Max) (rest : Bytes) :
    varBytes (Writer.varint bytes.length ++ bytes ++ rest) = .ok (bytes, rest) := by
  rw [List.append_assoc]
  exact (Reader.bind_ok _ (varint_writer short _)).trans (take_append rfl rest)

theorem asU32_of_le {v : Nat} (fits : v ≤ u32Max) : asU32 v = v := by
  unfold u32Max at fits
  exact Nat.mod_eq_of_lt (by omega)

end

def Outbox.bytes (ob : Outbox) : Bytes :=
  ob.kind :: (Writer.varint ob.epoch ++ Writer.varint ob.cursor ++ (Writer.varint ob.payload.length ++ ob.payload))

namespace Outbox.Storable

variable {fragmentBytes : Nat} {ob : Outbox}

theorem short (s : ob.Storable fragmentBytes) : ob.payload.length ≤ u32Max := by
  rcases s.payload with ek | ct
  · exact ek.trans_le (by decide)
  · exact ct.trans_le (by decide)

theorem import_bytes (s : ob.Storable fragmentBytes) (rest : Bytes) :
    PqRatchet.importOutbox fragmentBytes (ob.bytes ++ rest) = .ok (ob, rest) := by
  have kind : ¬(ob.kind ≠ fragKindEk ∧ ob.kind ≠ fragKindCt) := fun other => s.kind.elim other.1 other.2
  have payload : ¬(ob.payload.length ≠ mlkemEk ∧ ob.payload.length ≠ mlkemCt) := fun other => s.payload.elim other.1 other.2
  have read := Reader.varBytes_append s.short rest
  rw [List.append_assoc] at read
  unfold PqRatchet.importOutbox bytes
  simp only [List.cons_append, List.append_assoc, Reader.u8_bind, if_neg kind, Reader.varint_bind, s.epoch, s.cursor,
    Reader.bind_ok _ read, if_neg payload, ← s.chunk]
  rfl

end Outbox.Storable

def chunkBytes : Option Bytes → Bytes
  | some bytes => 1 :: (Writer.varint bytes.length ++ bytes)
  | none => [0]

def Assembler.bytes (a : Assembler) : Bytes :=
  a.kind :: (Writer.varint a.epoch ++ Writer.varint a.total ++ a.chunks.flatMap chunkBytes)

/-- The chunks read so far with one more. -/
def putChunk (acc : List (Option Bytes) × Nat) (c : Option Bytes) : List (Option Bytes) × Nat :=
  (acc.1 ++ [c], if c.isSome then acc.2 + 1 else acc.2)

theorem putChunk_all {chunks : List (Option Bytes)} {acc : List (Option Bytes) × Nat} :
    chunks.foldl putChunk acc = (acc.1 ++ chunks, acc.2 + chunks.countP Option.isSome) := by
  induction chunks generalizing acc with
  | nil => simp
  | cons c chunks ih =>
    rw [List.foldl_cons, ih, putChunk, List.countP_cons, List.append_assoc]
    cases c with
    | none => rfl
    | some bytes => simp [Nat.add_assoc, Nat.add_comm 1]

theorem importChunk_bytes (acc : List (Option Bytes) × Nat) (c : Option Bytes) (rest : Bytes)
    (short : ∀ bytes ∈ c, bytes.length ≤ maxFragmentBytes) :
    PqRatchet.importChunk acc (chunkBytes c ++ rest) = .ok (putChunk acc c, rest) := by
  cases c with
  | none => rfl
  | some bytes =>
    have le : bytes.length ≤ u32Max := Nat.le_trans (short bytes rfl) (by decide)
    unfold PqRatchet.importChunk
    rw [show chunkBytes (some bytes) ++ rest = 1 :: (Writer.varint bytes.length ++ bytes ++ rest) from rfl,
      Reader.u8_bind, if_pos rfl, Reader.bind_ok _ (Reader.varBytes_append le rest),
      if_neg (Nat.not_lt.2 (short bytes rfl))]
    rfl

namespace Assembler.Storable

variable {a : Assembler}

theorem import_bytes (s : a.Storable) (rest : Bytes) : PqRatchet.importInbox (a.bytes ++ rest) = .ok (a, rest) := by
  have kind : ¬(a.kind ≠ fragKindEk ∧ a.kind ≠ fragKindCt) := fun other => s.kind.elim other.1 other.2
  have total : ¬(a.total = 0 ∨ a.total > maxFragments) := fun other =>
    other.elim (Nat.ne_of_gt s.pos) (Nat.not_lt.2 s.total)
  have total_le : a.total ≤ u32Max := Nat.le_trans s.total (by decide)
  have looped := Parser.loop_bytes importChunk_bytes s.chunks ([], 0) rest
  rw [putChunk_all, List.nil_append, Nat.zero_add, s.length, ← s.received] at looped
  unfold PqRatchet.importInbox bytes
  simp only [List.cons_append, List.append_assoc, Reader.u8_bind, if_neg kind, Reader.varint_bind, s.epoch, total_le, if_neg total,
    Reader.bind_ok _ looped]
  rfl

end Assembler.Storable

namespace PqRatchet

theorem exportChunks_eq {chunks : List (Option Bytes)} (short : ∀ c ∈ chunks, ∀ bytes ∈ c, bytes.length ≤ maxFragmentBytes) :
    exportChunks chunks = .ok (chunks.flatMap chunkBytes) := by
  induction chunks with
  | nil => rfl
  | cons c chunks ih =>
    rw [List.forall_mem_cons] at short
    have tail := ih short.2
    cases c with
    | none =>
      unfold exportChunks
      rw [tail]
      rfl
    | some bytes =>
      have le : bytes.length ≤ u32Max := Nat.le_trans (short.1 bytes rfl) (by decide)
      unfold exportChunks
      rw [tail, Writer.varBytes_eq le]
      rfl

def bytes (q : PqRatchet) : Bytes :=
  q.exportFields ++ writeOpt Outbox.bytes q.outbox ++ writeOpt Assembler.bytes q.inbox

namespace Storable

variable {q : PqRatchet}

theorem exportState_eq (s : q.Storable) : q.exportState = .ok q.bytes := by
  have outbox : exportOutbox q.outbox = .ok (writeOpt Outbox.bytes q.outbox) := by
    cases stream : q.outbox with
    | none => rfl
    | some ob =>
      unfold exportOutbox
      dsimp only
      rw [Writer.varBytes_eq (s.outbox ob stream).short]
      rfl
  have inbox : exportInbox q.inbox = .ok (writeOpt Assembler.bytes q.inbox) := by
    cases stream : q.inbox with
    | none => rfl
    | some a =>
      unfold exportInbox
      dsimp only
      rw [exportChunks_eq (s.inbox a stream).chunks]
      rfl
  unfold PqRatchet.exportState
  rw [outbox, inbox]
  rfl

theorem import_bytes (s : q.Storable) (rest : Bytes) : importState (q.bytes ++ rest) = .ok (q, rest) := by
  have fragment_le : q.params.fragmentBytes ≤ u32Max := Nat.le_trans s.params.le (by decide)
  have few_le : q.secrets.size ≤ u32Max := Nat.le_trans s.few (by decide)
  have validated : ∀ buf : Bytes, (StateT.lift q.params.validated : Reader PqParams) buf = .ok (q.params, buf) :=
    fun buf => Parser.lift_ok_iff.2 ⟨PqParams.validated_iff.2 ⟨rfl, s.params⟩, rfl⟩
  have one : ∀ (secrets : ExtTreeMap Nat Bytes) (p : Nat × Bytes) (rest : Bytes), (p.1 ≤ u32Max ∧ p.2.length = 32) →
      importSecret secrets (exportSecret p ++ rest) = .ok (secrets.insert p.1 p.2, rest) := by
    rintro secrets p rest ⟨le, size⟩
    unfold importSecret exportSecret
    rw [List.append_assoc, Reader.varint_bind _ le, Reader.array_bind _ size]
    rfl
  have kem : ∀ k ∈ q.ownKem, ∀ rest, importOwnKem (Writer.varint k.1 ++ k.2 ++ rest) = .ok (k, rest) := by
    intro k mem rest
    obtain ⟨le, size⟩ := s.ownKem k mem
    unfold importOwnKem
    rw [List.append_assoc, Reader.varint_bind _ le, Reader.array_bind _ size]
    rfl
  have looped : ∀ rest : Bytes, Parser.loop importSecret q.secrets.size ∅ (q.secrets.toList.flatMap exportSecret ++ rest) =
      .ok (q.secrets, rest) := by
    intro rest
    have all := Parser.loop_bytes one
      (fun p listed => s.secrets (ExtTreeMap.mem_toList_iff_getElem?_eq_some.1 listed)) ∅ rest
    rwa [foldl_insert_toList, ExtTreeMap.length_toList] at all
  unfold importState PqRatchet.bytes exportFields
  rw [asU32_of_le fragment_le, asU32_of_le few_le]
  simp only [List.append_assoc]
  rw [Reader.bind_ok _ (Reader.varint_writer fragment_le _), Reader.bind_ok _ (Reader.varint_writer s.rekeyInterval _),
    Reader.bind_ok _ (validated _)]
  simp only [List.cons_append, List.nil_append]
  rw [Reader.bind_ok _ (readRole_byte), Reader.bind_ok _ (Reader.varint_writer s.pqHave _),
    Reader.bind_ok _ (Reader.varint_writer s.mixed _), Reader.bind_ok _ (Reader.varint_writer s.peerHave _),
    Reader.bind_ok _ (Reader.varint_writer s.sinceComplete _), Reader.bind_ok _ (Reader.varint_writer few_le _),
    if_neg (Nat.not_lt.2 s.few), Reader.bind_ok _ (looped _), Reader.bind_ok _ (readIfFlag_write kem _),
    Reader.bind_ok _ (readOpt_write (fun e mem rest => Reader.varint_writer (s.answered e mem) rest) _),
    Reader.bind_ok _ (readIfFlag_write (fun ob mem rest => (s.outbox ob mem).import_bytes rest) _),
    Reader.bind_ok _ (readIfFlag_write (fun a mem rest => (s.inbox a mem).import_bytes rest) _)]
  rfl

end Storable

end PqRatchet

namespace Session

variable {P : Primitives} {s : Session}

/-- A session within its fields comes back as it was. -/
theorem Storable.import_export (st : s.Storable P) : (s.exportState >>= importState P) = .ok s := by
  have key : ∀ {n : Nat} {x : Option Bytes}, (∀ k ∈ x, k.length = n) → ∀ k ∈ x, ∀ rest,
      Reader.array n (id k ++ rest) = .ok (k, rest) := fun sizes k mem rest => Reader.array_append (sizes k mem)
  unfold exportState
  rw [st.pq.exportState_eq]
  show importState P _ = _
  have read : readState P (stateFormatVersion :: s.role.toByte :: (s.sessionId ++ s.root ++ s.dhs ++ writeOpt id s.dhr ++
      writeOpt id s.cks ++ writeOpt id s.hks ++ s.nhks ++ writeOpt id s.ckr ++ writeOpt id s.hkr ++ s.nhkr ++
      Writer.varint s.ns ++ Writer.varint s.nr ++ Writer.varint s.pn ++ Writer.varint s.sendMixEpoch ++ s.pq.bytes ++
      s.skipped.exportState ++ writeOpt Preamble.encode s.bootstrap)) = .ok (s, []) := by
    simp only [List.append_assoc]
    unfold readState
    have boot := readIfFlag_write (fun p mem rest => (st.bootstrap p mem).decode_encode rest) []
    rw [List.append_nil] at boot
    rw [Reader.u8_bind, if_neg (by simp)]
    dsimp only
    rw [Reader.bind_ok _ (readRole_byte), Reader.array_bind _ st.sessionId, Reader.array_bind _ st.root,
      Reader.array_bind _ st.dhs, Reader.bind_ok _ (readIfFlag_write (key st.dhr) _),
      Reader.bind_ok _ (readOpt_write (key st.cks) _), Reader.bind_ok _ (readOpt_write (key st.hks) _),
      Reader.array_bind _ st.nhks, Reader.bind_ok _ (readOpt_write (key st.ckr) _),
      Reader.bind_ok _ (readOpt_write (key st.hkr) _), Reader.array_bind _ st.nhkr, Reader.varint_bind _ st.ns,
      Reader.varint_bind _ st.nr, Reader.varint_bind _ st.pn, Reader.varint_bind _ st.sendMixEpoch,
      Reader.bind_ok _ (st.pq.import_bytes _), Reader.bind_ok _ (st.skipped.import_export _), Reader.bind_ok _ boot]
    show Except.ok _ = _
    rw [← st.dhsPub]
  unfold importState
  rw [read]
  rfl

end Session

end Osl.Ratchet
