import Osl.Base.Slice
import Osl.Base.Word
import Osl.Ratchet.Primitives

/-!
# The post-quantum epoch ratchet (`crates/osl-ratchet-next/src/pq.rs`)

Epoch `e` is owned by the responder when even, by the initiator when odd. The
owner of the next epoch sends a fresh encapsulation key in fragments; the other
side assembles it, encapsulates and fragments the ciphertext back; the owner
decapsulates and announces the epoch, on which the other side does so as well.
-/

namespace Osl.Ratchet

open Base Std

def fragKindEk : Nat := 1
def fragKindCt : Nat := 2
def maxFragments : Nat := 64
def maxFragmentBytes : Nat := 512
def maxEpochLookahead : Nat := 2
def maxRetainedEpochs : Nat := 8

structure PqParams where
  fragmentBytes : Nat
  rekeyInterval : Nat
  deriving DecidableEq

instance : Inhabited PqParams := ⟨⟨128, 64⟩⟩

/-- `a.div_ceil(b)`. -/
def divCeil (a b : Nat) : Nat := (a + b - 1) / b

def PqParams.validated (p : PqParams) : Result PqParams :=
  if p.fragmentBytes = 0 ∨ p.fragmentBytes > maxFragmentBytes then
    .error (.policyBound "fragment_bytes out of range")
  else if divCeil mlkemEk p.fragmentBytes > maxFragments then
    .error (.policyBound "fragment_bytes too small")
  else .ok p

/-! ## Fragments -/

structure Fragment where
  kind : Nat
  epoch : Nat
  index : Nat
  total : Nat
  data : Bytes
  deriving DecidableEq

namespace Fragment

def encode (f : Fragment) : Result Bytes := do
  let data ← Writer.varBytes f.data
  .ok (f.kind :: (Writer.varint f.epoch ++ Writer.varint f.index ++ Writer.varint f.total ++ data))

def decode : Reader Fragment := do
  let kind ← Reader.u8
  if kind ≠ fragKindEk ∧ kind ≠ fragKindCt then throw (.malformed "unknown fragment kind")
  let epoch ← Reader.varint
  let index ← Reader.varint
  let total ← Reader.varint
  if total = 0 ∨ total > maxFragments then throw (.policyBound "fragment total out of range")
  if index ≥ total then throw (.malformed "fragment index >= total")
  let data ← Reader.varBytes
  if data.isEmpty ∨ data.length > maxFragmentBytes then
    throw (.policyBound "fragment payload out of range")
  return ⟨kind, epoch, index, total, data⟩

end Fragment

/-- An outgoing fragment stream. -/
structure Outbox where
  kind : Nat
  epoch : Nat
  payload : Bytes
  chunk : Nat
  cursor : Nat

namespace Outbox

def total (ob : Outbox) : Nat := max (divCeil ob.payload.length ob.chunk) 1

/-- The `idx`-th fragment; the last one may be shorter. -/
def fragment (ob : Outbox) (idx : Nat) : Fragment :=
  ⟨ob.kind, ob.epoch, idx, ob.total, slice (idx * ob.chunk) ob.chunk ob.payload⟩

/-- The next fragment, and the stream with its cursor advanced. The cursor is
rotated one more step on every pass. -/
def next (ob : Outbox) : Fragment × Outbox :=
  let pass := ob.cursor / ob.total
  let idx := (ob.cursor + pass) % 2 ^ 32 % ob.total
  (ob.fragment idx, { ob with cursor := (ob.cursor + 1) % 2 ^ 32 })

end Outbox

/-- An incoming fragment stream. -/
structure Assembler where
  kind : Nat
  epoch : Nat
  total : Nat
  chunks : List (Option Bytes)
  received : Nat

namespace Assembler

def new (kind epoch total : Nat) : Assembler := ⟨kind, epoch, total, List.replicate total none, 0⟩

/-- The chunks in order, if there is no hole. -/
def concat : List (Option Bytes) → Result Bytes
  | [] => .ok []
  | none :: _ => .error (.internal "assembler hole")
  | some bytes :: rest => do
    let tail ← concat rest
    .ok (bytes ++ tail)

/-- The fragment's slot filled, unless it was. -/
def fill (a : Assembler) (f : Fragment) (slot : Option Bytes) : Assembler :=
  if slot.isNone then
    { a with chunks := a.chunks.set f.index (some f.data), received := satAdd 32 a.received 1 }
  else a

def accept (a : Assembler) (f : Fragment) : Result (Assembler × Option Bytes) :=
  if f.total ≠ a.total then .error (.malformed "fragment total changed mid-stream")
  else
    match a.chunks[f.index]? with
    | none => .error (.malformed "fragment index out of range")
    | some slot =>
      if (a.fill f slot).received < (a.fill f slot).total then .ok (a.fill f slot, none)
      else do
        let out ← concat (a.fill f slot).chunks
        .ok (a.fill f slot, some out)

end Assembler

inductive Role where
  | initiator
  | responder
  deriving DecidableEq, Repr

def Role.owns : Role → Nat → Bool
  | .responder, epoch => epoch % 2 = 0
  | .initiator, epoch => epoch % 2 = 1

/-! ## The ratchet -/

structure PqRatchet where
  params : PqParams
  role : Role
  pqHave : Nat
  mixed : Nat
  peerHave : Nat
  secrets : ExtTreeMap Nat Bytes
  ownKem : Option (Nat × Bytes)
  answered : Option Nat
  outbox : Option Outbox
  inbox : Option Assembler
  sinceComplete : Nat

namespace PqRatchet

def new (role : Role) (params : PqParams) (handshakeSecret : Bytes) : Result PqRatchet := do
  let params ← params.validated
  .ok {
    params, role, pqHave := 0, mixed := 0, peerHave := 0
    secrets := (∅ : ExtTreeMap Nat Bytes).insert 0 handshakeSecret
    ownKem := none, answered := none, outbox := none, inbox := none, sinceComplete := 0 }

def mixTarget (q : PqRatchet) : Nat := min q.pqHave q.peerHave

variable (P : Primitives)

def maybeStartEpoch (q : PqRatchet) (rng : Rng) : PqRatchet :=
  let next := satAdd 32 q.pqHave 1
  if q.outbox.isSome ∨ q.ownKem.isSome then q
  else if q.sinceComplete < q.params.rekeyInterval then q
  else if next = q.pqHave then q
  else if !q.role.owns next then q
  else if q.secrets.size ≥ maxRetainedEpochs then q
  else
    { q with
      ownKem := some (next, rng.kemKey)
      outbox := some ⟨fragKindEk, next, P.mlkem.pub rng.kemKey, q.params.fragmentBytes, 0⟩ }

def nextFragment (q : PqRatchet) : PqRatchet × Option Fragment :=
  match q.outbox with
  | none => (q, none)
  | some ob => ({ q with outbox := some ob.next.2 }, some ob.next.1)

/-- The fragment to attach to an outgoing message, if any. -/
def onSend (q : PqRatchet) (rng : Rng) : PqRatchet × Option Fragment :=
  (({ q with sinceComplete := satAdd 32 q.sinceComplete 1 }).maybeStartEpoch P rng).nextFragment

/-- The peer's announced epoch. Stale values are ignored. -/
def onPeerHave (q : PqRatchet) (peerHave : Nat) : PqRatchet :=
  if peerHave ≤ q.peerHave then q
  else
    let q := { q with peerHave }
    let q :=
      if peerHave > q.pqHave ∧ q.secrets.contains peerHave then
        { q with pqHave := peerHave, sinceComplete := 0 }
      else q
    match q.outbox with
    | some ob => if ob.kind = fragKindCt ∧ ob.epoch ≤ peerHave then { q with outbox := none } else q
    | none => q

def insertSecret (q : PqRatchet) (epoch : Nat) (ss : Bytes) : Result PqRatchet :=
  if q.secrets.size ≥ maxRetainedEpochs ∧ ¬ q.secrets.contains epoch then
    .error (.policyBound "too many unmixed PQ epochs")
  else .ok { q with secrets := q.secrets.insert epoch ss }

/-- The peer's encapsulation key is complete: encapsulate and answer. -/
def onEkComplete (q : PqRatchet) (epoch : Nat) (payload : Bytes) (rng : Rng) : Result PqRatchet :=
  if payload.length ≠ mlkemEk then .error (.malformed "reassembled EK wrong length")
  else do
    let (ct, ss) := P.mlkem.encap payload rng.encaps
    let q ← q.insertSecret epoch ss
    .ok { q with
      answered := some epoch
      outbox := some ⟨fragKindCt, epoch, ct, q.params.fragmentBytes, 0⟩ }

/-- The answer to our encapsulation key is complete. -/
def onCtComplete (q : PqRatchet) (epoch : Nat) (payload : Bytes) : Result PqRatchet :=
  match q.ownKem with
  | none => .ok q
  | some (ownEpoch, dk) =>
    if ownEpoch ≠ epoch then .ok q
    else if payload.length ≠ mlkemCt then .error (.malformed "reassembled CT wrong length")
    else do
      let q ← q.insertSecret epoch (P.mlkem.decap dk payload)
      .ok { q with ownKem := none, outbox := none, pqHave := epoch, sinceComplete := 0 }

/-- The stream a fragment belongs to; another stream supersedes it. -/
def assemblerFor (q : PqRatchet) (f : Fragment) : Assembler :=
  match q.inbox with
  | some a => if a.epoch ≠ f.epoch ∨ a.kind ≠ f.kind then .new f.kind f.epoch f.total else a
  | none => .new f.kind f.epoch f.total

def onFragment (q : PqRatchet) (f : Fragment) (rng : Rng) : Result PqRatchet :=
  if f.kind = fragKindEk ∧ q.role.owns f.epoch then
    .error (.malformed "EK fragment for an epoch we own")
  else if f.kind = fragKindCt ∧ !q.role.owns f.epoch then
    .error (.malformed "CT fragment for an epoch we do not own")
  else if f.kind ≠ fragKindEk ∧ f.kind ≠ fragKindCt then .error (.malformed "unknown fragment kind")
  else if f.epoch ≤ q.pqHave then .ok q
  else if f.kind = fragKindEk ∧ q.answered.any (f.epoch ≤ ·) then .ok q
  else if f.epoch > satAdd 32 q.pqHave maxEpochLookahead then .error (.policyBound "PQ epoch too far ahead")
  else do
    let (a, complete) ← (q.assemblerFor f).accept f
    match complete with
    | none => .ok { q with inbox := some a }
    | some payload =>
      let q := { q with inbox := none }
      if a.kind = fragKindEk then q.onEkComplete P a.epoch payload rng
      else q.onCtComplete P a.epoch payload

/-! ## Mixing -/

/-- Forget what the root has absorbed. -/
def prune (q : PqRatchet) : PqRatchet := { q with secrets := q.secrets.filter fun e _ => q.mixed < e }

/-- The secrets of the epochs after `mixed` up to `mixEpoch`, in order. -/
def mixSecrets (q : PqRatchet) (mixEpoch : Nat) : Result (List Bytes) :=
  (List.range' (q.mixed + 1) (mixEpoch - q.mixed)).mapM fun e =>
    match q.secrets[e]? with
    | some s => .ok s
    | none => .error (.missingPqEpoch e)

/-- The receiver's side of a mix. -/
def takeMix (q : PqRatchet) (mixEpoch : Nat) : Result (List Bytes × PqRatchet) :=
  if mixEpoch ≤ q.mixed then .ok ([], q)
  else if mixEpoch > q.pqHave then .error (.missingPqEpoch mixEpoch)
  else do
    let out ← q.mixSecrets mixEpoch
    .ok (out, { q with mixed := mixEpoch }.prune)

/-- The sender's side of a mix. -/
def peekMix (q : PqRatchet) (mixEpoch : Nat) : Result (List Bytes) :=
  if mixEpoch ≤ q.mixed then .ok [] else q.mixSecrets mixEpoch

def commitMix (q : PqRatchet) (mixEpoch : Nat) : PqRatchet :=
  if mixEpoch > q.mixed then { q with mixed := mixEpoch }.prune else q

end PqRatchet

end Osl.Ratchet
