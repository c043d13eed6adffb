import Osl.Ratchet.Restart
import Osl.Ratchet.Safety

/-!
# Calls that fail

A failed `decrypt` leaves the session as it was. A failed `encrypt` does so unless
the message is over the wire budget: that is only found out once the sending chain
has moved on.
-/

namespace Osl.Ratchet.Session

open Base

section
variable (P : Primitives) (s : Session)

/-! ## Decrypting -/

section
variable (debris : Session → Session)

end

/-- The new session of a call that went well, else the old one. -/
def settle : Result (Session × Opened × List RootArgs) → Session × Result Opened
  | .ok (t, opened, _) => (t, .ok opened)
  | .error e => (s, .error e)

variable {P s}

/-- A session in the middle of a conversation. -/
def sampleSession : Session :=
  { Session.responder symbolicPrimitives [] default [20] with cks := some [1], hks := some [2] }

end

/-! ## Encrypting -/

section
variable (P : Primitives) (s : Session) (msgType : Nat) (rng : Rng)

/-- The length of the next message's sealed header. -/
def headerLength : Nat := (s.nextHeader P msgType rng).2.bytes.length + aeadTag

/-- ... and of all of it but the plaintext. -/
def overhead : Nat :=
  (wireHead s.bootstrap).length + headerNonceWire +
    ((Writer.varint (s.headerLength P msgType rng)).length + s.headerLength P msgType rng) + aeadTag

end

variable {P : Primitives} {s : Session} {msgType : Nat} {rng : Rng}

theorem length_nextSealing (ideal : P.Ideal) (hk ck plaintext : Bytes) :
    ((s.nextSealing P hk ck msgType plaintext rng).headerCt P).length = s.headerLength P msgType rng ∧
      ((s.nextSealing P hk ck msgType plaintext rng).raw P).length = plaintext.length + s.overhead P msgType rng := by
  simp only [Sealing.raw, Sealing.preBody, Sealing.bodyCt, Sealing.headerCt, Sealing.head, nextSealing, overhead,
    headerLength, List.length_append, ideal.aead.length, rng.nonce_length, true_and]
  omega

/-- A failed `encrypt` changes nothing exactly if nothing can be sent yet or any more,
the message is within the budget, or its header is over the limit and the epoch
ratchet stands still. -/
theorem encrypt_unchanged_iff (ideal : P.Ideal) (s : Session) (msgType : Nat) (plaintext : Bytes) (rng : Rng) :
    (∀ e, (s.encrypt P msgType plaintext rng).2 = .error e → (s.encrypt P msgType plaintext rng).1 = s) ↔
      (s.cks = none ∨ s.hks = none ∨ s.ns = u32Max) ∨
        s.headerLength P msgType rng ≤ maxHeaderCtBytes ∧
          plaintext.length + s.overhead P msgType rng ≤ maxWireBytes ∨
        maxHeaderCtBytes < s.headerLength P msgType rng ∧ (s.pq.onSend P rng).1 = s.pq := by
  have attempt := encrypt_attempt (P := P) s msgType plaintext rng
  generalize s.encrypt P msgType plaintext rng = out at attempt ⊢
  cases attempt with
  | refused e why => exact iff_of_true (fun _ _ => rfl) (.inl why)
  | @oversized ck hk e chain key left long =>
    have large : maxHeaderCtBytes < s.headerLength P msgType rng := by
      rw [(length_nextSealing ideal hk ck plaintext).1] at long
      unfold headerLength maxHeaderCtBytes u32Max at *
      omega
    rw [or_iff_right (by simp [chain, key, left]), or_iff_right fun both => absurd both.1 (Nat.not_le_of_lt large),
      and_iff_right large]
    constructor
    · intro kept
      exact congrArg Session.pq (kept e rfl)
    · intro same _ _
      exact congrArg (fun pq => ({ s with pq } : Session)) same
  | @sealed ck hk chain key left fits =>
    obtain ⟨header, raw⟩ := @length_nextSealing P s msgType rng ideal hk ck plaintext
    rw [header] at fits
    rw [raw]
    have moved : satAdd 32 s.ns 1 ≠ s.ns := by
      unfold satAdd
      unfold u32Max at left
      omega
    rw [or_iff_right (by simp [chain, key, left]), or_iff_left fun both => absurd fits (Nat.not_le_of_lt both.1),
      and_iff_right fits]
    constructor
    · intro kept
      by_contra long
      exact moved (congrArg Session.ns (kept _ (if_pos (Nat.lt_of_not_le long))))
    · intro short e failed
      rw [if_neg (Nat.not_lt_of_le short)] at failed
      cases failed

/-- Before the first message arrives, nothing can be sent. -/
theorem encrypt_unchanged_sample :
    let s := responder symbolicPrimitives [] default [20]
    s.encrypt symbolicPrimitives 1 [104] sampleRng = (s, .error (.internal "no sending chain yet")) :=
  Prod.ext ((encrypt_unchanged_iff symbolicPrimitives_ideal _ 1 [104] sampleRng).2 (.inl (.inl rfl)) _ rfl) rfl

/-- A message over the budget fails, and its counter is gone. -/
theorem oversized_message_moves_chain :
    let out := sampleSession.encrypt symbolicPrimitives 1 (List.replicate maxWireBytes 0) sampleRng
    (∃ e, out.2 = .error e) ∧ sampleSession.ns = 0 ∧ out.1.ns = 1 := by
  have bounded : sampleSession.Bounded :=
    { @responder_bounded symbolicPrimitives [] default symbolicPrimitives_ideal default_pq_valid [20] with }
  have effect := encrypt_effect symbolicPrimitives_ideal bounded 1 (List.replicate maxWireBytes 0) sampleRng
  generalize sampleSession.encrypt symbolicPrimitives 1 (List.replicate maxWireBytes 0) sampleRng = out at effect ⊢
  obtain ⟨s', r⟩ := out
  cases effect with
  | refused e why => exact absurd why (by decide)
  | @sealed ck hk _ _ _ _ out =>
    rcases out with ⟨-, failed⟩ | ⟨valid, -⟩
    · exact ⟨failed, rfl, rfl⟩
    · have fits := valid.raw
      rw [(length_nextSealing symbolicPrimitives_ideal hk ck _).2, List.length_replicate, overhead, headerNonceWire] at fits
      omega

end Osl.Ratchet.Session
