import Mathlib.Data.Nat.Bitwise
import Osl.Base.Ideal
import Osl.Base.Outcome

/-!
# Reader and writer (`crates/osl-ratchet-next/src/codec.rs`, `error.rs`)

A `Writer` is the bytes written so far, so each of its methods is the bytes it
appends. A `Reader` is a state transformer on the bytes not yet read. Every
written field reads back, whatever follows it.
-/

namespace Osl.Ratchet

open Base

/-- The crate's error type. -/
inductive Error where
  | authFailed
  | badPrefix
  | base64
  | wrongVersion (got expected : Nat)
  | malformed (what : String)
  | policyBound (what : String)
  | skipLimitExceeded (requested limit : Nat)
  | missingPqEpoch (epoch : Nat)
  | degenerateDh
  | badStateFormat
  | internal (what : String)
  deriving DecidableEq, Repr

abbrev Result := Except Error

abbrev Reader := StateT Bytes Result

def u32Max : Nat := 2 ^ 32 - 1

namespace Writer

/-- Canonical LEB128: seven bits a byte, the high bit on all but the last. -/
def varint (v : Nat) : Bytes :=
  if v / 128 = 0 then [v % 128] else (v % 128 + 128) :: varint (v / 128)
termination_by v
decreasing_by omega

/-- Length-prefixed byte string. -/
def varBytes (bytes : Bytes) : Result Bytes :=
  if bytes.length > u32Max then .error (.policyBound "var_bytes too long")
  else .ok (varint bytes.length ++ bytes)

variable {v : Nat}

/-- A `u32` takes at most five bytes. -/
theorem length_varint (fits : v ≤ u32Max) : (varint v).length ≤ 5 := by
  have groups : ∀ {k v : Nat}, v < 128 ^ (k + 1) → (varint v).length ≤ k + 1 := by
    intro k
    induction k with
    | zero =>
      intro v small
      unfold varint
      rw [if_pos (by omega)]
      simp
    | succ k ih =>
      intro v small
      unfold varint
      split
      · simp
      · have rest := ih (Nat.div_lt_of_lt_mul (pow_succ' 128 (k + 1) ▸ small))
        simpa using rest
  unfold u32Max at fits
  exact groups (by omega)

end Writer

namespace Reader

def u8 : Reader Nat
  | [] => .error (.malformed "short read: u8")
  | b :: rest => .ok (b, rest)

def take (n : Nat) : Reader Bytes := fun buf =>
  if n ≤ buf.length then .ok (buf.take n, buf.drop n) else .error (.malformed "short read: slice")

/-- `array::<N>`. -/
def array (n : Nat) : Reader Bytes := take n

/-- The groups of a varint from `group` on; `result` holds the groups before. -/
def varintGroups (result group : Nat) : Nat → Reader Nat
  | 0 => throw (.malformed "varint too long")
  | left + 1 => do
    let byte ← u8
    let payload := byte &&& 0x7f
    let result := result ||| payload <<< (group * 7)
    if result > u32Max then throw (.malformed "varint overflow")
    else if byte &&& 0x80 = 0 then
      if 0 < group ∧ payload = 0 then throw (.malformed "non-canonical varint")
      else return result
    else varintGroups result (group + 1) left

def maxVarintGroups : Nat := 5

def varint : Reader Nat := varintGroups 0 0 maxVarintGroups

def varBytes : Reader Bytes := do
  let len ← varint
  take len

def finish : Reader Unit
  | [] => .ok ((), [])
  | _ :: _ => .error (.malformed "trailing bytes")

/-! ## Reading back -/

variable {rest buf : Bytes}

theorem bind_ok {α β : Type} {m : Reader α} {a : α} (f : α → Reader β)
    (h : m buf = .ok (a, rest)) : (m >>= f) buf = f a rest := by
  simp only [bind, StateT.bind, h, Except.bind]

theorem pure_ok {α : Type} (a : α) (buf : Bytes) : (pure a : Reader α) buf = .ok (a, buf) := rfl

theorem get_ok (buf : Bytes) : (get : Reader Bytes) buf = .ok (buf, buf) := rfl

@[simp] theorem u8_cons (b : Nat) (rest : Bytes) : u8 (b :: rest) = .ok (b, rest) := rfl

@[simp] theorem finish_nil : finish [] = .ok ((), []) := rfl

variable {n result group payload byte left v : Nat} {xs : Bytes}

theorem take_append (size : xs.length = n) (rest : Bytes) : take n (xs ++ rest) = .ok (xs, rest) := by
  subst size
  simp [take]

theorem array_append (size : xs.length = n) :
    array n (xs ++ rest) = .ok (xs, rest) := take_append size rest

theorem and_seven_bits (b : Nat) : b &&& 0x7f = b % 128 := Nat.and_two_pow_sub_one_eq_mod b 7

theorem and_high_bit (b : Nat) : b &&& 0x80 = 0 ↔ b / 128 % 2 = 0 := by
  rw [show (0x80 : Nat) = 2 ^ 7 from rfl, Nat.and_two_pow, Nat.testBit_eq_decide_div_mod_eq]
  rcases Nat.mod_two_eq_zero_or_one (b / 128) with h | h <;> simp [h]

theorem or_shift (low : result < 2 ^ (group * 7)) :
    result ||| payload <<< (group * 7) = result + payload * 2 ^ (group * 7) := by
  rw [Nat.or_comm, ← Nat.shiftLeft_add_eq_or_of_lt low, Nat.shiftLeft_eq, Nat.add_comm]

/-- The first byte of a varint takes the lowest seven bits. -/
theorem varintGroups_cons (low : result < 2 ^ (group * 7)) (left byte : Nat) (rest : Bytes) :
    varintGroups result group (left + 1) (byte :: rest) =
      if u32Max < result + byte % 128 * 2 ^ (group * 7) then .error (.malformed "varint overflow")
      else if byte / 128 % 2 = 0 then
        if 0 < group ∧ byte % 128 = 0 then .error (.malformed "non-canonical varint")
        else .ok (result + byte % 128 * 2 ^ (group * 7), rest)
      else varintGroups (result + byte % 128 * 2 ^ (group * 7)) (group + 1) left rest := by
  simp only [varintGroups, bind, StateT.bind, u8_cons, Except.bind, and_seven_bits, or_shift low, and_high_bit]
  repeat' split
  all_goals rfl

/-- The groups read so far stay below the next one. -/
theorem group_lt (low : result < 2 ^ (group * 7)) :
    result + byte % 128 * 2 ^ (group * 7) < 2 ^ ((group + 1) * 7) := by
  have scaled := Nat.mul_le_mul_right (2 ^ (group * 7)) (Nat.mod_lt byte (by decide : 0 < 128))
  rw [Nat.succ_mul] at scaled
  rw [Nat.add_mul, Nat.pow_add]
  omega

theorem group_add (result group digit v : Nat) :
    result + digit * 2 ^ (group * 7) + v * 2 ^ ((group + 1) * 7) = result + (digit + 128 * v) * 2 ^ (group * 7) := by
  have step : 2 ^ ((group + 1) * 7) = 128 * 2 ^ (group * 7) := by
    rw [Nat.add_mul, Nat.pow_add, Nat.mul_comm]
  rw [step, Nat.add_mul, Nat.mul_comm 128 v, Nat.mul_assoc, Nat.add_assoc]

/-- The induction is on the groups left, against the recursion of the writer. -/
theorem varintGroups_writer (low : result < 2 ^ (group * 7))
    (room : v < 2 ^ (left * 7)) (fits : result + v * 2 ^ (group * 7) ≤ u32Max) (more : 0 < group → v ≠ 0)
    (pos : 0 < left) :
    varintGroups result group left (Writer.varint v ++ rest) =
      .ok (result + v * 2 ^ (group * 7), rest) := by
  induction left generalizing result group v with
  | zero => omega
  | succ left ih =>
    have below : result + v % 128 * 2 ^ (group * 7) ≤ u32Max :=
      le_trans (Nat.add_le_add_left (Nat.mul_le_mul_right _ (Nat.mod_le v 128)) _) fits
    rw [Writer.varint]
    split
    -- The last group carries all of `v`.
    · rename_i last
      have same : v % 128 = v := by omega
      rw [List.cons_append, varintGroups_cons low, Nat.mod_mod, if_neg (by omega), if_pos (by omega), same,
        if_neg fun bad => more bad.1 bad.2]
      rfl
    · rename_i further
      have half : (v % 128 + 128) % 128 = v % 128 := by omega
      have room' : v / 128 < 2 ^ (left * 7) := by
        rw [Nat.div_lt_iff_lt_mul (by decide)]
        rw [Nat.add_mul, Nat.pow_add] at room
        exact room
      have pos' : 0 < left := by
        rcases Nat.eq_zero_or_pos left with rfl | pos'
        · simp only [Nat.zero_mul, Nat.pow_zero, Nat.lt_one_iff] at room'
          exact absurd room' further
        · exact pos'
      have whole := group_add result group (v % 128) (v / 128)
      rw [Nat.mod_add_div] at whole
      rw [List.cons_append, varintGroups_cons low, half, if_neg (by omega), if_neg (by omega),
        ih (group_lt low) room' (whole ▸ fits) (fun _ => further) pos', whole]

theorem varint_writer (fits : v ≤ u32Max) (rest : Bytes) : varint (Writer.varint v ++ rest) = .ok (v, rest) := by
  have room : v < 2 ^ (5 * 7) := lt_of_le_of_lt fits (by decide)
  have read : varintGroups 0 0 5 (Writer.varint v ++ rest) = .ok (0 + v * 2 ^ (0 * 7), rest) :=
    varintGroups_writer (by decide) room (by omega) (by omega) (by omega)
  rw [Nat.zero_mul, Nat.pow_zero, Nat.mul_one, Nat.zero_add] at read
  exact read

variable {β : Type} (f : Nat → Reader β) (g : Bytes → Reader β)

theorem varint_bind (fits : v ≤ u32Max) (rest : Bytes) : (varint >>= f) (Writer.varint v ++ rest) = f v rest :=
  bind_ok f (varint_writer fits rest)

theorem array_bind (size : xs.length = n) (rest : Bytes) : (array n >>= g) (xs ++ rest) = g xs rest :=
  bind_ok g (array_append size)

theorem u8_bind (b : Nat) (rest : Bytes) : (u8 >>= f) (b :: rest) = f b rest := rfl

theorem varBytes_writer {bytes : Bytes} (fits : bytes.length ≤ u32Max) (rest : Bytes) :
    varBytes (Writer.varint bytes.length ++ bytes ++ rest) = .ok (bytes, rest) := by
  simp only [varBytes, bind, StateT.bind, List.append_assoc, varint_writer fits, Except.bind]
  exact take_append rfl rest

end Reader

end Osl.Ratchet
