import Mathlib.Algebra.Order.Ring.Nat
import Mathlib.Data.Int.Order.Basic
import Osl.Base.Ideal

/-!
# Fixed-width integers and text in a byte string

Little-endian unsigned integers, signed 64-bit integers in two's complement and
UTF-8 text, each with the read that inverts the write. A signed integer carries
its range and a text its maximal length, so the inverses need no side condition.
-/

namespace Base

/-! ## Unsigned integers -/

/-- `v.to_le_bytes()` of an `n`-byte integer. -/
def toLe : Nat → Nat → Bytes
  | 0, _ => []
  | n + 1, v => v % 256 :: toLe n (v / 256)

/-- `from_le_bytes`. -/
def ofLe : Bytes → Nat
  | [] => 0
  | b :: rest => b + 256 * ofLe rest

@[simp] theorem length_toLe (n v : Nat) : (toLe n v).length = n := by
  induction n generalizing v with
  | zero => rfl
  | succ n ih => rw [toLe, List.length_cons, ih]

theorem ofLe_toLe {n v : Nat} (fits : v < 256 ^ n) : ofLe (toLe n v) = v := by
  induction n generalizing v with
  | zero =>
    rw [Nat.pow_zero, Nat.lt_one_iff] at fits
    rw [fits]
    rfl
  | succ n ih =>
    have rest : v / 256 < 256 ^ n := by
      rw [Nat.div_lt_iff_lt_mul (by decide)]
      rwa [Nat.pow_succ] at fits
    rw [toLe, ofLe, ih rest, Nat.mod_add_div]

theorem toLe_inj {n v w : Nat} (fits : v < 256 ^ n) (fits' : w < 256 ^ n) (same : toLe n v = toLe n w) : v = w := by
  rw [← ofLe_toLe fits, same, ofLe_toLe fits']

variable {bytes : Bytes}

theorem toLe_ofLe (small : ∀ b ∈ bytes, b < 256) : toLe bytes.length (ofLe bytes) = bytes := by
  induction bytes with
  | nil => rfl
  | cons b rest ih =>
    rw [List.forall_mem_cons] at small
    have first : (b + 256 * ofLe rest) % 256 = b := by omega
    have later : (b + 256 * ofLe rest) / 256 = ofLe rest := by omega
    rw [List.length_cons, ofLe, toLe, first, later, ih small.2]

theorem ofLe_lt (small : ∀ b ∈ bytes, b < 256) : ofLe bytes < 256 ^ bytes.length := by
  induction bytes with
  | nil => decide
  | cons b rest ih =>
    rw [List.forall_mem_cons] at small
    have later := ih small.2
    rw [List.length_cons, Nat.pow_succ, ofLe]
    omega

/-! ## Signed integers -/

/-- `i64`. -/
abbrev I64 := { v : Int // -2 ^ 63 ≤ v ∧ v < 2 ^ 63 }

namespace I64

instance : LinearOrder I64 := @Subtype.instLinearOrder Int Int.instLinearOrder _

def zero : I64 := ⟨0, by decide⟩
def one : I64 := ⟨1, by decide⟩

/-- `checked_add(1)`. -/
def next? (v : I64) : Option I64 :=
  if h : v.1 + 1 < 2 ^ 63 then some ⟨v.1 + 1, by have := v.2; omega⟩ else none

theorem next?_val {v w : I64} (next : v.next? = some w) : w.1 = v.1 + 1 := by
  unfold next? at next
  split at next
  · cases next
    rfl
  · cases next

def toLe (v : I64) : Bytes := Base.toLe 8 (v.1 % 2 ^ 64).toNat

/-- The low 64 bits, read as two's complement. -/
def ofLe (bytes : Bytes) : I64 :=
  let u : Nat := Base.ofLe bytes % 2 ^ 64
  if h : u < 2 ^ 63 then ⟨(u : Int), by omega⟩ else ⟨(u : Int) - 2 ^ 64, by omega⟩

@[simp] theorem length_toLe (v : I64) : v.toLe.length = 8 := Base.length_toLe ..

theorem ofLe_toLe (v : I64) : ofLe v.toLe = v := by
  obtain ⟨v, low, high⟩ := v
  have fits : (v % 2 ^ 64).toNat < 256 ^ 8 := by omega
  have whole : Base.ofLe (Base.toLe 8 (v % 2 ^ 64).toNat) % 2 ^ 64 = (v % 2 ^ 64).toNat := by
    rw [Base.ofLe_toLe fits]
    exact Nat.mod_eq_of_lt (by omega)
  apply Subtype.ext
  simp only [ofLe, toLe, whole]
  split <;> simp only [] <;> omega

theorem toLe_inj {v w : I64} (same : v.toLe = w.toLe) : v = w := by
  rw [← ofLe_toLe v, same, ofLe_toLe w]

end I64

/-! ## Text -/

/-- `s.as_bytes()`. -/
def utf8 (s : String) : Bytes := s.toByteArray.data.toList.map UInt8.toNat

/-- `String::from_utf8`. -/
def fromUtf8 (bytes : Bytes) : Option String :=
  if bytes.all (· < 256) then String.fromUTF8? ⟨(bytes.map UInt8.ofNat).toArray⟩ else none

theorem utf8_inj {s t : String} (same : utf8 s = utf8 t) : s = t := by
  have bytes : s.toByteArray.data.toList = t.toByteArray.data.toList :=
    List.map_injective_iff.2 (fun a b h => UInt8.toNat_inj.1 h) same
  exact String.toByteArray_inj.1 (ByteArray.ext (Array.toList_inj.1 bytes))

theorem fromUtf8_utf8 {s : String} : fromUtf8 (utf8 s) = some s := by
  have small : (utf8 s).all (· < 256) = true := by
    rw [List.all_eq_true]
    intro b mem
    obtain ⟨u, -, rfl⟩ := List.mem_map.1 mem
    exact decide_eq_true u.toNat_lt
  have bytes : ((utf8 s).map UInt8.ofNat).toArray = s.toByteArray.data := by
    rw [utf8, List.map_map]
    have same : (UInt8.ofNat ∘ UInt8.toNat) = id := funext fun u => UInt8.ofNat_toNat
    rw [same, List.map_id]
  rw [fromUtf8, if_pos small, bytes]
  exact dif_pos s.isValidUTF8

end Base
