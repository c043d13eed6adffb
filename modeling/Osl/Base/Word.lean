import Mathlib.Algebra.Order.Ring.Nat
import Mathlib.Data.List.Sort

/-!
# Fixed-width arithmetic on naturals

Machine integers are modelled by naturals. What depends on the width is
written with the operations below: saturating addition and the big- and
little-endian byte forms.
-/

namespace Base

/-- `a.saturating_add(b)` on a `w`-bit unsigned word. -/
def satAdd (w a b : Nat) : Nat := min (a + b) (2 ^ w - 1)

theorem satAdd_eq {w a b : Nat} (h : a + b < 2 ^ w) : satAdd w a b = a + b := by
  unfold satAdd; omega

/-- The `n` low bytes of `v`, least significant first. -/
def leBytes : Nat → Nat → List UInt8
  | 0, _ => []
  | n + 1, v => UInt8.ofNat v :: leBytes n (v / 256)

/-- The `n` low bytes of `v`, most significant first (`to_be_bytes`). -/
def beBytes (n v : Nat) : List UInt8 := (leBytes n v).reverse

theorem length_leBytes {n v : Nat} : (leBytes n v).length = n := by
  induction n generalizing v with
  | zero => rfl
  | succ n ih => rw [leBytes, List.length_cons, ih]

@[simp] theorem length_beBytes {n v : Nat} : (beBytes n v).length = n := by
  rw [beBytes, List.length_reverse, length_leBytes]

theorem leBytes_inj {n v w : Nat} (fits : v < 256 ^ n) (fits' : w < 256 ^ n) (same : leBytes n v = leBytes n w) :
    v = w := by
  induction n generalizing v w with
  | zero => omega
  | succ n ih =>
    obtain ⟨low, high⟩ := List.cons.inj same
    have low' : v % 256 = w % 256 := by
      rw [← UInt8.toNat_ofNat', ← UInt8.toNat_ofNat', low]
    have high' : v / 256 = w / 256 :=
      ih (Nat.div_lt_of_lt_mul (by rwa [Nat.pow_succ, Nat.mul_comm] at fits))
        (Nat.div_lt_of_lt_mul (by rwa [Nat.pow_succ, Nat.mul_comm] at fits')) high
    omega

end Base
