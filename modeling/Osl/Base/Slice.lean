import Mathlib.Algebra.Order.Ring.Nat
import Mathlib.Data.List.Sort

/-!
# Slices of a framed buffer

A frame is a concatenation of fields; a decoder reads it back by offset and
length. The lemmas compute such a read: past a field, inside the field, and
inside the `i`-th of equally long chunks.
-/

namespace Base

variable {α : Type*} {len off size i : Nat} {xs ys chunk : List α} {chunks : List (List α)}

/-- `&xs[off..off + len]`. -/
def slice (off len : Nat) (xs : List α) : List α := (xs.drop off).take len

theorem slice_append_right (past : xs.length ≤ off) : slice off len (xs ++ ys) = slice (off - xs.length) len ys := by
  unfold slice
  rw [List.drop_append, List.drop_eq_nil_of_le past, List.nil_append]

theorem slice_append_left (inside : off + len ≤ xs.length) : slice off len (xs ++ ys) = slice off len xs := by
  unfold slice
  rw [List.drop_append_of_le_length (by omega), List.take_append_of_le_length (by simp; omega)]

theorem slice_self (whole : xs.length = len) : slice 0 len xs = xs := by
  simp [slice, ← whole]

/-- A field read at the front. -/
theorem slice_field (whole : xs.length = len) : slice 0 len (xs ++ ys) = xs := by
  rw [slice_append_left (by omega), slice_self whole]

/-- A read past the first field. -/
theorem slice_skip (whole : xs.length = size) : slice (off + size) len (xs ++ ys) = slice off len ys := by
  rw [slice_append_right (by omega), whole, Nat.add_sub_cancel]

/-- A read inside the `i`-th chunk of equal chunks. -/
theorem slice_flatten
    (equal : ∀ c ∈ chunks, c.length = size) (get : chunks[i]? = some chunk) (inside : off + len ≤ size) :
    slice (i * size + off) len chunks.flatten = slice off len chunk := by
  induction chunks generalizing i with
  | nil => simp at get
  | cons c chunks ih =>
    have head : c.length = size := equal c (by simp)
    cases i with
    | zero =>
      obtain rfl : c = chunk := by simpa using get
      rw [Nat.zero_mul, Nat.zero_add, List.flatten_cons, slice_append_left (by omega)]
    | succ i =>
      rw [List.flatten_cons, slice_append_right (by rw [head, Nat.succ_mul]; omega), head]
      have : (i + 1) * size + off - size = i * size + off := by rw [Nat.succ_mul]; omega
      rw [this]
      exact ih (fun d mem => equal d (List.mem_cons_of_mem _ mem)) (by simpa using get)

theorem length_flatten_equal
    (equal : ∀ c ∈ chunks, c.length = size) : chunks.flatten.length = chunks.length * size := by
  induction chunks with
  | nil => simp
  | cons c chunks ih =>
    rw [List.flatten_cons, List.length_append, equal c (by simp),
      ih fun d mem => equal d (List.mem_cons_of_mem _ mem), List.length_cons, Nat.succ_mul]
    omega

end Base
