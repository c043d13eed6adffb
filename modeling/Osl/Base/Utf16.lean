import Mathlib.Algebra.Order.Ring.Nat
import Mathlib.Data.List.Sort

/-!
# Strings of 16-bit units

A string of a language whose strings are 16-bit units need not be text: a unit of
`0xD800..0xDFFF` stands for half of a character, and nothing makes the halves come in pairs.
`toScalars` reads such a string as text and puts U+FFFD for every half without its partner;
`ofScalars` writes text as units. Reading back what was written gives the same text, so two
strings are read alike exactly when they have the same `toWellFormed`.
-/

namespace Base.Utf16

abbrev CodeUnits := List UInt16

/-- The first half of a surrogate pair. -/
def isHigh (u : UInt16) : Bool := decide (0xD800 ≤ u.toNat ∧ u.toNat < 0xDC00)

/-- The second half of a surrogate pair. -/
def isLow (u : UInt16) : Bool := decide (0xDC00 ≤ u.toNat ∧ u.toNat < 0xE000)

def pair (u v : UInt16) : Char := Char.ofNat (0x10000 + (u.toNat - 0xD800) * 0x400 + (v.toNat - 0xDC00))

/-- A unit on its own. -/
def single (u : UInt16) : Char := if isHigh u || isLow u then Char.ofNat 0xFFFD else Char.ofNat u.toNat

/-- The text of a string, halves without a partner replaced. -/
def toScalars : CodeUnits → List Char
  | [] => []
  | [u] => [single u]
  | u :: v :: rest => if isHigh u && isLow v then pair u v :: toScalars rest else single u :: toScalars (v :: rest)

def ofChar (c : Char) : CodeUnits :=
  if c.toNat < 0x10000 then [UInt16.ofNat c.toNat]
  else [UInt16.ofNat (0xD800 + (c.toNat - 0x10000) / 0x400), UInt16.ofNat (0xDC00 + (c.toNat - 0x10000) % 0x400)]

def ofScalars (text : List Char) : CodeUnits := text.flatMap ofChar

def toWellFormed (s : CodeUnits) : CodeUnits := ofScalars (toScalars s)

theorem toScalars_cons_of_not_high {u : UInt16} (plain : isHigh u = false) {rest : CodeUnits} :
    toScalars (u :: rest) = single u :: toScalars rest := by
  cases rest with
  | nil => rfl
  | cons v rest => simp [toScalars, plain]

private theorem valid (c : Char) : c.toNat < 0xD800 ∨ 0xDFFF < c.toNat ∧ c.toNat < 0x110000 := c.valid

variable {c : Char}

private theorem toScalars_bmp (small : c.toNat < 0x10000) (rest : CodeUnits) :
    toScalars (UInt16.ofNat c.toNat :: rest) = c :: toScalars rest := by
  have unit : (UInt16.ofNat c.toNat).toNat = c.toNat := by
    rw [UInt16.toNat_ofNat']
    exact Nat.mod_eq_of_lt small
  have outside := valid c
  have high : isHigh (UInt16.ofNat c.toNat) = false := by
    rw [isHigh, unit, decide_eq_false_iff_not]
    omega
  have low : isLow (UInt16.ofNat c.toNat) = false := by
    rw [isLow, unit, decide_eq_false_iff_not]
    omega
  rw [toScalars_cons_of_not_high high, single, high, low, unit]
  simp [Char.ofNat_toNat]

private theorem toScalars_astral (large : ¬ c.toNat < 0x10000) (rest : CodeUnits) :
    toScalars (UInt16.ofNat (0xD800 + (c.toNat - 0x10000) / 0x400) ::
      UInt16.ofNat (0xDC00 + (c.toNat - 0x10000) % 0x400) :: rest) = c :: toScalars rest := by
  have outside := valid c
  have first : (UInt16.ofNat (0xD800 + (c.toNat - 0x10000) / 0x400)).toNat = 0xD800 + (c.toNat - 0x10000) / 0x400 := by
    rw [UInt16.toNat_ofNat']
    exact Nat.mod_eq_of_lt (by omega)
  have second : (UInt16.ofNat (0xDC00 + (c.toNat - 0x10000) % 0x400)).toNat = 0xDC00 + (c.toNat - 0x10000) % 0x400 := by
    rw [UInt16.toNat_ofNat']
    exact Nat.mod_eq_of_lt (by omega)
  have high : isHigh (UInt16.ofNat (0xD800 + (c.toNat - 0x10000) / 0x400)) = true := by
    rw [isHigh, first, decide_eq_true_eq]
    omega
  have low : isLow (UInt16.ofNat (0xDC00 + (c.toNat - 0x10000) % 0x400)) = true := by
    rw [isLow, second, decide_eq_true_eq]
    omega
  have whole : pair (UInt16.ofNat (0xD800 + (c.toNat - 0x10000) / 0x400))
      (UInt16.ofNat (0xDC00 + (c.toNat - 0x10000) % 0x400)) = c := by
    rw [pair, first, second]
    have same : 0x10000 + (0xD800 + (c.toNat - 0x10000) / 0x400 - 0xD800) * 0x400 +
        (0xDC00 + (c.toNat - 0x10000) % 0x400 - 0xDC00) = c.toNat := by omega
    rw [same, Char.ofNat_toNat]
  rw [toScalars, high, low, whole]
  rfl

theorem toScalars_ofScalars (text : List Char) : toScalars (ofScalars text) = text := by
  induction text with
  | nil => rfl
  | cons c text ih =>
    rw [ofScalars, List.flatMap_cons, ← ofScalars, ofChar]
    split
    · next small => rw [List.singleton_append, toScalars_bmp small, ih]
    · next large => rw [List.cons_append, List.singleton_append, toScalars_astral large, ih]

theorem ofScalars_inj {t t' : List Char} (same : ofScalars t = ofScalars t') : t = t' := by
  rw [← toScalars_ofScalars t, same, toScalars_ofScalars]

@[simp] theorem toWellFormed_ofScalars (t : List Char) : toWellFormed (ofScalars t) = ofScalars t := by
  rw [toWellFormed, toScalars_ofScalars]

end Base.Utf16
