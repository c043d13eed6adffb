import Osl.Base.Word

/-!
# Byte strings and texts

The `[u8; 32]` values that keys, digests and commitments are, and texts as lists of
characters.
-/

namespace Osl

abbrev Digest := Vector UInt8 32

instance : Std.TransOrd Digest := inferInstanceAs (Std.TransOrd (Vector UInt8 32))

/-- `[0u8; 32]`, the placeholder no digest may be. -/
def zeroDigest : Digest := Vector.replicate 32 0

/-- The bytes of an ASCII constant `b".."`. -/
def ascii (s : String) : List UInt8 := s.toUTF8.data.toList

abbrev Text := List Char

/-- `str::len`. -/
def byteLen (t : Text) : Nat := (t.map Char.utf8Size).sum

def asBytes (t : Text) : List UInt8 := t.flatMap String.utf8EncodeChar

theorem asBytes_inj {t t' : Text} (same : asBytes t = asBytes t') : t = t' := by
  have encoded : t.utf8Encode = t'.utf8Encode := by
    rw [List.utf8Encode, List.utf8Encode, show t.flatMap String.utf8EncodeChar = t'.flatMap String.utf8EncodeChar from same]
  exact String.ofList_injective (String.toByteArray_inj.1 encoded)

end Osl
