/-
  Bytes, their text, and what a file holds.

  A log grows at its end, one record after the other, so a content keeps its bytes with the newest
  one in front: adding a record costs what the record is long.  `Content.bytes` is the view that all
  statements are about, and `bytes_append` says what an addition does to it.
-/

namespace LogRotation

/-- A sequence of bytes. -/
abbrev Bytes := List UInt8

namespace Bytes

/-- The bytes of a text. -/
def ofText (text : String) : Bytes := text.toUTF8.data.toList

/-- The text that bytes stand for, if they do. -/
def text? (bytes : Bytes) : Option String := String.fromUTF8? ⟨bytes.toArray⟩

/-- A number as two bytes, the low one first. -/
def ofNat16 (n : Nat) : Bytes := [UInt8.ofNat n, UInt8.ofNat (n / 256)]

/-- A number as four bytes, the low one first. -/
def ofNat32 (n : Nat) : Bytes := ofNat16 n ++ ofNat16 (n / 65536)

/-- The number that bytes stand for, the low one first. -/
def toNat : Bytes → Nat
  | [] => 0
  | b :: rest => b.toNat + 256 * toNat rest

theorem toNat_ofNat16 (n : Nat) : toNat (ofNat16 n) = n % 65536 := by
  simp only [ofNat16, toNat, UInt8.toNat_ofNat']
  omega

theorem toNat_ofNat32 (n : Nat) : toNat (ofNat32 n) = n % 4294967296 := by
  simp only [ofNat32, ofNat16, List.cons_append, List.nil_append, toNat, UInt8.toNat_ofNat']
  omega

theorem text?_ofText (s : String) : text? (ofText s) = some s := by
  show String.fromUTF8? s.toUTF8 = some s
  unfold String.fromUTF8?
  exact dif_pos s.isValidUTF8

end Bytes

/-! ## Contents -/

/-- What a file holds. -/
structure Content where
  newestFirst : Bytes
  deriving DecidableEq, Repr

namespace Content

/-- The content of a new file. -/
def empty : Content := ⟨[]⟩

/-- The content of given bytes. -/
def ofBytes (bytes : Bytes) : Content := ⟨bytes.reverse⟩

/-- The bytes of a content, the oldest one first. -/
def bytes (c : Content) : Bytes := c.newestFirst.reverse

/-- Adds bytes at the end. -/
def append (c : Content) (bytes : Bytes) : Content := ⟨bytes.reverseAux c.newestFirst⟩

@[simp] theorem bytes_empty : empty.bytes = [] := rfl

@[simp] theorem bytes_ofBytes (bytes : Bytes) : (ofBytes bytes).bytes = bytes := by
  simp [ofBytes, Content.bytes]

@[simp] theorem bytes_append (c : Content) (bytes : Bytes) :
    (c.append bytes).bytes = c.bytes ++ bytes := by
  simp [append, Content.bytes, List.reverseAux_eq]

end Content

end LogRotation
