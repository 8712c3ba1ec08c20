/-
  The checksum of archives: the cyclic redundancy check of 32 bits.

  A remainder is carried over the bytes from the first to the last, and its bits are handled one at a
  time: a set low bit stands for one more subtraction of the generator.
-/
import LogRotation.Bytes

namespace LogRotation.Archive

/-- The generator, with its highest power left out and the lowest one in front. -/
def generator : UInt32 := 0xEDB88320

/-- Carries a remainder over one bit. -/
def remainderBit (r : UInt32) : UInt32 := if r % 2 = 1 then (r / 2) ^^^ generator else r / 2

/-- Carries a remainder over one byte. -/
def remainderByte (r : UInt32) (b : UInt8) : UInt32 :=
  Nat.repeat remainderBit 8 (r ^^^ b.toUInt32)

/-- The checksum of bytes. -/
def checksum (bytes : Bytes) : Nat := (bytes.foldl remainderByte 0xFFFFFFFF ^^^ 0xFFFFFFFF).toNat

theorem checksum_lt (bytes : Bytes) : checksum bytes < 4294967296 := UInt32.toNat_lt _

example : checksum [] = 0 := by decide
example : checksum (Bytes.ofText "123456789") = 0xCBF43926 := by decide +kernel

end LogRotation.Archive
