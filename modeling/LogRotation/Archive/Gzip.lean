/-
  Archives of one nameless content.

    archive  =  header blocks checksum length

  The header may say more than is written here; reading passes over it.  What follows an archive is
  left alone.  Main statement: `decode?_encode`.
-/
import LogRotation.Archive.Checksum
import LogRotation.Archive.Deflate

namespace LogRotation.Archive.Gzip

/-- A header that says nothing but what follows it. -/
def header : Bytes := [0x1f, 0x8b, 8, 0, 0, 0, 0, 0, 0, 255]

/-- Writes an archive. -/
def encode (bytes : Bytes) : Bytes :=
  header ++ (deflate bytes ++ (Bytes.ofNat32 (checksum bytes) ++ Bytes.ofNat32 bytes.length))

/-- Passes over a text that ends in a zero. -/
def skipText? : Bytes → Option Bytes
  | [] => none
  | b :: rest => if b = 0 then some rest else skipText? rest

/-- Passes over so many bytes. -/
def skip? (n : Nat) (bytes : Bytes) : Option Bytes :=
  if bytes.length < n then none else some (bytes.drop n)

/-- Passes over bytes whose count comes first. -/
def skipCounted? (bytes : Bytes) : Option Bytes := do
  let rest ← skip? 2 bytes
  skip? (Bytes.toNat (bytes.take 2)) rest

/-- Passes over the header's own checksum, which must be right. -/
def skipChecksum? (whole bytes : Bytes) : Option Bytes := do
  let rest ← skip? 2 bytes
  let before := whole.take (whole.length - bytes.length)
  if Bytes.toNat (bytes.take 2) = checksum before % 65536 then some rest else none

/-- Passes over a part of the header, if the header has it. -/
def skipPart? (flags : UInt8) (bit : Nat) (skip : Bytes → Option Bytes) (bytes : Bytes) :
    Option Bytes :=
  if flags.toNat.testBit bit then skip bytes else some bytes

/-- What follows the header. -/
def body? (whole : Bytes) : Option Bytes :=
  match whole with
  | 0x1f :: 0x8b :: 8 :: flags :: _ =>
    if 32 ≤ flags.toNat then none
    else do
      let rest ← skip? 10 whole
      let rest ← skipPart? flags 2 skipCounted? rest
      let rest ← skipPart? flags 3 skipText? rest
      let rest ← skipPart? flags 4 skipText? rest
      skipPart? flags 1 (skipChecksum? whole) rest
  | _ => none

/-- Reads an archive. -/
def decode? (archive : Bytes) : Option Bytes := do
  let (bytes, rest) ← inflate? (← body? archive)
  if 8 ≤ rest.length ∧ Bytes.toNat (rest.take 4) = checksum bytes ∧
      Bytes.toNat ((rest.drop 4).take 4) = bytes.length % 4294967296 then some bytes
  else none

/-! ## Laws -/

theorem body?_header (bytes : Bytes) : body? (header ++ bytes) = some bytes := by
  simp [header, body?, skip?, skipPart?]

theorem decode?_encode (bytes : Bytes) : decode? (encode bytes) = some bytes := by
  have check : Bytes.toNat (Bytes.ofNat32 (checksum bytes)) = checksum bytes := by
    rw [Bytes.toNat_ofNat32]; exact Nat.mod_eq_of_lt (checksum_lt bytes)
  have size : Bytes.toNat (Bytes.ofNat32 bytes.length) = bytes.length % 4294967296 :=
    Bytes.toNat_ofNat32 _
  rw [decode?, encode, body?_header]
  simp only [Option.bind_eq_bind, Option.bind_some, inflate_deflate]
  rw [if_pos]
  exact ⟨by simp [Bytes.ofNat32, Bytes.ofNat16], check, size⟩

end LogRotation.Archive.Gzip
