/-
  The compressed form inside archives, as a sequence of blocks.

  Writing uses one kind of block alone, in which the bytes are stored as they are.  Reading knows all
  three kinds: stored bytes, and two in which a code of bits stands for bytes and for repetitions of
  bytes that came before.

    * BITS      the low bit of a byte comes first;
    * CODE      the bit strings of one length are consecutive numbers, given to the symbols in order,
                so that the lengths alone say what the code is (`Code.ofLengths?`);
    * REPEAT    a length and a distance: that many bytes again, from that far back.

  Main definitions: `deflate`, `inflate?`.  Main statement: `inflate_deflate`, reading what was written
  gives the bytes back and leaves what follows them.
-/
import LogRotation.Bytes

namespace LogRotation.Archive

/-! ## Writing -/

/-- The greatest count of bytes in a stored block. -/
def maxStored : Nat := 65535

/-- One block of stored bytes. -/
def storedBlock (final : Bool) (bytes : Bytes) : Bytes :=
  (if final then 1 else 0) ::
    (Bytes.ofNat16 bytes.length ++ (Bytes.ofNat16 (maxStored - bytes.length) ++ bytes))

/-- Writes bytes as blocks. -/
def deflate (bytes : Bytes) : Bytes :=
  if bytes.length ≤ maxStored then storedBlock true bytes
  else storedBlock false (bytes.take maxStored) ++ deflate (bytes.drop maxStored)
termination_by bytes.length
decreasing_by simp only [List.length_drop, maxStored] at *; omega

/-! ## Bits -/

/-- A place among bits: the bits that are left of a byte, and the bytes after it. -/
structure Bits where
  begun : List Bool
  rest : Bytes
  deriving DecidableEq, Repr

namespace Bits

/-- The eight bits of a byte. -/
def ofByte (b : UInt8) : List Bool := (List.range 8).map fun i => b.toNat.testBit i

/-- Reads one bit. -/
def next? (b : Bits) : Option (Bool × Bits) :=
  match b.begun, b.rest with
  | x :: begun, rest => some (x, ⟨begun, rest⟩)
  | [], byte :: rest => some (byte.toNat.testBit 0, ⟨(ofByte byte).drop 1, rest⟩)
  | [], [] => none

/-- Reads a number of so many bits, the low one first. -/
def number? : Nat → Bits → Option (Nat × Bits)
  | 0, b => some (0, b)
  | n + 1, b => do
    let (x, b) ← b.next?
    let (high, b) ← number? n b
    return (x.toNat + 2 * high, b)

/-- The count of bits that are left. -/
def count (b : Bits) : Nat := b.begun.length + 8 * b.rest.length

end Bits

/-! ## Codes -/

/-- The symbols of a code: those with bit strings of length 1, of length 2, and so on. -/
structure Code where
  rows : List (List Nat)
  deriving DecidableEq, Repr

namespace Code

/-- The greatest length of a bit string. -/
def maxLength : Nat := 15

/-- The code in which each symbol has a bit string of the given length, 0 meaning none.  The strings
must use up all there are, unless there is one symbol at most. -/
def ofLengths? (lengths : List Nat) : Option Code :=
  let row (n : Nat) : List Nat :=
    (List.range lengths.length).filter fun s => lengths[s]? == some (n + 1)
  let rows := (List.range maxLength).map row
  let used := rows.flatten.length
  let weigh (w n : Nat) : Nat := w + (row n).length * Nat.pow 2 (maxLength - (n + 1))
  let weight := (List.range maxLength).foldl weigh 0
  if used ≤ 1 ∨ weight = Nat.pow 2 maxLength then some ⟨rows⟩ else none

/-- Reads one symbol along the rows.  `string` is the number that was read so far, and `first` is the
first number of this length. -/
def symbolIn? : List (List Nat) → Nat → Nat → Bits → Option (Nat × Bits)
  | [], _, _, _ => none
  | row :: rows, string, first, b => do
    let (x, b) ← b.next?
    let string := 2 * string + x.toNat
    let first := 2 * first
    if string < first + row.length then
      let s ← row[string - first]?
      return (s, b)
    else symbolIn? rows string (first + row.length) b

/-- Reads one symbol. -/
def symbol? (code : Code) (b : Bits) : Option (Nat × Bits) := symbolIn? code.rows 0 0 b

end Code

/-! ## Blocks with a code -/

/-- What a symbol from 257 on stands for: the least length, and the count of bits added to it. -/
def repeatLengths : List (Nat × Nat) :=
  [(3, 0), (4, 0), (5, 0), (6, 0), (7, 0), (8, 0), (9, 0), (10, 0), (11, 1), (13, 1), (15, 1), (17, 1),
   (19, 2), (23, 2), (27, 2), (31, 2), (35, 3), (43, 3), (51, 3), (59, 3), (67, 4), (83, 4), (99, 4),
   (115, 4), (131, 5), (163, 5), (195, 5), (227, 5), (258, 0)]

/-- What a symbol of a distance stands for: the least distance, and the count of bits added to it. -/
def repeatDistances : List (Nat × Nat) :=
  [(1, 0), (2, 0), (3, 0), (4, 0), (5, 1), (7, 1), (9, 2), (13, 2), (17, 3), (25, 3), (33, 4), (49, 4),
   (65, 5), (97, 5), (129, 6), (193, 6), (257, 7), (385, 7), (513, 8), (769, 8), (1025, 9), (1537, 9),
   (2049, 10), (3073, 10), (4097, 11), (6145, 11), (8193, 12), (12289, 12), (16385, 13), (24577, 13)]

/-- Reads the number that a symbol stands for. -/
def extended? (table : List (Nat × Nat)) (symbol : Nat) (b : Bits) : Option (Nat × Bits) := do
  let (least, count) ← table[symbol]?
  let (more, b) ← b.number? count
  return (least + more, b)

/-- Adds bytes again, each from the same distance back.  The newest byte is in front. -/
def repeated? (distance : Nat) : Nat → Bytes → Option Bytes
  | 0, out => some out
  | n + 1, out =>
    match out[distance - 1]? with
    | some b => repeated? distance n (b :: out)
    | none => none

/-- Reads the symbols of one block.  Each takes a bit at least, so that the count of bits bounds them. -/
def symbols? (literals distances : Code) : Nat → Bytes → Bits → Option (Bytes × Bits)
  | 0, _, _ => none
  | fuel + 1, out, b => do
    let (s, b) ← literals.symbol? b
    if s < 256 then symbols? literals distances fuel (UInt8.ofNat s :: out) b
    else if s = 256 then return (out, b)
    else
      let (length, b) ← extended? repeatLengths (s - 257) b
      let (d, b) ← distances.symbol? b
      let (distance, b) ← extended? repeatDistances d b
      let out ← repeated? distance length out
      symbols? literals distances fuel out b

/-- The lengths of the code that needs no description. -/
def fixedLengths : List Nat :=
  List.replicate 144 8 ++ List.replicate 112 9 ++ List.replicate 24 7 ++ List.replicate 8 8

/-- The order in which the lengths of the lengths' own code are written. -/
def lengthOrder : List Nat := [16, 17, 18, 0, 8, 7, 9, 6, 10, 5, 11, 4, 12, 3, 13, 2, 14, 1, 15]

/-- Reads numbers of three bits each. -/
def triples? : Nat → Bits → Option (List Nat × Bits)
  | 0, b => some ([], b)
  | n + 1, b => do
    let (x, b) ← b.number? 3
    let (xs, b) ← triples? n b
    return (x :: xs, b)

/-- Reads lengths until there are `total` of them.  Three symbols stand for repetitions. -/
def lengths? (code : Code) (total : Nat) : Nat → List Nat → Bits → Option (List Nat × Bits)
  | 0, _, _ => none
  | fuel + 1, out, b =>
    if total ≤ out.length then if out.length = total then some (out, b) else none
    else do
      let (s, b) ← code.symbol? b
      if s < 16 then lengths? code total fuel (out ++ [s]) b
      else if s = 16 then
        let last ← out.getLast?
        let (n, b) ← b.number? 2
        lengths? code total fuel (out ++ List.replicate (3 + n) last) b
      else if s = 17 then
        let (n, b) ← b.number? 3
        lengths? code total fuel (out ++ List.replicate (3 + n) 0) b
      else
        let (n, b) ← b.number? 7
        lengths? code total fuel (out ++ List.replicate (11 + n) 0) b

/-- Reads the description of two codes. -/
def codes? (b : Bits) : Option ((Code × Code) × Bits) := do
  let (literalCount, b) ← b.number? 5
  let (distanceCount, b) ← b.number? 5
  let (lengthCount, b) ← b.number? 4
  let (xs, b) ← triples? (lengthCount + 4) b
  let written := lengthOrder.zip xs
  let code ← Code.ofLengths? ((List.range 19).map fun i => (written.lookup i).getD 0)
  let total := literalCount + 257 + (distanceCount + 1)
  let (lengths, b) ← lengths? code total (total + 1) [] b
  let literals ← Code.ofLengths? (lengths.take (literalCount + 257))
  let distances ← Code.ofLengths? (lengths.drop (literalCount + 257))
  return ((literals, distances), b)

/-! ## Reading -/

/-- Reads the bytes of a stored block, which begin with the next byte. -/
def stored? (out : Bytes) (b : Bits) : Option (Bytes × Bits) :=
  let n := Bytes.toNat (b.rest.take 2)
  let check := Bytes.toNat ((b.rest.drop 2).take 2)
  let rest := b.rest.drop 4
  if b.rest.length < 4 ∨ n + check ≠ maxStored ∨ rest.length < n then none
  else some ((rest.take n).reverse ++ out, ⟨[], rest.drop n⟩)

/-- Reads one block; the first part of the result says whether it is the last one. -/
def block? (out : Bytes) (b : Bits) : Option (Bool × Bytes × Bits) := do
  let (final, b) ← b.next?
  let (kind, b) ← b.number? 2
  match kind with
  | 0 =>
    let (out, b) ← stored? out b
    return (final, out, b)
  | 1 =>
    let literals ← Code.ofLengths? fixedLengths
    let distances ← Code.ofLengths? (List.replicate 32 5)
    let (out, b) ← symbols? literals distances (b.count + 1) out b
    return (final, out, b)
  | 2 =>
    let ((literals, distances), b) ← codes? b
    let (out, b) ← symbols? literals distances (b.count + 1) out b
    return (final, out, b)
  | _ => none

/-- Reads blocks to the last one.  Each takes a bit at least, so that the count of bits bounds them. -/
def blocks? : Nat → Bytes → Bits → Option (Bytes × Bits)
  | 0, _, _ => none
  | fuel + 1, out, b =>
    match block? out b with
    | none => none
    | some (true, out, b) => some (out, b)
    | some (false, out, b) => blocks? fuel out b

/-- Reads bytes from blocks, and gives what follows the last block. -/
def inflate? (bytes : Bytes) : Option (Bytes × Bytes) :=
  (blocks? (8 * bytes.length + 1) [] ⟨[], bytes⟩).map fun (out, b) => (out.reverse, b.rest)

/-! ## Laws -/

theorem length_ofNat16 (n : Nat) : (Bytes.ofNat16 n).length = 2 := rfl

theorem stored?_ofNat16 (out piece tail : Bytes) (begun : List Bool) (h : piece.length ≤ maxStored) :
    stored? out ⟨begun, Bytes.ofNat16 piece.length ++ (Bytes.ofNat16 (maxStored - piece.length) ++
      (piece ++ tail))⟩ = some (piece.reverse ++ out, ⟨[], tail⟩) := by
  have h1 : Bytes.toNat (Bytes.ofNat16 piece.length) = piece.length := by
    rw [Bytes.toNat_ofNat16]; simp only [maxStored] at h; omega
  have h2 : Bytes.toNat (Bytes.ofNat16 (maxStored - piece.length)) = maxStored - piece.length := by
    rw [Bytes.toNat_ofNat16]; simp only [maxStored] at h ⊢; omega
  unfold stored?
  simp only [Bytes.ofNat16, List.cons_append, List.nil_append, List.take_succ_cons, List.take_zero,
    List.drop_succ_cons, List.drop_zero, List.length_cons, List.length_append] at h1 h2 ⊢
  rw [h1, h2, if_neg (by simp only [maxStored] at h ⊢; omega)]
  simp

theorem block?_storedBlock (final : Bool) (out piece tail : Bytes) (h : piece.length ≤ maxStored) :
    block? out ⟨[], storedBlock final piece ++ tail⟩ =
      some (final, piece.reverse ++ out, ⟨[], tail⟩) := by
  have h1 : Nat.testBit 1 1 = false := by decide
  have h2 : Nat.testBit 1 2 = false := by decide
  cases final <;>
  · simp only [storedBlock, List.cons_append, List.append_assoc]
    unfold block?
    simp [Bits.next?, Bits.number?, Bits.ofByte, List.range, List.range.loop, h1, h2,
      stored?_ofNat16 _ _ _ _ h]

theorem length_storedBlock (final : Bool) (piece : Bytes) :
    (storedBlock final piece).length = piece.length + 5 := by
  simp [storedBlock, length_ofNat16]; omega

theorem blocks?_deflate (bytes tail out : Bytes) {fuel : Nat} (h : bytes.length < fuel) :
    blocks? fuel out ⟨[], deflate bytes ++ tail⟩ = some (bytes.reverse ++ out, ⟨[], tail⟩) := by
  fun_induction deflate bytes generalizing fuel out with
  | case1 bytes small =>
    obtain ⟨n, rfl⟩ : ∃ n, fuel = n + 1 := ⟨fuel - 1, by omega⟩
    simp [blocks?, block?_storedBlock _ _ _ _ small]
  | case2 bytes large ih =>
    obtain ⟨n, rfl⟩ : ∃ n, fuel = n + 1 := ⟨fuel - 1, by omega⟩
    have first : (bytes.take maxStored).length ≤ maxStored := List.length_take_le ..
    have rest : (bytes.drop maxStored).length < n := by
      simp only [List.length_drop, maxStored] at *; omega
    rw [List.append_assoc, blocks?, block?_storedBlock _ _ _ _ first]
    simp only [ih _ rest, ← List.append_assoc, ← List.reverse_append, List.take_append_drop]

theorem length_le_length_deflate (bytes : Bytes) : bytes.length ≤ (deflate bytes).length := by
  fun_induction deflate bytes with
  | case1 bytes small => rw [length_storedBlock]; omega
  | case2 bytes large ih =>
    simp only [List.length_append, length_storedBlock, List.length_take, List.length_drop] at *; omega

theorem inflate_deflate (bytes tail : Bytes) :
    inflate? (deflate bytes ++ tail) = some (bytes, tail) := by
  have := length_le_length_deflate bytes
  rw [inflate?, blocks?_deflate bytes tail [] (by simp only [List.length_append]; omega)]
  simp

end LogRotation.Archive
