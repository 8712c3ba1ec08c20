/-
  Characters and digits shared by the readers and printers of this library.

  A text is handled as a list of characters wherever it is taken apart, so that a reader is a
  recursion on the data.  Three small matters live here because more than one noun needs them:

    * BLANKS     the characters with the Unicode property White_Space; a value made of blanks alone
                 counts as missing, and zone names are read between blanks;
    * CASE       two words that differ in the case of ASCII letters only are the same keyword;
    * DIGITS     decimal numbers, either in a fixed number of places or in as few as they need.
-/

namespace LogRotation.Text

/-! ## Blanks -/

/-- Holds of the characters with the Unicode property White_Space. -/
def isBlank (c : Char) : Bool :=
  let n := c.toNat
  (9 ≤ n && n ≤ 13) || n == 0x20 || n == 0x85 || n == 0xA0 || n == 0x1680 ||
    (0x2000 ≤ n && n ≤ 0x200A) || n == 0x2028 || n == 0x2029 || n == 0x202F || n == 0x205F ||
    n == 0x3000

/-- Drops the blanks at both ends. -/
def trim (cs : List Char) : List Char :=
  ((cs.dropWhile isBlank).reverse.dropWhile isBlank).reverse

/-- Holds when nothing but blanks is there. -/
def allBlank (cs : List Char) : Bool := cs.all isBlank

/-! ## Letters -/

/-- Holds of the fifty-two letters of ASCII. -/
def isLetter (c : Char) : Bool :=
  let n := c.toNat
  (65 ≤ n && n ≤ 90) || (97 ≤ n && n ≤ 122)

/-- Lower-cases the letters of ASCII and leaves every other character alone. -/
def lowerAscii (c : Char) : Char :=
  if 65 ≤ c.toNat ∧ c.toNat ≤ 90 then Char.ofNat (c.toNat + 32) else c

/-- Equality of words up to the case of ASCII letters. -/
def sameWord (a b : List Char) : Bool := a.map lowerAscii == b.map lowerAscii

/-! ## Digits -/

/-- Writes the last decimal digit of a number. -/
def digit (n : Nat) : Char := Char.ofNat (48 + n % 10)

/-- Writes the last `width` decimal digits of a number, the leading zeros included. -/
def fixed : Nat → Nat → List Char
  | 0, _ => []
  | width + 1, n => fixed width (n / 10) ++ [digit n]

/-- Writes a number in as few decimal digits as it needs. -/
def decimal (n : Nat) : List Char := Nat.toDigits 10 n

/-- Writes a number in `width` digits, or in more if it needs more. -/
def atLeast (width n : Nat) : List Char :=
  if n < Nat.pow 10 width then fixed width n else decimal n

/-- Holds of the ten digits of ASCII. -/
def isDigit (c : Char) : Bool := 48 ≤ c.toNat && c.toNat ≤ 57

/-- Reads the value of a digit. -/
def digitValue (c : Char) : Nat := c.toNat - 48

/-- Reads the number that a run of digits writes. -/
def numberOf (cs : List Char) : Nat := cs.foldl (fun n c => 10 * n + digitValue c) 0

/-- Reads the value of a hexadecimal digit. -/
def hexValue? (c : Char) : Option Nat :=
  let n := c.toNat
  if 48 ≤ n ∧ n ≤ 57 then some (n - 48)
  else if 65 ≤ n ∧ n ≤ 70 then some (n - 55)
  else if 97 ≤ n ∧ n ≤ 102 then some (n - 87)
  else none

/-! ## Laws of the digit writers -/

theorem length_fixed (width n : Nat) : (fixed width n).length = width := by
  induction width generalizing n with
  | zero => rfl
  | succ w ih => simp [fixed, ih]

theorem fixed_succ (width n : Nat) : fixed (width + 1) n = fixed width (n / 10) ++ [digit n] := rfl

example : fixed 4 7 = ['0', '0', '0', '7'] := by decide
example : atLeast 4 10000 = ['1', '0', '0', '0', '0'] := by decide
example : trim [' ', 'a', ' ', 'b', '\t'] = ['a', ' ', 'b'] := by decide

end LogRotation.Text
