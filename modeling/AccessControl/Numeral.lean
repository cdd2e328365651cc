import AccessControl.Bytes

/-!
# Numerals

Numbers in running text. They are written without leading zeros; a reader takes an optional plus
sign, then at least one digit of the base, and refuses a number that is not below its limit.
Bytes are written as two lower-case hexadecimal digits each.
-/

namespace AccessControl.Numeral

/-- The value of a character as a digit, letters of either case standing for ten and up. -/
def digit? (base : Nat) (c : Char) : Option Nat :=
  let value? :=
    if '0' ≤ c ∧ c ≤ '9' then some (c.toNat - '0'.toNat)
    else if 'a' ≤ c ∧ c ≤ 'z' then some (c.toNat - 'a'.toNat + 10)
    else if 'A' ≤ c ∧ c ≤ 'Z' then some (c.toNat - 'A'.toNat + 10)
    else none
  value?.filter (· < base)

/-- Continues a number, whose digits so far have the value `acc`, by more digits. -/
def readDigits? (base : Nat) : Nat → List Char → Option Nat
  | acc, [] => some acc
  | acc, c :: cs => do readDigits? base (acc * base + (← digit? base c)) cs

/-- The text without one plus sign at its start. -/
def dropPlus : List Char → List Char
  | '+' :: cs => cs
  | cs => cs

/-- The number below `limit` that a text stands for: an optional plus sign, then digits. -/
def read? (base limit : Nat) (cs : List Char) : Option Nat :=
  match dropPlus cs with
  | [] => none
  | ds => (readDigits? base 0 ds).filter (· < limit)

/-- The decimal numeral of a number. -/
def decimal (n : Nat) : List Char := Nat.toDigits 10 n

/-- The octal numeral of a number. -/
def octal (n : Nat) : List Char := Nat.toDigits 8 n

/-- The hexadecimal numeral of a number, in lower case. -/
def hex (n : Nat) : List Char := Nat.toDigits 16 n

/-- The hexadecimal numeral of a number, in upper case. -/
def upperHex (n : Nat) : List Char := (hex n).map Char.toUpper

/-- The hexadecimal numeral of a number, with zeros in front up to `width` digits. -/
def paddedHex (width n : Nat) : List Char :=
  List.replicate (width - (hex n).length) '0' ++ hex n

/-- The two hexadecimal digits of a byte. -/
def hexByte (b : UInt8) : List Char :=
  [Nat.digitChar (b.toNat / 16), Nat.digitChar (b.toNat % 16)]

/-- Two hexadecimal digits for each byte. -/
def hexBytes (b : Bytes) : List Char := b.flatMap hexByte

/-- The byte that two hexadecimal digits stand for. -/
def byte? (hi lo : Char) : Option UInt8 := do
  return UInt8.ofNat (16 * (← digit? 16 hi) + (← digit? 16 lo))

/-- The bytes that pairs of hexadecimal digits stand for. -/
def bytes? : List Char → Option Bytes
  | [] => some []
  | [_] => none
  | hi :: lo :: cs => do return (← byte? hi lo) :: (← bytes? cs)

end AccessControl.Numeral
