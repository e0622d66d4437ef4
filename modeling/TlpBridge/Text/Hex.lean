/-!
# Hexadecimal numbers

Lower-case hexadecimal text of natural numbers: the shortest form, and the form
padded with zeros to a least number of digits. Reading takes digits of either case.
-/
namespace TlpBridge.Text

/-- The hexadecimal digits of `n`, most significant first, without leading zeros. -/
def hexDigits (n : Nat) : List Char := Nat.toDigits 16 n

/-- `n` in hexadecimal without leading zeros; zero is one digit. -/
def hex (n : Nat) : String := String.ofList (hexDigits n)

/-- `n` in hexadecimal, filled with zeros on the left up to `width` digits. -/
def hexPadded (width n : Nat) : String :=
  let digits := hexDigits n
  String.ofList (List.replicate (width - digits.length) '0' ++ digits)

/-- `hex` behind the mark `0x`. -/
def hex0x (n : Nat) : String := "0x" ++ hex n

/-- `hexPadded` behind the mark `0x`, which the width does not count. -/
def hexPadded0x (width n : Nat) : String := "0x" ++ hexPadded width n

/-- Whether a character is a hexadecimal digit in either case. -/
def isHexDigit (c : Char) : Bool :=
  c.isDigit || ('a' ≤ c && c ≤ 'f') || ('A' ≤ c && c ≤ 'F')

/-- The value of a digit of base sixteen. -/
def digitValue (c : Char) : Nat :=
  if c.isDigit then c.toNat - '0'.toNat
  else if 'a' ≤ c then c.toNat - 'a'.toNat + 10
  else c.toNat - 'A'.toNat + 10

/-- The number that digits stand for. -/
def ofDigits (base : Nat) (digits : List Char) : Nat :=
  digits.foldl (fun n c => base * n + digitValue c) 0

/-- Reads a hexadecimal number behind the mark `0x`. -/
def ofHex0x? (s : String) : Option Nat :=
  match s.toList with
  | '0' :: 'x' :: digits => if digits.all isHexDigit then some (ofDigits 16 digits) else none
  | _ => none

/-- Two digits for each byte, in order. -/
def hexBytes (bytes : List UInt8) : String :=
  String.join (bytes.map fun b => hexPadded 2 b.toNat)

/-- The bytes that pairs of digits stand for. -/
def ofHexPairs : List Char → List UInt8
  | a :: b :: rest => UInt8.ofNat (ofDigits 16 [a, b]) :: ofHexPairs rest
  | _ => []

end TlpBridge.Text
