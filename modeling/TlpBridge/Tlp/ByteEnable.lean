/-!
# Byte enables

A request names its bytes by a length in DWORDs and two masks of four bits, for the
first and for the last DWORD. A completion counts the bytes from the first enabled
byte to the last; a request of one DWORD without enables is a fence and counts one.
-/
namespace TlpBridge.ByteEnable

/-- Whether a mask of four bits enables no byte. -/
def isEmpty (mask : UInt8) : Bool := mask.toNat % 16 == 0

/-- Whether a mask enables byte `i` of its DWORD. -/
def enables (mask : UInt8) (i : Nat) : Bool := decide (i < 4) && mask.toNat.testBit i

/-- The bytes before the first enabled one; zero for an empty mask. -/
def leadingGap (mask : UInt8) : Nat :=
  if enables mask 0 then 0
  else if enables mask 1 then 1
  else if enables mask 2 then 2
  else if enables mask 3 then 3
  else 0

/-- The bytes after the last enabled one; four for an empty mask. -/
def trailingGap (mask : UInt8) : Nat :=
  if enables mask 3 then 0
  else if enables mask 2 then 1
  else if enables mask 1 then 2
  else if enables mask 0 then 3
  else 4

/-- The byte count of a completion for a request of `dwordSize` DWORDs, or nothing for a length
and enables that no legal read carries. -/
def byteCount? (dwordSize : Nat) (first last : UInt8) : Option Nat :=
  if dwordSize = 0 then none
  else if isEmpty first then
    if isEmpty last ∧ dwordSize = 1 then some 1 else none
  else if isEmpty last then
    if dwordSize = 1 then some (4 - leadingGap first - trailingGap first) else none
  else some (dwordSize * 4 - leadingGap first - trailingGap last)

/-- The enable flag of every byte of a request of `dwordSize` DWORDs: the first mask for the
first DWORD, the last mask for the last of several, and every byte between them. -/
def expand (dwordSize : Nat) (first last : UInt8) : List Bool :=
  (List.range (4 * dwordSize)).map fun i =>
    if i / 4 = 0 then enables first (i % 4)
    else if i / 4 + 1 = dwordSize then enables last (i % 4)
    else true

end TlpBridge.ByteEnable
