import Mathlib.Data.Nat.Bitwise
import TlpBridge.Proofs.Stream.FlitDwords
import TlpBridge.Proofs.Word.ImageBits

/-!
# Lanes kept as bytes

The same vector once more, kept as its byte image. A bit is read out of the one byte that has it
and is written by a mask on this byte; a part is read and written one bit after the other. Every
operation on a lane does to the byte image of the lane what is done here to the bytes.
-/
namespace TlpBridge

/-- A vector of `width` bits, kept as its bytes. -/
structure Packed where
  width : Nat
  bytes : List UInt8
  length_bytes : bytes.length = (width + 7) / 8

namespace Packed

/-- The byte in which only the bit of index `i` is set. -/
def bitMask (i : Nat) : UInt8 := 1 <<< UInt8.ofNat (i % 8)

/-- The byte `b` with the bit of index `i` set or cleared. -/
def withBit (b : UInt8) (i : Nat) (v : Bool) : UInt8 :=
  if v then b ||| bitMask i else b &&& ~~~bitMask i

def zeros (width : Nat) : Packed :=
  ⟨width, List.replicate ((width + 7) / 8) 0, List.length_replicate⟩

/-- Puts `f b` in the place of byte `b` number `k`. -/
def modifyByte (p : Packed) (k : Nat) (f : UInt8 → UInt8) : Packed :=
  ⟨p.width, p.bytes.modify k f, by rw [List.length_modify, p.length_bytes]⟩

/-- Clears what the last byte has at and above the width. -/
def maskTop (p : Packed) : Packed :=
  if p.width % 8 = 0 then p else p.modifyByte (p.width / 8) (· &&& (bitMask p.width - 1))

/-- The vector with a given image; missing bytes are zero and excess bytes are left out. -/
def ofBytes (width : Nat) (image : List UInt8) : Packed :=
  maskTop ⟨width, (image ++ List.replicate ((width + 7) / 8) 0).take ((width + 7) / 8), by
    rw [List.length_take, List.length_append, List.length_replicate]
    omega⟩

def testBit (p : Packed) (i : Nat) : Bool :=
  decide (i < p.width) && (p.bytes.getD (i / 8) 0 &&& bitMask i != 0)

def setBit (p : Packed) (i : Nat) (v : Bool) : Packed :=
  if i < p.width then p.modifyByte (i / 8) (withBit · i v) else p

/-- The position that a sum names; beyond the bytes it wraps around at 64 bits. -/
def wrap (p : Packed) (i : Nat) : Nat :=
  if i < max (8 * p.bytes.length) (2 ^ 64) then i else i % 2 ^ 64

/-- The `n` bits from `lsb` on, each put at its place. -/
def slice (p : Packed) (lsb : Nat) : Nat → UInt64
  | 0 => 0
  | n + 1 => p.slice lsb n ||| (p.testBit (p.wrap (lsb + n))).toUInt64 <<< UInt64.ofNat n

/-- Writes the `n` low bits of a value from `lsb` on. -/
def setSlice (p : Packed) (lsb : Nat) (v : UInt64) : Nat → Packed
  | 0 => p
  | n + 1 => (p.setSlice lsb v n).setBit (p.wrap (lsb + n)) (v >>> UInt64.ofNat n &&& 1 != 0)

def dwordAt (p : Packed) (i : Nat) : UInt32 := (p.slice (32 * i) 32).toUInt32

def setDword (p : Packed) (i : Nat) (v : UInt32) : Packed := p.setSlice (32 * i) v.toUInt64 32

def clear (p : Packed) : Packed :=
  ⟨p.width, p.bytes.map fun _ => 0, by rw [List.length_map, p.length_bytes]⟩

variable {p : Packed}

end Packed

namespace Lane

/-- A lane as its bytes. -/
def packed (l : Lane) : Packed := ⟨l.width, l.bytes, l.length_bytes⟩

end Lane

end TlpBridge
