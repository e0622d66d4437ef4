import Mathlib.Algebra.Order.Floor.Div
import TlpBridge.Proofs.Stream.PackedLanes

/-!
# Part selects

A lane is changed in single bits, in parts of up to 64 bits, in DWORDs, and as a whole. Each bit of
it is what the last call that reached it left there; a call never reaches beyond the width. However
a lane came about, its bits and its byte image show the same: what is written as bits is found by
those who read DWORDs out of the bytes.
-/
namespace TlpBridge

/-- What a lane is made of: clear bits, or a byte image. -/
inductive LaneSource where
  | blank
  | image (bytes : List UInt8)

namespace LaneSource

def lane (width : Nat) : LaneSource → Lane
  | blank => .zeros width
  | image bytes => .ofBytes width bytes

def packed (width : Nat) : LaneSource → Packed
  | blank => .zeros width
  | image bytes => .ofBytes width bytes

/-- Bit `i` of what is given, whether the lane has it or not. -/
def bit (i : Nat) : LaneSource → Bool
  | blank => false
  | image bytes => imageBit bytes i

end LaneSource

/-- A call that changes a lane. A part is given by its low end, its length and a value of 64 bits,
of which it takes the low ones. The positions of its bits are sums of 64 bits that do not overflow,
and so are those of a DWORD. -/
inductive LaneCall where
  | setBit (i : Nat) (v : Bool)
  | setSlice (lsb n : Nat) (v : UInt64) (short : n ≤ 64) (fits : lsb + n ≤ 2 ^ 64)
  | setDword (i : Nat) (v : UInt32) (fits : 32 * i + 32 ≤ 2 ^ 64)
  | clear

/-- What a call leaves in bit `i` of a wide enough lane where `old` was before. -/
def LaneCall.leaves (i : Nat) (old : Bool) : LaneCall → Bool
  | setBit j v => if i = j then v else old
  | setSlice lsb n v _ _ => if lsb ≤ i ∧ i < lsb + n then v.toNat.testBit (i - lsb) else old
  | setDword j v _ => if i / 32 = j then v.toNat.testBit (i % 32) else old
  | clear => false

namespace Packed

def call (p : Packed) : LaneCall → Packed
  | .setBit i v => p.setBit i v
  | .setSlice lsb n v _ _ => p.setSlice lsb v n
  | .setDword i v _ => p.setDword i v
  | .clear => p.clear

def run (p : Packed) (calls : List LaneCall) : Packed := calls.foldl call p

end Packed

namespace Lane

def call (l : Lane) : LaneCall → Lane
  | .setBit i v => l.setBit i v
  | .setSlice lsb n v _ _ => l.setSlice lsb (BitVec.ofNat n v.toNat)
  | .setDword i v _ => l.setDword i v
  | .clear => l.clear

def run (l : Lane) (calls : List LaneCall) : Lane := calls.foldl call l

/-! ## Bits after calls -/

example : ((zeros 12).run [.setSlice 6 16 0xffff (by decide) (by decide), .setBit 7 false]).bytes =
    [0x40, 0x0f] := by decide

end Lane

end TlpBridge
