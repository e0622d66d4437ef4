import TlpBridge.Iommu.RangeAllocator
import TlpBridge.Text.Hex
import TlpBridge.Word.Power

/-!
# Page sizes

The three page sizes of the translation tables, and the errors of the tables.
-/
namespace TlpBridge

open scoped Power

/-- Why an operation on the translation tables fails. -/
inductive IommuError where
  | badLength (len : UInt64)
  | misaligned (va : UInt64) (len : Nat)
  | allocationExhausted (len : Nat)
  | notPinned (addr : UInt64)
  | refcountOverflow (addr : UInt64)
  | unsupportedPageSize (kb : UInt64)
  | memoryMap
  | allocator (cause : AllocatorError)
deriving DecidableEq

def IommuError.message : IommuError → String
  | .badLength len => "unsupported page length " ++ Text.hex0x len.toNat
  | .misaligned va len =>
    "va " ++ Text.hex0x va.toNat ++ " is not aligned to its " ++ Text.hex0x len ++ " byte page"
  | .allocationExhausted len => "no free IOVA range of " ++ Text.hex0x len ++ " bytes"
  | .notPinned addr => "nothing pinned at " ++ Text.hex0x addr.toNat
  | .refcountOverflow addr => "pin count at " ++ Text.hex0x addr.toNat ++ " would exceed 255"
  | .unsupportedPageSize kb =>
    "kernel page size of " ++ toString kb.toNat ++ " kB is not supported"
  | .memoryMap => "failed to read the process memory map"
  | .allocator cause => cause.message

inductive PageSize where
  | size4K
  | size2M
  | size1G
deriving DecidableEq

namespace PageSize

/-- The level of the tree that holds pages of this size; level 0 is farthest from the root. -/
def level : PageSize → Nat
  | .size4K => 0
  | .size2M => 1
  | .size1G => 2

/-- The number of address bits inside a page of a level. -/
def offsetBits (level : Nat) : Nat := 12 + 9 * level

/-- The bytes of a page of a level. -/
def bytesAt (level : Nat) : Nat := 2 ^ offsetBits level

def bytes (s : PageSize) : Nat := bytesAt s.level

theorem bytesAt_pos (level : Nat) : 0 < bytesAt level := Nat.two_pow_pos _

theorem bytes_pos (s : PageSize) : 0 < s.bytes := bytesAt_pos _

/-- The smallest page that holds `len` bytes. Above 2 MiB only exactly 1 GiB will do. -/
def ofLength (len : UInt64) : Except IommuError PageSize :=
  if len = 0 then .error (.badLength len)
  else if len ≤ 0x1000 then .ok .size4K
  else if len ≤ 0x200000 then .ok .size2M
  else if len = 0x40000000 then .ok .size1G
  else .error (.badLength len)

/-- The largest supported page that fits into a page of the operating system of `kb` KiB. -/
def ofPageKb (kb : UInt64) : Except IommuError PageSize :=
  if 1048576 ≤ kb then .ok .size1G
  else if 2048 ≤ kb then .ok .size2M
  else if 4 ≤ kb then .ok .size4K
  else .error (.unsupportedPageSize kb)

/-- The start of the page of this size that holds an address. -/
def pageOf (s : PageSize) (addr : Nat) : Nat := addr / s.bytes * s.bytes

end PageSize

end TlpBridge
