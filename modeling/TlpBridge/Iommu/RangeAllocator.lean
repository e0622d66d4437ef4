import TlpBridge.Word.AddressRange
import TlpBridge.Word.Power

/-!
# Allocators of address ranges

Device addresses are handed out by an allocator that the translation tables are built on. What it
is made of is left open: it is a parameter of the tables, given by the calls that they make.
-/
namespace TlpBridge

open scoped Power

/-- Why an allocator refuses a call. Nothing but its text is ever seen. -/
structure AllocatorError where
  message : String
deriving DecidableEq

/-- Which of the free places an allocator takes. -/
inductive AllocationPolicy where
  | firstMatch
  | exactMatch (start : Nat)
deriving DecidableEq

structure RangeAllocator where
  /-- A space of addresses with the ranges of it that are taken. -/
  Space : Type
  /-- The range between two addresses, the last one included. -/
  range : (first last : UInt64) → Except AllocatorError AddressRange
  create : (base size : Nat) → Except AllocatorError Space
  /-- Takes a range that starts at a multiple of the alignment. -/
  allocate : Space → (size alignment : Nat) → AllocationPolicy →
    Except AllocatorError AddressRange × Space
  free : Space → AddressRange → Except AllocatorError Unit × Space

namespace IovaSpace

/-- The addresses of the space lie below this. -/
def limit : Nat := 2 ^ (48 : Nat)

/-- The addresses that raise interrupts. -/
def interruptWindow : AddressRange := ⟨0xfee00000, 0x100000⟩

/-- A space of device addresses of which the window of interrupts alone is taken. -/
def create (A : RangeAllocator) : Except AllocatorError A.Space :=
  match A.create 0 limit with
  | .error e => .error e
  | .ok space =>
    match A.allocate space interruptWindow.size 0x1000 (.exactMatch interruptWindow.start) with
    | (.error e, _) => .error e
    | (.ok _, space) => .ok space

/-- Gives back the `bytes` bytes from an address on. The last address wraps around where the range
would reach beyond 64 bits, and then there is no range between the two. -/
def giveBack (A : RangeAllocator) (space : A.Space) (iova : UInt64) (bytes : Nat) :
    Except AllocatorError Unit × A.Space :=
  match A.range iova (iova + UInt64.ofNat bytes - 1) with
  | .error e => (.error e, space)
  | .ok range => A.free space range

end IovaSpace

/-- An allocator that has room for a space of device addresses. -/
structure IovaAllocator extends RangeAllocator where
  initial : Space
  created : IovaSpace.create toRangeAllocator = .ok initial

end TlpBridge
