import TlpBridge.Tlp.Header
import TlpBridge.Word.Power

/-!
# Accesses to host memory

What the device asks of host memory, and the answers. A translation request asks for
translation entries in place of data, and an atomic operation for the old value.
-/
namespace TlpBridge

open scoped Power

/-- The outcome of an access. -/
inductive AccessStatus where
  | valid
  | illegal
  /-- An IOVA that leads nowhere. -/
  | notPinned
  /-- A physical address that leads nowhere. -/
  | notMapped
  /-- An atomic access that runs over the end of a 4 KiB page. -/
  | crosses4K
deriving DecidableEq, Inhabited

/-- The status that a number stands for; numbers beyond the last stand for the last. -/
def AccessStatus.ofCode : Nat → AccessStatus
  | 0 => .valid
  | 1 => .illegal
  | 2 => .notPinned
  | 3 => .notMapped
  | _ => .crosses4K

def AccessStatus.message : AccessStatus → String
  | .valid => "valid"
  | .illegal => "illegal address"
  | .notPinned => "page not pinned"
  | .notMapped => "physical address not mapped"
  | .crosses4K => "access crosses a 4KB boundary"

/-- The operands of an atomic access. -/
inductive AtomicOperation where
  | fetchAdd (addend : UInt64)
  | swap (value : UInt64)
  | cas (compare swap : UInt64)
deriving DecidableEq

/-- The value that an atomic access of `size` bytes leaves behind, given the one it finds. -/
def AtomicOperation.result (op : AtomicOperation) (size old : Nat) : Nat :=
  let value :=
    match op with
    | .fetchAdd addend => old + addend.toNat
    | .swap value => value.toNat
    | .cas expected replacement =>
      if old = expected.toNat % 256 ^ size then replacement.toNat else old
  value % 256 ^ size

structure ReadRequest where
  addr : UInt64
  addressType : AddressType
  /-- Zero for a fence; for an atomic access, the size of its operand. -/
  dataBytes : Nat
  tag : UInt16
  pasid : Option UInt32 := none
  atomic : Option AtomicOperation := none
deriving DecidableEq

structure WriteRequest where
  addr : UInt64
  addressType : AddressType
  pasid : Option UInt32 := none
  /-- The byte enables of the first and the last DWORD, or nothing if every byte is written. -/
  enables : Option (UInt8 × UInt8) := none
  data : List UInt8
deriving DecidableEq

/-- Reads and writes share one queue, so that a read sees the writes before it. -/
inductive MemoryRequest where
  | read (r : ReadRequest)
  | write (w : WriteRequest)
deriving DecidableEq

structure ReadResponse where
  tag : UInt16
  status : AccessStatus
  pa : UInt64
  va : UInt64
  data : List UInt8
deriving DecidableEq

structure WriteResponse where
  status : AccessStatus
  pa : UInt64
  va : UInt64
deriving DecidableEq

end TlpBridge
