/-!
# Host accesses to the device

Requests of the host for the device's memory-mapped registers (MMIO), and the
responses to them: the data of a read, or the acknowledgement of a write once it has
been sent to the device.
-/
namespace TlpBridge

structure MmioRequest where
  /-- Chosen by the host and repeated in the response. -/
  tid : UInt16
  addr : UInt64
  /-- 32, 64 or a greater multiple of 32. -/
  widthBits : Nat
  write : Bool
  /-- The slot of an outstanding read; without meaning for writes. -/
  slot : UInt16
  /-- The data of a write, `widthBits / 8` bytes. -/
  data : List UInt8
deriving DecidableEq, Inhabited

structure MmioResponse where
  tid : UInt16
  write : Bool
  widthBits : Nat
  /-- The address of a write; for a read, the lower address of its completion. -/
  addr : UInt64
  slot : UInt16
  data : List UInt8
deriving DecidableEq, Inhabited

namespace MmioRequest

def read (tid slot : UInt16) (addr : UInt64) (widthBits : Nat) : MmioRequest :=
  ⟨tid, addr, widthBits, false, slot, []⟩

def ofWrite (tid : UInt16) (addr : UInt64) (data : List UInt8) : MmioRequest :=
  ⟨tid, addr, 8 * data.length, true, 0, data⟩

def byteSize (r : MmioRequest) : Nat := r.widthBits / 8

/-- The response that repeats a request. -/
def response (r : MmioRequest) : MmioResponse :=
  ⟨r.tid, r.write, r.widthBits, r.addr, r.slot, r.data⟩

end MmioRequest

end TlpBridge
