import TlpBridge.Word.Field

/-!
# Header layouts

The places of header fields in the eight DWORDs at the start of a packet. DWORD 0
and DWORDs 4 to 7 are common to all packets; the meaning of DWORDs 1 to 3 hangs on
the kind of packet and on its encoding.
-/
namespace TlpBridge

/-- The eight DWORDs of a header on the stream. -/
structure HeaderWords where
  dw0 : UInt32
  dw1 : UInt32
  dw2 : UInt32
  dw3 : UInt32
  dw4 : UInt32
  dw5 : UInt32
  dw6 : UInt32
  dw7 : UInt32
deriving DecidableEq

namespace HeaderWords

/-- The number of DWORDs of a header. -/
def count : Nat := 8

def toList (w : HeaderWords) : List UInt32 :=
  [w.dw0, w.dw1, w.dw2, w.dw3, w.dw4, w.dw5, w.dw6, w.dw7]

def ofList? : List UInt32 → Option HeaderWords
  | [a, b, c, d, e, f, g, h] => some ⟨a, b, c, d, e, f, g, h⟩
  | _ => none

@[simp] theorem length_toList (w : HeaderWords) : w.toList.length = count := rfl

@[simp] theorem ofList?_toList (w : HeaderWords) : ofList? w.toList = some w := rfl

end HeaderWords

namespace Layout

/-! DWORD 0, common to all packets. -/
namespace Common
def length : Field := ⟨0, 10⟩
def addressType : Field := ⟨10, 2⟩
def poisoned : Field := ⟨14, 1⟩
def digest : Field := ⟨15, 1⟩
def hints : Field := ⟨16, 1⟩
def lightweight : Field := ⟨17, 1⟩
def tagBit8 : Field := ⟨19, 1⟩
def tagBit9 : Field := ⟨23, 1⟩
def fmtType : Field := ⟨24, 8⟩
end Common

/-! DWORD 1 of a power-user request. -/
namespace Request
def firstEnable : Field := ⟨0, 4⟩
def lastEnable : Field := ⟨4, 4⟩
def tagLow : Field := ⟨8, 8⟩
def requesterId : Field := ⟨16, 16⟩
end Request

/-! DWORD 1 of a data-mover request, whose length and address are counted in bytes. -/
namespace DataMover
def tagLow : Field := ⟨8, 8⟩
def lengthLow : Field := ⟨16, 2⟩
def lengthHigh : Field := ⟨18, 12⟩
def addrLow : Field := ⟨30, 2⟩
end DataMover

/-! DWORD 3 of a request with a 64-bit address. -/
namespace Address
def dwords : Field := ⟨2, 30⟩
end Address

/-! DWORDs 1 and 2 of a completion. -/
namespace Completion
def byteCount : Field := ⟨0, 12⟩
def byteCountModified : Field := ⟨12, 1⟩
def status : Field := ⟨13, 3⟩
def completerId : Field := ⟨16, 16⟩
def lowerAddr : Field := ⟨0, 7⟩
def tagLow : Field := ⟨8, 8⟩
def requesterId : Field := ⟨16, 16⟩
end Completion

/-! DWORD 2 of an interrupt. -/
namespace Interrupt
def vector : Field := ⟨0, 16⟩
end Interrupt

/-! DWORD 4, the TLP prefix. -/
namespace Prefix
def value : Field := ⟨0, 24⟩
def kind : Field := ⟨24, 5⟩
def present : Field := ⟨29, 1⟩
end Prefix

/-! DWORD 5, the routing. -/
namespace Routing
def pf : Field := ⟨0, 3⟩
def vf : Field := ⟨3, 11⟩
def vfActive : Field := ⟨14, 1⟩
def slot : Field := ⟨19, 5⟩
def memoryMapped : Field := ⟨24, 1⟩
def bar : Field := ⟨25, 7⟩
end Routing

end Layout

end TlpBridge
