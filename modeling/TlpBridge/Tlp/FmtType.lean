import TlpBridge.Text.Hex

/-!
# The fmt/type byte

The first byte of a transaction-layer packet (TLP) names its kind: three bits of
format (address width, presence of data, prefix) and five bits of type. The bridge
classifies a byte by its bits, and also knows the named kinds of the standard.
-/
namespace TlpBridge

/-- The raw fmt/type byte of a TLP header. -/
structure FmtType where
  code : UInt8
deriving DecidableEq, Inhabited

namespace FmtType

def memRead32 : FmtType := ⟨0x00⟩
def memRead64 : FmtType := ⟨0x20⟩
def memWrite32 : FmtType := ⟨0x40⟩
def memWrite64 : FmtType := ⟨0x60⟩
def configWrite : FmtType := ⟨0x44⟩
def interrupt : FmtType := ⟨0x30⟩
def completion : FmtType := ⟨0x0a⟩
def completionData : FmtType := ⟨0x4a⟩
def fetchAdd32 : FmtType := ⟨0x4c⟩
def fetchAdd64 : FmtType := ⟨0x6c⟩
def swap32 : FmtType := ⟨0x4d⟩
def swap64 : FmtType := ⟨0x6d⟩
def cas32 : FmtType := ⟨0x4e⟩
def cas64 : FmtType := ⟨0x6e⟩

/-- The three format bits. -/
def formatBits (ft : FmtType) : Nat := ft.code.toNat / 32

/-- The five type bits. -/
def typeBits (ft : FmtType) : Nat := ft.code.toNat % 32

/-- The header carries a 64-bit address. -/
def hasLongAddress (ft : FmtType) : Bool := ft.formatBits % 2 == 1

/-- Data follows the header. -/
def carriesData (ft : FmtType) : Bool := ft.formatBits / 2 % 2 == 1

def isCompletion (ft : FmtType) : Bool := ft.typeBits == 10

def isInterrupt (ft : FmtType) : Bool := ft == interrupt

def isAtomic (ft : FmtType) : Bool := ft.carriesData && ft.typeBits / 4 == 3

/-- Compare-and-swap, whose payload holds two operands. -/
def isCas (ft : FmtType) : Bool := ft == cas32 || ft == cas64

/-- Message requests; the interrupt is one of them. -/
def isMessage (ft : FmtType) : Bool :=
  ft.formatBits / 4 == 0 && ft.formatBits % 2 == 1 && ft.typeBits / 8 == 2

def isMemoryRequest (ft : FmtType) : Bool := ft.typeBits == 0 || ft.isAtomic

def isMemoryWrite (ft : FmtType) : Bool := ft.isMemoryRequest && ft.carriesData

def isMemoryRead (ft : FmtType) : Bool := ft.isMemoryRequest && !ft.carriesData

/-- The name shown in stream traces, filled up to six characters. -/
def mnemonic (ft : FmtType) : String :=
  match ft.code with
  | 0x00 => "MRd32 "
  | 0x20 => "MRd64 "
  | 0x40 => "MWr32 "
  | 0x60 => "MWr64 "
  | 0x44 => "CfgWr "
  | 0x30 => "Intr  "
  | 0x0a => "Cpl   "
  | 0x4a => "CplD  "
  | 0x4c => "FAdd32"
  | 0x6c => "FAdd64"
  | 0x4d => "Swap32"
  | 0x6d => "Swap64"
  | 0x4e => "Cas32 "
  | 0x6e => "Cas64 "
  | _ => "Unknown"

end FmtType

/-- The kinds of TLP that a fmt/type byte can name. -/
inductive PacketKind where
  | memoryRead
  | memoryReadLock
  | memoryWrite
  | ioRead
  | ioWrite
  | config0Read
  | config0Write
  | config1Read
  | config1Write
  /-- The vendor's interrupt request, in the encoding of a message routed to the root complex. -/
  | interrupt
  | message (routing : Nat)
  | messageData (routing : Nat)
  | completion
  | completionData
  | completionLocked
  | completionLockedData
  | fetchAddAtomic
  | swapAtomic
  | casAtomic
  | localPrefix (number : Nat)
  | endToEndPrefix (number : Nat)
deriving DecidableEq

/-- The name of a kind, and the number that belongs to some of them. -/
def PacketKind.name : PacketKind → String × Option Nat
  | .memoryRead => ("MemoryRead", none)
  | .memoryReadLock => ("MemoryReadLock", none)
  | .memoryWrite => ("MemoryWrite", none)
  | .ioRead => ("IoRead", none)
  | .ioWrite => ("IoWrite", none)
  | .config0Read => ("Config0Read", none)
  | .config0Write => ("Config0Write", none)
  | .config1Read => ("Config1Read", none)
  | .config1Write => ("Config1Write", none)
  | .interrupt => ("Interrupt", none)
  | .message n => ("Message", some n)
  | .messageData n => ("MessageData", some n)
  | .completion => ("Completion", none)
  | .completionData => ("CompletionData", none)
  | .completionLocked => ("CompletionLocked", none)
  | .completionLockedData => ("CompletionLockedData", none)
  | .fetchAddAtomic => ("FetchAddAtomic", none)
  | .swapAtomic => ("SwapAtomic", none)
  | .casAtomic => ("CasAtomic", none)
  | .localPrefix n => ("LocalPrefix", some n)
  | .endToEndPrefix n => ("EndToEndPrefix", some n)

/-- What a known fmt/type byte says of its packet. -/
structure PacketFormat where
  kind : PacketKind
  /-- The header has four DWORDs of its own, which leaves room for a 64-bit address. -/
  fourDwords : Bool
deriving DecidableEq

/-- A fmt/type byte that names no kind of TLP. -/
structure UnknownKind where
  code : UInt8
deriving DecidableEq

def UnknownKind.message (e : UnknownKind) : String :=
  "unknown TLP fmt/type " ++ Text.hexPadded0x 2 e.code.toNat

namespace FmtType

/-- The kind that the format and type bits name together. -/
def kind? (ft : FmtType) : Option PacketKind :=
  match ft.formatBits, ft.typeBits with
  | 0, 0 | 1, 0 => some .memoryRead
  | 0, 1 | 1, 1 => some .memoryReadLock
  | 2, 0 | 3, 0 => some .memoryWrite
  | 0, 2 => some .ioRead
  | 2, 2 => some .ioWrite
  | 0, 4 => some .config0Read
  | 2, 4 => some .config0Write
  | 0, 5 => some .config1Read
  | 2, 5 => some .config1Write
  | 1, 16 => some .interrupt
  | 0, 10 => some .completion
  | 2, 10 => some .completionData
  | 0, 11 => some .completionLocked
  | 2, 11 => some .completionLockedData
  | 2, 12 | 3, 12 => some .fetchAddAtomic
  | 2, 13 | 3, 13 => some .swapAtomic
  | 2, 14 | 3, 14 => some .casAtomic
  | 1, t => if t / 8 = 2 then some (.message (t % 8)) else none
  | 3, t => if t / 8 = 2 then some (.messageData (t % 8)) else none
  | 4, t => some (if t < 16 then .localPrefix t else .endToEndPrefix (t % 16))
  | _, _ => none

/-- The byte reported for a fmt/type byte that names nothing: the byte itself, or its format
bits alone where already the format is reserved. -/
def reportedCode (ft : FmtType) : UInt8 :=
  if ft.formatBits ≤ 4 then ft.code else UInt8.ofNat (ft.formatBits * 32)

def packetFormat (ft : FmtType) : Except UnknownKind PacketFormat :=
  match ft.kind? with
  | some kind => .ok ⟨kind, ft.formatBits == 1 || ft.formatBits == 3⟩
  | none => .error ⟨ft.reportedCode⟩

end FmtType

end TlpBridge
