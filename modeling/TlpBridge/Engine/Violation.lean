import TlpBridge.Memory.Request
import TlpBridge.Tlp.Encoding

/-!
# Violations

The rules of the protocol that a packet of the device or a request of the host can
break, and the errors of the engine. A violation is fatal: the engine halts.
-/
namespace TlpBridge

/-- The packets of the device whose extent is checked. -/
inductive DevicePacket where
  | interruptRequest
  | mmioCompletion
  | dmaWrite
  | dmaRead
deriving DecidableEq

def DevicePacket.label : DevicePacket → String
  | .interruptRequest => "interrupt request"
  | .mmioCompletion => "MMIO completion"
  | .dmaWrite => "DMA write"
  | .dmaRead => "DMA read request"

/-- The direction of a DMA access. -/
inductive DmaOp where
  | read
  | write
deriving DecidableEq

def DmaOp.label : DmaOp → String
  | .read => "read"
  | .write => "write"

/-- What a translation request must keep to. -/
inductive TranslationRule where
  | wholeEntries
  | alignedAddress
  | boundedLength
  | notAtomic
deriving DecidableEq

def TranslationRule.label : TranslationRule → String
  | .wholeEntries => "byte length must be a multiple of 8"
  | .alignedAddress => "address must be 4KB aligned"
  | .boundedLength => "length is limited to 128 bytes"
  | .notAtomic => "illegal atomic op"

/-- A rule that was broken. -/
inductive Violation where
  | expectedEop (packet : DevicePacket)
  | prematureEop (packet : DevicePacket)
  | unsupportedType
  | encoding (cause : EncodingError)
  | interruptRange (vector : UInt16) (limit : Nat)
  | completionWithoutData
  | mmioTagRange
  | splitMmioCompletion
  | mmioCompletionTooLarge (limit : Nat)
  | mmioCompletionOver64
  | mmioTagInactive
  | tooLong (mode : EncodingMode) (op : DmaOp) (limit : Nat)
  | zeroLength (op : DmaOp)
  | writeFirstEnableZero
  | lastEnableOnSingleDword (op : DmaOp)
  | lastEnableZero (op : DmaOp)
  | needlessAddr64 (op : DmaOp)
  | translationOnWrite
  | illegalAddressType
  | atomicDataMover
  | atomicLength (cas : Bool)
  | atomicByteEnables
  | readFirstEnableZero
  | translationRequest (rule : TranslationRule)
  | dataMoverRead
  | dmaTagRange
  | tagMapperExhausted
  | dmaTagBusy
  | readByteEnables (dwords : Nat)
  | mmioWidth (bits : Nat)
  | mmioSlotRange (slot : UInt16) (limit : Nat)
  | mmioSlotBusy (slot : UInt16)
  | readResponseTag (tag : UInt16)
  | readResponseLength (got expected : Nat)
deriving DecidableEq

def Violation.message : Violation → String
  | .expectedEop packet => "expected EOP with " ++ packet.label
  | .prematureEop packet => "premature end of " ++ packet.label
  | .unsupportedType => "unsupported TLP type"
  | .encoding cause => cause.message
  | .interruptRange vector limit =>
    "interrupt vector " ++ toString vector.toNat ++ " out of range (max " ++ toString limit ++ ")"
  | .completionWithoutData => "unexpected completion without data"
  | .mmioTagRange => "illegal MMIO read response tag"
  | .splitMmioCompletion => "split MMIO completion not supported"
  | .mmioCompletionTooLarge limit =>
    "MMIO completion larger than max payload bytes (" ++ toString limit ++ ")"
  | .mmioCompletionOver64 => "MMIO completion larger than 64 bytes not supported"
  | .mmioTagInactive => "MMIO read response tag is not active"
  | .tooLong mode op limit =>
    mode.label ++ " DMA " ++ op.label ++ " larger than max payload bytes (" ++
      toString limit ++ ")"
  | .zeroLength op => "DMA " ++ op.label ++ " length is 0"
  | .writeFirstEnableZero => "DMA write first_be is 0"
  | .lastEnableOnSingleDword op =>
    "DMA " ++ op.label ++ " last_be must be 0 on single DWORD requests"
  | .lastEnableZero op => "DMA " ++ op.label ++ " last_be is 0 on a multiple DWORD request"
  | .needlessAddr64 op =>
    "PCIe does not allow 64 bit " ++ op.label ++ "s when address fits in 32 bits"
  | .translationOnWrite => "ATS translation request not allowed on writes"
  | .illegalAddressType => "illegal address type"
  | .atomicDataMover => "atomic functions must be PU encoded"
  | .atomicLength cas =>
    if cas then "atomic CAS must specify 8 or 16 bytes"
    else "atomic FetchAdd and Swap must specify 4 or 8 bytes"
  | .atomicByteEnables => "FBE/LBE fields are reserved in atomic functions and must be 0"
  | .readFirstEnableZero => "DMA read first_be is 0 and not a zero-length read (fence)"
  | .translationRequest rule => "ATS translation request " ++ rule.label
  | .dataMoverRead => "data mover DMA reads are not supported"
  | .dmaTagRange => "illegal DMA read request tag"
  | .tagMapperExhausted => "no available emulated mapped read tags"
  | .dmaTagBusy => "DMA read request tag already in use"
  | .readByteEnables dwords => "illegal byte enables for a " ++ toString dwords ++ " DWORD read"
  | .mmioWidth bits => "MMIO width of " ++ toString bits ++ " bits not supported"
  | .mmioSlotRange slot limit =>
    "MMIO read slot " ++ toString slot.toNat ++ " exceeds max MMIO read index (" ++
      toString limit ++ ")"
  | .mmioSlotBusy slot => "MMIO read slot " ++ toString slot.toNat ++ " already busy"
  | .readResponseTag tag => "host memory read response for inactive tag " ++ toString tag.toNat
  | .readResponseLength got expected =>
    "host memory read response carries " ++ toString got ++ " bytes, expected " ++
      toString expected

/-- Why a call of the engine fails. -/
inductive EngineFault where
  /-- A rule was broken, and the engine has halted. -/
  | protocol (cycle : Nat) (violation : Violation) (header : Option Header)
  /-- The engine halted earlier. -/
  | halted
  /-- Host memory refused an access. The engine goes on. -/
  | memoryAccess (op : DmaOp) (status : AccessStatus) (pa va : UInt64)
  /-- The memory service is gone. -/
  | disconnected
deriving DecidableEq

/-- The text of a refused access. -/
def accessMessage (op : DmaOp) (status : AccessStatus) (pa va : UInt64) : String :=
  (match op with | .read => "READ" | .write => "WRITE") ++ " error: " ++ status.message ++
    " (PA " ++ Text.hex0x pa.toNat ++ ", VA " ++ Text.hex0x va.toNat ++ ")"

def EngineFault.message : EngineFault → String
  | .protocol cycle violation _ => "cycle " ++ toString cycle ++ ": " ++ violation.message
  | .halted => "engine halted by an earlier protocol violation"
  | .memoryAccess op status pa va => accessMessage op status pa va
  | .disconnected => "host memory service disconnected"

end TlpBridge
