import TlpBridge.Word.Power

/-!
# Stream parameters

The parameter block that the device side hands over at initialisation, the checks it
has to pass, and the switches read from the environment.
-/
namespace TlpBridge

open scoped Power

/-- The parameters of the packet stream; widths are in bits. -/
structure Parameters where
  dataWidth : Nat := 512
  userWidth : Nat := 10
  /-- Tags of DMA reads are less than this. -/
  maxDmaReads : Nat := 256
  /-- Tags of MMIO reads are less than this. -/
  maxMmioReads : Nat := 64
  interrupts : Nat := 4
  maxReadBytes : Nat := 512
  maxWriteBytes : Nat := 512
  maxDataMoverReadBytes : Nat := 512
  maxDataMoverWriteBytes : Nat := 512
  /-- The least size of a split read completion, in bytes. -/
  completionBoundary : Nat := 64
  orderedCompletions : Bool := false
  /-- Several reads may use one tag at a time; the bridge maps them to slots of its own. -/
  tagMapper : Bool := false
  defaultPf : UInt8 := 0
  defaultVf : UInt16 := 0
  defaultVfActive : Bool := false
deriving DecidableEq, Inhabited

/-- The parameters that have to lie between one and a limit. -/
inductive LimitedParam where
  | maxDmaReads
  | maxMmioReads
  | interrupts
  | maxReadBytes
  | maxWriteBytes
  | maxDataMoverReadBytes
  | maxDataMoverWriteBytes
deriving DecidableEq

def LimitedParam.label : LimitedParam → String
  | .maxDmaReads => "max_outstanding_dma_rd_reqs"
  | .maxMmioReads => "max_outstanding_mmio_rd_reqs"
  | .interrupts => "num_afu_interrupts"
  | .maxReadBytes => "max_rd_req_bytes"
  | .maxWriteBytes => "max_wr_payload_bytes"
  | .maxDataMoverReadBytes => "max_dm_rd_req_bytes"
  | .maxDataMoverWriteBytes => "max_dm_wr_payload_bytes"

/-- The largest value of a limited parameter: tags have ten bits, power-user lengths ten bits of
DWORDs, data-mover lengths twenty-four bits of bytes, interrupt vectors sixteen bits. -/
def LimitedParam.limit : LimitedParam → Nat
  | .maxDmaReads | .maxMmioReads => 1024
  | .interrupts => 65536
  | .maxReadBytes | .maxWriteBytes => 4092
  | .maxDataMoverReadBytes | .maxDataMoverWriteBytes => 16777215

def LimitedParam.value (p : Parameters) : LimitedParam → Nat
  | .maxDmaReads => p.maxDmaReads
  | .maxMmioReads => p.maxMmioReads
  | .interrupts => p.interrupts
  | .maxReadBytes => p.maxReadBytes
  | .maxWriteBytes => p.maxWriteBytes
  | .maxDataMoverReadBytes => p.maxDataMoverReadBytes
  | .maxDataMoverWriteBytes => p.maxDataMoverWriteBytes

/-- The limited parameters in the order in which they are checked. -/
def LimitedParam.all : List LimitedParam :=
  [.maxDmaReads, .maxMmioReads, .interrupts, .maxReadBytes, .maxWriteBytes,
   .maxDataMoverReadBytes, .maxDataMoverWriteBytes]

/-- Why a parameter block is refused. -/
inductive ParameterFault where
  | dataWidth (bits : Nat)
  | userWidth
  | outOfRange (param : LimitedParam) (value : Nat)
  | completionBoundary (bytes : Nat)
  | readGranularity (maxReadBytes boundary : Nat)
  | defaultFunction (pf : UInt8) (vf : UInt16)
deriving DecidableEq

def ParameterFault.message : ParameterFault → String
  | .dataWidth bits =>
    "tdata width " ++ toString bits ++ " must be a multiple of 32 bits and hold an 8 DWORD header"
  | .userWidth => "tuser width must be at least 1 bit"
  | .outOfRange param value =>
    param.label ++ " (" ++ toString value ++ ") out of range 1..=" ++ toString param.limit
  | .completionBoundary bytes =>
    "request completion boundary " ++ toString bytes ++
      " must be a power of two of at least 4 bytes"
  | .readGranularity maxReadBytes boundary =>
    "max read request bytes " ++ toString maxReadBytes ++
      " must be a multiple of the completion boundary " ++ toString boundary
  | .defaultFunction pf vf =>
    "default function pf " ++ toString pf.toNat ++ " vf " ++ toString vf.toNat ++
      " does not fit the routing fields"

/-- Whether `n` is a power of two. -/
def isPowerOfTwo (n : Nat) : Bool := n == 2 ^ n.log2

namespace Parameters

def limitFault? (p : Parameters) (param : LimitedParam) : Option ParameterFault :=
  let value := param.value p
  if 0 < value ∧ value ≤ param.limit then none else some (.outOfRange param value)

/-- The first rule that a parameter block breaks. -/
def fault? (p : Parameters) : Option ParameterFault :=
  if p.dataWidth % 32 ≠ 0 ∨ p.dataWidth < 256 then some (.dataWidth p.dataWidth)
  else if p.userWidth = 0 then some .userWidth
  else (LimitedParam.all.findSome? p.limitFault?)
  <|> (if p.completionBoundary < 4 ∨ ¬ isPowerOfTwo p.completionBoundary then
      some (.completionBoundary p.completionBoundary)
    else if p.maxReadBytes % p.completionBoundary ≠ 0 then
      some (.readGranularity p.maxReadBytes p.completionBoundary)
    else if 8 ≤ p.defaultPf ∨ 2048 ≤ p.defaultVf then
      some (.defaultFunction p.defaultPf p.defaultVf)
    else none)

end Parameters

/-- A parameter block that breaks no rule. -/
structure ValidParameters where
  params : Parameters
  valid : params.fault? = none

namespace Parameters

/-- Accepts a parameter block or says which rule it breaks first. -/
def validate (p : Parameters) : Except ParameterFault ValidParameters :=
  match h : p.fault? with
  | some e => .error e
  | none => .ok ⟨p, h⟩

end Parameters

namespace ValidParameters

/-- The number of DWORDs in a beat. -/
def dwordWidth (c : ValidParameters) : Nat := c.params.dataWidth / 32

/-- The longest read in either encoding, in bytes. -/
def maxAnyReadBytes (c : ValidParameters) : Nat :=
  max c.params.maxReadBytes c.params.maxDataMoverReadBytes

/-- The longest write in either encoding, in bytes. -/
def maxAnyWriteBytes (c : ValidParameters) : Nat :=
  max c.params.maxWriteBytes c.params.maxDataMoverWriteBytes

end ValidParameters

/-- Switches that hold for the whole process. -/
structure Switches where
  /-- No back-pressure, no reordering and no least latency of completions. -/
  unlimitedBandwidth : Bool := false
  /-- Every change of a page table is followed by a dump of it. -/
  pageTableDebug : Bool := false
deriving DecidableEq, Inhabited

namespace Switches

def unlimitedBandwidthVariable : String := "ASE_UNLIMITED_BW"

def pageTableDebugVariable : String := "ASE_PT_DBG"

/-- The switches that an environment sets: a variable counts as set whatever its value. -/
def ofEnvironment (lookup : String → Option String) : Switches where
  unlimitedBandwidth := (lookup unlimitedBandwidthVariable).isSome
  pageTableDebug := (lookup pageTableDebugVariable).isSome

end Switches

end TlpBridge
