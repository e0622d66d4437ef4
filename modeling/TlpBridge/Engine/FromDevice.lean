import TlpBridge.Engine.Basic
import TlpBridge.Word.Power

/-!
# Packets from the device

The checks on the packets of the device, and what each kind of packet does. A packet is
checked before anything is done, so that a refused packet has no effect beyond halting
the engine.
-/
namespace TlpBridge

open scoped Power

/-- The bytes of a payload, cut off after `len`. -/
def payloadBytes (payload : List UInt32) (len : Nat) : List UInt8 := (dwordsBytes payload).take len

/-- A run of DWORDs of a flit. -/
def Flit.dwordsAt (f : Flit) (start n : Nat) : List UInt32 :=
  (List.range n).map fun i => f.dwordAt (start + i)

/-- The encoding that a header uses. -/
def Header.mode (h : Header) : EncodingMode := if h.dataMover then .dataMover else .powerUser

/-- A read of one DWORD that enables no byte. It orders, and carries no data. -/
def Header.isFence (h : Header) (r : RequestBody) : Bool :=
  decide (h.byteSize ≤ 4) && r.firstEnable == 0 && r.lastEnable == 0

namespace OpenPacket

/-- The payload after one more beat that carries payload from DWORD `start` on. The packet, of
`total` DWORDs, has to end exactly in the beat that is marked as its last. -/
def extend (p : OpenPacket) (flit : Flit) (start total : Nat) (kind : DevicePacket) :
    Except Violation OpenPacket :=
  let remaining := total - p.payload.length
  let avail := flit.dwordWidth - start
  if avail < remaining then
    if flit.last then .error (.prematureEop kind)
    else .ok { p with payload := p.payload ++ flit.dwordsAt start avail }
  else if flit.last then
    .ok { p with payload := p.payload ++ flit.dwordsAt start remaining }
  else .error (.expectedEop kind)

end OpenPacket

namespace Parameters

/-- The longest write in an encoding. -/
def maxWrite (p : Parameters) : EncodingMode → Nat
  | .powerUser => p.maxWriteBytes
  | .dataMover => p.maxDataMoverWriteBytes

/-- The longest read in an encoding. -/
def maxRead (p : Parameters) : EncodingMode → Nat
  | .powerUser => p.maxReadBytes
  | .dataMover => p.maxDataMoverReadBytes

/-- The rule that a DMA write breaks. -/
def writeFault? (p : Parameters) (h : Header) (r : RequestBody) : Option Violation :=
  if p.maxWrite h.mode < h.byteSize.toNat then
    some (.tooLong h.mode .write (p.maxWrite h.mode))
  else if h.byteSize = 0 then some (.zeroLength .write)
  else if r.firstEnable = 0 then some .writeFirstEnableZero
  else if ¬ h.dataMover ∧ h.byteSize ≤ 4 ∧ r.lastEnable ≠ 0 then
    some (.lastEnableOnSingleDword .write)
  else if 4 < h.byteSize ∧ r.lastEnable = 0 then some (.lastEnableZero .write)
  else if ¬ h.dataMover ∧ r.addr.toNat < 2 ^ (32 : Nat) ∧ h.fmtType.hasLongAddress then
    some (.needlessAddr64 .write)
  else
    match r.attributes.addressType with
    | .translationRequest => some .translationOnWrite
    | .reserved => some .illegalAddressType
    | .untranslated | .translated => none

/-- The rule that an atomic operation breaks beyond those of reads. -/
def atomicFault? (h : Header) (r : RequestBody) : Option Violation :=
  let allowed : List UInt32 := if h.fmtType.isCas then [8, 16] else [4, 8]
  if h.dataMover then some .atomicDataMover
  else if h.byteSize ∉ allowed then some (.atomicLength h.fmtType.isCas)
  else if r.firstEnable ≠ 0 ∨ r.lastEnable ≠ 0 then some .atomicByteEnables
  else none

/-- The rule on the extent of a read, or on atomic operations, that a read breaks as it was
received. -/
def readExtentFault? (p : Parameters) (last : Bool) (h : Header) (r : RequestBody) :
    Option Violation :=
  if ¬ last then some (.expectedEop .dmaRead)
  else if p.maxRead h.mode < h.byteSize.toNat then
    some (.tooLong h.mode .read (p.maxRead h.mode))
  else if h.byteSize = 0 then some (.zeroLength .read)
  else if h.fmtType.isAtomic then atomicFault? h r
  else none

/-- The rule on its address type that a read breaks. -/
def translationFault? (h : Header) (r : RequestBody) : Option Violation :=
  match r.attributes.addressType with
  | .translationRequest =>
    if h.byteSize % 8 ≠ 0 then some (.translationRequest .wholeEntries)
    else if r.addr.toNat % 4096 ≠ 0 then some (.translationRequest .alignedAddress)
    else if 128 < h.byteSize then some (.translationRequest .boundedLength)
    else if h.fmtType.isAtomic then some (.translationRequest .notAtomic)
    else none
  | .reserved => some .illegalAddressType
  | .untranslated | .translated => none

/-- The rule that a read breaks whose byte enables say what it reads. -/
def readFault? (p : Parameters) (h : Header) (r : RequestBody) : Option Violation :=
  if h.dataMover then some .dataMoverRead
  else if r.firstEnable = 0 ∧ (r.lastEnable ≠ 0 ∨ 4 < h.byteSize) then some .readFirstEnableZero
  else if h.byteSize ≤ 4 ∧ r.lastEnable ≠ 0 then some (.lastEnableOnSingleDword .read)
  else if 4 < h.byteSize ∧ r.lastEnable = 0 then some (.lastEnableZero .read)
  else if r.addr.toNat < 2 ^ (32 : Nat) ∧ h.fmtType.hasLongAddress then some (.needlessAddr64 .read)
  else
    translationFault? h r
    <|> (if p.maxDmaReads ≤ h.tag.toNat then some .dmaTagRange else none)

end Parameters

namespace Header

/-- The body of a read in which the byte enables say what is read: the enables of an atomic
operation, which are zero in the packet, enable every byte of its operands. -/
def effectiveRequest (h : Header) (r : RequestBody) : RequestBody :=
  if h.fmtType.isAtomic then
    { r with
      firstEnable := 0xf
      lastEnable := if 4 < h.byteSize then 0xf else r.lastEnable }
  else r

/-- The length of what comes back of a read: a compare-and-swap carries two operands and gets one
value. -/
def completedBytes (h : Header) : Nat :=
  if h.fmtType.isCas then h.byteSize.toNat / 2 else h.byteSize.toNat

/-- The operation that the operands behind the header of an atomic request ask for. -/
def atomicOperation? (h : Header) (flit : Flit) : Option AtomicOperation :=
  let dword (i : Nat) : Nat := (flit.dwordAt (HeaderWords.count + i)).toNat
  let operand (i : Nat) : UInt64 :=
    if h.completedBytes = 4 then UInt64.ofNat (dword i)
    else UInt64.ofNat (dword (2 * i + 1) * 2 ^ (32 : Nat) + dword (2 * i))
  if ¬ h.fmtType.isAtomic then none
  else if h.fmtType.isCas then some (.cas (operand 0) (operand 1))
  else if h.fmtType.kind? = some .swapAtomic then some (.swap (operand 0))
  else some (.fetchAdd (operand 0))

/-- The request to host memory for a read that is kept in a slot. -/
def readRequest (h : Header) (r : RequestBody) (flit : Flit) (slot : Nat) : ReadRequest where
  addr := r.addr
  addressType := r.attributes.addressType
  dataBytes := if h.isFence r then 0 else h.completedBytes
  tag := UInt16.ofNat slot
  pasid := h.pasid?
  atomic := h.atomicOperation? flit

/-- The request to host memory for a write whose payload is complete. -/
def writeRequest (h : Header) (r : RequestBody) (payload : List UInt32) : WriteRequest where
  addr := r.addr
  addressType := r.attributes.addressType
  pasid := h.pasid?
  enables :=
    if r.firstEnable ≠ 0xf ∨ (4 < h.byteSize ∧ r.lastEnable ≠ 0xf) then
      some (r.firstEnable, r.lastEnable)
    else none
  data := payloadBytes payload h.byteSize.toNat

end Header

namespace Engine

/-- An interrupt request of the device. -/
def acceptInterrupt (e : Engine) (h : Header) (vector : UInt16) (flit : Flit) : EngineStep Unit :=
  if ¬ flit.last then e.haltOn (some h) flit (.expectedEop .interruptRequest)
  else if e.params.interrupts ≤ vector.toNat then
    e.haltOn (some h) flit (.interruptRange vector e.params.interrupts)
  else .ok e () (e.raise vector)

/-- The response to the MMIO read that a completed packet answers. -/
def mmioReadResponse (tid : UInt16) (h : Header) (c : CompletionBody) (payload : List UInt32) :
    MmioResponse where
  tid := tid
  write := false
  widthBits := h.byteSize.toNat * 8
  addr := c.lowerAddr.toUInt64
  slot := h.tag
  data := payloadBytes payload h.byteSize.toNat

/-- Frees the slot of an MMIO read and answers it. -/
def completeMmioRead (e : Engine) (p : OpenPacket) : EngineStep Unit :=
  let slot := p.header.tag.toNat
  let read := (e.mmioReads[slot]?).join.getD default
  let response :=
    mmioReadResponse read.tid p.header (p.header.completion?.getD {}) p.payload
  .ok { e with mmioReads := e.mmioReads.setIfInBounds slot none } ()
    (.report (.mmioReadCompleted slot (e.cycle - read.startCycle)) :: e.deliver response)

/-- A beat of an MMIO completion whose payload starts at DWORD `start`. -/
def acceptCompletionBeat (e : Engine) (p : OpenPacket) (flit : Flit) (start : Nat) :
    EngineStep Unit :=
  match p.extend flit start (p.header.byteSize.toNat / 4) .mmioCompletion with
  | .error v => e.haltOn (some p.header) flit v
  | .ok p =>
    if flit.last then e.completeMmioRead p
    else .ok { e with fromDevice := .completion p } ()

/-- The rule that an MMIO completion breaks. -/
def completionFault? (e : Engine) (h : Header) (c : CompletionBody) : Option Violation :=
  if e.params.maxMmioReads ≤ h.tag.toNat then some .mmioTagRange
  else if (e.mmioReads[h.tag.toNat]?).join.isNone then some .mmioTagInactive
  else if h.byteSize.toNat ≠ c.byteCount.toNat then some .splitMmioCompletion
  else if e.params.maxReadBytes < h.byteSize.toNat then
    some (.mmioCompletionTooLarge e.params.maxReadBytes)
  else if 64 < c.byteCount then some .mmioCompletionOver64
  else none

/-- The first beat of a completion. -/
def acceptCompletion (e : Engine) (h : Header) (c : CompletionBody) (flit : Flit) :
    EngineStep Unit :=
  if ¬ h.fmtType.carriesData then e.haltOn (some h) flit .completionWithoutData
  else
    match e.completionFault? h c with
    | some v => e.haltOn (some h) flit v
    | none => e.acceptCompletionBeat ⟨h, []⟩ flit HeaderWords.count

/-- Sends a write whose payload is complete. -/
def submitWrite (e : Engine) (p : OpenPacket) : EngineStep Unit :=
  let request := p.header.writeRequest (p.header.request?.getD {}) p.payload
  match e.link.send (.write request) with
  | none => ⟨.error .disconnected, e, []⟩
  | some link => .ok { e with link := link, pendingWrites := e.pendingWrites + 1 } ()

/-- A beat of a DMA write whose payload starts at DWORD `start`. -/
def acceptWriteBeat (e : Engine) (p : OpenPacket) (flit : Flit) (start : Nat) :
    EngineStep Unit :=
  match p.extend flit start p.header.dwordSize .dmaWrite with
  | .error v => e.haltOn (some p.header) flit v
  | .ok p =>
    if flit.last then e.submitWrite p
    else .ok { e with fromDevice := .write p } ()

/-- The first beat of a DMA write. -/
def acceptWrite (e : Engine) (h : Header) (r : RequestBody) (flit : Flit) : EngineStep Unit :=
  match e.params.writeFault? h r with
  | some v => e.haltOn (some h) flit v
  | none => e.acceptWriteBeat ⟨h, []⟩ flit HeaderWords.count

/-- The slot for a read with a tag, and the slots after one was taken from the free ones. No pool
comes back from a refusal: in no run is a slot that was free found to be busy. -/
def chooseSlot (s : SlotPool) (tag : Nat) : Except Violation (Nat × SlotPool) :=
  if s.mapped then
    match s.takeFree? with
    | none => .error .tagMapperExhausted
    | some (slot, s) => if s.isBusy slot then .error .dmaTagBusy else .ok (slot, s)
  else if s.isBusy tag then .error .dmaTagBusy
  else .ok (tag, s)

/-- Puts a read that has passed all checks into a slot and asks host memory for it. -/
def submitRead (e : Engine) (h : Header) (r : RequestBody) (flit : Flit) (slot : Nat)
    (slots : SlotPool) : EngineStep Unit :=
  let stored := { h with byteSize := UInt32.ofNat h.completedBytes }
  let e := { e with slots := slots.occupy slot e.cycle stored }
  match e.link.send (.read (h.readRequest r flit slot)) with
  | none => ⟨.error .disconnected, e, []⟩
  | some link => .ok { e with link := link, pendingReads := e.pendingReads + 1 } ()

/-- Reads, fences, atomic operations and translation requests. -/
def acceptRead (e : Engine) (h : Header) (r : RequestBody) (flit : Flit) : EngineStep Unit :=
  match e.params.readExtentFault? flit.last h r with
  | some v => e.haltOn (some h) flit v
  | none =>
    let r := h.effectiveRequest r
    let h := { h with body := .request r }
    match e.params.readFault? h r with
    | some v => e.haltOn (some h) flit v
    | none =>
      match chooseSlot e.slots h.tag.toNat with
      | .error v => e.haltOn (some h) flit v
      | .ok (slot, slots) => e.submitRead h r flit slot slots

/-- A packet by its header. -/
def dispatch (e : Engine) (h : Header) (flit : Flit) : EngineStep Unit :=
  match h.body with
  | .interrupt vector => e.acceptInterrupt h vector flit
  | .completion c => e.acceptCompletion h c flit
  | .request r =>
    if h.fmtType.isMemoryWrite ∧ ¬ h.fmtType.isAtomic then e.acceptWrite h r flit
    else e.acceptRead h r flit
  | .other => e.haltOn (some h) flit .unsupportedType

/-- The first beat of a packet. -/
def acceptStart (e : Engine) (flit : Flit) : EngineStep Unit :=
  match flit.header with
  | .error cause => e.haltOn none flit (.encoding cause)
  | .ok h => (e.dispatch h flit).after [.report (.accepted e.cycle (some h) flit)]

/-- Takes one beat of the device. -/
def accept (e : Engine) (cycle : Nat) (flit : Flit) : EngineStep Unit :=
  if e.halted then ⟨.error .halted, e, []⟩
  else
    let idle := { e with cycle := cycle, fromDevice := .start }
    let traced : List Effect := [.report (.accepted cycle none flit)]
    match e.fromDevice with
    | .start => idle.acceptStart flit
    | .completion p => (idle.acceptCompletionBeat p flit 0).after traced
    | .write p => (idle.acceptWriteBeat p flit 0).after traced

end Engine

end TlpBridge
