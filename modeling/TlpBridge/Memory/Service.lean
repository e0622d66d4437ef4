import TlpBridge.Iommu.Tables
import TlpBridge.Iommu.TranslationEntry
import TlpBridge.Memory.Guest
import TlpBridge.Memory.Link
import TlpBridge.Word.Power

/-!
# The memory service

Serves accesses of the device to guest memory. Every 4 KiB piece of an access is
resolved on its own, just before it is made. Untranslated accesses go through the
pinned pages and translated ones through the physical pages.
-/
namespace TlpBridge

open scoped Power

/-- Guest memory behind the translation tables. -/
structure HostMemory (A : IovaAllocator) where
  iommu : Iommu A
  guest : GuestMemory

variable {A : IovaAllocator}

/-- Where and why an access fails. -/
structure AccessFault where
  status : AccessStatus
  pa : UInt64
  va : UInt64 := 0
deriving DecidableEq

/-- The part of an access that lies in one 4 KiB page. -/
structure Piece where
  addr : UInt64
  /-- Where the piece starts in the data of the access. -/
  offset : Nat
  length : Nat
deriving DecidableEq

/-- An access of `remaining` bytes at `addr`, cut at multiples of 4 KiB. Addresses wrap around. -/
def pieces (addr : UInt64) (offset remaining : Nat) : List Piece :=
  if remaining = 0 then []
  else
    let n := min (4096 - addr.toNat % 4096) remaining
    ⟨addr, offset, n⟩ :: pieces (addr + UInt64.ofNat n) (offset + n) (remaining - n)
termination_by remaining
decreasing_by
  have := Nat.mod_lt addr.toNat (by decide : 0 < 4096)
  omega

/-- Whether byte `i` of a write of `len` bytes is enabled: the first mask is for the first DWORD,
the last mask for the last of several. -/
def writeEnabled (len : Nat) (first last : UInt8) (i : Nat) : Bool :=
  if i / 4 = 0 then first.toNat.testBit (i % 4)
  else if i / 4 = (max len 1 - 1) / 4 then last.toNat.testBit (i % 4)
  else true

inductive MemoryEvent where
  | iommu (e : IommuEvent)
  | translationFailed (iova : UInt64) (cause : IommuError)
  | readFailed (addr : UInt64) (bytes : Nat) (status : AccessStatus)
  | readAnswered (tag : UInt16) (status : AccessStatus)
  | writeFailed (addr : UInt64) (bytes : Nat) (status : AccessStatus)
  /-- A response that nobody is left to take. -/
  | readDropped (tag : UInt16)
  | writeDropped (addr : UInt64)

def MemoryEvent.record : MemoryEvent → Record
  | .iommu e => e.record
  | .translationFailed iova cause =>
    ⟨.error, .hostMemory,
      "translation of iova " ++ Text.hex0x iova.toNat ++ " failed: " ++ cause.message⟩
  | .readFailed addr bytes status =>
    ⟨.debug, .hostMemory, "read " ++ Text.hex0x addr.toNat ++ " (" ++ toString bytes ++
      " bytes) failed: " ++ status.message⟩
  | .readAnswered tag status =>
    ⟨.trace, .hostMemory, "read tag " ++ toString tag.toNat ++ " -> " ++ status.message⟩
  | .writeFailed addr bytes status =>
    ⟨.debug, .hostMemory, "write " ++ Text.hex0x addr.toNat ++ " (" ++ toString bytes ++
      " bytes) failed: " ++ status.message⟩
  | .readDropped tag =>
    ⟨.warn, .hostMemory, "engine gone, read tag " ++ toString tag.toNat ++ " response dropped"⟩
  | .writeDropped addr =>
    ⟨.warn, .hostMemory, "engine gone, write " ++ Text.hex0x addr.toNat ++ " response dropped"⟩

/-- The virtual address behind an address of a device access. -/
def Iommu.resolve (t : Iommu A) (type : AddressType) (addr : UInt64) : Except AccessFault UInt64 :=
  match type with
  | .untranslated =>
    match t.translate addr with
    | some va => .ok va
    | none => .error { status := .notPinned, pa := addr }
  | .translated =>
    match t.virtualOf addr with
    | some va => .ok va
    | none => .error { status := .notMapped, pa := addr }
  | .translationRequest | .reserved => .error { status := .illegal, pa := addr }

namespace HostMemory

/-- The virtual address reported with a valid access: that of its first byte, if there is one. -/
def firstVa (h : HostMemory A) (type : AddressType) (addr : UInt64) (len : Nat) : UInt64 :=
  if len = 0 then 0
  else match h.iommu.resolve type addr with
    | .ok va => va
    | .error _ => 0

/-- Reads one piece. -/
def readPiece (h : HostMemory A) (type : AddressType) (p : Piece) :
    Except AccessFault (List UInt8) :=
  match h.iommu.resolve type p.addr with
  | .error f => .error f
  | .ok va =>
    match h.guest.load va.toNat p.length with
    | some bytes => .ok bytes
    | none => .error ⟨.illegal, p.addr, va⟩

/-- Reads pieces in order, up to the first that fails. -/
def readPieces (h : HostMemory A) (type : AddressType) :
    List Piece → Except AccessFault (List UInt8)
  | [] => .ok []
  | p :: rest =>
    match h.readPiece type p with
    | .error f => .error f
    | .ok bytes => (h.readPieces type rest).map (bytes ++ ·)

/-- The `length` bytes at `addr` as the device sees them. -/
def readBytes (h : HostMemory A) (type : AddressType) (addr : UInt64) (length : Nat) :
    Except AccessFault (List UInt8) :=
  h.readPieces type (pieces addr 0 length)

/-- The bytes that a write leaves in one piece: its data where enabled, what is there elsewhere. -/
def mergePiece (w : WriteRequest) (first last : UInt8) (p : Piece) (old : List UInt8) :
    List UInt8 :=
  old.zipIdx.map fun (b, i) =>
    if writeEnabled w.data.length first last (p.offset + i) then w.data.getD (p.offset + i) b
    else b

/-- Writes one piece. If it fails, its front may have been written. -/
def writePiece (h : HostMemory A) (w : WriteRequest) (p : Piece) :
    Except AccessFault Unit × HostMemory A :=
  match h.iommu.resolve w.addressType p.addr with
  | .error f => (.error f, h)
  | .ok va =>
    let bytes :=
      match w.enables with
      | none => some ((w.data.drop p.offset).take p.length)
      | some (first, last) => (h.guest.load va.toNat p.length).map (mergePiece w first last p)
    match bytes with
    | none => (.error ⟨.illegal, p.addr, va⟩, h)
    | some bytes =>
      match h.guest.store va.toNat bytes with
      | (true, guest) => (.ok (), { h with guest := guest })
      | (false, guest) => (.error ⟨.illegal, p.addr, va⟩, { h with guest := guest })

/-- Writes pieces in order, up to the first that fails. -/
def writePieces (w : WriteRequest) :
    List Piece → HostMemory A → Except AccessFault Unit × HostMemory A
  | [], h => (.ok (), h)
  | p :: rest, h =>
    match h.writePiece w p with
    | (.error f, h) => (.error f, h)
    | (.ok (), h) => writePieces w rest h

/-- What an access answers beside the state it leaves. -/
structure Access where
  pa : UInt64
  va : UInt64
  data : List UInt8 := []
deriving DecidableEq

/-- Makes a write; an answer carries no data. -/
def write (h : HostMemory A) (w : WriteRequest) : Except AccessFault Access × HostMemory A :=
  match writePieces w (pieces w.addr 0 w.data.length) h with
  | (.error f, h') => (.error f, h')
  | (.ok (), h') => (.ok ⟨w.addr, h.firstVa w.addressType w.addr w.data.length, []⟩, h')

/-- Makes an atomic access to the operand at an address. -/
def atomic (h : HostMemory A) (r : ReadRequest) (op : AtomicOperation) :
    Except AccessFault Access × HostMemory A :=
  let size := r.dataBytes
  if size ≠ 4 ∧ size ≠ 8 then (.error { status := .illegal, pa := r.addr }, h)
  else if 4096 < r.addr.toNat % 4096 + size then
    (.error { status := .crosses4K, pa := r.addr }, h)
  else
    match h.iommu.resolve r.addressType r.addr with
    | .error f => (.error f, h)
    | .ok va =>
      match h.guest.load va.toNat size with
      | none => (.error ⟨.illegal, r.addr, va⟩, h)
      | some old =>
        let new := littleEndian size (op.result size (ofLittleEndian old))
        match h.guest.store va.toNat new with
        | (true, guest) => (.ok ⟨r.addr, va, old⟩, { h with guest := guest })
        | (false, guest) => (.error ⟨.illegal, r.addr, va⟩, { h with guest := guest })

/-- The translation entry of the page at an IOVA; zero where nothing is pinned or mapped. -/
def translationEntry (t : Iommu A) (iova : UInt64) :
    Step MemoryEvent (Iommu A) (Except AccessFault UInt64) :=
  match t.translate iova with
  | none => ⟨.ok 0, t, []⟩
  | some va =>
    let step := t.physicalOf va
    let events := step.events.map .iommu
    match step.answer with
    | .ok (some (pa, size)) =>
      let permissions := TranslationEntry.permitRead ||| TranslationEntry.permitWrite
      ⟨.ok (TranslationEntry.encode pa (UInt64.ofNat size.bytes) permissions), step.state, events⟩
    | .ok none => ⟨.ok 0, step.state, events⟩
    | .error e =>
      ⟨.error { status := .illegal, pa := iova }, step.state,
        events ++ [.translationFailed iova e]⟩

/-- The entries of `n` pages of 4 KiB that follow one another from page `i` of a request on. -/
def translationEntries (r : ReadRequest) : (n i : Nat) → Iommu A →
    Step MemoryEvent (Iommu A) (Except AccessFault (List UInt8))
  | 0, _, t => ⟨.ok [], t, []⟩
  | n + 1, i, t =>
    let iova := r.addr.toNat + i * 4096
    if iova < 2 ^ (64 : Nat) then
      let step := translationEntry t (UInt64.ofNat iova)
      match step.answer with
      | .error f => ⟨.error f, step.state, step.events⟩
      | .ok entry =>
        let rest := translationEntries r n (i + 1) step.state
        ⟨rest.answer.map (littleEndian 8 entry.toNat ++ ·), rest.state,
          step.events ++ rest.events⟩
    else ⟨.error { status := .illegal, pa := r.addr }, t, []⟩

/-- Answers a translation request: one entry for every page of 4 KiB. -/
def translate (h : HostMemory A) (r : ReadRequest) :
    Step MemoryEvent (HostMemory A) (Except AccessFault Access) :=
  let entries := r.dataBytes / 8
  let va := if entries = 0 then 0 else (h.iommu.translate r.addr).getD 0
  let step := translationEntries r entries 0 h.iommu
  ⟨step.answer.map fun data => ⟨r.addr, va, data⟩, { h with iommu := step.state }, step.events⟩

/-- Makes a read of any kind. -/
def read (h : HostMemory A) (r : ReadRequest) :
    Step MemoryEvent (HostMemory A) (Except AccessFault Access) :=
  if r.addressType = .translationRequest then h.translate r
  else
    match r.atomic with
    | some op =>
      let (answer, h) := h.atomic r op
      ⟨answer, h, []⟩
    | none =>
      ⟨(h.readBytes r.addressType r.addr r.dataBytes).map fun data =>
        ⟨r.addr, h.firstVa r.addressType r.addr r.dataBytes, data⟩, h, []⟩

/-- The response to a read. -/
def readResponse (r : ReadRequest) : Except AccessFault Access → ReadResponse
  | .ok a => ⟨r.tag, .valid, a.pa, a.va, a.data⟩
  | .error f => ⟨r.tag, f.status, f.pa, f.va, []⟩

/-- The response to a write. -/
def writeResponse : Except AccessFault Access → WriteResponse
  | .ok a => ⟨.valid, a.pa, a.va⟩
  | .error f => ⟨f.status, f.pa, f.va⟩

end HostMemory

/-- The memory together with its link to the engine. -/
structure MemoryService (A : IovaAllocator) where
  memory : HostMemory A
  link : MemoryLink := {}

namespace MemoryService

def serveRead (s : MemoryService A) (r : ReadRequest) : Step MemoryEvent (MemoryService A) Unit :=
  let step := s.memory.read r
  let response := HostMemory.readResponse r step.answer
  let failed :=
    if response.status = .valid then [] else [.readFailed r.addr r.dataBytes response.status]
  let events := step.events ++ failed ++ [.readAnswered r.tag response.status]
  match s.link.postRead response with
  | some link => ⟨(), ⟨step.state, link⟩, events⟩
  | none => ⟨(), ⟨step.state, s.link⟩, events ++ [.readDropped r.tag]⟩

def serveWrite (s : MemoryService A) (w : WriteRequest) : Step MemoryEvent (MemoryService A) Unit :=
  let (answer, memory) := s.memory.write w
  let response := HostMemory.writeResponse answer
  let failed :=
    if response.status = .valid then [] else [.writeFailed w.addr w.data.length response.status]
  match s.link.postWrite response with
  | some link => ⟨(), ⟨memory, link⟩, failed⟩
  | none => ⟨(), ⟨memory, s.link⟩, failed ++ [.writeDropped w.addr]⟩

/-- Serves one request and posts its response. -/
def serve (s : MemoryService A) : MemoryRequest → Step MemoryEvent (MemoryService A) Unit
  | .read r => s.serveRead r
  | .write w => s.serveWrite w

/-- Serves requests in order and counts them. -/
def serveAll : List MemoryRequest → MemoryService A → Step MemoryEvent (MemoryService A) Nat
  | [], s => ⟨0, s, []⟩
  | r :: rest, s =>
    let first := s.serve r
    let more := serveAll rest first.state
    ⟨more.answer + 1, more.state, first.events ++ more.events⟩

/-- Serves every request that is waiting. -/
def serveWaiting (s : MemoryService A) : Step MemoryEvent (MemoryService A) Nat :=
  serveAll s.link.requests { s with link := { s.link with requests := [] } }

/-- Queues a request and serves it at once, together with those that wait before it. Nothing if the
link is cut at either end. -/
def exchange (s : MemoryService A) (r : MemoryRequest) :
    Option (Step MemoryEvent (MemoryService A) Nat) :=
  (s.link.send r).map fun link => ({ s with link := link } : MemoryService A).serveWaiting

end MemoryService

end TlpBridge
