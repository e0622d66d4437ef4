import TlpBridge.Engine.OvertakingQueue
import TlpBridge.Engine.Event
import TlpBridge.Engine.SlotPool
import TlpBridge.Memory.Link
import TlpBridge.Draws

/-!
# The engine

The transaction engine stands between the stream of the device and the host. This
module holds its state and the calls that do not move beats; the two directions of the
stream are in modules of their own.
-/
namespace TlpBridge

/-- A packet of the device of which beats are still to come. -/
structure OpenPacket where
  header : Header
  /-- The payload so far. -/
  payload : List UInt32 := []
deriving DecidableEq

/-- Where the stream from the device stands. -/
inductive FromDeviceState where
  | start
  | completion (p : OpenPacket)
  | write (p : OpenPacket)
deriving DecidableEq

/-- Where the stream to the device stands: between packets, or inside the packet at the head of its
queue with so many DWORDs left. -/
inductive ToDeviceState where
  | start
  | completion (left : Nat)
  | mmio (left : Nat)
deriving DecidableEq

/-- An MMIO read that the device has not answered yet. -/
structure MmioRead where
  startCycle : Nat
  tid : UInt16
deriving DecidableEq, Inhabited

/-- A packet that is still to be sent for a DMA read. -/
structure CompletionPacket where
  slot : Nat
  /-- The data of the whole read. -/
  data : List UInt32
  byteSize : Nat
  /-- The DWORD of the data with which the packet starts. -/
  startDword : Nat
  /-- The bytes that remain of the read, this packet included. -/
  byteCount : Nat
  isFirst : Bool
  isLast : Bool
deriving DecidableEq

/-- The length of a completion in DWORDs. -/
def CompletionPacket.dwordSize (c : CompletionPacket) : Nat := (c.byteSize + 3) / 4

structure Engine where
  config : ValidParameters
  options : Switches
  random : DrawSource
  link : MemoryLink := {}
  /-- Whether anybody takes MMIO responses. -/
  mmioAttached : Bool := true
  /-- Whether anybody takes interrupts. -/
  interruptsAttached : Bool := true
  halted : Bool := false
  /-- The cycle of the last call that named one. -/
  cycle : Nat := 0
  fromDevice : FromDeviceState := .start
  toDevice : ToDeviceState := .start
  /-- The outstanding MMIO read of each slot. -/
  mmioReads : Array (Option MmioRead)
  mmioQueue : List MmioRequest := []
  /-- The cycle in which the last MMIO request was started. -/
  lastMmioCycle : Option Nat := none
  slots : SlotPool
  completions : OvertakingQueue CompletionPacket := {}
  /-- The reads that host memory has not answered yet. This counter and the next stand for words of
  32 bits, which hold them while fewer than `2 ^ 32` accesses are outstanding. -/
  pendingReads : Nat := 0
  pendingWrites : Nat := 0

/-- A call of the engine: its outcome, the engine after it and what it did. -/
abbrev EngineStep (α : Type) : Type := Step Effect Engine (Except EngineFault α)

namespace EngineStep

variable {α β : Type}

def ok (e : Engine) (a : α) (effects : List Effect := []) : EngineStep α := ⟨.ok a, e, effects⟩

/-- Puts effects before those of a call. -/
def after (effects : List Effect) (s : EngineStep α) : EngineStep α :=
  ⟨s.answer, s.state, effects ++ s.events⟩

/-- Goes on with the engine that a call leaves, unless the call failed. -/
def andThen (s : EngineStep α) (f : α → Engine → EngineStep β) : EngineStep β :=
  match s.answer with
  | .error err => ⟨.error err, s.state, s.events⟩
  | .ok a => (f a s.state).after s.events

end EngineStep

namespace Engine

/-- The widest MMIO access in bits: a read is answered by one completion of at most 64 bytes. -/
def widestMmio : Nat := 512

/-- A fresh engine. -/
def create (config : ValidParameters) (options : Switches) : Engine where
  config := config
  options := options
  random := .ofOptions options
  mmioReads := Array.replicate config.params.maxMmioReads none
  slots := .ofCount config.params.maxDmaReads config.params.tagMapper

/-- The engine with another source of draws. -/
def withDraws (e : Engine) (random : DrawSource) : Engine := { e with random := random }

def params (e : Engine) : Parameters := e.config.params

/-- The number of completions that wait to be sent. -/
def backlog (e : Engine) : Nat := e.completions.length

/-- Whether a read slot is in use; false for a slot that does not exist. -/
def readBusy (e : Engine) (slot : Nat) : Bool := e.slots.isBusy slot

/-- One draw. -/
def draw (e : Engine) : Nat × Engine :=
  let (n, random) := e.random.next
  (n, { e with random := random })

/-- Halts the engine because a rule was broken, by the packet with the given header if there is
one. -/
def halt {α : Type} (e : Engine) (header : Option Header) (v : Violation) : EngineStep α :=
  ⟨.error (.protocol e.cycle v header), { e with halted := true },
    [.report (.violation e.cycle v header)]⟩

/-- Halts the engine because of a flit of the device. -/
def haltOn {α : Type} (e : Engine) (header : Option Header) (flit : Flit) (v : Violation) :
    EngineStep α :=
  ⟨.error (.protocol e.cycle v header), { e with halted := true },
    [.report (.violation e.cycle v header), .report (.refusedFlit flit)]⟩

/-- The delivery of a response to the host. -/
def deliver (e : Engine) (r : MmioResponse) : List Effect :=
  if e.mmioAttached then [.respond r] else [.report (.responseDropped r.tid)]

/-- The delivery of an interrupt to the host. -/
def raise (e : Engine) (vector : UInt16) : List Effect :=
  if e.interruptsAttached then [.interrupt vector] else [.report (.interruptDropped vector)]

/-- Draws whether the host accepts a beat of the device in this cycle. -/
def ready (e : Engine) : Bool × Engine :=
  if e.halted then (false, e)
  else
    let (n, e) := e.draw
    (decide (n % 256 < 0xf0) && e.slots.hasRoom, e)

/-- Why an MMIO request cannot be taken. -/
def requestFault? (e : Engine) (r : MmioRequest) : Option Violation :=
  if r.widthBits % 32 ≠ 0 ∨ r.widthBits < 32 ∨ widestMmio < r.widthBits then
    some (.mmioWidth r.widthBits)
  else if r.write then
    if r.data.length < r.byteSize then some (.mmioWidth (8 * r.data.length)) else none
  else
    match e.mmioReads[r.slot.toNat]? with
    | none => some (.mmioSlotRange r.slot e.mmioReads.size)
    | some (some _) => some (.mmioSlotBusy r.slot)
    | some none => none

/-- Takes an MMIO request of the host, to be sent to the device. A read takes its slot at once. -/
def request (e : Engine) (r : MmioRequest) : EngineStep Unit :=
  if e.halted then ⟨.error .halted, e, []⟩
  else
    match e.requestFault? r with
    | some v => e.halt none v
    | none =>
      let mmioReads :=
        if r.write then e.mmioReads
        else e.mmioReads.setIfInBounds r.slot.toNat (some ⟨e.cycle, r.tid⟩)
      .ok { e with mmioReads := mmioReads, mmioQueue := e.mmioQueue ++ [r] } ()

/-- Drops the packets in progress in both directions. Outstanding requests are kept, and a packet to
the device is sent again from its start. -/
def reset (e : Engine) : Engine := { e with fromDevice := .start, toDevice := .start }

end Engine

end TlpBridge
