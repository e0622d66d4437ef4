import TlpBridge.Engine.FromDevice
import TlpBridge.Tlp.ByteEnable
import TlpBridge.Word.Power

/-!
# Packets to the device

The answers of host memory become completions, which are queued, and together with the
MMIO requests of the host they are sent one beat at a time. A packet is never
interrupted by another; between packets an MMIO request goes before a completion.
-/
namespace TlpBridge

open scoped Power

/-- The keep bits of a DWORD of which `n` bytes count. -/
def keepBits (n : Nat) : BitVec 4 := BitVec.ofNat 4 (2 ^ min n 4 - 1)

/-- Stores payload from DWORD `i` on, of which `bytes` bytes count. -/
def Flit.setPayload (f : Flit) : (i : Nat) → List UInt32 → (bytes : Nat) → Flit
  | _, [], _ => f
  | i, v :: vs, bytes => (f.setDword i v (keepBits bytes)).setPayload (i + 1) vs (bytes - 4)

/-- The DWORDs of a byte image, cut or filled with zeros to `n` of them. -/
def paddedDwords (n : Nat) (image : List UInt8) : List UInt32 :=
  let dwords := dwordsOfBytes image
  (dwords ++ List.replicate (n - dwords.length) 0).take n

/-- How many completions of other reads a new one may overtake, by a draw of eight bits. -/
def overtakeLimit (r : Nat) : Nat :=
  if r = 0 ∨ 0x80 ≤ r then 0
  else if 0x20 ≤ r then 5
  else if 0x10 ≤ r then 2
  else 1

/-- The packet that carries a part of what was read: it goes back to where the read came from, with
the tag that the device chose. -/
def CompletionPacket.header (c : CompletionPacket) (request : Header) : Header :=
  let r := request.request?.getD {}
  let offset := if c.isFirst then ByteEnable.leadingGap r.firstEnable else 0
  { Header.ofFmtType .completionData with
    dataMover := request.dataMover
    byteSize := UInt32.ofNat c.byteSize
    requesterId := request.requesterId
    tag := request.tag
    routing :=
      { pf := request.routing.pf, vf := request.routing.vf, vfActive := request.routing.vfActive }
    body := .completion
      { byteCount := UInt16.ofNat c.byteCount
        lowerAddr := UInt32.ofNat ((r.addr.toNat + 4 * c.startDword + offset) % 128)
        finalCompletion := request.dataMover && c.isLast } }

/-- The packet that carries an MMIO request to the default function. -/
def MmioRequest.header (r : MmioRequest) (p : Parameters) : Header :=
  let fmtType : FmtType :=
    match r.write, decide (2 ^ (32 : Nat) ≤ r.addr.toNat) with
    | true, false => .memWrite32
    | true, true => .memWrite64
    | false, false => .memRead32
    | false, true => .memRead64
  { fmtType := fmtType
    byteSize := UInt32.ofNat r.byteSize
    tag := r.slot
    routing := { pf := p.defaultPf, vf := p.defaultVf, vfActive := p.defaultVfActive }
    body := .request
      { addr := r.addr
        firstEnable := 0xf
        lastEnable := if r.widthBits ≤ 32 then 0 else 0xf } }

namespace Engine

/-- The least number of cycles between the starts of two MMIO requests. -/
def mmioSpacing : Nat := 63

/-- The least number of cycles between a DMA read and its first completion. -/
def minReadLatency : Nat := 250

/-- A flit of the configured widths. -/
def blankFlit (e : Engine) : Flit := .blank e.params.dataWidth e.params.userWidth

/-- Draws whether no beat is sent although there is one to send. -/
def drawStall (e : Engine) : Bool × Engine :=
  let (n, e) := e.draw
  (decide (0xd0 < n % 256), e)

/-- Takes up to `n` responses to writes. They only tell of errors, and the first one is reported. -/
def collectWrites : (n : Nat) → Engine → EngineStep Unit
  | 0, e => .ok e ()
  | n + 1, e =>
    match e.link.receiveWrite with
    | (.disconnected, _) => ⟨.error .disconnected, e, []⟩
    | (.empty, _) => .ok e ()
    | (.item r, link) =>
      let e := { e with link := link, pendingWrites := e.pendingWrites - 1 }
      if r.status = .valid then collectWrites n e
      else
        ⟨.error (.memoryAccess .write r.status r.pa r.va), e,
          [.report (.accessRefused .write r.status r.pa r.va)]⟩

/-- Draws the length in DWORDs of the next completion of a read of which `left` DWORDs are left:
all of them within one completion boundary, else a number of boundaries up to the longest read. -/
def packetLength (e : Engine) (left : Nat) : Nat × Engine :=
  let boundary := e.params.completionBoundary
  if left ≤ boundary / 4 then (left, e)
  else
    let chunks := max 1 (e.params.maxReadBytes / boundary)
    let (n, e) := e.draw
    (min left ((if n = 0 then chunks else 1 + n % chunks) * (boundary / 4)), e)

/-- Queues a completion, possibly ahead of completions of other reads. -/
def queueCompletion (e : Engine) (c : CompletionPacket) : Engine :=
  let (r, e) := if e.params.orderedCompletions then (0, e) else e.draw
  { e with
    completions :=
      e.completions.insertOvertaking c (overtakeLimit (r % 256)) fun other => other.slot == c.slot }

/-- Cuts the data of a read into completions from DWORD `start` on and queues them; `byteCount`
bytes are left of the read. The fuel bounds the number of completions. -/
def queuePackets (slot : Nat) (h : Header) (r : RequestBody) (data : List UInt32) :
    (fuel start byteCount : Nat) → Engine → Engine
  | 0, _, _, e => e
  | fuel + 1, start, byteCount, e =>
    let left := h.dwordSize - start
    if left = 0 then e
    else
      let (n, e) := e.packetLength left
      let isFirst := start == 0
      let isLast := n == left
      let e := e.queueCompletion
        { slot := slot
          data := data
          byteSize := if isLast then h.byteSize.toNat - 4 * start else 4 * n
          startDword := start
          byteCount := byteCount
          isFirst := isFirst
          isLast := isLast }
      let sent := ByteEnable.byteCount? n
        (if isFirst then r.firstEnable else 0xf) (if isLast then r.lastEnable else 0xf)
      queuePackets slot h r data fuel (start + n) (byteCount - sent.getD (4 * n)) e

/-- Turns the data of a read into completions. -/
def queueRead (e : Engine) (slot : Nat) (h : Header) (data : List UInt8) : EngineStep Unit :=
  let r := h.request?.getD {}
  let expected := if h.isFence r then 0 else h.byteSize.toNat
  if data.length ≠ expected then
    e.halt (some h) (.readResponseLength data.length expected)
  else
    match ByteEnable.byteCount? h.dwordSize r.firstEnable r.lastEnable with
    | none => e.halt (some h) (.readByteEnables h.dwordSize)
    | some count =>
      .ok (e.queuePackets slot h r (paddedDwords h.dwordSize data) h.dwordSize 0 count) ()

/-- Takes the response to a read. -/
def receiveRead (e : Engine) (r : ReadResponse) : EngineStep Unit :=
  let slot := r.tag.toNat
  let request := (e.slots.states[slot]?).bind fun s => if s.busy then s.request else none
  match request with
  | none => e.halt none (.readResponseTag r.tag)
  | some h =>
    if r.status = .valid then e.queueRead slot h r.data
    else
      ⟨.error (.memoryAccess .read r.status r.pa r.va), { e with slots := e.slots.release slot },
        [.report (.accessRefused .read r.status r.pa r.va)]⟩

/-- Takes up to `n` responses to reads, up to the first that fails. -/
def collectReads : (n : Nat) → Engine → EngineStep Unit
  | 0, e => .ok e ()
  | n + 1, e =>
    match e.link.receiveRead with
    | (.disconnected, _) => ⟨.error .disconnected, e, []⟩
    | (.empty, _) => .ok e ()
    | (.item r, link) =>
      (receiveRead { e with link := link, pendingReads := e.pendingReads - 1 } r).andThen
        fun () e => collectReads n e

/-- Sends a beat of the completion at the head of the queue, of which `left` DWORDs are left, with
payload from DWORD `start` of the flit on. -/
def completionBeat (e : Engine) (c : CompletionPacket) (header : Option Header) (flit : Flit)
    (start left : Nat) : EngineStep (Option Flit) :=
  let avail := e.config.dwordWidth - start
  let n := min left avail
  let sent := c.dwordSize - left
  let payload := (c.data.drop (c.startDword + sent)).take n
  let last := decide (left ≤ avail)
  let flit := { flit.setPayload start payload (c.byteSize - 4 * sent) with last := last }
  let e :=
    if last then { e with completions := e.completions.tail, toDevice := .start }
    else { e with toDevice := .completion (left - n) }
  .ok e (some flit) [.report (.emitted e.cycle header flit)]

/-- Sends a flit with a header, unless the header cannot be encoded. -/
def withHeader (e : Engine) (h : Header) (send : Flit → EngineStep (Option Flit)) :
    EngineStep (Option Flit) :=
  match e.blankFlit.storeHeader h with
  | .error cause => (e.halt none (.encoding cause)).after [.report (.refusedHeader h)]
  | .ok flit => send flit

/-- Starts the completion at the head of the queue, if its read is old enough. With the header of
the last completion of a read its slot becomes free. -/
def startCompletion (e : Engine) (c : CompletionPacket) : EngineStep (Option Flit) :=
  let (stalled, e) := e.drawStall
  if stalled then .ok e none
  else
    let slot := (e.slots.states[c.slot]?).getD {}
    match slot.request with
    | none => e.halt none (.readResponseTag (UInt16.ofNat c.slot))
    | some request =>
      if e.cycle - slot.startCycle < minReadLatency ∧ ¬ e.options.unlimitedBandwidth then
        .ok e none
      else
        let h := c.header request
        let e := if c.isLast then { e with slots := e.slots.release c.slot } else e
        e.withHeader h fun flit =>
          e.completionBeat c (some h) flit HeaderWords.count c.dwordSize

/-- Goes on with the completion at the head of the queue. -/
def continueCompletion (e : Engine) (left : Nat) : EngineStep (Option Flit) :=
  let (stalled, e) := e.drawStall
  if stalled then .ok e none
  else
    match e.completions.front? with
    | none => .ok { e with toDevice := .start } none
    | some c => e.completionBeat c none e.blankFlit 0 left

/-- Sends a beat of the MMIO request at the head of the queue, of which `left` DWORDs are left, with
payload from DWORD `start` of the flit on. A write is acknowledged with its last beat. -/
def mmioBeat (e : Engine) (r : MmioRequest) (header : Option Header) (flit : Flit)
    (start left : Nat) : EngineStep (Option Flit) :=
  let n := min left (e.config.dwordWidth - start)
  let sent := r.byteSize / 4 - left
  let payload := if r.write then ((dwordsOfBytes r.data).drop sent).take n else []
  let left := if r.write then left - n else 0
  let last := left == 0
  let flit := { flit.setDwords start payload with last := last }
  let e :=
    if last then { e with mmioQueue := e.mmioQueue.tail, toDevice := .start }
    else { e with toDevice := .mmio left }
  .ok e (some flit) <|
    .report (.emitted e.cycle header flit) ::
      if last && r.write then e.deliver r.response else []

/-- Starts the MMIO request at the head of the queue, if the last one is long enough ago. -/
def startMmio (e : Engine) (r : MmioRequest) : EngineStep (Option Flit) :=
  if e.lastMmioCycle.any fun last => e.cycle - last < mmioSpacing then .ok e none
  else
    let (stalled, e) := e.drawStall
    if stalled then .ok e none
    else
      let h := r.header e.params
      e.withHeader h fun flit =>
        { e with lastMmioCycle := some e.cycle }.mmioBeat r (some h) flit HeaderWords.count
          (r.byteSize / 4)

/-- Goes on with the MMIO request at the head of the queue. -/
def continueMmio (e : Engine) (left : Nat) : EngineStep (Option Flit) :=
  match e.mmioQueue with
  | [] => .ok { e with toDevice := .start } none
  | r :: _ => e.mmioBeat r none e.blankFlit 0 left

/-- Starts the completion at the head of the queue, unless there is a beat already. -/
def elseCompletion (flit : Option Flit) (e : Engine) : EngineStep (Option Flit) :=
  match flit, e.completions.front? with
  | none, some c => e.startCompletion c
  | flit, _ => .ok e flit

/-- Starts a packet: an MMIO request if one is ready to go, else a completion. -/
def startPacket (e : Engine) : EngineStep (Option Flit) :=
  let mmio : EngineStep (Option Flit) :=
    match e.mmioQueue with
    | [] => .ok e none
    | r :: _ => e.startMmio r
  mmio.andThen elseCompletion

/-- Sends the next beat, if there is one to send. -/
def sendBeat (e : Engine) : EngineStep (Option Flit) :=
  match e.toDevice with
  | .start => e.startPacket
  | .completion left => e.continueCompletion left
  | .mmio left => e.continueMmio left

/-- Takes what host memory has answered and then, if the device is ready, sends the beat of this
cycle. -/
def emit (e : Engine) (cycle : Nat) (ready : Bool) : EngineStep (Option Flit) :=
  if e.halted then ⟨.error .halted, e, []⟩
  else
    let e := { e with cycle := cycle }
    (e.collectWrites e.pendingWrites).andThen fun () e =>
      (e.collectReads e.pendingReads).andThen fun () e =>
        if ready then e.sendBeat else .ok e none

end Engine

end TlpBridge
