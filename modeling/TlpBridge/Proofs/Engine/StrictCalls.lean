import TlpBridge.Engine.ToDevice

/-!
# Strict calls

The calls of the engine once more, with each place marked at which a call could break down. The
index into an array or into the bytes of a lane has to be inside, a difference must not go below
zero, nothing is divided by zero, and a loop has to come to its end. Where one of these is broken
a strict call gives nothing; otherwise it gives what the call gives. Differences that stop at zero
by intention are not marked. The counters are unbounded, so that a sum breaks nothing.
-/
namespace TlpBridge.Strict

/-! ## Beats of the device -/

/-- Looks up `n` bits of a lane from `lsb` on in its bytes. Bits beyond the width are left out. -/
def bits (l : Lane) (lsb n : Nat) : Option Unit :=
  guard (∀ k < n, lsb + k < l.width → (lsb + k) / 8 < l.bytes.length)

/-- The header of a flit. For an unknown format its byte is looked up again. -/
def header (flit : Flit) : Option (Except EncodingError Header) := do
  match HeaderWords.ofBytes flit.data.bytes with
  | .error _ => some ()
  | .ok (w, _) =>
    if w.fmtType.kind?.isNone then guard (3 < flit.data.bytes.length) else bits flit.user 0 1
  some flit.header

/-- A run of DWORDs parsed from the bytes of a flit, which have to reach to DWORD `start`. -/
def dwordsAt (flit : Flit) (start n : Nat) : Option (Except Violation (List UInt32)) := do
  guard (4 * start ≤ flit.data.bytes.length)
  match takeDwords n (flit.data.bytes.drop (4 * start)) with
  | .error _ => some (.error (.encoding .truncated))
  | .ok (dwords, _) => some (.ok dwords)

/-- The payload after one more beat. -/
def extend (p : OpenPacket) (flit : Flit) (start total : Nat) (kind : DevicePacket) :
    Option (Except Violation OpenPacket) := do
  let remaining := total - p.payload.length
  let avail := flit.dwordWidth - start
  if avail < remaining then
    if flit.last then some (.error (.prematureEop kind))
    else
      let dwords ← dwordsAt flit start avail
      some (dwords.map fun dwords => { p with payload := p.payload ++ dwords })
  else if flit.last then
    let dwords ← dwordsAt flit start remaining
    some (dwords.map fun dwords => { p with payload := p.payload ++ dwords })
  else some (.error (.expectedEop kind))

/-- Answers an MMIO read, whose slot is looked up. -/
def completeMmioRead (e : Engine) (p : OpenPacket) : Option (EngineStep Unit) := do
  guard (p.header.tag.toNat < e.mmioReads.size)
  some (e.completeMmioRead p)

def acceptCompletionBeat (e : Engine) (p : OpenPacket) (flit : Flit) (start : Nat) :
    Option (EngineStep Unit) := do
  match ← extend p flit start (p.header.byteSize.toNat / 4) .mmioCompletion with
  | .error v => some (e.haltOn (some p.header) flit v)
  | .ok p =>
    if flit.last then completeMmioRead e p
    else some (.ok { e with fromDevice := .completion p } ())

/-- The rule that an MMIO completion breaks. A tag in range is looked up. -/
def completionFault? (e : Engine) (h : Header) (c : CompletionBody) :
    Option (Option Violation) := do
  if h.tag.toNat < e.params.maxMmioReads then guard (h.tag.toNat < e.mmioReads.size)
  some (e.completionFault? h c)

def acceptCompletion (e : Engine) (h : Header) (c : CompletionBody) (flit : Flit) :
    Option (EngineStep Unit) := do
  if ¬ h.fmtType.carriesData then some (e.haltOn (some h) flit .completionWithoutData)
  else
    match ← completionFault? e h c with
    | some v => some (e.haltOn (some h) flit v)
    | none => acceptCompletionBeat e ⟨h, []⟩ flit HeaderWords.count

def acceptWriteBeat (e : Engine) (p : OpenPacket) (flit : Flit) (start : Nat) :
    Option (EngineStep Unit) := do
  match ← extend p flit start p.header.dwordSize .dmaWrite with
  | .error v => some (e.haltOn (some p.header) flit v)
  | .ok p =>
    if flit.last then some (e.submitWrite p)
    else some (.ok { e with fromDevice := .write p } ())

def acceptWrite (e : Engine) (h : Header) (r : RequestBody) (flit : Flit) :
    Option (EngineStep Unit) :=
  match e.params.writeFault? h r with
  | some v => some (e.haltOn (some h) flit v)
  | none => acceptWriteBeat e ⟨h, []⟩ flit HeaderWords.count

/-- The slot for a read, which is looked up to see whether it is busy. -/
def chooseSlot (s : SlotPool) (tag : Nat) : Option (Except Violation (Nat × SlotPool)) := do
  if s.mapped then
    match s.free with
    | [] => some ()
    | slot :: _ => guard (slot < s.states.size)
  else guard (tag < s.states.size)
  some (Engine.chooseSlot s tag)

/-- Puts a read into its slot. Up to four operands are read behind the header. -/
def submitRead (e : Engine) (h : Header) (r : RequestBody) (flit : Flit) (slot : Nat)
    (slots : SlotPool) : Option (EngineStep Unit) := do
  bits flit.data (32 * HeaderWords.count) (32 * 4)
  guard (slot < slots.states.size)
  some (e.submitRead h r flit slot slots)

def acceptRead (e : Engine) (h : Header) (r : RequestBody) (flit : Flit) :
    Option (EngineStep Unit) := do
  match e.params.readExtentFault? flit.last h r with
  | some v => some (e.haltOn (some h) flit v)
  | none =>
    let r := h.effectiveRequest r
    let h := { h with body := .request r }
    match e.params.readFault? h r with
    | some v => some (e.haltOn (some h) flit v)
    | none =>
      match ← chooseSlot e.slots h.tag.toNat with
      | .error v => some (e.haltOn (some h) flit v)
      | .ok (slot, slots) => submitRead e h r flit slot slots

def dispatch (e : Engine) (h : Header) (flit : Flit) : Option (EngineStep Unit) :=
  match h.body with
  | .interrupt vector => some (e.acceptInterrupt h vector flit)
  | .completion c => acceptCompletion e h c flit
  | .request r =>
    if h.fmtType.isMemoryWrite ∧ ¬ h.fmtType.isAtomic then acceptWrite e h r flit
    else acceptRead e h r flit
  | .other => some (e.haltOn (some h) flit .unsupportedType)

def acceptStart (e : Engine) (flit : Flit) : Option (EngineStep Unit) := do
  match ← header flit with
  | .error cause => some (e.haltOn none flit (.encoding cause))
  | .ok h => (dispatch e h flit).map (·.after [.report (.accepted e.cycle (some h) flit)])

/-- Takes one beat of the device. -/
def accept (e : Engine) (cycle : Nat) (flit : Flit) : Option (EngineStep Unit) :=
  if e.halted then some ⟨.error .halted, e, []⟩
  else
    let idle := { e with cycle := cycle, fromDevice := .start }
    let traced : List Effect := [.report (.accepted cycle none flit)]
    match e.fromDevice with
    | .start => acceptStart idle flit
    | .completion p => (acceptCompletionBeat idle p flit 0).map (·.after traced)
    | .write p => (acceptWriteBeat idle p flit 0).map (·.after traced)

/-! ## Requests of the host -/

/-- Why an MMIO request cannot be taken. The slot of a read is looked up if it is in range. -/
def requestFault? (e : Engine) (r : MmioRequest) : Option (Option Violation) := do
  if ¬ r.write ∧ ¬ e.mmioReads.size ≤ r.slot.toNat then guard (r.slot.toNat < e.mmioReads.size)
  some (e.requestFault? r)

/-- Takes an MMIO request of the host. -/
def request (e : Engine) (r : MmioRequest) : Option (EngineStep Unit) := do
  if e.halted then some (e.request r)
  else
    match ← requestFault? e r with
    | some v => some (e.halt none v)
    | none =>
      if ¬ r.write then guard (r.slot.toNat < e.mmioReads.size)
      some (e.request r)

/-! ## Answers of host memory -/

/-- Goes on with the engine that a call leaves. -/
def andThen {α β : Type} (s : EngineStep α) (f : α → Engine → Option (EngineStep β)) :
    Option (EngineStep β) :=
  match s.answer with
  | .error err => some ⟨.error err, s.state, s.events⟩
  | .ok a => (f a s.state).map (·.after s.events)

/-- Takes up to `n` responses to writes, each of which is counted off. -/
def collectWrites : (n : Nat) → Engine → Option (EngineStep Unit)
  | 0, e => some (.ok e ())
  | n + 1, e => do
    match e.link.receiveWrite with
    | (.disconnected, _) => some ⟨.error .disconnected, e, []⟩
    | (.empty, _) => some (.ok e ())
    | (.item r, link) =>
      guard (1 ≤ e.pendingWrites)
      let e := { e with link := link, pendingWrites := e.pendingWrites - 1 }
      if r.status = .valid then collectWrites n e
      else
        some ⟨.error (.memoryAccess .write r.status r.pa r.va), e,
          [.report (.accessRefused .write r.status r.pa r.va)]⟩

/-- The byte count of a completion: the gaps at both ends have to fit into its DWORDs. -/
def byteCount? (dwordSize : Nat) (first last : UInt8) : Option (Option Nat) := do
  if dwordSize ≠ 0 ∧ ¬ ByteEnable.isEmpty first then
    let ending := if ByteEnable.isEmpty last then first else last
    if ¬ ByteEnable.isEmpty last ∨ dwordSize = 1 then
      guard (ByteEnable.leadingGap first ≤ 4 * dwordSize)
      guard (ByteEnable.trailingGap ending ≤ 4 * dwordSize - ByteEnable.leadingGap first)
  some (ByteEnable.byteCount? dwordSize first last)

/-- Draws the length of the next completion of a read, with a division by the completion boundary
and a remainder by the most boundaries that one completion spans. -/
def packetLength (e : Engine) (left : Nat) : Option (Nat × Engine) := do
  guard (e.params.completionBoundary ≠ 0)
  guard (max 1 (e.params.maxReadBytes / e.params.completionBoundary) ≠ 0)
  some (e.packetLength left)

/-- Cuts the data of a read into completions. No DWORD may be left when the fuel is used up, and no
completion may take more than what is left. -/
def queuePackets (slot : Nat) (h : Header) (r : RequestBody) (data : List UInt32) :
    (fuel start byteCount : Nat) → Engine → Option Engine
  | 0, start, _, e => do
    guard (h.dwordSize - start = 0)
    some e
  | fuel + 1, start, byteCount, e => do
    let left := h.dwordSize - start
    if left = 0 then some e
    else
      let (n, e) ← packetLength e left
      let isFirst := start == 0
      let isLast := n == left
      let e := e.queueCompletion
        { slot := slot
          data := data
          byteSize := if isLast then h.byteSize.toNat - 4 * start else 4 * n
          startDword := start
          byteCount := byteCount
          isFirst := isFirst
          isLast := isLast }
      let sent ← byteCount? n
        (if isFirst then r.firstEnable else 0xf) (if isLast then r.lastEnable else 0xf)
      guard (n ≤ left)
      queuePackets slot h r data fuel (start + n) (byteCount - sent.getD (4 * n)) e

def queueRead (e : Engine) (slot : Nat) (h : Header) (data : List UInt8) :
    Option (EngineStep Unit) := do
  let r := h.request?.getD {}
  let expected := if h.isFence r then 0 else h.byteSize.toNat
  if data.length ≠ expected then
    some (e.halt (some h) (.readResponseLength data.length expected))
  else
    match ← byteCount? h.dwordSize r.firstEnable r.lastEnable with
    | none => some (e.halt (some h) (.readByteEnables h.dwordSize))
    | some count =>
      let e ← queuePackets slot h r (paddedDwords h.dwordSize data) h.dwordSize 0 count e
      some (.ok e ())

/-- Gives a slot back, which is looked up. -/
def release (s : SlotPool) (slot : Nat) : Option SlotPool := do
  guard (slot < s.states.size)
  some (s.release slot)

def receiveRead (e : Engine) (r : ReadResponse) : Option (EngineStep Unit) := do
  let slot := r.tag.toNat
  let request := (e.slots.states[slot]?).bind fun s => if s.busy then s.request else none
  match request with
  | none => some (e.halt none (.readResponseTag r.tag))
  | some h =>
    if r.status = .valid then queueRead e slot h r.data
    else
      let slots ← release e.slots slot
      some ⟨.error (.memoryAccess .read r.status r.pa r.va), { e with slots := slots },
        [.report (.accessRefused .read r.status r.pa r.va)]⟩

/-- Takes up to `n` responses to reads, each of which is counted off. -/
def collectReads : (n : Nat) → Engine → Option (EngineStep Unit)
  | 0, e => some (.ok e ())
  | n + 1, e => do
    match e.link.receiveRead with
    | (.disconnected, _) => some ⟨.error .disconnected, e, []⟩
    | (.empty, _) => some (.ok e ())
    | (.item r, link) =>
      guard (1 ≤ e.pendingReads)
      let received ← receiveRead { e with link := link, pendingReads := e.pendingReads - 1 } r
      andThen received fun () e => collectReads n e

/-! ## Beats to the device -/

/-- Stores `n` DWORDs in a flit from DWORD `start` on, bit by bit, with the keep bits of their
bytes. -/
def store (flit : Flit) (start n : Nat) : Option Unit := do
  bits flit.data (32 * start) (32 * n)
  bits flit.keep (4 * start) (4 * n)

/-- Sends a beat of a completion. The beat begins inside the flit, no more is left of the packet
than it has, and no more goes with this beat than is left. -/
def completionBeat (e : Engine) (c : CompletionPacket) (header : Option Header) (flit : Flit)
    (start left : Nat) : Option (EngineStep (Option Flit)) := do
  guard (start ≤ e.config.dwordWidth)
  guard (left ≤ c.dwordSize)
  let n := min left (e.config.dwordWidth - start)
  store flit start n
  guard (n ≤ left)
  some (e.completionBeat c header flit start left)

/-- Sends a flit with a header. -/
def withHeader (e : Engine) (h : Header) (send : Flit → Option (EngineStep (Option Flit))) :
    Option (EngineStep (Option Flit)) := do
  match e.blankFlit.storeHeader h with
  | .error cause => some ((e.halt none (.encoding cause)).after [.report (.refusedHeader h)])
  | .ok flit =>
    bits e.blankFlit.user 0 1
    store e.blankFlit 0 HeaderWords.count
    send flit

def startCompletion (e : Engine) (c : CompletionPacket) : Option (EngineStep (Option Flit)) := do
  let (stalled, e) := e.drawStall
  if stalled then some (.ok e none)
  else
    let slot := (e.slots.states[c.slot]?).getD {}
    match slot.request with
    | none => some (e.halt none (.readResponseTag (UInt16.ofNat c.slot)))
    | some request =>
      if e.cycle - slot.startCycle < Engine.minReadLatency ∧ ¬ e.options.unlimitedBandwidth then
        some (.ok e none)
      else
        let h := c.header request
        let slots ← if c.isLast then release e.slots c.slot else some e.slots
        let e := { e with slots := slots }
        withHeader e h fun flit =>
          completionBeat e c (some h) flit HeaderWords.count c.dwordSize

def continueCompletion (e : Engine) (left : Nat) : Option (EngineStep (Option Flit)) :=
  let (stalled, e) := e.drawStall
  if stalled then some (.ok e none)
  else
    match e.completions.front? with
    | none => some (.ok { e with toDevice := .start } none)
    | some c => completionBeat e c none e.blankFlit 0 left

/-- Sends a beat of an MMIO request. What is left of a write is within the request, and no more
goes with this beat. -/
def mmioBeat (e : Engine) (r : MmioRequest) (header : Option Header) (flit : Flit)
    (start left : Nat) : Option (EngineStep (Option Flit)) := do
  guard (left ≤ r.byteSize / 4)
  if r.write then
    guard (start ≤ e.config.dwordWidth)
    let n := min left (e.config.dwordWidth - start)
    store flit start n
    guard (n ≤ left)
  some (e.mmioBeat r header flit start left)

def startMmio (e : Engine) (r : MmioRequest) : Option (EngineStep (Option Flit)) :=
  if e.lastMmioCycle.any fun last => e.cycle - last < Engine.mmioSpacing then some (.ok e none)
  else
    let (stalled, e) := e.drawStall
    if stalled then some (.ok e none)
    else
      let h := r.header e.params
      withHeader e h fun flit =>
        mmioBeat { e with lastMmioCycle := some e.cycle } r (some h) flit HeaderWords.count
          (r.byteSize / 4)

def continueMmio (e : Engine) (left : Nat) : Option (EngineStep (Option Flit)) :=
  match e.mmioQueue with
  | [] => some (.ok { e with toDevice := .start } none)
  | r :: _ => mmioBeat e r none e.blankFlit 0 left

def elseCompletion (flit : Option Flit) (e : Engine) : Option (EngineStep (Option Flit)) :=
  match flit, e.completions.front? with
  | none, some c => startCompletion e c
  | flit, _ => some (.ok e flit)

def startPacket (e : Engine) : Option (EngineStep (Option Flit)) := do
  let mmio ←
    match e.mmioQueue with
    | [] => some (.ok e none)
    | r :: _ => startMmio e r
  andThen mmio elseCompletion

def sendBeat (e : Engine) : Option (EngineStep (Option Flit)) :=
  match e.toDevice with
  | .start => startPacket e
  | .completion left => continueCompletion e left
  | .mmio left => continueMmio e left

/-- Takes what host memory has answered and sends the beat of this cycle. -/
def emit (e : Engine) (cycle : Nat) (ready : Bool) : Option (EngineStep (Option Flit)) := do
  if e.halted then some ⟨.error .halted, e, []⟩
  else
    let e := { e with cycle := cycle }
    let writes ← collectWrites e.pendingWrites e
    andThen writes fun () e => do
      let reads ← collectReads e.pendingReads e
      andThen reads fun () e => if ready then sendBeat e else some (.ok e none)

end TlpBridge.Strict
