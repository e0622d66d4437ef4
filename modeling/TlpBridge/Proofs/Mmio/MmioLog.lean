import TlpBridge.Proofs.Mmio.MmioBeats

/-!
# Logs of MMIO

What the host and the device see of the MMIO requests of a run: the requests that the engine has
taken, the packets that began on the stream with the responses that came with each beat, and the
responses to reads with the beats of the device that brought them. The log is written from the
arguments and the answers of the calls alone.
-/
namespace TlpBridge

/-- A beat to the device with the MMIO responses of the same cycle. -/
structure AnsweredBeat where
  flit : Flit
  responses : List MmioResponse

/-- What the beats to the device are in the middle of. -/
inductive OnStream where
  | nothing
  | completion
  /-- The beats so far of an MMIO packet. -/
  | mmio (beats : List AnsweredBeat)

/-- A response that came with a beat of the device. -/
structure MmioAnswer where
  /-- The number of the read that was in the slot of the response. -/
  number : Option Nat
  response : MmioResponse
  /-- The beats of the device from the start of their packet on. -/
  beats : List Flit

/-- An engine and what was seen of its MMIO requests. -/
structure MmioLog where
  engine : Engine
  /-- The requests that the engine has taken. A request goes by its number among them. -/
  accepted : List MmioRequest := []
  /-- The MMIO packets that the device has got to their last beat, or that a reset cut off. -/
  packets : List (List AnsweredBeat) := []
  onStream : OnStream := .nothing
  /-- The beats so far of the packet that the device is sending. -/
  incoming : List Flit := []
  /-- For each slot the read that was taken for it and not answered since. -/
  occupant : Nat → Option Nat := fun _ => none
  answers : List MmioAnswer := []
  /-- The slots for which a read was taken while another was in them. -/
  overwritten : List Nat := []
  /-- The responses that came with no beat of an MMIO packet and with none of the device. -/
  stray : List MmioResponse := []

namespace MmioLog

/-- Every MMIO packet that has begun, in order. -/
def begun (l : MmioLog) : List (List AnsweredBeat) :=
  match l.onStream with
  | .mmio beats => l.packets ++ [beats]
  | .nothing | .completion => l.packets

/-- Whether the first beat of a packet says that it is a completion. -/
def startsCompletion (f : Flit) : Bool :=
  match f.header with
  | .ok h => h.fmtType.isCompletion
  | .error _ => false

/-- The device gets a beat of an MMIO packet. -/
def mmioBeat (l : MmioLog) (beats : List AnsweredBeat) (b : AnsweredBeat) : MmioLog :=
  if b.flit.last then { l with onStream := .nothing, packets := l.packets ++ [beats ++ [b]] }
  else { l with onStream := .mmio (beats ++ [b]) }

/-- The device gets a beat of a completion. -/
def completionBeat (l : MmioLog) (b : AnsweredBeat) : MmioLog :=
  { l with
    onStream := if b.flit.last then .nothing else .completion
    stray := l.stray ++ b.responses }

/-- The device gets a beat, which goes on with a packet or starts the next one. -/
def receive (l : MmioLog) (b : AnsweredBeat) : MmioLog :=
  match l.onStream with
  | .mmio beats => l.mmioBeat beats b
  | .completion => l.completionBeat b
  | .nothing => if startsCompletion b.flit then l.completionBeat b else l.mmioBeat [] b

/-- Asked for a beat, the engine has given an answer. -/
def observe (l : MmioLog) (s : EngineStep (Option Flit)) : MmioLog :=
  let l := { l with engine := s.state }
  match s.answer with
  | .ok (some f) => l.receive ⟨f, mmioResponses s.events⟩
  | _ => { l with stray := l.stray ++ mmioResponses s.events }

/-- The host gets a response with the last of some beats of the device: the slot that the response
names is given up. -/
def answer (l : MmioLog) (beats : List Flit) (r : MmioResponse) : MmioLog :=
  { l with
    occupant := Function.update l.occupant r.slot.toNat none
    answers := l.answers ++ [⟨l.occupant r.slot.toNat, r, beats⟩] }

/-- The device has sent a beat. A beat that is refused ends its packet. -/
def accept (l : MmioLog) (cycle : Nat) (flit : Flit) : MmioLog :=
  let s := l.engine.accept cycle flit
  let beats := l.incoming ++ [flit]
  let l := (mmioResponses s.events).foldl (fun l r => l.answer beats r) { l with engine := s.state }
  match s.answer with
  | .ok () => { l with incoming := if flit.last then [] else beats }
  | .error _ => { l with incoming := [] }

/-- The host has asked for an access. A read that is taken occupies its slot. -/
def request (l : MmioLog) (r : MmioRequest) : MmioLog :=
  let s := l.engine.request r
  let l := { l with engine := s.state, stray := l.stray ++ mmioResponses s.events }
  match s.answer with
  | .error _ => l
  | .ok () =>
    if r.write then { l with accepted := l.accepted ++ [r] }
    else
      { l with
        accepted := l.accepted ++ [r]
        occupant := Function.update l.occupant r.slot.toNat (some l.accepted.length)
        overwritten :=
          if (l.occupant r.slot.toNat).isSome then l.overwritten ++ [r.slot.toNat]
          else l.overwritten }

/-- A reset cuts off the packets in progress in both directions. -/
def reset (l : MmioLog) : MmioLog :=
  { l with
    engine := l.engine.reset
    packets := l.begun
    onStream := .nothing
    incoming := [] }

def step (l : MmioLog) : Engine.Call → MmioLog
  | .accept cycle flit => l.accept cycle flit
  | .ready => { l with engine := l.engine.ready.2 }
  | .request r => l.request r
  | .emit cycle ready => l.observe (l.engine.emit cycle ready)
  | .reset => l.reset
  | .serve link => { l with engine := { l.engine with link := link } }

def run (l : MmioLog) (calls : List Engine.Call) : MmioLog := calls.foldl step l

/-- A fresh engine, of which nothing was seen. -/
def start (config : ValidParameters) (options : Switches) (random : DrawSource) : MmioLog where
  engine := (Engine.create config options).withDraws random

/-- The packet has its last beat. -/
def isWhole (beats : List AnsweredBeat) : Bool := beats.getLast?.any (·.flit.last)

/-- The number of packets that were sent as a whole. -/
def sent (packets : List (List AnsweredBeat)) : Nat := packets.countP isWhole

/-- Every response that came with one of the packets. -/
def acknowledgements (packets : List (List AnsweredBeat)) : List MmioResponse :=
  packets.flatten.flatMap (·.responses)

end MmioLog

/-- The beats of a packet for an MMIO request, from the first one on. Each holds what its place
asks for, and exactly the last one of a write comes with the acknowledgement. -/
structure MmioRequest.Sends (r : MmioRequest) (c : ValidParameters) (beats : List AnsweredBeat) :
    Prop where
  nonempty : beats ≠ []
  goesOn : ∀ b ∈ beats.dropLast, b.flit.last = false
  beat : ∀ (j : Nat) (b : AnsweredBeat), beats[j]? = some b →
    b.flit.IsBeat c.dwordWidth j (r.header c.params) (Source.mmio r).payload
  responses : ∀ b ∈ beats, b.responses = if b.flit.last && r.write then [r.response] else []

/-- What the beats of a packet of the device carry behind its header. -/
def beatsPayload : List Flit → List UInt32
  | [] => []
  | first :: rest => first.payloadFrom HeaderWords.count ++ rest.flatMap (·.payloadFrom 0)

/-- The answer is that to the given read: it names its transaction and its slot, and has all that
the completion for that slot carries. -/
structure MmioAnswer.Fits (a : MmioAnswer) (r : MmioRequest) : Prop where
  read : a.response.write = false
  tid : a.response.tid = r.tid
  slot : a.response.slot = r.slot
  /-- The beats are those of one packet. -/
  packet : ∃ before last, a.beats = before ++ [last] ∧ last.last ∧ ∀ f ∈ before, f.last = false
  data : ∃ first rest h c, a.beats = first :: rest ∧ first.header = .ok h ∧
    h.body = .completion c ∧ h.tag = r.slot ∧
    a.response.data = payloadBytes (beatsPayload a.beats) h.byteSize.toNat ∧
    a.response.data.length = h.byteSize.toNat

namespace MmioLog

/-- Packets go with the requests in the order in which these were taken: a packet is for the
request whose number is that of the whole packets before it, so that a packet that was cut off is
for the same request as the next one. -/
def InOrder (c : ValidParameters) (accepted : List MmioRequest)
    (packets : List (List AnsweredBeat)) : Prop :=
  ∀ before p after, packets = before ++ p :: after →
    ∃ r, accepted[sent before]? = some r ∧ r.Sends c p

/-- MMIO requests and responses correspond one to one. -/
structure Corresponds (l : MmioLog) (c : ValidParameters) : Prop where
  order : InOrder c l.accepted l.begun
  /-- The packet of a write carries as many bytes of its data as it is wide. -/
  payload : ∀ r ∈ l.accepted, r.write →
    dwordsBytes (Source.mmio r).payload = r.data.take (r.widthBits / 8)
  /-- Each write is acknowledged once its packet was sent as a whole, and only then. -/
  acknowledged : acknowledgements l.begun =
    ((l.accepted.take (sent l.begun)).filter (·.write)).map (·.response)
  stray : l.stray = []
  /-- A response to a read is for the read that was in its slot. -/
  answered : ∀ a ∈ l.answers, ∃ k r, a.number = some k ∧ l.accepted[k]? = some r ∧
    r.write = false ∧ a.Fits r
  once : (l.answers.map (·.number)).Nodup
  busy : ∀ slot, (l.engine.mmioReads[slot]?).join.isSome ↔ (l.occupant slot).isSome
  /-- A read is in its slot as long as it is not answered. -/
  waiting : ∀ (k : Nat) (r : MmioRequest), l.accepted[k]? = some r → r.write = false →
    (l.occupant r.slot.toNat = some k ↔ some k ∉ l.answers.map (·.number))
  kept : l.overwritten = []

end MmioLog

end TlpBridge
