import Mathlib.Logic.Function.Basic
import TlpBridge.Proofs.Reads.CompletionHeaders

/-!
# Sessions of a device

A device and host memory at both ends of an engine. The device sends beats and puts the
beats that it gets back together to packets; host memory answers the reads it is asked
for, each once and in any order. The session keeps the reads and the received packets.
-/
namespace TlpBridge

/-- A read of the device that the engine has accepted. -/
structure DeviceRead where
  /-- The header as the device sent it. -/
  header : Header
  /-- What host memory is asked for. -/
  request : ReadRequest
  answer : Option ReadResponse := none
deriving DecidableEq

namespace DeviceRead

/-- The slot that the read was put into. -/
def slot (r : DeviceRead) : Nat := r.request.tag.toNat

/-- The length of what the device gets, in DWORDs. -/
def dwordSize (r : DeviceRead) : Nat := (r.header.completedBytes + 3) / 4

/-- The bytes that the device gets: a valid answer, filled up with zeros to whole DWORDs. -/
def image (r : DeviceRead) : List UInt8 :=
  match r.answer with
  | none => []
  | some a =>
    if a.status = .valid then a.data ++ List.replicate (4 * r.dwordSize - a.data.length) 0 else []

/-- An answer that host memory may give: the only one, to this read, and if it is valid with as
many bytes as were asked for. -/
def Admits (r : DeviceRead) (a : ReadResponse) : Prop :=
  r.answer = none ∧ a.tag = r.request.tag ∧
    (a.status = .valid → a.data.length = r.request.dataBytes)

instance (r : DeviceRead) (a : ReadResponse) : Decidable (r.Admits a) :=
  inferInstanceAs (Decidable (_ ∧ _ ∧ _))

end DeviceRead

/-- The place of a completion in the data of a read. -/
structure CompletionPart where
  /-- The number of the read. -/
  read : Nat
  /-- The DWORD of the data with which the completion starts. -/
  offset : Nat
  isLast : Bool
deriving DecidableEq

/-- A packet that the device gets. -/
structure ReceivedPacket where
  header : Header
  /-- What a completion completes. -/
  part : Option CompletionPart
  /-- The payload so far. -/
  payload : List UInt32 := []
deriving DecidableEq

namespace ReceivedPacket

/-- The payload that the header announces, in DWORDs. -/
def announced (p : ReceivedPacket) : Nat :=
  if p.header.fmtType.carriesData then p.header.dwordSize else 0

/-- The packet with the payload of one more beat, which stands from DWORD `start` on. -/
def extend (p : ReceivedPacket) (flit : Flit) (start : Nat) : ReceivedPacket :=
  { p with
    payload := p.payload ++
      flit.dwordsAt start (min (p.announced - p.payload.length) (flit.dwordWidth - start)) }

/-- Whether the packet completes a part of the given read. -/
def completes (p : ReceivedPacket) (i : Nat) : Bool := p.part.any (·.read == i)

end ReceivedPacket

/-- The engine after it took what host memory has answered. -/
def Engine.collect (e : Engine) (cycle : Nat) : EngineStep Unit :=
  ({ e with cycle := cycle }.collectWrites e.pendingWrites).andThen fun () e =>
    e.collectReads e.pendingReads

structure Session where
  engine : Engine
  /-- The accepted reads, in order. -/
  reads : List DeviceRead := []
  /-- The number of the read that took a slot last. -/
  owner : Nat → Nat := fun _ => 0
  /-- The packets that the device got whole, in order. -/
  received : List ReceivedPacket := []
  /-- The packet that the device is in the middle of. -/
  current : Option ReceivedPacket := none
  /-- The read whose completion was cut off by a reset and is still to be sent again. -/
  again : Option Nat := none
  /-- The beats that should have started a packet, and showed no header. -/
  unreadable : List Flit := []
  /-- What was wrong with the last beat to the device, if anything. -/
  fault : Option EngineFault := none

namespace Session

/-- What happens between the device, the engine and the host. -/
inductive Move where
  /-- The device sends a beat. -/
  | accept (cycle : Nat) (flit : Flit)
  /-- The device asks whether its next beat will be taken. -/
  | ready
  /-- The host asks for an access to the device. -/
  | request (r : MmioRequest)
  /-- A cycle in which the device may be ready for a beat. -/
  | emit (cycle : Nat) (ready : Bool)
  | reset
  /-- Host memory takes the next request. -/
  | takeRequest
  /-- Host memory answers a read, unless the answer is none that it may give. -/
  | answerRead (i : Nat) (a : ReadResponse)
  | answerWrite (a : WriteResponse)

/-- The session of a fresh engine. -/
def start (config : ValidParameters) (options : Switches) (random : DrawSource) : Session where
  engine := (Engine.create config options).withDraws random

def accept (s : Session) (cycle : Nat) (flit : Flit) : Session :=
  let engine := (s.engine.accept cycle flit).state
  match flit.header, s.engine.link.postedReads engine.link with
  | .ok h, [r] =>
    { s with
      engine := engine
      reads := s.reads ++ [⟨h, r, none⟩]
      owner := Function.update s.owner r.tag.toNat s.reads.length }
  | _, _ => { s with engine := engine }

/-- What the completion at the head of the queue completes. One that is sent again keeps its read,
any other belongs to the read that took its slot last. -/
def partOf (s : Session) (c : CompletionPacket) : CompletionPart :=
  ⟨s.again.getD (s.owner c.slot), c.startDword, c.isLast⟩

/-- Files a packet with the complete ones, or goes on with it. -/
def file (s : Session) (p : ReceivedPacket) (whole : Bool) : Session :=
  if whole then { s with received := s.received ++ [p], current := none }
  else { s with current := some p }

/-- The device gets a beat; `front` is the completion at the head of the queue. -/
def receive (s : Session) (front : Option CompletionPacket) (flit : Flit) : Session :=
  match s.current, flit.header with
  | some p, _ => s.file (p.extend flit 0) flit.last
  | none, .error _ => { s with unreadable := s.unreadable ++ [flit] }
  | none, .ok h =>
    if h.fmtType.isCompletion then
      { s with again := none }.file
        (ReceivedPacket.extend ⟨h, front.map s.partOf, []⟩ flit HeaderWords.count) flit.last
    else s.file (ReceivedPacket.extend ⟨h, none, []⟩ flit HeaderWords.count) flit.last

/-- The engine was asked for a beat while the given completion was at the head of the queue. -/
def observe (s : Session) (front : Option CompletionPacket) (result : EngineStep (Option Flit)) :
    Session :=
  match result.answer with
  | .error fault => { s with engine := result.state, fault := some fault }
  | .ok none => { s with engine := result.state, fault := none }
  | .ok (some flit) => { s with engine := result.state, fault := none }.receive front flit

def emit (s : Session) (cycle : Nat) (ready : Bool) : Session :=
  s.observe (s.engine.collect cycle).state.completions.front? (s.engine.emit cycle ready)

/-- A reset drops the packet that the device is in the middle of. A completion will come again. -/
def reset (s : Session) : Session :=
  { s with
    engine := s.engine.reset
    current := none
    again := (s.current.bind (·.part)).elim s.again fun part => some part.read }

def takeRequest (s : Session) : Session :=
  match s.engine.link.takeRequest with
  | some (_, link) => { s with engine := { s.engine with link := link } }
  | none => s

def answerRead (s : Session) (i : Nat) (a : ReadResponse) : Session :=
  match s.reads[i]?, s.engine.link.postRead a with
  | some r, some link =>
    if r.Admits a then
      { s with
        engine := { s.engine with link := link }
        reads := s.reads.set i { r with answer := some a } }
    else s
  | _, _ => s

def answerWrite (s : Session) (a : WriteResponse) : Session :=
  match s.engine.link.postWrite a with
  | some link => { s with engine := { s.engine with link := link } }
  | none => s

def step (s : Session) : Move → Session
  | .accept cycle flit => s.accept cycle flit
  | .ready => { s with engine := s.engine.ready.2 }
  | .request r => { s with engine := (s.engine.request r).state }
  | .emit cycle ready => s.emit cycle ready
  | .reset => s.reset
  | .takeRequest => s.takeRequest
  | .answerRead i a => s.answerRead i a
  | .answerWrite a => s.answerWrite a

def run (s : Session) (moves : List Move) : Session := moves.foldl step s

section File

variable (s : Session) (p : ReceivedPacket) (whole : Bool)

@[simp]
theorem engine_file : (s.file p whole).engine = s.engine := by cases whole <;> rfl

@[simp]
theorem reads_file : (s.file p whole).reads = s.reads := by cases whole <;> rfl

@[simp]
theorem owner_file : (s.file p whole).owner = s.owner := by cases whole <;> rfl

@[simp]
theorem again_file : (s.file p whole).again = s.again := by cases whole <;> rfl

theorem mem_file : p ∈ (s.file p whole).received ++ (s.file p whole).current.toList := by
  cases whole <;> simp [file]

end File

section Receive

variable {s : Session} {front : Option CompletionPacket} {flit : Flit} {h : Header}

theorem receive_of_current {p : ReceivedPacket} (current : s.current = some p) :
    s.receive front flit = s.file (p.extend flit 0) flit.last := by
  simp only [receive, current]

theorem receive_of_completion (current : s.current = none) (header : flit.header = .ok h)
    (kind : h.fmtType.isCompletion) : s.receive front flit = { s with again := none }.file
      (ReceivedPacket.extend ⟨h, front.map s.partOf, []⟩ flit HeaderWords.count) flit.last := by
  simp only [receive, current, header, kind, if_true]

theorem receive_of_other (current : s.current = none) (header : flit.header = .ok h)
    (kind : h.fmtType.isCompletion = false) : s.receive front flit =
      s.file (ReceivedPacket.extend ⟨h, none, []⟩ flit HeaderWords.count) flit.last := by
  simp only [receive, current, header, kind, Bool.false_eq_true, if_false]

end Receive

/-- A beat of the device is a read, or it concerns none. -/
theorem accept_cases (s : Session) (cycle : Nat) (flit : Flit)
    (attached : s.engine.link.engineAttached ∧ s.engine.link.serviceAttached) :
    (s.engine.Quiet (s.engine.accept cycle flit).state ∧
      s.accept cycle flit = { s with engine := (s.engine.accept cycle flit).state }) ∨
    ∃ h r slot slots, s.engine.TakesRead (s.engine.accept cycle flit).state flit h r slot slots ∧
      ∀ d : DeviceRead, d = ⟨h,
        Header.readRequest { h with body := .request (h.effectiveRequest r) }
          (h.effectiveRequest r) flit slot, none⟩ →
      s.accept cycle flit = { s with
        engine := (s.engine.accept cycle flit).state
        reads := s.reads ++ [d]
        owner := Function.update s.owner d.slot s.reads.length } := by
  unfold Session.accept
  rcases s.engine.accept_cases cycle flit attached with quiet | ⟨h, r, slot, slots, takes⟩
  · left
    refine ⟨quiet, ?_⟩
    simp only [quiet.2]
    split
    · contradiction
    · rfl
  · right
    refine ⟨h, r, slot, slots, takes, fun d read => ?_⟩
    simp only [takes.header, takes.posted]
    rw [read]
    rfl

theorem engine_accept (s : Session) (cycle : Nat) (flit : Flit) :
    (s.accept cycle flit).engine = (s.engine.accept cycle flit).state := by
  simp only [Session.accept]
  split
  · rfl
  · rfl

theorem takeRequest_eq (s : Session) : s.takeRequest = { s with engine := { s.engine with
    link := { s.engine.link with requests := s.engine.link.requests.tail } } } := by
  unfold Session.takeRequest MemoryLink.takeRequest
  cases waiting : s.engine.link.requests with
  | nil =>
    change s = { s with engine := { s.engine with link := { s.engine.link with requests := [] } } }
    rw [← waiting]
  | cons r rest => rfl

theorem answerRead_eq {s : Session} {i : Nat} {d : DeviceRead} {a : ReadResponse}
    (attached : s.engine.link.engineAttached) (read : s.reads[i]? = some d) (admits : d.Admits a) :
    s.answerRead i a = { s with
      engine := { s.engine with link := { s.engine.link with
        readResponses := s.engine.link.readResponses ++ [a] } }
      reads := s.reads.set i { d with answer := some a } } := by
  have posted : s.engine.link.postRead a = some { s.engine.link with
      readResponses := s.engine.link.readResponses ++ [a] } := if_pos attached
  simp only [answerRead, read, posted, if_pos admits]

theorem answerRead_cases (s : Session) (i : Nat) (a : ReadResponse)
    (attached : s.engine.link.engineAttached) : s.answerRead i a = s ∨
    ∃ r, s.reads[i]? = some r ∧ r.Admits a ∧ s.answerRead i a = { s with
      engine := { s.engine with link := { s.engine.link with
        readResponses := s.engine.link.readResponses ++ [a] } }
      reads := s.reads.set i { r with answer := some a } } := by
  cases read : s.reads[i]? with
  | none =>
    left
    simp only [answerRead, read]
  | some r =>
    by_cases admits : r.Admits a
    · exact .inr ⟨r, rfl, admits, answerRead_eq attached read admits⟩
    · left
      have posted : s.engine.link.postRead a = some { s.engine.link with
          readResponses := s.engine.link.readResponses ++ [a] } := if_pos attached
      simp only [answerRead, read, posted, if_neg admits]

theorem answerWrite_eq {s : Session} (attached : s.engine.link.engineAttached)
    (a : WriteResponse) : s.answerWrite a = { s with engine := { s.engine with
      link := { s.engine.link with
        writeResponses := s.engine.link.writeResponses ++ [a] } } } := by
  have posted : s.engine.link.postWrite a = some { s.engine.link with
      writeResponses := s.engine.link.writeResponses ++ [a] } := if_pos attached
  simp only [answerWrite, posted]

theorem receive_frame (s : Session) (front : Option CompletionPacket) (flit : Flit) :
    (s.receive front flit).engine = s.engine ∧ (s.receive front flit).reads = s.reads ∧
      (s.receive front flit).owner = s.owner := by
  unfold Session.receive
  split
  · simp
  · exact ⟨rfl, rfl, rfl⟩
  · split <;> simp

theorem emit_frame (s : Session) (cycle : Nat) (ready : Bool) :
    (s.emit cycle ready).engine = (s.engine.emit cycle ready).state ∧
      (s.emit cycle ready).reads = s.reads ∧ (s.emit cycle ready).owner = s.owner := by
  unfold Session.emit Session.observe
  split
  · exact ⟨rfl, rfl, rfl⟩
  · exact ⟨rfl, rfl, rfl⟩
  · exact receive_frame ..

theorem run_append (s : Session) (moves more : List Move) :
    s.run (moves ++ more) = (s.run moves).run more := List.foldl_append

end Session

end TlpBridge
