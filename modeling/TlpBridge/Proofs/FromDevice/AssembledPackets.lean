import TlpBridge.Proofs.FromDevice.CarriedPayloads
import TlpBridge.Proofs.Mmio.IssuedReads
import TlpBridge.Proofs.FromDevice.ServedKinds

/-!
# Packets put together again

A write of the device, or its answer to an MMIO read, comes in as many beats as it needs, and the
host and host memory go on in between. Nothing leaves the engine before the last beat. With it the
whole payload does, in the order of its bytes; a beat whose mark is wrong halts the engine instead.
-/
namespace TlpBridge

/-- Bytes that are the first `n` of a payload: each DWORD starts with its lowest byte. -/
structure HoldsBytes (data : List UInt8) (payload : List UInt32) (n : Nat) : Prop where
  length : data.length = n
  byte : ∀ i < n, data[i]? = payload[i / 4]?.map fun v => UInt8.ofNat (v.toNat / 2 ^ (8 * (i % 4)))

/-- A write that stores a payload as its header says. -/
structure WriteRequest.Stores (w : WriteRequest) (h : Header) (r : RequestBody)
    (payload : List UInt32) : Prop where
  addr : w.addr = r.addr
  addressType : w.addressType = r.attributes.addressType
  pasid : w.pasid = h.pasid?
  data : HoldsBytes w.data payload h.byteSize.toNat
  enables : w.enables = none ∨ w.enables = some (r.firstEnable, r.lastEnable)
  /-- There are no masks exactly if every byte is to be stored. -/
  unmasked : w.enables = none ↔
    ∀ i < h.byteSize.toNat, writeEnabled h.byteSize.toNat r.firstEnable r.lastEnable i

/-- A response with a payload to an MMIO read. -/
structure MmioResponse.Answers (m : MmioResponse) (h : Header) (c : CompletionBody)
    (read : MmioRead) (payload : List UInt32) : Prop where
  tid : m.tid = read.tid
  write : m.write = false
  slot : m.slot = h.tag
  addr : m.addr = c.lowerAddr.toUInt64
  width : m.widthBits = 8 * h.byteSize.toNat
  data : HoldsBytes m.data payload h.byteSize.toNat

/-- What the device sends a payload for. -/
inductive Cargo where
  | write (r : RequestBody)
  /-- The answer to the MMIO read that waits in its slot. -/
  | reply (c : CompletionBody) (read : MmioRead)

namespace Cargo

def kind : Cargo → DevicePacket
  | .write _ => .dmaWrite
  | .reply .. => .mmioCompletion

/-- Where the stream from the device stands inside the packet. -/
def inside (p : OpenPacket) : Cargo → FromDeviceState
  | .write _ => .write p
  | .reply .. => .completion p

/-- The header is one for the cargo. -/
def Of (h : Header) : Cargo → Prop
  | .write r => h.fmtType.kind? = some .memoryWrite ∧ h.body = .request r
  | .reply c _ => h.fmtType.kind? = some .completionData ∧ h.body = .completion c

/-- The header breaks no rule. -/
def Lawful (e : Engine) (h : Header) : Cargo → Prop
  | .write r => e.params.writeFault? h r = none
  | .reply c _ => e.completionFault? h c = none

/-- The read that is answered waits in the slot that the header names. -/
def Waits (e : Engine) (h : Header) : Cargo → Prop
  | .write _ => True
  | .reply _ read => e.mmioReads[h.tag.toNat]? = some (some read)

/-- What is asked of host memory for the whole payload. -/
def Posts (h : Header) (payload : List UInt32) (posted : List MemoryRequest) : Cargo → Prop
  | .write r => ∃ w : WriteRequest, w.Stores h r payload ∧ posted = [.write w]
  | .reply .. => posted = []

end Cargo

namespace Engine

/-- A call that is not of the device. Host memory may take and answer requests, but stays. -/
def Call.OfHost : Call → Prop
  | .accept .. | .reset => False
  | .ready | .request _ | .emit .. => True
  | .serve link => link.engineAttached ∧ link.serviceAttached

/-- The beat that a call brings. -/
def Call.beat? : Call → Option Flit
  | .accept _ flit => some flit
  | _ => none

/-- The beats that calls bring. -/
def beatsOf (calls : List Call) : List Flit := calls.filterMap Call.beat?

/-- Calls in which the device sends some beats. The calls of the host among them do not halt the
engine. -/
inductive Interleaves : Engine → List Flit → List Call → Prop where
  | done {e : Engine} : Interleaves e [] []
  | beat {e : Engine} {cycle : Nat} {flit : Flit} {flits : List Flit} {calls : List Call}
    (rest : Interleaves (e.perform (.accept cycle flit)) flits calls) :
    Interleaves e (flit :: flits) (.accept cycle flit :: calls)
  | host {e : Engine} {call : Call} {flits : List Flit} {calls : List Call} (other : call.OfHost)
    (runs : e.halted = false → (e.perform call).halted = false)
    (rest : Interleaves (e.perform call) flits calls) : Interleaves e flits (call :: calls)

/-- What the engine asks of host memory in a call. -/
def posts (e : Engine) (call : Call) : List MemoryRequest :=
  match call with
  | .serve _ => []
  | call => (e.perform call).link.requests.drop e.link.requests.length

/-- What the engine asks of host memory in a run. -/
def postsAll : Engine → List Call → List MemoryRequest
  | _, [] => []
  | e, call :: calls => e.posts call ++ postsAll (e.perform call) calls

section Beat

variable (e : Engine) (cycle : Nat) (shown : Option Header) (flit : Flit)

/-- The report on a beat, with the header if it is the first one. -/
def accepted : Effect := .report (.accepted cycle shown flit)

/-- The engine takes a beat into the packet and does nothing else. -/
def Gathers (h : Header) (cargo : Cargo) : Prop :=
  ∃ gathered, e.accept cycle flit = ⟨.ok (),
    { e with cycle := cycle, fromDevice := cargo.inside ⟨h, gathered⟩ },
    [accepted cycle shown flit]⟩

/-- The engine takes the last beat of a packet and hands the payload on. -/
def Delivers (h : Header) (payload : List UInt32) : Cargo → Prop
  | .write r => ∃ w : WriteRequest, w.Stores h r payload ∧
    e.accept cycle flit = ⟨.ok (),
      { e with
        cycle := cycle
        fromDevice := .start
        link := { e.link with requests := e.link.requests ++ [.write w] }
        pendingWrites := e.pendingWrites + 1 },
      [accepted cycle shown flit]⟩
  | .reply c read => ∃ m : MmioResponse, m.Answers h c read payload ∧
    e.accept cycle flit = ⟨.ok (),
      { e with
        cycle := cycle
        fromDevice := .start
        mmioReads := e.mmioReads.setIfInBounds h.tag.toNat none },
      accepted cycle shown flit ::
        .report (.mmioReadCompleted h.tag.toNat (cycle - read.startCycle)) :: e.deliver m⟩

/-- The engine halts for a beat and does nothing else. -/
def HaltsFor (h : Header) (v : Violation) : Prop :=
  e.accept cycle flit = ⟨.error (.protocol cycle v (some h)),
    { e with cycle := cycle, fromDevice := .start, halted := true },
    [accepted cycle shown flit, .report (.violation cycle v (some h)),
      .report (.refusedFlit flit)]⟩

/-- What a beat of a packet does, the final one or an earlier one, with its mark as it should be or
not. -/
structure Assembles (h : Header) (payload : List UInt32) (cargo : Cargo) (final : Prop) : Prop where
  running : e.halted = false
  marked : flit.last ↔ final
  gathers : ¬ final → e.Gathers cycle shown flit h cargo
  delivers : final → e.Delivers cycle shown flit h payload cargo
  premature : ¬ final →
    e.HaltsFor cycle shown { flit with last := true } h (.prematureEop cargo.kind)
  unended : final →
    e.HaltsFor cycle shown { flit with last := false } h (.expectedEop cargo.kind)

end Beat

end Engine

/-! ## Payloads -/

theorem dwordsBytes_holds (payload : List UInt32) (i : Nat) : (dwordsBytes payload)[i]? =
    payload[i / 4]?.map fun v => UInt8.ofNat (v.toNat / 2 ^ (8 * (i % 4))) := by
  induction payload generalizing i with
  | nil => rfl
  | cons v vs ih =>
    have four : (dwordBytes v).length = 4 := length_littleEndian ..
    rw [dwordsBytes_cons]
    by_cases first : i < 4
    · rw [List.getElem?_append_left (four.symm ▸ first), Nat.div_eq_of_lt first,
        Nat.mod_eq_of_lt first]
      change (littleEndian 4 v.toNat)[i]? = some _
      interval_cases i <;> simp [littleEndian, Nat.div_div_eq_div_mul]
    · have later := Nat.le_of_not_lt first
      have place : i / 4 = (i - 4) / 4 + 1 := by omega
      have offset : i % 4 = (i - 4) % 4 := by omega
      rw [List.getElem?_append_right (four.symm ▸ later), four, ih, place, offset]
      rfl

theorem payloadBytes_holds {payload : List UInt32} {n : Nat} (le : n ≤ 4 * payload.length) :
    HoldsBytes (payloadBytes payload n) payload n where
  length := length_payloadBytes le
  byte i inside := by
    rw [payloadBytes, List.getElem?_take_of_lt inside, dwordsBytes_holds]

theorem eq_full_of_testBit {m : UInt8} (narrow : m.toNat < 16)
    (bits : ∀ j < 4, m.toNat.testBit j = true) : m = 0xf := by
  have full : ∀ n < 16, (∀ j < 4, Nat.testBit n j = true) → n = 15 := by decide
  exact UInt8.toNat_inj.1 (full m.toNat narrow bits)

namespace Header

variable {h : Header} {r : RequestBody} {payload : List UInt32}

theorem byteSize_pos_of_writeFault? {p : Parameters} (rules : p.writeFault? h r = none) :
    0 < h.byteSize.toNat := by
  refine Nat.pos_of_ne_zero fun zero => ?_
  have empty : h.byteSize = 0 := UInt32.toNat_inj.1 zero
  unfold Parameters.writeFault? at rules
  by_cases long : p.maxWrite h.mode < h.byteSize.toNat
  · rw [if_pos long] at rules
    cases rules
  · rw [if_neg long, if_pos empty] at rules
    cases rules

theorem full_of_writeEnabled (noFault : h.fault? = none) (body : h.body = .request r)
    (some_ : 0 < h.byteSize.toNat)
    (all : ∀ i < h.byteSize.toNat,
      writeEnabled h.byteSize.toNat r.firstEnable r.lastEnable i = true) :
    r.firstEnable = 0xf ∧ (4 < h.byteSize.toNat → r.lastEnable = 0xf) := by
  have bodyFault := (h.fault?_eq_none_iff.1 noFault).2.1
  simp only [bodyFault?, body] at bodyFault
  split at bodyFault
  · split at bodyFault
    · obtain ⟨-, -, first, last⟩ := (h.dataMoverRequestFault?_eq_none_iff r).1 bodyFault
      exact ⟨UInt8.toNat_inj.1 first, fun _ => UInt8.toNat_inj.1 last⟩
    · obtain ⟨length, first, last, -⟩ := (h.powerUserRequestFault?_eq_none_iff r).1 bodyFault
      rw [powerUserLengthFault?_eq_none_iff] at length
      refine ⟨eq_full_of_testBit first fun j inside => ?_, fun long =>
        eq_full_of_testBit last fun j inside => ?_⟩
      · have bit := all j (by omega)
        rwa [writeEnabled, if_pos (by omega), Nat.mod_eq_of_lt inside] at bit
      · have bit := all (h.byteSize.toNat - 4 + j) (by omega)
        have offset : (h.byteSize.toNat - 4 + j) % 4 = j := by omega
        rwa [writeEnabled, if_neg (by omega), if_pos (by omega), offset] at bit
  · cases bodyFault

theorem writeRequest_stores {p : Parameters} (noFault : h.fault? = none)
    (body : h.body = .request r) (rules : p.writeFault? h r = none)
    (length : payload.length = h.dwordSize) :
    (h.writeRequest r payload).Stores h r payload := by
  have enough : h.byteSize.toNat ≤ 4 * payload.length := length ▸ h.byteSize_le_dwordSize
  refine ⟨rfl, rfl, rfl, payloadBytes_holds enough, ?_, fun none_ i inside => ?_, fun all => ?_⟩
  · unfold writeRequest
    simp only
    split
    · exact .inr rfl
    · exact .inl rfl
  · rw [← DmaPacket.enabled_writeRequest (length_payloadBytes enough) inside,
      WriteRequest.enabled, none_]
  · obtain ⟨first, last⟩ :=
      full_of_writeEnabled noFault body (byteSize_pos_of_writeFault? rules) all
    refine if_neg ?_
    rw [not_or, not_not, not_and, not_not]
    exact ⟨first, fun long => last (UInt32.lt_iff_toNat_lt.1 long)⟩

theorem mmioReadResponse_answers {c : CompletionBody} (length : payload.length = h.dwordSize)
    (read : MmioRead) :
    (Engine.mmioReadResponse read.tid h c payload).Answers h c read payload where
  tid := rfl
  write := rfl
  slot := rfl
  addr := rfl
  width := Nat.mul_comm ..
  data := payloadBytes_holds (length ▸ h.byteSize_le_dwordSize)

end Header

/-! ## Beats -/

namespace OpenPacket

variable {f : Flit} {w start : Nat} {rest : List UInt32} (p : OpenPacket) (kind : DevicePacket)

theorem extend_of_long (width : f.dwordWidth = w) (long : w - start < rest.length)
    (dwords : f.dwordsAt start (w - start) = rest.take (w - start)) :
    p.extend f start (p.payload.length + rest.length) kind =
      if f.last then .error (.prematureEop kind)
      else .ok { p with payload := p.payload ++ rest.take (w - start) } := by
  simp only [extend, width, Nat.add_sub_cancel_left, if_pos long, dwords]

theorem extend_of_fits (width : f.dwordWidth = w) (fits : rest.length ≤ w - start)
    (dwords : f.dwordsAt start rest.length = rest) :
    p.extend f start (p.payload.length + rest.length) kind =
      if f.last then .ok { p with payload := p.payload ++ rest }
      else .error (.expectedEop kind) := by
  simp only [extend, width, Nat.add_sub_cancel_left, if_neg (Nat.not_lt.2 fits), dwords]

end OpenPacket

namespace Cargo

/-- A beat of a packet whose payload starts at DWORD `start`. -/
def accept (e : Engine) (p : OpenPacket) (flit : Flit) (start : Nat) : Cargo → EngineStep Unit
  | .write _ => e.acceptWriteBeat p flit start
  | .reply .. => e.acceptCompletionBeat p flit start

/-- What is done with a packet that is complete. -/
def handOn (e : Engine) (p : OpenPacket) : Cargo → EngineStep Unit
  | .write _ => e.submitWrite p
  | .reply .. => e.completeMmioRead p

variable {e : Engine} {h : Header} {cargo : Cargo}

theorem accept_eq (of : cargo.Of h) (noFault : h.fault? = none) (gathered : List UInt32)
    (flit : Flit) (start : Nat) : cargo.accept e ⟨h, gathered⟩ flit start =
      match OpenPacket.extend ⟨h, gathered⟩ flit start h.dwordSize cargo.kind with
      | .error v => e.haltOn (some h) flit v
      | .ok p =>
        if flit.last then cargo.handOn e p else .ok { e with fromDevice := cargo.inside p } () := by
  cases cargo with
  | write r => rfl
  | reply c read =>
    have bodyFault := (h.fault?_eq_none_iff.1 noFault).2.1
    simp only [Header.bodyFault?, of.2] at bodyFault
    split at bodyFault
    · split at bodyFault
      · cases bodyFault
      · obtain ⟨length, -⟩ := (h.completionFault?_eq_none_iff c).1 bodyFault
        rw [Header.powerUserLengthFault?_eq_none_iff] at length
        have whole : h.byteSize.toNat / 4 = h.dwordSize := by
          rw [Header.dwordSize]
          omega
        rw [← whole]
        rfl
    · cases bodyFault

end Cargo

namespace Engine

variable {e : Engine} {h : Header} {cargo : Cargo} {payload gathered rest : List UInt32}
  {start : Nat} {shown : Option Header} {flit : Flit} {beats : List Flit}

/-- Where the engine stands with a packet: before its first beat, which shows the header, or inside
it. -/
inductive Stands (e : Engine) (h : Header) (cargo : Cargo) :
    (gathered : List UInt32) → (start : Nat) → (shown : Option Header) → Prop where
  | first (between : e.fromDevice = .start) : Stands e h cargo [] HeaderWords.count (some h)
  | later {gathered : List UInt32} (inside : e.fromDevice = cargo.inside ⟨h, gathered⟩) :
    Stands e h cargo gathered 0 none

theorem Stands.accept_eq (stands : e.Stands h cargo gathered start shown)
    (running : e.halted = false) (of : cargo.Of h) (lawful : cargo.Lawful e h)
    (front : ∀ h, shown = some h → flit.header = .ok h) (cycle : Nat) :
    e.accept cycle flit = (cargo.accept (e.idleAt cycle) ⟨h, gathered⟩ flit start).after
      [accepted cycle shown flit] := by
  cases stands with
  | later inside =>
    unfold Engine.accept
    rw [if_neg (by rw [running]; exact Bool.false_ne_true), inside]
    cases cargo <;> rfl
  | first between =>
    rw [accept_start running between, acceptStart_eq (front h rfl)]
    cases cargo with
    | write r =>
      obtain ⟨kind, body⟩ := of
      have isWrite : h.fmtType.isMemoryWrite ∧ ¬ h.fmtType.isAtomic := by
        have kinds : ∀ ft : FmtType, ft.kind? = some .memoryWrite →
            ft.isMemoryWrite ∧ ¬ ft.isAtomic := FmtType.forall_of_codes (by decide +kernel)
        exact kinds _ kind
      have kept : (e.idleAt cycle).params.writeFault? h r = none := lawful
      simp only [dispatch, body, if_pos isWrite, acceptWrite, kept]
      rfl
    | reply c read =>
      obtain ⟨kind, body⟩ := of
      have data : h.fmtType.carriesData := by
        have kinds : ∀ ft : FmtType, ft.kind? = some .completionData → ft.carriesData :=
          FmtType.forall_of_codes (by decide +kernel)
        exact kinds _ kind
      have kept : (e.idleAt cycle).completionFault? h c = none := lawful
      simp only [dispatch, body, acceptCompletion, if_neg (not_not.2 data), kept]
      rfl

theorem handOn_delivers (attached : e.link.engineAttached ∧ e.link.serviceAttached)
    (of : cargo.Of h) (noFault : h.fault? = none) (lawful : cargo.Lawful e h)
    (waits : cargo.Waits e h) (length : payload.length = h.dwordSize) {cycle : Nat}
    (call : e.accept cycle flit = (cargo.handOn (e.idleAt cycle) ⟨h, payload⟩).after
      [accepted cycle shown flit]) : e.Delivers cycle shown flit h payload cargo := by
  cases cargo with
  | write r =>
    refine ⟨h.writeRequest r payload, Header.writeRequest_stores noFault of.2 lawful length, ?_⟩
    rw [call, Cargo.handOn, submitWrite, Header.request?, of.2,
      MemoryLink.send_of_attached (l := (e.idleAt cycle).link) attached]
    rfl
  | reply c read =>
    have waiting : (e.idleAt cycle).mmioReads[h.tag.toNat]? = some (some read) := waits
    refine ⟨mmioReadResponse read.tid h c payload, Header.mmioReadResponse_answers length read, ?_⟩
    rw [call, Cargo.handOn, completeMmioRead, Header.completion?, of.2, waiting]
    rfl

/-- What holds of the engine while beats of a packet are to come. -/
structure Awaits (e : Engine) (h : Header) (cargo : Cargo) (payload : List UInt32)
    (shown : Option Header) (beats : List Flit) : Prop where
  running : e.halted = false
  attached : e.link.engineAttached ∧ e.link.serviceAttached
  lawful : cargo.Lawful e h
  waits : cargo.Waits e h
  /-- The beats carry what is missing of the payload. -/
  place : ∃ w gathered start rest, e.Stands h cargo gathered start shown ∧
    gathered ++ rest = payload ∧ Packet.Carries w start rest beats
  front : ∀ h, shown = some h → ∀ f, beats.head? = some f → f.header = .ok h

/-- A header that can be sent, and as much payload as it announces. -/
structure Announces (h : Header) (cargo : Cargo) (payload : List UInt32) : Prop where
  of : cargo.Of h
  noFault : h.fault? = none
  length : payload.length = h.dwordSize

theorem Stands.accept_marked (stands : e.Stands h cargo gathered start shown)
    (running : e.halted = false) (announces : Announces h cargo payload)
    (lawful : cargo.Lawful e h) (whole : gathered ++ rest = payload)
    (front : ∀ h, shown = some h → flit.header = .ok h) (mark : Bool) (cycle : Nat) :
    e.accept cycle { flit with last := mark } =
      EngineStep.after [accepted cycle shown { flit with last := mark }]
        (match OpenPacket.extend ⟨h, gathered⟩ { flit with last := mark } start
            (gathered.length + rest.length) cargo.kind with
        | .error v => (e.idleAt cycle).haltOn (some h) { flit with last := mark } v
        | .ok p => if mark then cargo.handOn (e.idleAt cycle) p
          else .ok { e.idleAt cycle with fromDevice := cargo.inside p } ()) := by
  have count : h.dwordSize = gathered.length + rest.length := by
    rw [← announces.length, ← whole, List.length_append]
  have shows (h' : Header) (first : shown = some h') :
      { flit with last := mark }.header = .ok h' := by
    rw [← front h' first]
    exact Flit.header_congr rfl rfl
  rw [stands.accept_eq running announces.of lawful shows cycle,
    Cargo.accept_eq announces.of announces.noFault, count]

namespace Awaits

variable (announces : Announces h cargo payload)

include announces

theorem accept_more (awaits : e.Awaits h cargo payload shown (flit :: beats)) (more : beats ≠ [])
    (cycle : Nat) : flit.last = false ∧
      e.HaltsFor cycle shown { flit with last := true } h (.prematureEop cargo.kind) ∧
      ∃ w gathered rest, gathered ++ rest = payload ∧ Packet.Carries w 0 rest beats ∧
        e.accept cycle flit = ⟨.ok (),
          { e with cycle := cycle, fromDevice := cargo.inside ⟨h, gathered⟩ },
          [accepted cycle shown flit]⟩ := by
  obtain ⟨w, gathered, start, rest, stands, whole, carries⟩ := awaits.place
  have accepts := stands.accept_marked awaits.running announces awaits.lawful whole
    fun h' first => awaits.front h' first flit rfl
  cases carries with
  | final => exact absurd rfl more
  | more width long dwords goesOn later =>
    have extended (mark : Bool) := OpenPacket.extend_of_long ⟨h, gathered⟩ cargo.kind
      (f := { flit with last := mark }) width long dwords
    have same : { flit with last := false } = flit := by rw [← goesOn]
    refine ⟨goesOn, ?_, w, gathered ++ rest.take (w - start), rest.drop (w - start), ?_, later, ?_⟩
    · rw [HaltsFor, accepts true cycle, extended true]
      rfl
    · rw [List.append_assoc, List.take_append_drop, whole]
    · have call := accepts false cycle
      rw [extended false, same, goesOn] at call
      exact call

theorem accept_final (awaits : e.Awaits h cargo payload shown [flit]) (cycle : Nat) :
    flit.last = true ∧
      e.HaltsFor cycle shown { flit with last := false } h (.expectedEop cargo.kind) ∧
      e.Delivers cycle shown flit h payload cargo := by
  obtain ⟨w, gathered, start, rest, stands, whole, carries⟩ := awaits.place
  have accepts := stands.accept_marked awaits.running announces awaits.lawful whole
    fun h' first => awaits.front h' first flit rfl
  cases carries with
  | more _ _ _ _ later => exact absurd rfl later.ne_nil
  | final width fits dwords last =>
    have extended (mark : Bool) := OpenPacket.extend_of_fits ⟨h, gathered⟩ cargo.kind
      (f := { flit with last := mark }) width fits dwords
    have same : { flit with last := true } = flit := by rw [← last]
    refine ⟨last, ?_, ?_⟩
    · rw [HaltsFor, accepts false cycle, extended false]
      rfl
    · have call := accepts true cycle
      rw [extended true, same, last] at call
      refine handOn_delivers awaits.attached announces.of announces.noFault awaits.lawful
        awaits.waits announces.length ?_
      rw [← whole]
      exact call

theorem assembles (awaits : e.Awaits h cargo payload shown (flit :: beats)) (cycle : Nat) :
    e.Assembles cycle shown flit h payload cargo (beats = []) := by
  by_cases final : beats = []
  · subst final
    obtain ⟨last, unended, delivers⟩ := awaits.accept_final announces cycle
    exact ⟨awaits.running, iff_of_true last rfl, absurd rfl, fun _ => delivers, absurd rfl,
      fun _ => unended⟩
  · obtain ⟨goesOn, premature, w, gathered, rest, -, -, call⟩ :=
      awaits.accept_more announces final cycle
    exact ⟨awaits.running, iff_of_false (Bool.eq_false_iff.1 goesOn) final,
      fun _ => ⟨gathered, call⟩, fun h => absurd h final, fun _ => premature,
      fun h => absurd h final⟩

theorem next (awaits : e.Awaits h cargo payload shown (flit :: beats)) (more : beats ≠ [])
    (cycle : Nat) : (e.perform (.accept cycle flit)).Awaits h cargo payload none beats := by
  obtain ⟨-, -, w, gathered, rest, whole, carries, call⟩ :=
    awaits.accept_more announces more cycle
  have state : e.perform (.accept cycle flit) =
      { e with cycle := cycle, fromDevice := cargo.inside ⟨h, gathered⟩ } :=
    congrArg (·.state) call
  rw [state]
  refine ⟨awaits.running, awaits.attached, ?_, ?_, ⟨w, gathered, 0, rest, .later rfl, whole,
    carries⟩, fun _ shown => nomatch shown⟩
  · cases cargo <;> exact awaits.lawful
  · cases cargo <;> exact awaits.waits

end Awaits

/-! ## Calls of the host -/

/-- What a call of the host leaves as it was: the place in the packet of the device, the reads that
wait for an answer, and the link. -/
structure SparesDevice (e e' : Engine) : Prop where
  config : e'.config = e.config
  fromDevice : e'.fromDevice = e.fromDevice
  waiting : ∀ (slot : Nat) (read : MmioRead), e.mmioReads[slot]? = some (some read) →
    e'.mmioReads[slot]? = some (some read)
  attached : e.link.engineAttached ∧ e.link.serviceAttached →
    e'.link.engineAttached ∧ e'.link.serviceAttached

theorem sparesDevice_request (e : Engine) (r : MmioRequest) :
    e.SparesDevice (e.request r).state := by
  unfold request
  split
  · exact ⟨rfl, rfl, fun _ _ => id, id⟩
  · cases kept : e.requestFault? r with
    | some v => exact ⟨rfl, rfl, fun _ _ => id, id⟩
    | none =>
      refine ⟨rfl, rfl, fun slot read waits => ?_, id⟩
      cases write : r.write with
      | true => exact waits
      | false =>
        -- The slot of a read that is taken was free.
        have free := free_of_requestFault? kept write
        have other : r.slot.toNat ≠ slot := by
          rintro rfl
          rw [free] at waits
          cases waits
        change (e.mmioReads.setIfInBounds r.slot.toNat _)[slot]? = _
        rw [Array.getElem?_setIfInBounds_ne other, waits]

theorem posts_of_ofHost {call : Call} (other : call.OfHost) : e.posts call = [] := by
  have same {l : MemoryLink} (requests : l.requests = e.link.requests) :
      l.requests.drop e.link.requests.length = [] := by
    rw [requests, List.drop_length]
  cases call with
  | accept | reset => exact absurd other id
  | ready => exact same (congrArg MemoryLink.requests e.link_ready)
  | request r => exact same (congrArg MemoryLink.requests (e.link_request r))
  | emit cycle ready => exact same (e.keepsDevice_emit cycle ready).requests
  | serve link => rfl

theorem sparesDevice_of_ofHost {call : Call} (other : call.OfHost) :
    e.SparesDevice (e.perform call) := by
  cases call with
  | accept | reset => exact absurd other id
  | ready =>
    change e.SparesDevice e.ready.2
    unfold ready
    split <;> exact ⟨rfl, rfl, fun _ _ => id, id⟩
  | request r => exact e.sparesDevice_request r
  | emit cycle ready =>
    have keeps := e.keepsDevice_emit cycle ready
    refine ⟨keeps.config, keeps.fromDevice, fun slot read waits => ?_, fun attached => ?_⟩
    · rw [perform, keeps.mmioReads, waits]
    · rw [perform, keeps.engineAttached, keeps.serviceAttached]
      exact attached
  | serve link => exact ⟨rfl, rfl, fun _ _ => id, fun _ => other⟩

/-- What a call of the host preserves. -/
theorem Awaits.host (awaits : e.Awaits h cargo payload shown beats) {e' : Engine}
    (spares : e.SparesDevice e') (running : e'.halted = false) :
    e'.Awaits h cargo payload shown beats := by
  obtain ⟨w, gathered, start, rest, stands, whole, carries⟩ := awaits.place
  have params : e'.params = e.params := congrArg ValidParameters.params spares.config
  have waits : cargo.Waits e' h := by
    cases cargo with
    | write r => trivial
    | reply c read => exact spares.waiting _ _ awaits.waits
  refine ⟨running, spares.attached awaits.attached, ?_, waits,
    ⟨w, gathered, start, rest, ?_, whole, carries⟩, awaits.front⟩
  · have lawful := awaits.lawful
    cases cargo with
    | write r =>
      rw [Cargo.Lawful, params]
      exact lawful
    | reply c read =>
      have before : e.mmioReads[h.tag.toNat]? = some (some read) := awaits.waits
      have after : e'.mmioReads[h.tag.toNat]? = some (some read) := waits
      rw [Cargo.Lawful, completionFault?, before] at lawful
      rw [Cargo.Lawful, completionFault?, params, after]
      exact lawful
  · cases stands with
    | first between => exact .first (spares.fromDevice.trans between)
    | later inside => exact .later (spares.fromDevice.trans inside)

/-! ## Runs -/

theorem beat?_of_ofHost {call : Call} (other : call.OfHost) : call.beat? = none := by
  cases call with
  | accept | reset => exact absurd other id
  | ready | request | emit | serve => rfl

theorem beatsOf_cons_of_ofHost {call : Call} (other : call.OfHost) (calls : List Call) :
    beatsOf (call :: calls) = beatsOf calls :=
  List.filterMap_cons_none (beat?_of_ofHost other)

theorem Interleaves.beatsOf_eq {calls : List Call} (interleaves : e.Interleaves beats calls) :
    beatsOf calls = beats := by
  induction interleaves with
  | done => rfl
  | beat _ ih => exact congrArg (List.cons _) ih
  | host other _ _ ih => exact (beatsOf_cons_of_ofHost other _).trans ih

theorem Interleaves.postsAll_of_nil {calls : List Call} (interleaves : e.Interleaves beats calls)
    (none_ : beats = []) : e.postsAll calls = [] := by
  induction interleaves with
  | done => rfl
  | beat => cases none_
  | host other _ _ ih => rw [postsAll, posts_of_ofHost other, ih none_, List.append_nil]

theorem Delivers.posts {cycle : Nat} (delivers : e.Delivers cycle shown flit h payload cargo) :
    cargo.Posts h payload (e.posts (.accept cycle flit)) := by
  cases cargo with
  | write r =>
    obtain ⟨w, stores, call⟩ := delivers
    refine ⟨w, stores, ?_⟩
    change (e.accept cycle flit).state.link.requests.drop _ = _
    rw [call]
    exact List.drop_left
  | reply c read =>
    obtain ⟨m, -, call⟩ := delivers
    change (e.accept cycle flit).state.link.requests.drop _ = _
    rw [call]
    exact List.drop_length

/-- Every beat that a run brings does what a beat of the packet does, and before it nothing is asked
of host memory. -/
def AssemblesAll (e : Engine) (calls : List Call) (shown : Option Header) (h : Header)
    (payload : List UInt32) (cargo : Cargo) : Prop :=
  ∀ before cycle flit after, calls = before ++ .accept cycle flit :: after →
    (e.performAll before).Assembles cycle (if beatsOf before = [] then shown else none) flit h
      payload cargo (beatsOf after = []) ∧ e.postsAll before = []

theorem AssemblesAll.host {call : Call} {calls : List Call} (other : call.OfHost)
    (rest : (e.perform call).AssemblesAll calls shown h payload cargo) :
    e.AssemblesAll (call :: calls) shown h payload cargo := by
  intro before cycle flit after split
  cases before with
  | nil =>
    obtain ⟨rfl, -⟩ := List.cons.inj split
    exact absurd other id
  | cons call' before =>
    obtain ⟨rfl, tail⟩ := List.cons.inj split
    obtain ⟨assembles, silent⟩ := rest before cycle flit after tail
    rw [beatsOf_cons_of_ofHost other, postsAll, posts_of_ofHost other, silent]
    exact ⟨assembles, rfl⟩

theorem AssemblesAll.beat {cycle : Nat} {calls : List Call}
    (first : e.Assembles cycle shown flit h payload cargo (beatsOf calls = []))
    (rest : beatsOf calls ≠ [] → e.posts (.accept cycle flit) = [] ∧
      (e.perform (.accept cycle flit)).AssemblesAll calls none h payload cargo) :
    e.AssemblesAll (.accept cycle flit :: calls) shown h payload cargo := by
  intro before cycle' flit' after split
  cases before with
  | nil =>
    obtain ⟨⟨rfl, rfl⟩, rfl⟩ := List.cons.inj split
    exact ⟨first, rfl⟩
  | cons call before =>
    obtain ⟨rfl, tail⟩ := List.cons.inj split
    have more : beatsOf calls ≠ [] := by
      rw [tail]
      change List.filterMap Call.beat? (before ++ .accept cycle' flit' :: after) ≠ []
      rw [List.filterMap_append]
      exact List.append_ne_nil_of_right_ne_nil _ (List.cons_ne_nil _ _)
    obtain ⟨quiet, later⟩ := rest more
    obtain ⟨assembles, silent⟩ := later before cycle' flit' after tail
    have begun : beatsOf (.accept cycle flit :: before) ≠ [] := List.cons_ne_nil _ _
    rw [ite_self] at assembles
    rw [if_neg begun, postsAll, quiet, silent]
    exact ⟨assembles, rfl⟩

theorem Gathers.posts {cycle : Nat} (gathers : e.Gathers cycle shown flit h cargo) :
    e.posts (.accept cycle flit) = [] := by
  obtain ⟨gathered, call⟩ := gathers
  change (e.accept cycle flit).state.link.requests.drop _ = _
  rw [call]
  exact List.drop_length

/-- What a run makes of the beats that are still to come. -/
theorem Interleaves.assembles {calls : List Call} (interleaves : e.Interleaves beats calls)
    (announces : Announces h cargo payload) (awaits : e.Awaits h cargo payload shown beats) :
    e.AssemblesAll calls shown h payload cargo ∧ cargo.Posts h payload (e.postsAll calls) := by
  induction interleaves generalizing shown with
  | done =>
    obtain ⟨_, _, _, _, -, -, carries⟩ := awaits.place
    exact absurd rfl carries.ne_nil
  | @beat e cycle flit flits calls rest ih =>
    have first := awaits.assembles announces cycle
    rw [← rest.beatsOf_eq] at first
    by_cases final : flits = []
    · have empty := rest.beatsOf_eq.trans final
      refine ⟨.beat first fun more => absurd empty more, ?_⟩
      rw [postsAll, rest.postsAll_of_nil final, List.append_nil]
      exact (first.delivers empty).posts
    · obtain ⟨later, posted⟩ := ih (awaits.next announces final cycle)
      have quiet := (first.gathers fun empty => final (rest.beatsOf_eq.symm.trans empty)).posts
      refine ⟨.beat first fun _ => ⟨quiet, later⟩, ?_⟩
      rw [postsAll, quiet, List.nil_append]
      exact posted
  | host other runs rest ih =>
    obtain ⟨later, posted⟩ := ih
      (awaits.host (sparesDevice_of_ofHost other) (runs awaits.running))
    refine ⟨.host other later, ?_⟩
    rw [postsAll, posts_of_ofHost other, List.nil_append]
    exact posted

/-- A packet of the device, a write or an answer to an MMIO read, is put together from its beats
whatever the host and host memory do in between: no beat before the last asks for anything, the last
one hands the whole payload on, and the first beat with a wrong mark halts the engine. -/
theorem assembles_packet {e : Engine} {h : Header} {cargo : Cargo} {payload : List UInt32}
    {beats : List Flit} {calls : List Call} (running : e.halted = false)
    (between : e.fromDevice = .start)
    (attached : e.link.engineAttached ∧ e.link.serviceAttached) (of : cargo.Of h)
    (lawful : cargo.Lawful e h) (waits : cargo.Waits e h) (length : payload.length = h.dwordSize)
    (packed : Packet.beats e.params.dataWidth e.params.userWidth h payload = .ok beats)
    (interleaves : e.Interleaves beats calls) :
    (∀ before cycle flit after, calls = before ++ .accept cycle flit :: after →
      (e.performAll before).Assembles cycle (if beatsOf before = [] then some h else none) flit h
        payload cargo (beatsOf after = []) ∧ e.postsAll before = []) ∧
    cargo.Posts h payload (e.postsAll calls) := by
  have known : h.fmtType.kind?.isSome := by
    cases cargo with
    | write r => exact Option.isSome_of_mem of.1
    | reply c read => exact Option.isSome_of_mem of.1
  obtain ⟨noFault, front, carries⟩ :=
    Packet.carries_beats known e.config.legal.wide e.config.legal.marked packed
  refine interleaves.assembles ⟨of, noFault, length⟩ ⟨running, attached, lawful, waits,
    ⟨_, [], _, payload, .first between, rfl, carries⟩, fun h' shown f first => ?_⟩
  rw [← Option.some.inj shown]
  exact front f first

/-- A write of 37 bytes to an odd address, on a stream whose first beat has no room for payload. -/
theorem assembles_packet_unaligned :
    let e : Engine := create ⟨{ dataWidth := 256 }, by decide⟩ {}
    let r : RequestBody := { addr := 0x1003, firstEnable := 0xf, lastEnable := 0xf }
    let h : Header :=
      { fmtType := .memWrite64, dataMover := true, byteSize := 37, body := .request r }
    let payload : List UInt32 := [1, 2, 3, 4, 5, 6, 7, 8, 9, 10]
    let blank : Flit := Flit.blank 256 10
    let first : Flit := blank.storing h
    let second : Flit := blank.setDwords 0 (payload.take 8)
    let third : Flit := { blank.setDwords 0 (payload.drop 8) with last := true }
    let calls : List Call := [.accept 1 first, .emit 2 true, .accept 3 second, .serve {},
      .accept 4 third]
    Packet.beats 256 10 h payload = .ok [first, second, third] ∧
      ∃ w : WriteRequest, w.Stores h r payload ∧ e.postsAll calls = [.write w] := by
  intro e r h payload blank first second third calls
  have packed : Packet.beats 256 10 h payload = .ok [first, second, third] := by
    rw [Packet.beats_eq_ok_iff]
    refine ⟨by decide, ?_⟩
    have wide : 0 < (Flit.blank 256 10).dwordWidth := by decide
    rw [Packet.payloadBeats_of_ne_nil wide (by decide),
      Packet.payloadBeats_of_ne_nil wide (by decide)]
    exact congrArg (fun rest => Packet.markLast
      (first :: second :: blank.setDwords 0 (payload.drop 8) :: rest))
      (Packet.payloadBeats_nil blank)
  refine ⟨packed, ?_⟩
  have interleaves : e.Interleaves [first, second, third] calls := by
    refine .beat (.host trivial (fun _ => ?_) (.beat (.host ⟨rfl, rfl⟩ (fun _ => ?_)
      (.beat .done))))
    · decide +kernel
    · decide +kernel
  have length : payload.length = h.dwordSize := by decide
  have lawful : e.params.writeFault? h r = none := by decide
  have of : (Cargo.write r).Of h := ⟨by decide, rfl⟩
  exact (assembles_packet rfl rfl ⟨rfl, rfl⟩ of lawful trivial length packed interleaves).2

end Engine

end TlpBridge
