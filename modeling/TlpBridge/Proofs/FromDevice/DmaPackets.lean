import TlpBridge.Proofs.Memory.ByteAccesses
import TlpBridge.Proofs.FromDevice.DeviceBeats
import TlpBridge.Proofs.Word.DwordImages

/-!
# Packets of DMA

The beats of the device alone say what its reads and writes are: the header is in the first beat,
and the payload is what the beats carry behind it. What the engine asks of host memory with the last
beat of a packet is the access that the beats say.
-/
namespace TlpBridge

variable {A : IovaAllocator}

/-- The DWORDs of a beat from `start` on. -/
def Flit.payloadFrom (f : Flit) (start : Nat) : List UInt32 :=
  f.dwordsAt start (f.dwordWidth - start)

/-- A complete packet with a request of the device. -/
structure DmaPacket where
  header : Header
  body : RequestBody
  first : Flit
  rest : List Flit
  /-- The slot that the engine has put a read into. -/
  slot? : Option UInt16

namespace DmaPacket

/-- The packet that beats carry, if its header is that of a request. -/
def ofBeats? (slot? : Option UInt16) : List Flit → Option DmaPacket
  | [] => none
  | first :: rest =>
    match first.header with
    | .error _ => none
    | .ok h => h.request?.map fun r => ⟨h, r, first, rest, slot?⟩

/-- What the beats carry behind the header. -/
def payload (p : DmaPacket) : List UInt32 :=
  p.first.payloadFrom HeaderWords.count ++ p.rest.flatMap (·.payloadFrom 0)

/-- Whether the packet is a write; all others, atomic operations too, are reads. -/
def isWrite (p : DmaPacket) : Bool := p.header.fmtType.isMemoryWrite && !p.header.fmtType.isAtomic

/-- The bytes that a write carries. -/
def data (p : DmaPacket) : List UInt8 := payloadBytes p.payload p.header.byteSize.toNat

/-- Whether byte `i` of a write is to be stored. -/
def enabled (p : DmaPacket) (i : Nat) : Bool :=
  writeEnabled p.header.byteSize.toNat p.body.firstEnable p.body.lastEnable i

/-- The number of bytes that a read asks for. -/
def readLength (p : DmaPacket) : Nat :=
  if ¬ p.header.fmtType.isAtomic ∧ p.header.isFence p.body then 0 else p.header.completedBytes

/-- The operation of an atomic read. -/
def operation? (p : DmaPacket) : Option AtomicOperation := p.header.atomicOperation? p.first

def addressType (p : DmaPacket) : AddressType := p.body.attributes.addressType

/-- The address in memory of byte `i`. -/
def place (p : DmaPacket) (t : Iommu A) (i : Nat) : Option Nat :=
  t.place p.addressType p.body.addr i

/-- The address in memory where byte `i` of a write is to be stored. -/
def target (p : DmaPacket) (t : Iommu A) (i : Nat) : Option Nat :=
  if p.enabled i then p.place t i else none

/-- The access that a packet asks for. -/
def Asks (p : DmaPacket) : MemoryRequest → Prop
  | .read r => ¬ p.isWrite ∧ p.slot? = some r.tag ∧ r.addr = p.body.addr ∧
      r.addressType = p.addressType ∧ r.dataBytes = p.readLength ∧ r.atomic = p.operation?
  | .write w => p.isWrite ∧ w.addr = p.body.addr ∧ w.addressType = p.addressType ∧
      w.data = p.data ∧ ∀ i < w.data.length, w.enabled i = p.enabled i

end DmaPacket

theorem payloadBytes_take (vs : List UInt32) {n len : Nat} (le : len ≤ 4 * n) :
    payloadBytes (vs.take n) len = payloadBytes vs len := by
  rcases Nat.le_total vs.length n with all | more
  · rw [List.take_of_length_le all]
  · have length : (dwordsBytes (vs.take n)).length = 4 * n := by
      rw [length_dwordsBytes, List.length_take_of_le more]
    unfold payloadBytes
    conv_rhs => rw [← List.take_append_drop n vs, dwordsBytes_append]
    rw [List.take_append_of_le_length (length.symm ▸ le)]

theorem length_payloadBytes {vs : List UInt32} {len : Nat} (le : len ≤ 4 * vs.length) :
    (payloadBytes vs len).length = len := by
  rw [payloadBytes, List.length_take_of_le]
  rwa [length_dwordsBytes]

theorem Header.byteSize_le_dwordSize (h : Header) : h.byteSize.toNat ≤ 4 * h.dwordSize := by
  unfold dwordSize
  omega

@[simp] theorem Flit.length_payloadFrom (f : Flit) (start : Nat) :
    (f.payloadFrom start).length = f.dwordWidth - start := by
  simp [payloadFrom, dwordsAt]

/-- A beat is taken with the payload up to the end of the packet, which comes with the last beat and
no earlier. -/
theorem OpenPacket.extend_eq_ok {p p' : OpenPacket} {flit : Flit} {start total : Nat}
    {kind : DevicePacket} (room : p.payload.length ≤ total)
    (extended : p.extend flit start total kind = .ok p') :
    p' = { p with payload := (p.payload ++ flit.payloadFrom start).take total } ∧
      (flit.last ↔ total ≤ (p.payload ++ flit.payloadFrom start).length) := by
  have width := flit.length_payloadFrom start
  have whole : (p.payload ++ flit.payloadFrom start).take total =
      p.payload ++
        flit.dwordsAt start (min (total - p.payload.length) (flit.dwordWidth - start)) := by
    rw [List.take_append, List.take_of_length_le room, Flit.payloadFrom, Flit.dwordsAt,
      ← List.map_take, List.take_range, Flit.dwordsAt]
  rw [List.length_append, width, whole]
  unfold extend at extended
  by_cases short : flit.dwordWidth - start < total - p.payload.length
  · rw [if_pos short] at extended
    by_cases last : flit.last
    · rw [if_pos last] at extended
      cases extended
    · rw [if_neg last] at extended
      cases extended
      rw [Nat.min_eq_right (Nat.le_of_lt short)]
      exact ⟨rfl, iff_of_false last (by omega)⟩
  · rw [if_neg short] at extended
    by_cases last : flit.last
    · rw [if_pos last] at extended
      cases extended
      rw [Nat.min_eq_left (Nat.le_of_not_lt short)]
      exact ⟨rfl, iff_of_true last (by omega)⟩
    · rw [if_neg last] at extended
      cases extended

namespace DmaPacket

variable {p : DmaPacket} {e : Engine} {flit : Flit}

theorem ofBeats?_first {first : Flit} {h : Header} {r : RequestBody} (header : first.header = .ok h)
    (body : h.body = .request r) (slot? : Option UInt16) (rest : List Flit) :
    ofBeats? slot? (first :: rest) = some ⟨h, r, first, rest, slot?⟩ := by
  simp [ofBeats?, header, Header.request?, body]

/-- The packet that an open write will be, given its beats so far. -/
structure Gathers (p : DmaPacket) (beats : List Flit) (o : OpenPacket) : Prop where
  packet : ofBeats? none beats = some p
  write : p.isWrite
  header : o.header = p.header
  body : p.header.body = .request p.body
  payload : o.payload = p.payload
  room : o.payload.length ≤ p.header.dwordSize

end DmaPacket

/-- The beats of a packet that asks nothing of host memory. -/
def OtherBeats (beats : List Flit) : Prop :=
  ∃ first rest h, beats = first :: rest ∧ first.header = .ok h ∧ h.request? = none

namespace OtherBeats

variable {beats : List Flit}

theorem append (other : OtherBeats beats) (more : List Flit) : OtherBeats (beats ++ more) := by
  obtain ⟨first, rest, h, rfl, header, body⟩ := other
  exact ⟨first, rest ++ more, h, rfl, header, body⟩

theorem ofBeats? (other : OtherBeats beats) (slot? : Option UInt16) :
    DmaPacket.ofBeats? slot? beats = none := by
  obtain ⟨first, rest, h, rfl, header, body⟩ := other
  simp [DmaPacket.ofBeats?, header, body]

end OtherBeats

/-- The beats so far of the packet in which the stream from the device stands. -/
def FromDeviceState.Stands (beats : List Flit) : FromDeviceState → Prop
  | .start => beats = []
  | .completion _ => OtherBeats beats
  | .write o => ∃ p, DmaPacket.Gathers p beats o

namespace DmaPacket

variable {p : DmaPacket} {e : Engine} {flit : Flit}

/-- A packet whose beats go on. -/
def extend (p : DmaPacket) (flit : Flit) : DmaPacket := { p with rest := p.rest ++ [flit] }

theorem payload_extend (p : DmaPacket) (flit : Flit) :
    (p.extend flit).payload = p.payload ++ flit.payloadFrom 0 := by
  simp [payload, extend, List.flatMap_append]

theorem ofBeats?_append {beats : List Flit} (packet : ofBeats? none beats = some p)
    (flit : Flit) : ofBeats? none (beats ++ [flit]) = some (p.extend flit) := by
  cases beats with
  | nil => cases packet
  | cons first rest =>
    cases header : first.header with
    | error cause => simp [ofBeats?, header] at packet
    | ok h =>
      simp only [ofBeats?, header, Option.map_eq_some_iff, List.cons_append] at packet ⊢
      obtain ⟨r, body, rfl⟩ := packet
      exact ⟨r, body, rfl⟩

/-- A beat of a write, whichever it is, belongs to a packet that the beats before it have not
completed. -/
theorem exists_of_writeBeat {beats : List Flit} {o : OpenPacket} {start : Nat}
    (beat : e.WriteBeat flit o start) (stands : e.fromDevice.Stands beats) :
    ∃ p : DmaPacket, ofBeats? none (beats ++ [flit]) = some p ∧ p.isWrite ∧ o.header = p.header ∧
      p.header.body = .request p.body ∧ o.payload.length ≤ p.header.dwordSize ∧
      o.payload ++ flit.payloadFrom start = p.payload := by
  cases beat with
  | @first h r idle header body kind _ =>
    rw [idle] at stands
    obtain rfl : beats = [] := stands
    rw [List.nil_append, ofBeats?_first header body]
    refine ⟨_, rfl, ?_, rfl, body, Nat.zero_le _, ?_⟩
    · simpa [isWrite] using kind
    · simp [payload]
  | later open_ =>
    rw [open_] at stands
    obtain ⟨p, gathers⟩ := stands
    refine ⟨p.extend flit, ofBeats?_append gathers.packet flit, gathers.write, gathers.header,
      gathers.body, gathers.room, ?_⟩
    rw [payload_extend, gathers.payload]

theorem gathers_extend {beats : List Flit} {o o' : OpenPacket} {start : Nat}
    (beat : e.WriteBeat flit o start) (stands : e.fromDevice.Stands beats)
    (extended : o.extend flit start o.header.dwordSize .dmaWrite = .ok o') (more : ¬ flit.last) :
    ∃ p, Gathers p (beats ++ [flit]) o' := by
  obtain ⟨p, packet, write, header, body, room, payload⟩ := exists_of_writeBeat beat stands
  rw [header] at extended
  obtain ⟨rfl, ends⟩ := OpenPacket.extend_eq_ok room extended
  have short := Nat.lt_of_not_le (fun long => more (ends.2 long))
  refine ⟨p, packet, write, header, body, ?_, List.length_take_le ..⟩
  rw [← payload, List.take_of_length_le (Nat.le_of_lt short)]

theorem enabled_writeRequest {h : Header} {r : RequestBody} {payload : List UInt32} {i : Nat}
    (length : (payloadBytes payload h.byteSize.toNat).length = h.byteSize.toNat)
    (inside : i < h.byteSize.toNat) : (h.writeRequest r payload).enabled i =
      writeEnabled h.byteSize.toNat r.firstEnable r.lastEnable i := by
  unfold WriteRequest.enabled Header.writeRequest
  simp only [length]
  by_cases masked : r.firstEnable ≠ 0xf ∨ (4 < h.byteSize ∧ r.lastEnable ≠ 0xf)
  · rw [if_pos masked]
  · rw [if_neg masked]
    rw [not_or, not_not, not_and, not_not] at masked
    obtain ⟨first, last⟩ := masked
    have bits : ∀ j < 4, Nat.testBit 0xf j := by decide
    have bit (j : Nat) : (0xf : UInt8).toNat.testBit (j % 4) = true :=
      bits (j % 4) (Nat.mod_lt j (by decide))
    unfold writeEnabled
    by_cases front : i / 4 = 0
    · rw [if_pos front, first, bit]
    · have long : 4 < h.byteSize := by
        rw [UInt32.lt_iff_toNat_lt]
        change 4 < _
        omega
      rw [if_neg front, last long, bit]
      exact (ite_self true).symm

theorem asks_write {beats : List Flit} {o o' : OpenPacket} {start : Nat}
    (beat : e.WriteBeat flit o start) (stands : e.fromDevice.Stands beats)
    (extended : o.extend flit start o.header.dwordSize .dmaWrite = .ok o') (last : flit.last) :
    ∃ p, ofBeats? none (beats ++ [flit]) = some p ∧
      p.Asks (.write (o'.header.writeRequest (o'.header.request?.getD {}) o'.payload)) := by
  obtain ⟨p, packet, write, header, body, room, payload⟩ := exists_of_writeBeat beat stands
  rw [header] at extended
  obtain ⟨rfl, ends⟩ := OpenPacket.extend_eq_ok room extended
  have size := p.header.byteSize_le_dwordSize
  have request : p.header.request?.getD {} = p.body := by
    rw [Header.request?, body]
    rfl
  have bytes : payloadBytes (p.payload.take p.header.dwordSize) p.header.byteSize.toNat = p.data :=
    payloadBytes_take p.payload size
  have length : p.data.length = p.header.byteSize.toNat := by
    refine length_payloadBytes (size.trans (Nat.mul_le_mul_left 4 ?_))
    rw [← payload]
    exact ends.1 last
  refine ⟨p, packet, write, ?_⟩
  simp only [header, payload, request]
  refine ⟨rfl, rfl, bytes, fun i inside => ?_⟩
  change i < (payloadBytes _ _).length at inside
  rw [bytes, length] at inside
  exact enabled_writeRequest (bytes.symm ▸ length) inside

end DmaPacket

namespace Header

variable (h : Header) (r : RequestBody)

theorem addr_effectiveRequest : (h.effectiveRequest r).addr = r.addr := by
  unfold effectiveRequest
  split <;> rfl

theorem addressType_effectiveRequest :
    (h.effectiveRequest r).attributes.addressType = r.attributes.addressType := by
  unfold effectiveRequest
  split <;> rfl

theorem isFence_effectiveRequest :
    h.isFence (h.effectiveRequest r) ↔ ¬ h.fmtType.isAtomic ∧ h.isFence r := by
  unfold effectiveRequest
  by_cases atomic : h.fmtType.isAtomic
  · simp [atomic, isFence]
  · simp [atomic]

end Header

namespace DmaPacket

variable {e : Engine} {flit : Flit}

theorem asks_read {e' : Engine} {h : Header} {r : RequestBody} {slot : Nat} {slots : SlotPool}
    (takes : e.TakesRead e' flit h r slot slots) {asked : ReadRequest} (is : asked =
      Header.readRequest { h with body := .request (h.effectiveRequest r) } (h.effectiveRequest r)
        flit slot) :
    ∃ p, ofBeats? (some asked.tag) [flit] = some p ∧ p.Asks (.read asked) := by
  have kind : ¬ (h.fmtType.isMemoryWrite && !h.fmtType.isAtomic) := by simpa using takes.kind
  refine ⟨_, ofBeats?_first takes.header takes.body _ _, kind, rfl, ?_⟩
  rw [is]
  refine ⟨h.addr_effectiveRequest r, h.addressType_effectiveRequest r, ?_, rfl⟩
  exact if_congr (h.isFence_effectiveRequest r) rfl rfl

end DmaPacket

namespace Engine

variable {e : Engine} {flit : Flit} {beats : List Flit}

theorem OtherBeat.others (beat : e.OtherBeat flit) (stands : e.fromDevice.Stands beats) :
    OtherBeats (beats ++ [flit]) := by
  cases beat with
  | first between header body =>
    rw [between] at stands
    obtain rfl : beats = [] := stands
    exact ⟨flit, [], _, rfl, header, body⟩
  | later inside =>
    rw [inside] at stands
    exact OtherBeats.append stands [flit]

end Engine

end TlpBridge
