import TlpBridge.Proofs.FromDevice.DmaPackets

/-!
# Packets in one order

A memory of single bytes that serves one packet of the device after the other. A read is answered
with what is there, an atomic operation puts its result there, and a write stores its bytes. The
memory service does the same to the accesses that the packets ask for.
-/
namespace TlpBridge

variable {A : IovaAllocator}

/-- The answer to a packet. -/
inductive DmaAnswer where
  | read (a : ReadResponse)
  | write (a : WriteResponse)

namespace DmaAnswer

def read? : DmaAnswer → Option ReadResponse
  | read a => some a
  | write _ => none

def write? : DmaAnswer → Option WriteResponse
  | read _ => none
  | write a => some a

end DmaAnswer

namespace DmaPacket

/-- What a packet is answered, given the bytes of memory when it is served, and what it leaves
there. A refused read or atomic operation leaves everything; a refused write may have stored bytes
up to some place. -/
inductive Served (t : Iommu A) (p : DmaPacket) (im : ByteImage) : DmaAnswer → ByteImage → Prop
  | read {a : ReadResponse} (kind : ¬ p.isWrite) (plain : p.operation? = none)
    (tag : p.slot? = some a.tag) (valid : a.status = .valid)
    (length : a.data.length = p.readLength) (shown : im.Shows (p.place t) 0 a.data) :
    Served t p im (.read a) im
  | atomic {a : ReadResponse} {op : AtomicOperation} (kind : ¬ p.isWrite)
    (operation : p.operation? = some op) (tag : p.slot? = some a.tag) (valid : a.status = .valid)
    (length : a.data.length = p.readLength) (shown : im.Shows (p.place t) 0 a.data) :
    Served t p im (.read a) (im.store (p.place t) 0
      (littleEndian p.readLength (op.result p.readLength (ofLittleEndian a.data))))
  | refusedRead {a : ReadResponse} (kind : ¬ p.isWrite) (tag : p.slot? = some a.tag)
    (status : a.status ≠ .valid) : Served t p im (.read a) im
  | write {a : WriteResponse} (kind : p.isWrite) (valid : a.status = .valid) :
    Served t p im (.write a) (im.store (p.target t) 0 p.data)
  | refusedWrite {a : WriteResponse} {k : Nat} (kind : p.isWrite) (status : a.status ≠ .valid)
    (short : k < p.data.length) :
    Served t p im (.write a) (im.store (p.target t) 0 (p.data.take k))

/-- Packets with their answers, as a memory that held the bytes `start` serves them one after the
other, and the bytes that it holds after them. -/
inductive History (t : Iommu A) (start : ByteImage) :
    List (DmaPacket × DmaAnswer) → ByteImage → Prop
  | start : History t start [] start
  | next {served : List (DmaPacket × DmaAnswer)} {im im' : ByteImage} {p : DmaPacket}
    {a : DmaAnswer} (before : History t start served im) (last : p.Served t im a im') :
    History t start (served ++ [(p, a)]) im'

theorem History.eq_start {t : Iommu A} {start im : ByteImage}
    (history : History t start [] im) : im = start := by
  generalize none_ : [] = served at history
  cases history with
  | start => rfl
  | next => simp at none_

theorem History.last {t : Iommu A} {start im' : ByteImage} (served : List (DmaPacket × DmaAnswer))
    {p : DmaPacket} {a : DmaAnswer} (history : History t start (served ++ [(p, a)]) im') :
    ∃ im, History t start served im ∧ p.Served t im a im' := by
  generalize same : served ++ [(p, a)] = all at history
  cases history with
  | start => simp at same
  | next before last =>
    obtain ⟨rfl, pair⟩ := List.append_inj' same rfl
    obtain ⟨rfl, rfl⟩ := Prod.mk.inj (List.cons.inj pair).1
    exact ⟨_, before, last⟩

theorem History.read_behind_write {t : Iommu A} {start im : ByteImage} {w r : DmaPacket}
    {a b : DmaAnswer} (history : History t start [(w, a), (r, b)] im) (write : w.isWrite)
    (read : ¬ r.isWrite) (plain : r.operation? = none) :
    ∃ (a' : WriteResponse) (b' : ReadResponse), a = .write a' ∧ b = .read b' ∧
      (a'.status = .valid → b'.status = .valid → b'.data.length = r.readLength ∧
        (start.store (w.target t) 0 w.data).Shows (r.place t) 0 b'.data) := by
  obtain ⟨_, before, second⟩ := History.last [(w, a)] history
  obtain ⟨_, nothing, first⟩ := History.last [] before
  obtain rfl := nothing.eq_start
  cases first with
  | read kind | atomic kind | refusedRead kind => exact absurd write kind
  | @refusedWrite a' _ _ refused =>
    cases second with
    | write kind | refusedWrite kind => exact absurd kind read
    | @read b' | @atomic b' | @refusedRead b' =>
      exact ⟨a', b', rfl, rfl, fun valid => absurd valid refused⟩
  | @write a' _ _ =>
    cases second with
    | write kind | refusedWrite kind => exact absurd kind read
    | atomic _ operation => cases plain.symm.trans operation
    | @refusedRead b' _ _ refused => exact ⟨a', b', rfl, rfl, fun _ valid => absurd valid refused⟩
    | @read b' _ _ _ _ length shown => exact ⟨a', b', rfl, rfl, fun _ _ => ⟨length, shown⟩⟩

variable {p : DmaPacket} {s : MemoryService A}

/-- A read that is served as the packet asks for it. -/
theorem served_read (aligned : s.memory.iommu.Aligned) {r : ReadRequest}
    (asks : p.Asks (.read r)) (kind : p.addressType ≠ .translationRequest) :
    p.Served s.memory.iommu s.memory.guest.byte?
        (.read (HostMemory.readResponse r (s.memory.read r).answer))
        (s.memory.read r).state.guest.byte? ∧
      (s.memory.read r).state.iommu = s.memory.iommu := by
  obtain ⟨reads, tag, addr, type, bytes, operation⟩ := asks
  rw [← type] at kind
  have place : s.memory.iommu.place r.addressType r.addr = p.place s.memory.iommu := by
    rw [addr, type]
    rfl
  have slot : p.slot? = some (HostMemory.readResponse r (s.memory.read r).answer).tag := by
    rw [HostMemory.tag_readResponse, tag]
  have length := s.memory.length_readResponse r (fun translation => absurd translation kind)
  rw [bytes] at length
  cases plain : r.atomic with
  | none =>
    obtain ⟨state, shown⟩ := HostMemory.read_plain aligned kind plain
    rw [state]
    refine ⟨?_, rfl⟩
    by_cases valid : (HostMemory.readResponse r (s.memory.read r).answer).status = .valid
    · exact .read reads (operation.symm.trans plain) slot valid (length valid)
        (place ▸ shown valid)
    · exact .refusedRead reads slot valid
  | some op =>
    obtain ⟨iommu, refused, valued⟩ := HostMemory.read_atomic aligned kind plain
    refine ⟨?_, iommu⟩
    by_cases valid : (HostMemory.readResponse r (s.memory.read r).answer).status = .valid
    · obtain ⟨shown, image⟩ := valued valid
      rw [image, place, bytes]
      exact .atomic reads (operation.symm.trans plain) slot valid (length valid) (place ▸ shown)
    · rw [refused valid]
      exact .refusedRead reads slot valid

theorem served_write (aligned : s.memory.iommu.Aligned) {w : WriteRequest}
    (asks : p.Asks (.write w)) :
    p.Served s.memory.iommu s.memory.guest.byte?
        (.write (HostMemory.writeResponse (s.memory.write w).1)) (s.memory.write w).2.guest.byte? ∧
      (s.memory.write w).2.iommu = s.memory.iommu := by
  obtain ⟨writes, addr, type, data, enabled⟩ := asks
  obtain ⟨k, front, status, iommu, image, -⟩ := HostMemory.exists_endsBehind aligned w
  have target : ByteImage.store s.memory.guest.byte? (w.target s.memory.iommu) 0 (w.data.take k) =
      ByteImage.store s.memory.guest.byte? (p.target s.memory.iommu) 0 (p.data.take k) := by
    rw [← data]
    refine ByteImage.store_congr fun j inside => ?_
    rw [List.length_take] at inside
    rw [WriteRequest.target, DmaPacket.target, enabled (0 + j) (by omega), DmaPacket.place, addr,
      type]
  refine ⟨?_, iommu⟩
  rw [image, target]
  rw [data] at status front
  by_cases whole : k = p.data.length
  · rw [List.take_of_length_le (Nat.le_of_eq whole.symm)]
    exact .write writes (status.2 whole)
  · exact .refusedWrite writes (fun valid => whole (status.1 valid))
      (Nat.lt_of_le_of_ne front.le whole)

theorem served_serve (aligned : s.memory.iommu.Aligned) (attached : s.link.engineAttached)
    {r : MemoryRequest} (asks : p.Asks r) (kind : p.addressType ≠ .translationRequest) :
    ∃ a, p.Served s.memory.iommu s.memory.guest.byte? a (s.serve r).state.memory.guest.byte? ∧
      (s.serve r).state.memory.iommu = s.memory.iommu ∧
      (s.serve r).state.link = { s.link with
        readResponses := s.link.readResponses ++ a.read?.toList
        writeResponses := s.link.writeResponses ++ a.write?.toList } := by
  cases r with
  | read r =>
    obtain ⟨served, iommu⟩ := served_read aligned asks kind
    rw [MemoryService.serve, s.state_serveRead attached]
    exact ⟨_, served, iommu, by simp [DmaAnswer.read?, DmaAnswer.write?]⟩
  | write w =>
    obtain ⟨served, iommu⟩ := served_write aligned asks
    rw [MemoryService.serve, s.state_serveWrite attached]
    exact ⟨_, served, iommu, by simp [DmaAnswer.read?, DmaAnswer.write?]⟩

/-- What the service does to all requests that wait. -/
theorem History.serveAll {t : Iommu A} {start : ByteImage} {served : List (DmaPacket × DmaAnswer)}
    {waiting : List DmaPacket} {rs : List MemoryRequest} (aligned : t.Aligned)
    (tables : s.memory.iommu = t) (attached : s.link.engineAttached)
    (history : History t start served s.memory.guest.byte?)
    (asks : List.Forall₂ Asks waiting rs)
    (kinds : ∀ p ∈ waiting, p.addressType ≠ .translationRequest) :
    ∃ more : List (DmaPacket × DmaAnswer), more.map Prod.fst = waiting ∧
      History t start (served ++ more) (MemoryService.serveAll rs s).state.memory.guest.byte? ∧
      (MemoryService.serveAll rs s).state.memory.iommu = t ∧
      (MemoryService.serveAll rs s).state.link = { s.link with
        readResponses := s.link.readResponses ++ more.filterMap (·.2.read?)
        writeResponses := s.link.writeResponses ++ more.filterMap (·.2.write?) } := by
  -- along the packets that wait, each beside the request that was posted for it
  induction asks generalizing s served with
  | nil =>
    exact ⟨[], rfl, by rw [List.append_nil]; exact history, tables,
      by simp [MemoryService.serveAll]⟩
  | @cons p r waiting rs first _ ih =>
    obtain ⟨kind, kinds⟩ := List.forall_mem_cons.1 kinds
    obtain ⟨a, done, iommu, link⟩ := served_serve (tables ▸ aligned) attached first kind
    obtain ⟨more, packets, later, tables', links⟩ := ih (s := (s.serve r).state)
      (iommu.trans tables) (by rw [link]; exact attached)
      (history.next (tables ▸ done)) kinds
    refine ⟨(p, a) :: more, ?_, ?_, tables', ?_⟩
    · rw [List.map_cons, packets]
    · rw [List.append_cons]
      exact later
    · change (MemoryService.serveAll rs (s.serve r).state).state.link = _
      rw [links, link]
      cases a with
      | read a => simp [DmaAnswer.read?, DmaAnswer.write?]
      | write a => simp [DmaAnswer.read?, DmaAnswer.write?]

end DmaPacket

end TlpBridge
