import TlpBridge.Proofs.Memory.TranslationEntries

/-!
# Answers of host memory

The answer to a read carries as many bytes as the read asks for, or tells of a fault and
carries none, whatever the state of the tables and of guest memory.
-/
namespace TlpBridge

variable {A : IovaAllocator}

theorem GuestMemory.length_loadBytes {m : GuestMemory} {addr n : Nat} {bytes : List UInt8}
    (loaded : m.loadBytes addr n = some bytes) : bytes.length = n := by
  induction n generalizing addr bytes with
  | zero =>
    cases loaded
    rfl
  | succ n ih =>
    simp only [loadBytes, Option.bind_eq_bind, Option.bind_eq_some_iff, Option.some_inj] at loaded
    obtain ⟨b, -, rest, later, rfl⟩ := loaded
    rw [List.length_cons, ih later]

theorem GuestMemory.length_load {m : GuestMemory} {addr n : Nat} {bytes : List UInt8}
    (loaded : m.load addr n = some bytes) : bytes.length = n :=
  length_loadBytes (Option.ite_none_right_eq_some.1 loaded).2

theorem sum_length_pieces (addr : UInt64) (offset remaining : Nat) :
    ((pieces addr offset remaining).map Piece.length).sum = remaining := by
  induction addr, offset, remaining using pieces.induct with
  | case1 addr offset =>
    rw [pieces, if_pos rfl]
    rfl
  | case2 addr offset remaining some_ n ih =>
    rw [pieces, if_neg some_, List.map_cons, List.sum_cons, ih]
    exact Nat.add_sub_cancel' (Nat.min_le_right ..)

/-- Where an address leads nowhere, the access is not valid. -/
theorem Iommu.status_resolve {t : Iommu A} {type : AddressType} {addr : UInt64} {f : AccessFault}
    (refused : t.resolve type addr = .error f) : f.status ≠ .valid := by
  unfold resolve at refused
  cases type with
  | untranslated =>
    cases found : t.translate addr with
    | none =>
      simp only [found] at refused
      cases refused
      simp
    | some va => simp [found] at refused
  | translated =>
    cases found : t.virtualOf addr with
    | none =>
      simp only [found] at refused
      cases refused
      simp
    | some va => simp [found] at refused
  | translationRequest =>
    cases refused
    simp
  | reserved =>
    cases refused
    simp

/-- What comes of a read: so many bytes, or a fault that is one. -/
def Fits (n : Nat) : Except AccessFault (List UInt8) → Prop
  | .ok bytes => bytes.length = n
  | .error f => f.status ≠ .valid

namespace HostMemory

variable (h : HostMemory A) (type : AddressType)

theorem fits_readPiece (p : Piece) : Fits p.length (h.readPiece type p) := by
  unfold readPiece
  cases resolved : h.iommu.resolve type p.addr with
  | error f => exact Iommu.status_resolve resolved
  | ok va =>
    cases loaded : h.guest.load va.toNat p.length with
    | none => simp [Fits, loaded]
    | some bytes =>
      simp only [loaded]
      exact GuestMemory.length_load loaded

theorem fits_readPieces (ps : List Piece) :
    Fits (ps.map Piece.length).sum (h.readPieces type ps) := by
  induction ps with
  | nil => rfl
  | cons p rest ih =>
    have first := h.fits_readPiece type p
    unfold readPieces
    cases piece : h.readPiece type p with
    | error f =>
      rw [piece] at first
      exact first
    | ok bytes =>
      rw [piece] at first
      simp only
      cases more : h.readPieces type rest with
      | error f =>
        rw [more] at ih
        exact ih
      | ok others =>
        rw [more] at ih
        change (bytes ++ others).length = _
        rw [List.length_append, List.map_cons, List.sum_cons, first, ih]

theorem fits_readBytes (addr : UInt64) (n : Nat) : Fits n (h.readBytes type addr n) := by
  have fits := h.fits_readPieces type (pieces addr 0 n)
  rw [sum_length_pieces] at fits
  exact fits

/-- The data of an answer. -/
def dataOf (answer : Except AccessFault Access) : Except AccessFault (List UInt8) :=
  answer.map Access.data

theorem fits_atomic (r : ReadRequest) (op : AtomicOperation) :
    Fits r.dataBytes (dataOf (h.atomic r op).1) := by
  have fault (f : AccessFault) (illegal : f.status ≠ .valid) :
      Fits r.dataBytes (dataOf (.error f)) := illegal
  unfold atomic
  simp only
  by_cases size : r.dataBytes ≠ 4 ∧ r.dataBytes ≠ 8
  · rw [if_pos size]
    exact fault _ (by simp)
  · rw [if_neg size]
    by_cases crosses : 4096 < r.addr.toNat % 4096 + r.dataBytes
    · rw [if_pos crosses]
      exact fault _ (by simp)
    · rw [if_neg crosses]
      cases resolved : h.iommu.resolve r.addressType r.addr with
      | error f => exact fault f (Iommu.status_resolve resolved)
      | ok va =>
        simp only
        cases loaded : h.guest.load va.toNat r.dataBytes with
        | none => exact fault _ (by simp)
        | some old =>
          have length := GuestMemory.length_load loaded
          simp only
          split
          · exact length
          · exact fault _ (by simp)

theorem fits_translate {r : ReadRequest} (whole : r.dataBytes % 8 = 0)
    (request : r.addressType = .translationRequest) :
    Fits r.dataBytes (dataOf (h.read r).answer) := by
  rw [answer_translationRequest h request]
  cases outcome : (translationEntries r (r.dataBytes / 8) 0 h.iommu).answer with
  | error f =>
    have illegal := status_translationEntries outcome
    simp [Fits, dataOf, Except.map, illegal]
  | ok data =>
    have length := (describes_translationEntries outcome).1
    change data.length = r.dataBytes
    omega

/-- A read of any kind is answered with the bytes that it asks for, or with a fault. -/
theorem fits_read (r : ReadRequest)
    (whole : r.addressType = .translationRequest → r.dataBytes % 8 = 0) :
    Fits r.dataBytes (dataOf (h.read r).answer) := by
  by_cases request : r.addressType = .translationRequest
  · exact h.fits_translate (whole request) request
  · unfold read
    rw [if_neg request]
    cases r.atomic with
    | some op => exact h.fits_atomic r op
    | none =>
      have fits := h.fits_readBytes r.addressType r.addr r.dataBytes
      simp only
      cases bytes : h.readBytes r.addressType r.addr r.dataBytes with
      | error f =>
        rw [bytes] at fits
        exact fits
      | ok data =>
        rw [bytes] at fits
        exact fits

theorem length_readResponse (r : ReadRequest)
    (whole : r.addressType = .translationRequest → r.dataBytes % 8 = 0)
    (valid : (readResponse r (h.read r).answer).status = .valid) :
    (readResponse r (h.read r).answer).data.length = r.dataBytes := by
  have fits := h.fits_read r whole
  cases answer : (h.read r).answer with
  | error f =>
    rw [answer] at fits valid
    exact absurd valid fits
  | ok a =>
    rw [answer] at fits
    exact fits

theorem tag_readResponse (r : ReadRequest) (answer : Except AccessFault Access) :
    (readResponse r answer).tag = r.tag := by
  cases answer <;> rfl

end HostMemory

namespace MemoryService

variable (s : MemoryService A)

theorem state_serveRead (attached : s.link.engineAttached) (r : ReadRequest) :
    (s.serveRead r).state = ⟨(s.memory.read r).state, { s.link with
      readResponses := s.link.readResponses ++
        [HostMemory.readResponse r (s.memory.read r).answer] }⟩ := by
  simp only [serveRead, MemoryLink.postRead, if_pos attached]

theorem state_serveWrite (attached : s.link.engineAttached) (w : WriteRequest) :
    (s.serveWrite w).state = ⟨(s.memory.write w).2, { s.link with
      writeResponses := s.link.writeResponses ++
        [HostMemory.writeResponse (s.memory.write w).1] }⟩ := by
  simp only [serveWrite, MemoryLink.postWrite, if_pos attached]

/-- The service only posts. -/
theorem link_serve (r : MemoryRequest) : ∃ answers writes, (s.serve r).state.link = { s.link with
    readResponses := s.link.readResponses ++ answers
    writeResponses := writes } := by
  by_cases attached : s.link.engineAttached
  · cases r with
    | read r => exact ⟨_, _, congrArg MemoryService.link (s.state_serveRead attached r)⟩
    | write w =>
      have posted := congrArg MemoryService.link (s.state_serveWrite attached w)
      exact ⟨[], _, posted.trans (by rw [List.append_nil])⟩
  · refine ⟨[], s.link.writeResponses, ?_⟩
    rw [List.append_nil]
    cases r with
    | read r => simp only [serve, serveRead, MemoryLink.postRead, if_neg attached]
    | write w => simp only [serve, serveWrite, MemoryLink.postWrite, if_neg attached]

theorem link_serveAll (rs : List MemoryRequest) : ∃ answers writes,
    (serveAll rs s).state.link = { s.link with
      readResponses := s.link.readResponses ++ answers
      writeResponses := writes } := by
  induction rs generalizing s with
  | nil => exact ⟨[], s.link.writeResponses, by rw [List.append_nil]; rfl⟩
  | cons r rest ih =>
    obtain ⟨answers, writes, first⟩ := s.link_serve r
    obtain ⟨more, writes', all⟩ := ih (s.serve r).state
    rw [first] at all
    exact ⟨answers ++ more, writes', all.trans (by rw [List.append_assoc])⟩

/-- Every read that waits is answered, out of the memory that the service then has. -/
theorem mem_responses_serveAll (attached : s.link.engineAttached) {rs : List MemoryRequest}
    {r : ReadRequest} (waiting : .read r ∈ rs) : ∃ memory : (HostMemory A),
      HostMemory.readResponse r (memory.read r).answer ∈
        (serveAll rs s).state.link.readResponses := by
  induction rs generalizing s with
  | nil => cases waiting
  | cons r' rest ih =>
    rcases List.mem_cons.1 waiting with rfl | later
    · refine ⟨s.memory, ?_⟩
      obtain ⟨answers, writes, all⟩ := link_serveAll (s.serveRead r).state rest
      change _ ∈ (serveAll rest (s.serveRead r).state).state.link.readResponses
      rw [all, s.state_serveRead attached r]
      exact List.mem_append_left _ (List.mem_append_right _ (List.mem_singleton_self _))
    · obtain ⟨answers, writes, first⟩ := s.link_serve r'
      exact ih (s.serve r').state (by rw [first]; exact attached) later

end MemoryService

end TlpBridge
