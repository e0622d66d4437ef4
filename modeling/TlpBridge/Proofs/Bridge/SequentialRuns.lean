import TlpBridge.Proofs.Bridge.BridgeRuns
import TlpBridge.Proofs.Bridge.DmaHistory

/-!
# DMA in order

Memory serves the packets of the device as if there were nothing between them: in the order in which
they are accepted, each with all packets before it and none after it. Whatever the calls are that
come between, what the engine has posted and the service has not taken yet are the accesses of the
packets that still wait, in the same order.
-/
namespace TlpBridge

variable {A : IovaAllocator}

/-- The slot of the read that was posted. -/
def MemoryLink.postedSlot? (before after : MemoryLink) : Option UInt16 :=
  (before.postedReads after).head?.map ReadRequest.tag

namespace Engine

variable {e : Engine} {flit : Flit} {s : EngineStep Unit} {beats : List Flit}

/-- A beat that is taken completes the packet with the access that it posts, or it leaves the packet
open and posts nothing. -/
theorem Takes.posts (takes : e.Takes flit s) (stands : e.fromDevice.Stands beats)
    (answer : s.answer = .ok ()) : ∃ asked : List MemoryRequest,
      s.state.link = { e.link with requests := e.link.requests ++ asked } ∧
      (if flit.last then
        s.state.fromDevice = .start ∧ List.Forall₂ DmaPacket.Asks
          (DmaPacket.ofBeats? (e.link.postedSlot? s.state.link) (beats ++ [flit])).toList asked
      else asked = [] ∧ s.state.fromDevice.Stands (beats ++ [flit])) := by
  have quiet (link : s.state.link = e.link) :
      s.state.link = { e.link with requests := e.link.requests ++ [] } := by
    rw [link, List.append_nil]
  cases takes with
  | halted _ refused _ =>
    rw [refused] at answer
    cases answer
  | refused refused _ =>
    obtain ⟨fault, refused⟩ := refused
    rw [refused] at answer
    cases answer
  | other beat _ after state =>
    have others := beat.others stands
    refine ⟨[], quiet (by rw [state]), ?_⟩
    by_cases last : flit.last
    · rw [if_pos last] at after ⊢
      refine ⟨after, ?_⟩
      rw [others.ofBeats?]
      exact .nil
    · rw [if_neg last] at after ⊢
      obtain ⟨p, open_⟩ := after
      refine ⟨rfl, ?_⟩
      rw [open_]
      exact others
  | open_ beat extended more _ state =>
    refine ⟨[], quiet (by rw [state]), ?_⟩
    rw [if_neg more, state]
    exact ⟨rfl, DmaPacket.gathers_extend beat stands extended more⟩
  | write beat extended last _ state =>
    obtain ⟨p, packet, asks⟩ := DmaPacket.asks_write beat stands extended last
    have slot : e.link.postedSlot? s.state.link = none := by
      rw [state]
      simp [MemoryLink.postedSlot?, MemoryLink.postedReads]
    refine ⟨[.write _], by rw [state], ?_⟩
    rw [if_pos last, slot, packet]
    exact ⟨by rw [state], .cons asks .nil⟩
  | read between takes _ after =>
    obtain ⟨p, packet, asks⟩ := DmaPacket.asks_read takes rfl
    have slot := congrArg (fun reads => reads.head?.map ReadRequest.tag) takes.posted
    change e.link.postedSlot? s.state.link = _ at slot
    -- a read that does not end with its first beat is refused
    have last : flit.last := by
      by_contra more
      have extent := takes.extent
      simp [Parameters.readExtentFault?, more] at extent
    rw [between] at stands
    obtain rfl : beats = [] := stands
    have carried : DmaPacket.ofBeats? (e.link.postedSlot? s.state.link) ([] ++ [flit]) =
        some p := by
      rw [slot]
      exact packet
    refine ⟨[.read _], by rw [takes.state], ?_⟩
    rw [if_pos last, carried]
    exact ⟨after, .cons asks .nil⟩

theorem Takes.stops (takes : e.Takes flit s) {fault : EngineFault}
    (answer : s.answer = .error fault) : s.state.link = e.link ∧ s.state.halted := by
  cases takes with
  | halted halted _ state =>
    rw [state]
    exact ⟨rfl, halted⟩
  | refused _ state =>
    rw [state]
    exact ⟨rfl, rfl⟩
  | other _ taken _ _ | open_ _ _ _ taken _ | write _ _ _ taken _ | read _ _ taken _ =>
    rw [taken] at answer
    cases answer

theorem not_halted_of_accept {cycle : Nat} (answer : (e.accept cycle flit).answer = .ok ()) :
    ¬ e.halted := by
  intro halted
  unfold accept at answer
  rw [if_pos halted] at answer
  cases answer

end Engine

/-- A bridge and what has passed through it, each in order: the beats of the packet that is not
complete, the packets of DMA that were accepted, and the answers that host memory gave. -/
structure DmaLog (A : IovaAllocator) where
  bridge : Bridge A
  beats : List Flit := []
  packets : List DmaPacket := []
  readAnswers : List ReadResponse := []
  writeAnswers : List WriteResponse := []

/-- The host leaves its tables and its memory alone. -/
def Bridge.Move.Steady : Bridge.Move A → Prop
  | .change _ => False
  | _ => True

instance : DecidablePred (Bridge.Move.Steady (A := A))
  | .change _ => .isFalse id
  | .accept .. | .ready | .request _ | .emit .. | .serve => .isTrue trivial

namespace DmaLog

open Bridge (Move)

/-- The log after a beat that is taken. -/
def take (l : DmaLog A) (flit : Flit) (bridge : Bridge A) : DmaLog A :=
  if flit.last then
    { l with
      bridge := bridge
      beats := []
      packets := l.packets ++ (DmaPacket.ofBeats?
        (l.bridge.engine.link.postedSlot? bridge.engine.link) (l.beats ++ [flit])).toList }
  else { l with bridge := bridge, beats := l.beats ++ [flit] }

def step (l : DmaLog A) (m : Move A) : DmaLog A :=
  let bridge := l.bridge.step m
  match m with
  | .accept cycle flit =>
    match (l.bridge.engine.accept cycle flit).answer with
    | .ok () => l.take flit bridge
    | .error _ => { l with bridge := bridge }
  | .serve =>
    let before := l.bridge.engine.link
    let after := bridge.engine.link
    { l with
      bridge := bridge
      readAnswers := l.readAnswers ++ after.readResponses.drop before.readResponses.length
      writeAnswers := l.writeAnswers ++ after.writeResponses.drop before.writeResponses.length }
  | _ => { l with bridge := bridge }

def run (l : DmaLog A) (moves : List (Move A)) : DmaLog A := moves.foldl step l

/-- The accepted packets are served in their order by a memory of single bytes, so far as they were
served: the others wait for the service. -/
structure Sequential (l : DmaLog A) (memory : HostMemory A) : Prop where
  tables : l.bridge.memory.iommu = memory.iommu
  served : ∃ served waiting, l.packets = served.map Prod.fst ++ waiting ∧
    waiting.length = l.bridge.engine.link.requests.length ∧
    l.readAnswers = served.filterMap (·.2.read?) ∧
    l.writeAnswers = served.filterMap (·.2.write?) ∧
    DmaPacket.History memory.iommu memory.guest.byte? served l.bridge.memory.guest.byte?

/-- The invariant of runs: what waits in the link are the accesses of the packets that are not
served yet, and the engine has the beats of the packet that is not complete. -/
structure Tracks (l : DmaLog A) (memory : HostMemory A) : Prop where
  mirrors : ∃ s, l.bridge.Mirrors s
  tables : l.bridge.memory.iommu = memory.iommu
  stands : ¬ l.bridge.engine.halted → l.bridge.engine.fromDevice.Stands l.beats
  served : ∃ served waiting, l.packets = served.map Prod.fst ++ waiting ∧
    List.Forall₂ DmaPacket.Asks waiting l.bridge.engine.link.requests ∧
    l.readAnswers = served.filterMap (·.2.read?) ∧
    l.writeAnswers = served.filterMap (·.2.write?) ∧
    DmaPacket.History memory.iommu memory.guest.byte? served l.bridge.memory.guest.byte?

variable {l : DmaLog A} {memory : HostMemory A}

theorem Tracks.sequential (tracks : l.Tracks memory) : l.Sequential memory := by
  obtain ⟨served, waiting, packets, asks, answers⟩ := tracks.served
  exact ⟨tracks.tables, served, waiting, packets, asks.length_eq, answers⟩

theorem packets_step (l : DmaLog A) (m : Move A) : l.packets <+: (l.step m).packets := by
  cases m with
  | accept cycle flit =>
    unfold step
    simp only
    split
    · unfold take
      split
      · exact List.prefix_append ..
      · exact List.prefix_refl _
    · exact List.prefix_refl _
  | _ => exact List.prefix_refl _

theorem packets_run (l : DmaLog A) (moves : List (Move A)) :
    l.packets <+: (l.run moves).packets := by
  induction moves generalizing l with
  | nil => exact List.prefix_refl _
  | cons m moves ih => exact (l.packets_step m).trans (ih _)

namespace Tracks

theorem start (config : ValidParameters) (options : Switches) (random : DrawSource)
    (memory : HostMemory A) :
    Tracks ⟨.start config options random memory, [], [], [], []⟩ memory where
  mirrors := ⟨_, .start config options random memory⟩
  tables := rfl
  stands _ := rfl
  served := ⟨[], [], rfl, .nil, rfl, rfl, .start⟩

theorem keepsInbound (tracks : l.Tracks memory) {e : Engine}
    (keeps : l.bridge.engine.KeepsInbound e)
    (mirrors : ∃ s, Bridge.Mirrors ⟨e, l.bridge.memory⟩ s) :
    Tracks { l with bridge := ⟨e, l.bridge.memory⟩ } memory where
  mirrors := mirrors
  tables := tracks.tables
  stands live := by
    rw [keeps.fromDevice]
    exact tracks.stands fun halted => live (keeps.halted halted)
  served := by
    rw [keeps.requests]
    exact tracks.served

/-- A beat that is taken adds the access that it posts to those that wait, and its packet to those
that are accepted. -/
theorem take (tracks : l.Tracks memory) {flit : Flit} {e : Engine} {asked : List MemoryRequest}
    (mirrors : ∃ s, Bridge.Mirrors ⟨e, l.bridge.memory⟩ s)
    (link : e.link = { l.bridge.engine.link with
      requests := l.bridge.engine.link.requests ++ asked })
    (posts : if flit.last then
        e.fromDevice = .start ∧ List.Forall₂ DmaPacket.Asks (DmaPacket.ofBeats?
          (l.bridge.engine.link.postedSlot? e.link) (l.beats ++ [flit])).toList asked
      else asked = [] ∧ e.fromDevice.Stands (l.beats ++ [flit])) :
    Tracks (l.take flit ⟨e, l.bridge.memory⟩) memory := by
  obtain ⟨served, waiting, packets, asks, answers⟩ := tracks.served
  unfold DmaLog.take
  by_cases last : flit.last
  · rw [if_pos last] at posts ⊢
    obtain ⟨between, asks'⟩ := posts
    generalize (DmaPacket.ofBeats? (l.bridge.engine.link.postedSlot? e.link)
      (l.beats ++ [flit])).toList = arrived at asks' ⊢
    refine ⟨mirrors, tracks.tables, fun _ => ?_, served, waiting ++ arrived, ?_, ?_, answers⟩
    · change e.fromDevice.Stands []
      rw [between]
      rfl
    · change l.packets ++ arrived = _
      rw [packets, List.append_assoc]
    · change List.Forall₂ _ _ e.link.requests
      rw [link]
      exact List.rel_append asks asks'
  · rw [if_neg last] at posts ⊢
    obtain ⟨rfl, stands⟩ := posts
    refine ⟨mirrors, tracks.tables, fun _ => stands, served, waiting, packets, ?_, answers⟩
    change List.Forall₂ _ _ e.link.requests
    rw [link, List.append_nil]
    exact asks

theorem accept (tracks : l.Tracks memory) (cycle : Nat) (flit : Flit) :
    (l.step (.accept cycle flit)).Tracks memory := by
  obtain ⟨s, mirrors⟩ := tracks.mirrors
  have takes := Engine.accept_takes mirrors.attached cycle flit
  have next : ∃ s, Bridge.Mirrors ⟨(l.bridge.engine.accept cycle flit).state, l.bridge.memory⟩ s :=
    ⟨_, mirrors.accept cycle flit⟩
  unfold step
  cases answer : (l.bridge.engine.accept cycle flit).answer with
  | error fault =>
    obtain ⟨link, halted⟩ := takes.stops answer
    simp only [answer]
    refine ⟨next, tracks.tables, fun live => absurd halted live, ?_⟩
    change ∃ served waiting, _ ∧ List.Forall₂ _ _
      (l.bridge.engine.accept cycle flit).state.link.requests ∧ _
    rw [link]
    exact tracks.served
  | ok u =>
    have live := Engine.not_halted_of_accept answer
    obtain ⟨asked, link, posts⟩ := takes.posts (tracks.stands live) answer
    simp only [answer]
    exact tracks.take next link posts

theorem serve (tracks : l.Tracks memory) (aligned : memory.iommu.Aligned)
    (kinds : ∀ p ∈ l.packets, p.addressType ≠ .translationRequest) :
    (l.step .serve).Tracks memory := by
  obtain ⟨s, mirrors⟩ := tracks.mirrors
  obtain ⟨served, waiting, packets, asks, reads, writes, history⟩ := tracks.served
  let svc : MemoryService A := ⟨l.bridge.memory, { l.bridge.engine.link with requests := [] }⟩
  obtain ⟨more, are, later, tables, link⟩ := history.serveAll (s := svc) aligned tracks.tables
    mirrors.attached.1 asks fun p member =>
      kinds p (packets ▸ List.mem_append_right _ member)
  have link' : (l.bridge.step .serve).engine.link = { l.bridge.engine.link with
      requests := []
      readResponses := l.bridge.engine.link.readResponses ++ more.filterMap (·.2.read?)
      writeResponses := l.bridge.engine.link.writeResponses ++ more.filterMap (·.2.write?) } := link
  refine ⟨mirrors.serve, tables, tracks.stands, served ++ more, [], ?_, ?_, ?_, ?_, later⟩
  · change l.packets = _
    rw [packets, List.map_append, are, List.append_nil]
  · change List.Forall₂ _ _ (l.bridge.step .serve).engine.link.requests
    rw [link']
    exact .nil
  · change l.readAnswers ++ (l.bridge.step .serve).engine.link.readResponses.drop _ = _
    rw [link', reads, List.drop_left, List.filterMap_append]
  · change l.writeAnswers ++ (l.bridge.step .serve).engine.link.writeResponses.drop _ = _
    rw [link', writes, List.drop_left, List.filterMap_append]

theorem step (tracks : l.Tracks memory) (aligned : memory.iommu.Aligned) {m : Move A}
    (steady : m.Steady) (kinds : ∀ p ∈ l.packets, p.addressType ≠ .translationRequest) :
    (l.step m).Tracks memory := by
  obtain ⟨s, mirrors⟩ := tracks.mirrors
  have next := mirrors.step m
  cases m with
  | accept cycle flit => exact tracks.accept cycle flit
  | ready => exact tracks.keepsInbound l.bridge.engine.keepsInbound_ready next
  | request r => exact tracks.keepsInbound (l.bridge.engine.keepsInbound_request r) next
  | emit cycle ready =>
    obtain ⟨q, owed, sound⟩ := mirrors.sound
    obtain ⟨q', owed', collected, -⟩ := sound.collect cycle
    have sendable : (s.engine.collect cycle).state.Sendable := collected.sendable
    rw [mirrors.engine] at sendable
    exact tracks.keepsInbound (l.bridge.engine.keepsInbound_emit cycle ready sendable) next
  | serve => exact tracks.serve aligned kinds
  | change memory => exact steady.elim

theorem run (tracks : l.Tracks memory) (aligned : memory.iommu.Aligned) {moves : List (Move A)}
    (steady : ∀ m ∈ moves, m.Steady)
    (kinds : ∀ p ∈ (l.run moves).packets, p.addressType ≠ .translationRequest) :
    (l.run moves).Tracks memory := by
  induction moves generalizing l with
  | nil => exact tracks
  | cons m moves ih =>
    obtain ⟨first, rest⟩ := List.forall_mem_cons.1 steady
    -- what is accepted so far is among the packets of the whole run
    have known : l.packets <+: ((l.step m).run moves).packets :=
      (l.packets_step m).trans (packets_run ..)
    exact ih (tracks.step aligned first fun p member => kinds p (known.subset member)) rest kinds

end Tracks

/-- Whatever the device sends, the host asks for, and whenever the service is at work: as long as
the tables stay as some calls have made them, and the host leaves its memory alone, the packets of
the device are served in the order in which they were accepted. -/
theorem run_sequential (options : Switches) (map : MemoryMap) (calls : List IommuCall)
    (guest : GuestMemory) (config : ValidParameters) (switches : Switches) (random : DrawSource)
    (moves : List (Move A)) (steady : ∀ m ∈ moves, m.Steady) :
    let memory : HostMemory A := ⟨((PinnedTables.start options map).run calls).tables, guest⟩
    let l := run ⟨.start config switches random memory, [], [], [], []⟩ moves
    (∀ p ∈ l.packets, p.addressType ≠ .translationRequest) → l.Sequential memory := by
  intro memory l kinds
  have first := Tracks.start config switches random memory
  exact (first.run (PinnedTables.aligned_run options map calls) steady kinds).sequential

/-- A write in two beats and a read of what it stored, to a page that was pinned: the read is
answered with the bytes of the write where they are enabled. -/
theorem run_sequential_write_and_read :
    let config : ValidParameters := ⟨{ dataWidth := 256 }, by decide⟩
    let calls : List IommuCall := [.pin 0x7000 0x1000]
    let guest : GuestMemory := { regions := [⟨0x7000, 0x1000⟩] }
    let memory : HostMemory FirstFit.allocator :=
      ⟨((PinnedTables.start {} { ranges := [] }).run calls).tables, guest⟩
    let write : Flit := (Flit.blank 256 10).storing
      { fmtType := .memWrite32, byteSize := 4
        body := .request { addr := 0x10, firstEnable := 0xe } }
    let payload : Flit := { (Flit.blank 256 10).setDword 0 0x04030201 with last := true }
    let read : Flit :=
      { (Flit.blank 256 10).storing
          { fmtType := .memRead32, byteSize := 4, tag := 3
            body := .request { addr := 0x10, firstEnable := 0xf } } with
        last := true }
    let moves : List (Move _) :=
      [.accept 1 write, .accept 2 payload, .accept 3 read, .serve, .emit 4 true]
    let l := run ⟨.start config {} .fullBandwidth memory, [], [], [], []⟩ moves
    (∀ m ∈ moves, m.Steady) ∧ (∀ p ∈ l.packets, p.addressType ≠ .translationRequest) ∧
      l.Sequential memory ∧ l.packets.map DmaPacket.isWrite = [true, false] ∧
      l.packets.map DmaPacket.data = [[1, 2, 3, 4], []] ∧
      l.packets.map DmaPacket.slot? = [none, some 3] ∧
      l.readAnswers.map (fun a => (a.tag, a.status, a.data)) = [(3, .valid, [0, 2, 3, 4])] := by
  intro config calls guest memory write payload read moves l
  have steady : ∀ m ∈ moves, m.Steady := by decide
  have kinds : ∀ p ∈ l.packets, p.addressType ≠ .translationRequest := by decide +kernel
  have sequential : l.Sequential memory :=
    run_sequential {} _ calls guest config {} _ moves steady kinds
  have accepted : l.packets.map DmaPacket.isWrite = [true, false] ∧
      l.packets.map DmaPacket.data = [[1, 2, 3, 4], []] ∧
      l.packets.map DmaPacket.slot? = [none, some 3] := by
    decide +kernel
  refine ⟨steady, kinds, sequential, accepted.1, accepted.2.1, accepted.2.2, ?_⟩
  have valid : l.readAnswers.map (fun a => (a.tag, a.status)) = [(3, .valid)] ∧
      l.writeAnswers.map WriteResponse.status = [.valid] := by
    decide +kernel
  have idle : l.bridge.engine.link.requests = [] := by decide +kernel
  have plain : ∀ p ∈ l.packets, p.operation? = none ∧ (¬ p.isWrite → p.readLength = 4) := by
    decide +kernel
  have placed : ∀ p ∈ l.packets, ∀ i < 4, p.place memory.iommu (0 + i) = some (0x7010 + i) := by
    decide +kernel
  have targets : ∀ p ∈ l.packets, p.isWrite → ∀ i < 4,
      p.target memory.iommu (0 + i) = if 0 + i = 0 then none else some (0x7010 + (0 + i)) := by
    decide +kernel
  have blank : guest.byte? = fun a => if guest.isBacked a then some 0 else none := by
    funext a
    simp [GuestMemory.byte?, guest]
  -- both packets are served, the read behind the write
  obtain ⟨-, served, waiting, packets, waits, reads, writes, history⟩ := sequential
  obtain rfl : waiting = [] := List.length_eq_zero_iff.1 (by rw [waits, idle, List.length_nil])
  obtain ⟨⟨w, a⟩, ⟨r, b⟩, rfl⟩ : ∃ x y, served = [x, y] := by
    have two := congrArg List.length accepted.1
    rw [packets, List.length_map, List.append_nil, List.length_map] at two
    exact List.length_eq_two.1 two
  rw [packets] at accepted plain placed targets
  rw [reads, writes] at valid
  rw [reads]
  simp only [List.append_nil, List.map_cons, List.map_nil, List.cons.injEq, and_true,
    List.forall_mem_cons, List.not_mem_nil, false_imp_iff,
    implies_true] at accepted plain placed targets
  obtain ⟨⟨write, read⟩, ⟨data, -⟩, -⟩ := accepted
  obtain ⟨a, b, rfl, rfl, answer⟩ :=
    history.read_behind_write write (by simp [read]) plain.2.1
  simp only [DmaAnswer.read?, DmaAnswer.write?, List.filterMap_cons, List.filterMap_nil,
    List.map_cons, List.map_nil, List.cons.injEq, and_true, Prod.mk.injEq] at valid ⊢
  obtain ⟨length, shown⟩ := answer valid.2 valid.1.2
  have image : ByteImage.store guest.byte? (w.target memory.iommu) 0 [1, 2, 3, 4] =
      ByteImage.store guest.byte? (fun i => if i = 0 then none else some (0x7010 + i)) 0
        [1, 2, 3, 4] :=
    ByteImage.store_congr (targets.1 write)
  have left : ByteImage.Shows (ByteImage.store guest.byte? (w.target memory.iommu) 0 w.data)
      (r.place memory.iommu) 0 [0, 2, 3, 4] := by
    rw [data, image, blank]
    intro i inside
    rw [placed.2 i inside]
    revert i
    decide +kernel
  exact ⟨valid.1.1, valid.1.2, shown.unique left (length.trans (plain.2.2 (by simp [read])))⟩

end DmaLog

end TlpBridge
