import TlpBridge.Proofs.Memory.AtomicAccesses
import TlpBridge.Proofs.Bridge.MemoryExchanges
import TlpBridge.Proofs.Iommu.PinnedTables

/-!
# Atomic requests from end to end

An atomic request that the engine takes is carried out by host memory in one step: the operand is
replaced, nothing else changes, and the device gets the old value in one completion. Where the
operand does not lie within one page of backed memory, nothing changes and no completion is sent.
-/
namespace TlpBridge

variable {A : IovaAllocator}

theorem MemoryLink.postedReads_append {l l' : MemoryLink} {q : ReadRequest}
    (posted : l'.requests = l.requests ++ [.read q]) : l.postedReads l' = [q] := by
  rw [postedReads, posted, List.drop_left]
  rfl

/-- The operand of an atomic request behind the header in its beat. -/
def Flit.operand (f : Flit) (size i : Nat) : Nat :=
  operandAt (dwordsBytes (f.payloadFrom HeaderWords.count)) size i

namespace Engine.Forwards

variable {e e' : Engine} {flit : Flit} {h : Header} {kind : PacketKind} {q : ReadRequest}
  {op : AtomicOperation} {m : HostMemory A}

theorem served (forwards : e.Forwards e' flit h kind q op)
    (plain : q.addressType ≠ .translationRequest) (size : q.dataBytes = 4 ∨ q.dataBytes = 8)
    {va : UInt64} (backs : m.Backs q.addressType q.addr q.dataBytes va) :
    ∃ old, old.length = q.dataBytes ∧ m.guest.Holds va.toNat old ∧
      HostMemory.readResponse q (m.read q).answer = ⟨q.tag, .valid, q.addr, va, old⟩ ∧
      m.Replaces (m.read q).state va.toNat (littleEndian q.dataBytes
        (kind.replaced (flit.operand q.dataBytes) (ofLittleEndian old) % 256 ^ q.dataBytes)) := by
  have operands := forwards.operands
  rw [← forwards.size] at operands
  obtain ⟨answer, state⟩ := HostMemory.read_of_atomic (m := m) plain forwards.atomic
  obtain ⟨old, length, holds, done, replaces⟩ := HostMemory.atomic_of_backs op size backs
  rw [operands.result_eq (operandAt_lt ..), ← state] at replaces
  exact ⟨old, length, holds, by rw [answer, done]; rfl, replaces⟩

theorem refused (forwards : e.Forwards e' flit h kind q op)
    (plain : q.addressType ≠ .translationRequest)
    (missed : ∀ va, ¬ m.Backs q.addressType q.addr q.dataBytes va) :
    (HostMemory.readResponse q (m.read q).answer).status ≠ .valid ∧ (m.read q).state = m := by
  obtain ⟨answer, state⟩ := HostMemory.read_of_atomic (m := m) plain forwards.atomic
  obtain ⟨⟨f, fault⟩, same⟩ := HostMemory.atomic_of_not_backs op missed
  have invalid := m.fits_atomic q op
  rw [answer, fault]
  rw [fault] at invalid
  exact ⟨invalid, state.trans same⟩

end Engine.Forwards

namespace Session

/-- The device gets the bytes for its read in one completion, which announces no more than these
bytes. -/
structure Returns (s : Session) (i : Nat) (h : Header) (bytes : List UInt8) : Prop where
  single : (s.packetsOf i).length ≤ 1
  header : ∀ p ∈ s.packetsOf i, p.header.Completes h 0 ∧
    p.header.byteSize.toNat = bytes.length ∧ p.header.countedBytes? = some bytes.length
  payload : ∀ p ∈ s.packetsOf i, dwordsBytes p.payload <+: bytes
  whole : ∀ p ∈ s.received, p.completes i → dwordsBytes p.payload = bytes
  /-- An engine that waits for nothing and has nothing to send has sent it. -/
  resting : s.engine.pendingReads = 0 → s.engine.completions.items = [] →
    ∃ p ∈ s.received, p.completes i

/-- A read of whole DWORDs within one completion boundary. -/
theorem Regular.returns {s : Session} {config : ValidParameters} (regular : s.Regular config)
    {i : Nat} {d : DeviceRead} (read : s.reads[i]? = some d) {a : ReadResponse}
    (answer : d.answer = some a) (valid : a.status = .valid) (positive : 0 < d.dwordSize)
    (whole : a.data.length = 4 * d.dwordSize)
    (short : d.dwordSize ≤ config.params.completionBoundary / 4)
    (counted : ByteEnable.byteCount? d.dwordSize d.completedBody.firstEnable
      d.completedBody.lastEnable = some (4 * d.dwordSize)) : s.Returns i d.header a.data := by
  obtain ⟨q, owed, sound⟩ := regular.sound
  have image : d.image = a.data := by
    simp [DeviceRead.image, answer, valid, whole]
  have delivers := sound.delivers read
  have bytes := delivers.bytes
  have within : d.stored.dwordSize ≤ s.engine.params.completionBoundary / 4 := by
    rw [d.dwordSize_stored, Engine.params, regular.config]
    exact short
  rw [image] at bytes
  have packets := regular.cuts.packetsOf_of_short sound read within
  rw [d.dwordSize_stored, counted, ← whole] at packets
  constructor
  case single =>
    rcases packets with none_ | ⟨p, only, -⟩
    · simp [none_]
    · simp [only]
  case header =>
    intro p member
    rcases packets with none_ | ⟨p', only, ⟨part, is, start⟩, size, count⟩
    · rw [none_] at member
      cases member
    · obtain rfl : p = p' := by simpa [only] using member
      obtain ⟨-, -, part', is', names, -⟩ := delivers.inOrder 0 p (by rw [only]; rfl)
      obtain rfl : part = part' := Option.some.inj (is.symm.trans is')
      exact ⟨start ▸ names, size, count⟩
  case payload =>
    intro p member
    rcases packets with none_ | ⟨p', only, -⟩
    · rw [none_] at member
      cases member
    · obtain rfl : p = p' := by simpa [only] using member
      rw [bytesOf, only, List.flatMap_singleton] at bytes
      exact bytes
  case whole =>
    intro p member completes
    have all := delivers.whole p member completes
    have listed : p ∈ s.packetsOf i :=
      List.mem_filter.2 ⟨List.mem_append_left _ member, completes⟩
    rcases packets with none_ | ⟨p', only, -, size, -⟩
    · rw [none_] at listed
      cases listed
    · obtain rfl : p = p' := by simpa [only] using listed
      rw [bytesOf, only, List.flatMap_singleton] at bytes
      refine bytes.eq_of_length ?_
      rw [length_dwordsBytes, all, Header.dwordSize, size]
      omega
  case resting =>
    intro answered sent
    obtain ⟨-, brought⟩ := sound.resting answered sent read
    rcases packets with none_ | ⟨p, only, -⟩
    · rw [image, bytesOf, none_] at brought
      have empty := congrArg List.length brought
      simp only [List.flatMap_nil, dwordsBytes, List.length_nil, whole] at empty
      omega
    · have listed : p ∈ s.packetsOf i := by rw [only]; exact List.mem_singleton_self p
      rw [sound.packetsOf_of_empty sent] at listed
      exact ⟨p, List.mem_filter.1 listed⟩

theorem Regular.returns_of_atomic {s : Session} {config : ValidParameters}
    (regular : s.Regular config) (boundary : 8 ≤ config.params.completionBoundary) {h : Header}
    (atomic : h.fmtType.isAtomic) {r : RequestBody} (body : h.body = .request r)
    (legal : Parameters.atomicFault? h r = none) {i : Nat} {q : ReadRequest} {a : ReadResponse}
    (read : s.reads[i]? = some ⟨h, q, some a⟩) (valid : a.status = .valid)
    (length : a.data.length = h.completedBytes) : s.Returns i h a.data := by
  obtain ⟨aligned, positive, short, counted⟩ := Header.counted_of_atomic atomic legal
  have whole : 4 * (h.completedBytes / 4) = h.completedBytes := by omega
  have dwords : DeviceRead.dwordSize ⟨h, q, some a⟩ = h.completedBytes / 4 := by
    change (h.completedBytes + 3) / 4 = _
    omega
  have completed : DeviceRead.completedBody ⟨h, q, some a⟩ = h.effectiveRequest r := by
    rw [DeviceRead.completedBody, DeviceRead.body, Header.request?, body]
    rfl
  refine regular.returns read rfl valid ?_ ?_ ?_ ?_
  · rw [dwords]
    omega
  · rw [dwords, whole]
    exact length
  · rw [dwords]
    omega
  · rw [dwords, completed, whole]
    exact counted

theorem Regular.packetsOf_eq_nil {s : Session} {config : ValidParameters}
    (regular : s.Regular config) {i : Nat} {d : DeviceRead} (read : s.reads[i]? = some d)
    (unserved : ∀ a, d.answer = some a → a.status ≠ .valid) : s.packetsOf i = [] := by
  obtain ⟨q, owed, sound⟩ := regular.sound
  exact (sound.delivers read).unserved unserved

theorem reads_accept_of_forwards {s : Session} {cycle : Nat} {flit : Flit} {h : Header}
    (header : flit.header = .ok h) {kind : PacketKind} {q : ReadRequest} {op : AtomicOperation}
    (forwards : s.engine.Forwards (s.engine.accept cycle flit).state flit h kind q op) :
    (s.accept cycle flit).reads = s.reads ++ [⟨h, q, none⟩] := by
  simp only [Session.accept, header, MemoryLink.postedReads_append forwards.posted]

end Session

namespace Exchange

/-- Read `i` is an atomic request, and host memory carries it out when it serves it. -/
structure CarriesOut (x : Exchange A) (i : Nat) (flit : Flit) (h : Header) (kind : PacketKind)
    (r : RequestBody) : Prop where
  known : h.fmtType.kind? = some kind ∧
    (kind = .fetchAddAtomic ∨ kind = .swapAtomic ∨ kind = .casAtomic)
  body : h.body = .request r
  size : (h.completedBytes = 4 ∨ h.completedBytes = 8) ∧
    h.byteSize.toNat = if h.fmtType.isCas then 2 * h.completedBytes else h.completedBytes
  /-- The operands are all in the beat. -/
  operands : HeaderWords.count + h.byteSize.toNat / 4 ≤ flit.dwordWidth
  read : ∃ q a, x.session.reads[i]? = some ⟨h, q, a⟩ ∧ a = (x.served[i]?).map ServedRead.response ∧
    ∀ m, x.served[i]? = some m → m.request = q ∧ m.after = (m.before.read q).state
  waiting : x.served[i]? = none → x.session.packetsOf i = []
  /-- It does not wait longer than until the service is at work. -/
  serves : ∃ m, (x.step .serve).served[i]? = some m
  /-- The operand lies in backed memory, where the new value takes the place of the old one. -/
  done : ∀ m va, x.served[i]? = some m →
    m.before.Backs r.attributes.addressType r.addr h.completedBytes va →
      ∃ old, old.length = h.completedBytes ∧ m.before.guest.Holds va.toNat old ∧
        m.before.Replaces m.after va.toNat (littleEndian h.completedBytes
          (kind.replaced (flit.operand h.completedBytes) (ofLittleEndian old) %
            256 ^ h.completedBytes)) ∧
        x.session.Returns i h old
  /-- The operand crosses a page boundary or does not lead to backed memory. -/
  failed : ∀ m, x.served[i]? = some m →
    (∀ va, ¬ m.before.Backs r.attributes.addressType r.addr h.completedBytes va) →
      m.after = m.before ∧ x.session.packetsOf i = []

theorem Records.carriesOut {x : Exchange A} {b : Bridge A} (records : x.Records b)
    {config : ValidParameters} (regular : x.session.Regular config)
    (boundary : 8 ≤ config.params.completionBoundary) {e e' : Engine} {cycle : Nat} {flit : Flit}
    {h : Header} (takes : e.TakesAtomic cycle flit h) (wide : e.config.HoldsOperands)
    {r : RequestBody} (body : h.body = .request r) {kind : PacketKind} {q : ReadRequest}
    {op : AtomicOperation} (forwards : e.Forwards e' flit h kind q op) {i : Nat}
    {a : Option ReadResponse} (read : x.session.reads[i]? = some ⟨h, q, a⟩) :
    x.CarriesOut i flit h kind r := by
  obtain ⟨legal, -⟩ := takes.legal body
  obtain ⟨size, length⟩ := Header.completedBytes_of_atomic legal
  obtain ⟨r', body', addr, type⟩ := forwards.asked
  obtain rfl : r = r' := PacketBody.request.inj (body.symm.trans body')
  have plain : q.addressType ≠ .translationRequest := type ▸ takes.addressType_ne body
  have answer : a = (x.served[i]?).map ServedRead.response := records.answers i _ read
  have asked (m : ServedRead A) (served : x.served[i]? = some m) :
      m.request = q ∧ m.after = (m.before.read q).state := by
    obtain ⟨after, d, found, request⟩ := records.served i m served
    obtain rfl : DeviceRead.mk h q a = d := Option.some.inj (read.symm.trans found)
    exact ⟨request.symm, after.trans (by rw [← request])⟩
  constructor
  case known => exact ⟨forwards.known, forwards.operands.kind_cases⟩
  case body => exact body
  case size => exact ⟨size, length⟩
  case operands =>
    have width : flit.dwordWidth = e.config.dwordWidth := congrArg (· / 32) takes.width
    rw [width]
    exact takes.inside wide
  case read => exact ⟨q, a, read, answer, asked⟩
  case waiting =>
    intro unserved
    refine regular.packetsOf_eq_nil read fun a' known => ?_
    rw [answer, unserved] at known
    cases known
  case serves => exact records.served_serve read
  case done =>
    intro m va served backs
    rw [← type, ← addr, ← forwards.size] at backs
    rw [← forwards.size] at size
    obtain ⟨rfl, after⟩ := asked m served
    obtain ⟨old, width, holds, response, replaces⟩ := forwards.served plain size backs
    rw [answer, served, Option.map_some, ServedRead.response, response] at read
    rw [← after] at replaces
    rw [forwards.size] at width replaces
    exact ⟨old, width, holds, replaces,
      regular.returns_of_atomic boundary takes.atomic body legal read rfl width⟩
  case failed =>
    intro m served missed
    rw [← type, ← addr, ← forwards.size] at missed
    obtain ⟨rfl, after⟩ := asked m served
    obtain ⟨invalid, same⟩ := forwards.refused plain missed
    refine ⟨after.trans same, regular.packetsOf_eq_nil read fun a' known => ?_⟩
    rw [answer, served, Option.map_some] at known
    exact Option.some.inj known ▸ invalid

/-- Atomic requests are carried out in one step each, whatever else the device, the host and the
memory service do before and after. -/
theorem run_carriesOut (config : ValidParameters) (options : Switches) (random : DrawSource)
    (memory : HostMemory A) (wide : 384 ≤ config.params.dataWidth)
    (boundary : 8 ≤ config.params.completionBoundary) (before after : List (Bridge.Move A))
    {cycle : Nat} {flit : Flit} {h : Header}
    (takes : ((Bridge.start config options random memory).run before).engine.TakesAtomic cycle flit
      h) :
    let x := (start config options random memory).run before
    let y := (x.step (.accept cycle flit)).run after
    y.bridge =
        (Bridge.start config options random memory).run (before ++ .accept cycle flit :: after) ∧
      ∃ kind r, y.CarriesOut x.session.reads.length flit h kind r := by
  intro x y
  have first : x.Records _ := (Records.start config options random memory).run before
  have regular : x.session.Regular config :=
    ((start config options random memory).advances_run before).regular
      (.start config options random)
  rw [← first.mirrors.engine] at takes
  have holds : x.session.engine.config.HoldsOperands := by
    rw [regular.config]
    intro n size _
    have width : config.dwordWidth = config.params.dataWidth / 32 := rfl
    simp only [List.mem_cons, List.not_mem_nil, or_false] at size
    change 8 + n / 4 ≤ _
    omega
  obtain ⟨r, body⟩ := takes.exists_body
  obtain ⟨kind, q, op, forwards⟩ := takes.forwards
  have accepted := Session.reads_accept_of_forwards takes.header forwards
  have records := (first.step (.accept cycle flit)).run after
  have advances : (x.step (.accept cycle flit)).session.Advances y.session :=
    (x.step (.accept cycle flit)).advances_run after
  have later := ((x.advances_step (.accept cycle flit)).trans advances).regular regular
  obtain ⟨a, read⟩ := advances.keepsReads x.session.reads.length ⟨h, q, none⟩ (by
    change (x.session.accept cycle flit).reads[x.session.reads.length]? = _
    rw [accepted, List.getElem?_concat_length])
  refine ⟨?_, kind, r, records.carriesOut later boundary takes holds body forwards read⟩
  rw [records.bridge_eq]
  unfold Bridge.run
  rw [List.foldl_append]
  rfl

/-- Behind a swap, eight bytes are compared and swapped. -/
theorem run_carriesOut_cas :
    let config : ValidParameters := ⟨{ dataWidth := 512 }, by decide⟩
    let options : Switches := { unlimitedBandwidth := true }
    let tables : Iommu FirstFit.allocator :=
      ((PinnedTables.start {} { ranges := [] }).run [.pin 0x7000 0x1000]).tables
    let memory : HostMemory _ := ⟨tables, { regions := [⟨0x7000, 0x1000⟩] }⟩
    let carrying (h : Header) (dwords : List UInt32) : Flit :=
      { (dwords.zipIdx HeaderWords.count).foldl (fun f (v, i) => f.setDword i v)
          ((Flit.blank 512 10).storing h) with last := true }
    let request : RequestBody := { addr := 0x10 }
    let swap := carrying { fmtType := .swap32, byteSize := 8, body := .request request } [1, 2]
    let h : Header := { fmtType := .cas32, byteSize := 16, tag := 3, body := .request request }
    let cas := carrying h [1, 2, 5, 6]
    let before : List (Bridge.Move _) := [.accept 1 swap, .serve]
    let after : List (Bridge.Move _) := [.serve, .emit 3 true, .emit 4 true]
    let x := (start config options .fullBandwidth memory).run before
    let y := (x.step (.accept 2 cas)).run after
    (384 ≤ config.params.dataWidth ∧ 8 ≤ config.params.completionBoundary) ∧
      ((Bridge.start config options .fullBandwidth memory).run before).engine.TakesAtomic 2 cas h ∧
      (∃ kind r, y.CarriesOut x.session.reads.length cas h kind r) ∧
      (∃ m, y.served[x.session.reads.length]? = some m ∧
        m.before.Backs request.attributes.addressType request.addr h.completedBytes 0x7010) ∧
      y.session.engine.pendingReads = 0 ∧ y.session.engine.completions.items = [] := by
  intro config options tables memory carrying request swap h cas before after x y
  have takes : ((Bridge.start config options .fullBandwidth memory).run before).engine.TakesAtomic
      2 cas h := by
    refine ⟨?_, ?_, ?_, ?_, ?_⟩
    all_goals decide +kernel
  have carriesOut := run_carriesOut config options .fullBandwidth memory (by decide) (by decide)
    before after takes
  have translated : (y.served[x.session.reads.length]?).map
      (fun m => m.before.iommu.resolve .untranslated 0x10) = some (.ok 0x7010) := by decide +kernel
  have backed : (y.served[x.session.reads.length]?).map
      (fun m => (List.range 8).all fun j => m.before.guest.isBacked (0x7010 + j)) = some true := by
    decide +kernel
  obtain ⟨m, served, translates⟩ := Option.map_eq_some_iff.1 translated
  rw [served, Option.map_some, Option.some_inj, List.all_eq_true] at backed
  have size : h.completedBytes = 8 := by decide
  have backs : m.before.Backs .untranslated 0x10 h.completedBytes 0x7010 := by
    rw [size]
    exact ⟨by decide, translates, fun j inside => backed j (List.mem_range.2 inside)⟩
  have rests : let e := ((Bridge.start config options .fullBandwidth memory).run
      (before ++ .accept 2 cas :: after)).engine
      e.pendingReads = 0 ∧ e.completions.items = [] := by decide +kernel
  rw [← carriesOut.1] at rests
  exact ⟨by decide, takes, carriesOut.2, ⟨m, served, backs⟩, rests⟩

end Exchange

end TlpBridge
