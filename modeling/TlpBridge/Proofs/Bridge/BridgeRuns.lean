import TlpBridge.Engine.Bridge
import TlpBridge.Proofs.Reads.LinkRequests
import TlpBridge.Proofs.Memory.MemoryAnswers
import TlpBridge.Proofs.Reads.ReadDelivery

/-!
# Runs of a bridge

An engine and its memory service never contradict each other. A bridge is a session whose
host memory is the service: the service answers the reads in the order in which they were
posted, and every answer is one that the engine has to expect.
-/
namespace TlpBridge

variable {A : IovaAllocator}

theorem Engine.TakesRead.wholeEntries {e e' : Engine} {flit : Flit} {h : Header} {r : RequestBody}
    {slot : Nat} {slots : SlotPool} (takes : e.TakesRead e' flit h r slot slots)
    {asked : ReadRequest} (is : asked =
      Header.readRequest { h with body := .request (h.effectiveRequest r) } (h.effectiveRequest r)
        flit slot) :
    asked.addressType = .translationRequest → asked.dataBytes % 8 = 0 := by
  rw [is]
  intro type
  obtain ⟨whole, plain⟩ := Parameters.translation_of_legal takes.rules type
  have bytes : Header.completedBytes { h with body := .request (h.effectiveRequest r) } =
      h.byteSize.toNat := if_neg fun cas => plain (FmtType.isAtomic_of_isCas cas)
  have entries : h.byteSize.toNat % 8 = 0 := congrArg UInt32.toNat whole
  change (if _ then 0 else Header.completedBytes _) % 8 = 0
  split
  · rfl
  · rw [bytes]
    exact entries

namespace Session

namespace Sound

variable {s : Session} {q : OwnedQueue} {owed : List Nat}

theorem expects (sound : s.Sound q owed) {a : ReadResponse}
    (waiting : a ∈ s.engine.link.readResponses) : ∃ h, s.engine.slots.isBusy a.tag.toNat ∧
      s.engine.slots.request? a.tag.toNat = some h ∧ (a.status = .valid →
        a.data.length = if h.isFence (h.request?.getD {}) then 0 else h.byteSize.toNat) := by
  have owned : some a ∈ owed.map fun i => (s.reads[i]?).bind (·.answer) := by
    rw [← sound.responses]
    exact List.mem_map_of_mem waiting
  obtain ⟨i, due, answered⟩ := List.mem_map.1 owned
  obtain ⟨r, read, answer⟩ := Option.bind_eq_some_iff.1 answered
  have member := List.mem_of_getElem? read
  have admitted := sound.admitted r member
  obtain ⟨-, length⟩ := admitted.answered a answer
  obtain ⟨slot, holds, stored, -⟩ := sound.holds_of_due due read answer
  have body : r.stored.request?.getD {} = r.completedBody := by
    rw [Header.request?, admitted.completable.body]
    rfl
  rw [slot]
  refine ⟨r.stored, holds.2, stored, fun valid => ?_⟩
  rw [length valid, admitted.expected, body]

theorem encodes (sound : s.Sound q owed) {c : CompletionPacket}
    (member : c ∈ s.engine.completions.items) : ∃ request flit,
      s.engine.slots.request? c.slot = some request ∧
        s.engine.blankFlit.storeHeader (c.header request) = .ok flit := by
  rw [sound.queue] at member
  obtain ⟨⟨i, c⟩, queued, rfl⟩ := List.mem_map.1 member
  obtain ⟨r, known, -, -, stored⟩ := sound.request?_of_mem queued
  have fault := (sound.encodable _ queued).fault?_header (sound.admitted r known).completable
  exact ⟨r.stored, _, stored, (Flit.storeHeader_eq_ok_iff ..).2 ⟨fault, rfl⟩⟩

/-- A cycle breaks a rule only for an MMIO request that has no encoding. -/
theorem broken_emit (sound : s.Sound q owed) {cycle c : Nat} {ready : Bool} {v : Violation}
    {h : Option Header} (broken : (s.engine.emit cycle ready).answer = .error (.protocol c v h)) :
    ∃ (r : MmioRequest) (cause : EncodingError),
      (s.engine.collect cycle).state.mmioQueue.head? = some r ∧
        (r.header s.engine.params).fault? = some cause ∧ v = .encoding cause := by
  obtain ⟨q', owed', collected, keeps, -⟩ := sound.collect cycle
  have params := congrArg ValidParameters.params (s.engine.onlyCollected_collect cycle).config
  rw [Engine.emit_eq] at broken
  by_cases halted : s.engine.halted
  · rw [if_pos halted] at broken
    cases broken
  · rw [if_neg halted] at broken
    unfold EngineStep.andThen at broken
    cases answer : (s.engine.collect cycle).answer with
    | error fault =>
      simp only [answer] at broken
      rw [Except.error.inj broken] at answer
      exact absurd answer (keeps c v h)
    | ok u =>
      simp only [answer] at broken
      cases ready with
      | false => cases broken
      | true =>
        have sends := Engine.sendBeat_sends _ collected.sendable
        change (s.engine.collect cycle).state.sendBeat.answer = _ at broken
        generalize (s.engine.collect cycle).state.sendBeat = sent at sends broken
        cases sends with
        | refused r cause first fault =>
          obtain ⟨-, rfl, -⟩ := EngineFault.protocol.inj (Except.error.inj broken)
          exact ⟨r, cause, first, (congrArg (fun p => (r.header p).fault?) params).symm.trans fault,
            rfl⟩
        | nothing => cases broken
        | startsMmio => cases broken
        | continuesMmio => cases broken
        | startsCompletion => cases broken
        | continuesCompletion => cases broken

end Sound

/-- What host memory was asked for and has not answered. -/
def unanswered (s : Session) : List ReadRequest :=
  (s.reads.filter (·.answer.isNone)).map (·.request)

/-- All reads before this one are answered. -/
structure WaitsLongest (s : Session) (i : Nat) (d : DeviceRead) : Prop where
  read : s.reads[i]? = some d
  unanswered : d.answer = none
  earlier : ∀ j < i, ∀ d', s.reads[j]? = some d' → d'.answer.isSome

theorem unanswered_eq_cons {s : Session} {r : ReadRequest} {rest : List ReadRequest}
    (waiting : s.unanswered = r :: rest) : ∃ i d, s.WaitsLongest i d ∧ d.request = r ∧
      ∀ a, Session.unanswered
        { s with reads := s.reads.set i { d with answer := some a } } = rest := by
  obtain ⟨d, later, filtered, request, others⟩ := List.map_eq_cons_iff.1 waiting
  obtain ⟨before, after, split, answered, unanswered, kept⟩ := List.filter_eq_cons_iff.1 filtered
  refine ⟨before.length, d, ⟨?_, Option.isNone_iff_eq_none.1 unanswered, ?_⟩, request, fun a => ?_⟩
  · rw [split]
    simp
  · intro j inside d' read
    rw [split, List.getElem?_append_left inside] at read
    have known := answered d' (List.mem_of_getElem? read)
    rwa [Bool.not_eq_true, Option.isNone_eq_false_iff] at known
  · have none_ : before.filter (·.answer.isNone) = [] := List.filter_eq_nil_iff.2 answered
    rw [Session.unanswered, split]
    simp [none_, kept, others]

end Session

namespace Bridge

/-- What happens between the device, the engine and the host. -/
inductive Move (A : IovaAllocator) where
  /-- The device sends a beat. -/
  | accept (cycle : Nat) (flit : Flit)
  /-- The device asks whether its next beat will be taken. -/
  | ready
  /-- The host asks for an access to the device. -/
  | request (r : MmioRequest)
  /-- A cycle in which the device may be ready for a beat. -/
  | emit (cycle : Nat) (ready : Bool)
  /-- The memory service takes all requests that wait. -/
  | serve
  /-- The host changes its tables or its memory in any way. -/
  | change (memory : HostMemory A)

/-- A fresh engine in front of host memory. -/
def start (config : ValidParameters) (options : Switches) (random : DrawSource)
    (memory : HostMemory A) : Bridge A :=
  ⟨(Engine.create config options).withDraws random, memory⟩

def step (b : Bridge A) : Move A → Bridge A
  | .accept cycle flit => (b.onEngine (·.accept cycle flit)).state
  | .ready => { b with engine := b.engine.ready.2 }
  | .request r => (b.onEngine (·.request r)).state
  | .emit cycle ready => (b.onEngine (·.emit cycle ready)).state
  | .serve => b.serve.state
  | .change memory => { b with memory := memory }

def run (b : Bridge A) (moves : List (Move A)) : Bridge A := moves.foldl step b

/-- The session of the same engine in which nothing has gone wrong, and in which the reads without
an answer are those that wait for the service. -/
structure Mirrors (b : Bridge A) (s : Session) : Prop where
  engine : s.engine = b.engine
  sound : ∃ q owed, s.Sound q owed
  again : s.again = none
  asked : b.engine.link.readRequests = s.unanswered
  whole : ∀ r ∈ s.reads, r.request.addressType = .translationRequest → r.request.dataBytes % 8 = 0

/-- The bridge while the service is at work and has the given requests before it. -/
def serving (e : Engine) (svc : MemoryService A) (rest : List MemoryRequest) : Bridge A :=
  ⟨{ e with link := { svc.link with requests := rest } }, svc.memory⟩

namespace Mirrors

variable {b : Bridge A} {s : Session}

theorem start (config : ValidParameters) (options : Switches) (random : DrawSource)
    (memory : HostMemory A) : (Bridge.start config options random memory).Mirrors
      (Session.start config options random) where
  engine := rfl
  sound := ⟨[], [], .start config options random⟩
  again := rfl
  asked := rfl
  whole _ member := nomatch member

theorem attached (mirrors : b.Mirrors s) :
    b.engine.link.engineAttached ∧ b.engine.link.serviceAttached := by
  obtain ⟨q, owed, sound⟩ := mirrors.sound
  exact mirrors.engine ▸ sound.attached

theorem sameReads (mirrors : b.Mirrors s) {e : Engine} (same : b.engine.SameReads e)
    (requests : e.link.readRequests = b.engine.link.readRequests) :
    Mirrors { b with engine := e } { s with engine := e } := by
  obtain ⟨q, owed, sound⟩ := mirrors.sound
  rw [← mirrors.engine] at same
  exact ⟨rfl, ⟨q, owed, sound.sameReads same⟩, mirrors.again, requests.trans mirrors.asked,
    mirrors.whole⟩

/-- A beat of the device posts at most one read, which is not answered yet. -/
theorem accept (mirrors : b.Mirrors s) (cycle : Nat) (flit : Flit) :
    (b.step (.accept cycle flit)).Mirrors (s.accept cycle flit) := by
  obtain ⟨q, owed, sound⟩ := mirrors.sound
  have accepted := sound.accept cycle flit
  have posted := MemoryLink.readRequests_of_prefix (b.engine.accept_accepts cycle flit).requests
  have again := Session.again_step mirrors.again (m := .accept cycle flit)
    (fun same => nomatch same)
  change (s.accept cycle flit).again = none at again
  rcases s.accept_cases cycle flit sound.attached with
    ⟨quiet, same⟩ | ⟨h, r, slot, slots, takes, is⟩
  · rw [same] at accepted again ⊢
    rw [mirrors.engine] at quiet accepted ⊢
    rw [quiet.2, List.append_nil, mirrors.asked] at posted
    exact ⟨rfl, ⟨q, owed, accepted⟩, mirrors.again, posted, mirrors.whole⟩
  · rw [is _ rfl] at accepted again ⊢
    rw [mirrors.engine] at takes accepted ⊢
    rw [takes.posted] at posted
    refine ⟨rfl, ⟨q, owed, accepted⟩, mirrors.again, ?_, ?_⟩
    · change (b.engine.accept cycle flit).state.link.readRequests = _
      rw [posted, mirrors.asked, Session.unanswered, Session.unanswered, List.filter_append,
        List.map_append]
      rfl
    · intro d member
      rcases List.mem_append.1 member with old | new
      · exact mirrors.whole d old
      · rw [List.mem_singleton.1 new]
        exact takes.wholeEntries rfl

theorem emit (mirrors : b.Mirrors s) (cycle : Nat) (ready : Bool) :
    (b.step (.emit cycle ready)).Mirrors (s.emit cycle ready) := by
  obtain ⟨q, owed, sound⟩ := mirrors.sound
  have clear : ¬ s.Misdirects (.emit cycle ready) := by
    rintro ⟨⟨i, c, r, r', cut, -⟩, -⟩
    cases mirrors.again.symm.trans cut
  obtain ⟨q', owed', collected, -⟩ := sound.collect cycle
  have requests := (s.engine.keepsInbound_emit cycle ready collected.sendable).requests
  have again := Session.again_step mirrors.again (m := .emit cycle ready) (fun same => nomatch same)
  obtain ⟨engine, reads, -⟩ := s.emit_frame cycle ready
  rw [mirrors.engine] at engine requests
  refine ⟨engine, sound.emit cycle ready clear, again, ?_, ?_⟩
  · change (b.engine.emit cycle ready).state.link.readRequests = _
    rw [Session.unanswered, reads, MemoryLink.readRequests, requests]
    exact mirrors.asked
  · rw [reads]
    exact mirrors.whole

/-- The service answers the read that waits longest, and the answer is one that the engine
expects. -/
theorem serveRead {e : Engine} {svc : MemoryService A} {r : ReadRequest} {rest : List MemoryRequest}
    (mirrors : (Bridge.serving e svc (.read r :: rest)).Mirrors s) :
    ∃ i d, s.WaitsLongest i d ∧ d.request = r ∧ ∀ a,
      a = HostMemory.readResponse r (svc.memory.read r).answer →
        (s.takeRequest.answerRead i a).reads = s.reads.set i { d with answer := some a } ∧
        (Bridge.serving e (svc.serveRead r).state rest).Mirrors (s.takeRequest.answerRead i a) := by
  have attached : svc.link.engineAttached := mirrors.attached.1
  obtain ⟨q, owed, sound⟩ := mirrors.sound
  obtain ⟨i, d, longest, rfl, others⟩ := Session.unanswered_eq_cons mirrors.asked.symm
  have read := longest.read
  refine ⟨i, d, longest, rfl, fun a is => ?_⟩
  have admits : d.Admits a := by
    rw [is]
    refine ⟨longest.unanswered, HostMemory.tag_readResponse .., fun valid => ?_⟩
    exact svc.memory.length_readResponse d.request
      (mirrors.whole d (List.mem_of_getElem? read)) valid
  let e' : Engine := { e with link := { svc.link with requests := rest } }
  have taken : Session.Sound { s with engine := e' } q owed :=
    sound.sameReads (mirrors.engine ▸ Engine.SameReads.of_eq rfl)
  have next : s.takeRequest = { s with engine := e' } := by
    rw [Session.takeRequest_eq, mirrors.engine]
    rfl
  obtain ⟨owed', answered⟩ := taken.answerRead i a
  rw [next]
  rw [Session.answerRead_eq (s := { s with engine := e' }) attached read admits] at answered ⊢
  refine ⟨rfl, ?_, ⟨q, owed', answered⟩, mirrors.again, ?_, ?_⟩
  · rw [MemoryService.state_serveRead svc attached, is]
    rfl
  · rw [MemoryService.state_serveRead svc attached]
    exact (others a).symm
  · intro x member
    rcases List.mem_or_eq_of_mem_set member with old | rfl
    · exact mirrors.whole x old
    · exact mirrors.whole d (List.mem_of_getElem? read)

theorem serveWrite {e : Engine} {svc : MemoryService A} {w : WriteRequest}
    {rest : List MemoryRequest} (mirrors : (Bridge.serving e svc (.write w :: rest)).Mirrors s) :
    ∀ a, a = HostMemory.writeResponse (svc.memory.write w).1 →
      (s.takeRequest.answerWrite a).reads = s.reads ∧
      (Bridge.serving e (svc.serveWrite w).state rest).Mirrors (s.takeRequest.answerWrite a) := by
  intro a is
  have attached : svc.link.engineAttached := mirrors.attached.1
  obtain ⟨q, owed, sound⟩ := mirrors.sound
  let e' : Engine := { e with link := { svc.link with
    requests := rest
    writeResponses := svc.link.writeResponses ++ [a] } }
  have answered : Session.Sound { s with engine := e' } q owed :=
    sound.sameReads (mirrors.engine ▸ Engine.SameReads.of_eq rfl)
  have next : s.takeRequest.answerWrite a = { s with engine := e' } := by
    rw [Session.takeRequest_eq, Session.answerWrite_eq (mirrors.engine ▸ attached), mirrors.engine]
    rfl
  rw [MemoryService.state_serveWrite svc attached, next, ← is]
  exact ⟨rfl, rfl, ⟨q, owed, answered⟩, mirrors.again, mirrors.asked, mirrors.whole⟩

theorem of_served (mirrors : (Bridge.serving b.engine
      (MemoryService.serveAll b.engine.link.requests
        ⟨b.memory, { b.engine.link with requests := [] }⟩).state []).Mirrors s) :
    (b.step .serve).Mirrors s := by
  obtain ⟨answers, writes, link⟩ := MemoryService.link_serveAll
    ⟨b.memory, { b.engine.link with requests := [] }⟩ b.engine.link.requests
  unfold serving at mirrors
  change Mirrors ⟨{ b.engine with
    link := (MemoryService.serveAll b.engine.link.requests _).state.link }, _⟩ s
  rw [link] at mirrors ⊢
  exact mirrors

theorem serveAll (e : Engine) (rs : List MemoryRequest) (svc : MemoryService A)
    (mirrors : (Bridge.serving e svc rs).Mirrors s) :
    ∃ s', (Bridge.serving e (MemoryService.serveAll rs svc).state []).Mirrors s' := by
  induction rs generalizing svc s with
  | nil => exact ⟨s, mirrors⟩
  | cons r rest ih =>
    obtain ⟨s', next⟩ : ∃ s', (Bridge.serving e (svc.serve r).state rest).Mirrors s' := by
      cases r with
      | read r =>
        obtain ⟨i, d, -, -, served⟩ := mirrors.serveRead
        exact ⟨_, (served _ rfl).2⟩
      | write w => exact ⟨_, (mirrors.serveWrite _ rfl).2⟩
    exact ih _ next

theorem serve (mirrors : b.Mirrors s) : ∃ s', (b.step .serve).Mirrors s' := by
  obtain ⟨s', served⟩ := mirrors.serveAll b.engine b.engine.link.requests
    ⟨b.memory, { b.engine.link with requests := [] }⟩
  exact ⟨s', of_served served⟩

theorem step (mirrors : b.Mirrors s) (m : Move A) : ∃ s', (b.step m).Mirrors s' := by
  cases m with
  | accept cycle flit => exact ⟨_, mirrors.accept cycle flit⟩
  | ready =>
    obtain ⟨same, -⟩ := b.engine.quiet_ready
    exact ⟨_, mirrors.sameReads same (congrArg _ b.engine.link_ready)⟩
  | request r =>
    obtain ⟨same, -⟩ := b.engine.quiet_request r
    exact ⟨_, mirrors.sameReads same (congrArg _ (b.engine.link_request r))⟩
  | emit cycle ready => exact ⟨_, mirrors.emit cycle ready⟩
  | serve => exact mirrors.serve
  | change memory => exact ⟨s, mirrors.engine, mirrors.sound, mirrors.again, mirrors.asked,
      mirrors.whole⟩

theorem run (mirrors : b.Mirrors s) (moves : List (Move A)) : ∃ s', (b.run moves).Mirrors s' := by
  induction moves generalizing b s with
  | nil => exact ⟨s, mirrors⟩
  | cons m moves ih =>
    obtain ⟨s', next⟩ := mirrors.step m
    exact ih next

end Mirrors

/-- Engine and host memory agree on the reads between them. -/
structure Agrees (b : Bridge A) : Prop where
  /-- A cycle breaks no rule of the protocol, unless an MMIO request has no encoding. In particular
  no answer is blamed for its tag or its length, and no read for its byte enables. -/
  cycle : ∀ cycle ready c v h, (b.engine.emit cycle ready).answer = .error (.protocol c v h) →
    ∃ (r : MmioRequest) (cause : EncodingError),
      (b.engine.collect cycle).state.mmioQueue.head? = some r ∧
        (r.header b.engine.params).fault? = some cause ∧ v = .encoding cause
  /-- Every completion in the queue has a header, and it can be encoded. -/
  encodable : ∀ cycle, ∀ c ∈ (b.engine.collect cycle).state.completions.items, ∃ request flit,
    (b.engine.collect cycle).state.slots.request? c.slot = some request ∧
      b.engine.blankFlit.storeHeader (c.header request) = .ok flit
  /-- An answer that waits is for a read in progress, and if it is valid, it has the length that the
  completions of the read take. -/
  expected : ∀ a ∈ b.engine.link.readResponses, ∃ h, b.engine.slots.isBusy a.tag.toNat ∧
    b.engine.slots.request? a.tag.toNat = some h ∧ (a.status = .valid →
      a.data.length = if h.isFence (h.request?.getD {}) then 0 else h.byteSize.toNat)
  /-- Every read that the engine waits for is before the service, or answered. -/
  pending : b.engine.pendingReads =
    b.engine.link.readRequests.length + b.engine.link.readResponses.length
  /-- The service answers every read before it with a fault or with as much as it asks for. -/
  answered : ∀ r ∈ b.engine.link.readRequests, ∃ a ∈ b.serve.state.engine.link.readResponses,
    a.tag = r.tag ∧ (a.status = .valid → a.data.length = r.dataBytes)

theorem Mirrors.agrees {b : Bridge A} {s : Session} (mirrors : b.Mirrors s) : b.Agrees := by
  have attached := mirrors.attached
  have asked := mirrors.asked
  obtain ⟨q, owed, sound⟩ := mirrors.sound
  constructor
  case cycle =>
    rw [← mirrors.engine]
    exact fun cycle ready c v h broken => sound.broken_emit broken
  case encodable =>
    rw [← mirrors.engine]
    intro cycle
    obtain ⟨q', owed', collected, -⟩ := sound.collect cycle
    have config := (s.engine.onlyCollected_collect cycle).config
    intro c member
    obtain ⟨request, flit, stored, encoded⟩ := collected.encodes member
    refine ⟨request, flit, stored, ?_⟩
    unfold Engine.blankFlit Engine.params at encoded ⊢
    rw [← config]
    exact encoded
  case expected =>
    rw [← mirrors.engine]
    exact fun a waiting => sound.expects waiting
  case pending =>
    have pending := sound.pending
    have responses := congrArg List.length sound.responses
    rw [mirrors.engine] at pending responses
    rw [List.length_map, List.length_map] at responses
    rw [pending, asked, Session.unanswered, List.length_map, List.countP_eq_length_filter,
      responses]
  case answered =>
    intro r waiting
    have posted : MemoryRequest.read r ∈ b.engine.link.requests := by
      obtain ⟨x, member, is⟩ := List.mem_filterMap.1 waiting
      cases x with
      | read r' => exact Option.some.inj is ▸ member
      | write w => cases is
    obtain ⟨memory, answered⟩ := MemoryService.mem_responses_serveAll
      ⟨b.memory, { b.engine.link with requests := [] }⟩ attached.1 posted
    refine ⟨_, answered, HostMemory.tag_readResponse .., fun valid => ?_⟩
    apply memory.length_readResponse r ?_ valid
    rw [asked] at waiting
    obtain ⟨d, member, rfl⟩ := List.mem_map.1 waiting
    exact mirrors.whole d (List.mem_of_mem_filter member)

/-- Whatever the device sends, the host asks for and does to its tables and its memory, and whenever
the service is at work: engine and host memory agree. -/
theorem run_agrees (config : ValidParameters) (options : Switches) (random : DrawSource)
    (memory : HostMemory A) (moves : List (Move A)) :
    ((Bridge.start config options random memory).run moves).Agrees := by
  obtain ⟨s, mirrors⟩ := (Mirrors.start config options random memory).run moves
  exact mirrors.agrees

end Bridge

end TlpBridge
