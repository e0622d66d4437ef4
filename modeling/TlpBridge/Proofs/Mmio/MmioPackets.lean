import TlpBridge.Proofs.Mmio.MmioLog

/-!
# MMIO packets in order

The requests that wait are those taken and not yet sent as a whole, in the order in which they were
taken, and the packet in progress is that of the first of them. So each beat that ends a packet
takes one request from the queue, and answers it if it is a write.
-/
namespace TlpBridge

theorem getElem?_concat_eq_some_iff {α : Type} {l : List α} {a b : α} {k : Nat} :
    (l ++ [b])[k]? = some a ↔ l[k]? = some a ∨ k = l.length ∧ b = a := by
  rcases Nat.lt_trichotomy k l.length with earlier | rfl | later
  · rw [List.getElem?_append_left earlier]
    simp [Nat.ne_of_lt earlier]
  · simp
  · rw [List.getElem?_eq_none (by simpa using later), List.getElem?_eq_none (Nat.le_of_lt later)]
    simp [Nat.ne_of_gt later]

/-! ## Packets of one request -/

namespace MmioRequest

theorem Legal.dwordsBytes_payload {r : MmioRequest} (legal : r.Legal) (write : r.write) :
    dwordsBytes (Source.mmio r).payload = r.data.take (r.widthBits / 8) := by
  have aligned := legal.aligned
  have enough : r.widthBits / 8 ≤ r.data.length := legal.data write
  have dwords : 4 * (r.widthBits / 8 / 4) = r.widthBits / 8 := by omega
  have length := Source.length_payload_mmio legal
  rw [if_pos write] at length
  have all : payloadBytes (Source.mmio r).payload (r.widthBits / 8) =
      dwordsBytes (Source.mmio r).payload := by
    refine List.take_of_length_le ?_
    rw [length_dwordsBytes, length]
    exact Nat.le_of_eq dwords
  have cut : (Source.mmio r).payload = (dwordsOfBytes r.data).take (r.widthBits / 8 / 4) :=
    if_pos write
  rw [← all, cut, payloadBytes_take _ (Nat.le_of_eq dwords.symm), payloadBytes,
    dwordsBytes_dwordsOfBytes, List.take_append_of_le_length enough]

namespace Sends

variable {r : MmioRequest} {c : ValidParameters} {beats : List AnsweredBeat} {b : AnsweredBeat}

theorem first (beat : b.flit.IsBeat c.dwordWidth 0 (r.header c.params) (Source.mmio r).payload)
    (responses : b.responses = if b.flit.last && r.write then [r.response] else []) :
    r.Sends c [b] where
  nonempty := List.cons_ne_nil _ _
  goesOn := List.forall_mem_nil _
  beat j b' found := by
    obtain ⟨rfl, rfl⟩ : j = 0 ∧ b = b' := by simpa [List.getElem?_singleton] using found
    exact beat
  responses b' member := by rw [List.mem_singleton.1 member, responses]

theorem snoc (before : r.Sends c beats) (goesOn : ∀ b ∈ beats, b.flit.last = false)
    (beat : b.flit.IsBeat c.dwordWidth beats.length (r.header c.params) (Source.mmio r).payload)
    (responses : b.responses = if b.flit.last && r.write then [r.response] else []) :
    r.Sends c (beats ++ [b]) where
  nonempty := by simp
  goesOn := by
    rw [List.dropLast_concat]
    exact goesOn
  beat j b' found := by
    rcases getElem?_concat_eq_some_iff.1 found with earlier | ⟨rfl, rfl⟩
    · exact before.beat j b' earlier
    · exact beat
  responses b' member := by
    rcases List.mem_append.1 member with old | new
    · exact before.responses b' old
    · rw [List.mem_singleton.1 new, responses]

theorem acknowledgement (sends : r.Sends c beats) : beats.flatMap (·.responses) =
    if MmioLog.isWhole beats && r.write then [r.response] else [] := by
  obtain ⟨before, b, rfl⟩ := List.eq_nil_or_concat' beats |>.resolve_left sends.nonempty
  have goesOn := sends.goesOn
  rw [List.dropLast_concat] at goesOn
  have silent : before.flatMap (·.responses) = [] := by
    rw [List.flatMap_eq_nil_iff]
    intro b' member
    rw [sends.responses b' (List.mem_append_left _ member), goesOn b' member]
    rfl
  rw [List.flatMap_append, silent, List.nil_append, List.flatMap_singleton,
    sends.responses b (by simp), MmioLog.isWhole, List.getLast?_concat]
  rfl

end Sends

end MmioRequest

/-! ## All packets -/

namespace MmioLog

variable {c : ValidParameters} {accepted : List MmioRequest} {packets : List (List AnsweredBeat)}
  {r : MmioRequest} {beats : List AnsweredBeat}

theorem sent_concat (packets : List (List AnsweredBeat)) (p : List AnsweredBeat) :
    sent (packets ++ [p]) = sent packets + if isWhole p then 1 else 0 := by
  rw [sent, List.countP_append, List.countP_singleton]
  rfl

theorem isWhole_concat (beats : List AnsweredBeat) (b : AnsweredBeat) :
    isWhole (beats ++ [b]) = b.flit.last := by
  rw [isWhole, List.getLast?_concat]
  rfl

theorem isWhole_eq_false (goesOn : ∀ b ∈ beats, b.flit.last = false) : isWhole beats = false := by
  rw [isWhole, Option.any_eq_false]
  exact fun b last => by simpa using goesOn b (List.mem_of_getLast? last)

/-- The packets are for the requests in their order, and the responses with them are for the writes
that were sent as a whole. -/
structure Serve (c : ValidParameters) (accepted : List MmioRequest)
    (packets : List (List AnsweredBeat)) : Prop where
  order : InOrder c accepted packets
  inside : sent packets ≤ accepted.length
  acknowledged : acknowledgements packets =
    ((accepted.take (sent packets)).filter (·.write)).map (·.response)

namespace Serve

theorem nil (c : ValidParameters) : Serve c [] [] where
  order before p after split := by simp at split
  inside := Nat.le_refl 0
  acknowledged := rfl

theorem accept (serve : Serve c accepted packets) (r : MmioRequest) :
    Serve c (accepted ++ [r]) packets where
  order before p after split := by
    obtain ⟨r', taken, sends⟩ := serve.order before p after split
    exact ⟨r', getElem?_concat_eq_some_iff.2 (.inl taken), sends⟩
  inside := serve.inside.trans (by simp)
  acknowledged := by rw [List.take_append_of_le_length serve.inside, serve.acknowledged]

/-- The next packet is for the first of the requests that were not sent as a whole. -/
theorem concat (serve : Serve c accepted packets) (next : accepted[sent packets]? = some r)
    (sends : r.Sends c beats) : Serve c accepted (packets ++ [beats]) where
  order before p after split := by
    -- The packet is the new one, or one of those before it.
    rcases List.eq_nil_or_concat' after with rfl | ⟨after, last, rfl⟩
    · obtain ⟨rfl, same⟩ := List.append_inj' split rfl
      rw [← List.singleton_inj.1 same]
      exact ⟨r, next, sends⟩
    · rw [← List.cons_append, ← List.append_assoc] at split
      obtain ⟨earlier, -⟩ := List.append_inj' split rfl
      exact serve.order before p after earlier
  inside := by
    have inside : sent packets < accepted.length := (List.getElem?_eq_some_iff.1 next).1
    rw [sent_concat]
    split <;> omega
  acknowledged := by
    have responses : acknowledgements (packets ++ [beats]) =
        acknowledgements packets ++ beats.flatMap (·.responses) := by
      simp [acknowledgements]
    rw [responses, serve.acknowledged, sends.acknowledgement, sent_concat]
    cases isWhole beats with
    | false => simp
    | true =>
      rw [if_pos rfl, List.take_add_one, next, List.filter_append, List.map_append]
      cases write : r.write <;> simp [write]

end Serve

end MmioLog

/-! ## The packet in progress -/

namespace Engine

/-- The stream to the device stands where its beats so far say. -/
inductive Streaming (e : Engine) : OnStream → Prop where
  | nothing (toDevice : e.toDevice = .start) : Streaming e .nothing
  | completion {left : Nat} (toDevice : e.toDevice = .completion left) : Streaming e .completion
  | mmio {r : MmioRequest} {left : Nat} {beats : List AnsweredBeat}
    (toDevice : e.toDevice = .mmio left) (first : e.mmioQueue.head? = some r)
    (sends : r.Sends e.config beats) (goesOn : ∀ b ∈ beats, b.flit.last = false)
    (place : HeaderWords.count + (Source.mmio r).payload.length =
      e.config.dwordWidth * beats.length + left) : Streaming e (.mmio beats)

variable {e e' : Engine} {on : OnStream}

theorem Undisturbed.streaming (same : e.Undisturbed e') (streaming : e.Streaming on) :
    e'.Streaming on := by
  cases streaming with
  | nothing toDevice => exact .nothing (same.toDevice.trans toDevice)
  | completion toDevice => exact .completion (same.toDevice.trans toDevice)
  | mmio toDevice first sends goesOn place =>
    rw [← same.config] at sends place
    exact .mmio (same.toDevice.trans toDevice) (same.heads (.mmio _) first) sends goesOn place

theorem Streaming.eq_nothing (streaming : e.Streaming on) (between : e.toDevice = .start) :
    on = .nothing := by
  cases streaming with
  | nothing => rfl
  | completion toDevice => cases between.symm.trans toDevice
  | mmio toDevice => cases between.symm.trans toDevice

/-- Where the stream stands after a beat of an MMIO packet. -/
theorem streaming_afterBeat {r : MmioRequest} {beats : List AnsweredBeat} {b : AnsweredBeat}
    {start left : Nat} (first : e.mmioQueue.head? = some r)
    (sends : r.Sends e.config (beats ++ [b]))
    (goesOn : ∀ b ∈ beats, b.flit.last = false)
    (last : b.flit.last = decide (left ≤ e.config.dwordWidth - start))
    (inside : start ≤ e.config.dwordWidth)
    (place : HeaderWords.count + (Source.mmio r).payload.length =
      e.config.dwordWidth * beats.length + start + left) :
    (e.afterBeat (.mmio r) start left).Streaming
      (if b.flit.last then .nothing else .mmio (beats ++ [b])) := by
  unfold afterBeat
  rw [← last]
  cases ends : b.flit.last with
  | true => exact .nothing (toDevice_advance ..)
  | false =>
    have more : ¬ left ≤ e.config.dwordWidth - start := of_decide_eq_false (last.symm.trans ends)
    have all : ∀ b' ∈ beats ++ [b], b'.flit.last = false := by
      intro b' member
      rcases List.mem_append.1 member with old | new
      · exact goesOn b' old
      · rw [List.mem_singleton.1 new, ends]
    refine .mmio (toDevice_advance ..) first sends all ?_
    change _ = e.config.dwordWidth * _ + _
    rw [List.length_append, List.length_singleton, Nat.mul_succ]
    omega

theorem mmioQueue_afterBeat (e : Engine) (r : MmioRequest) (start left : Nat) :
    (e.afterBeat (.mmio r) start left).mmioQueue =
      if decide (left ≤ e.config.dwordWidth - start) then e.mmioQueue.tail else e.mmioQueue := by
  unfold afterBeat advance
  split <;> rfl

theorem mmioQueue_afterBeat_completion (e : Engine) (c : CompletionPacket) (start left : Nat) :
    (e.afterBeat (.completion c) start left).mmioQueue = e.mmioQueue := by
  unfold afterBeat advance
  split <;> rfl

/-- What happens to the queue tells which response comes with a beat. -/
theorem Acknowledges.responses {s : EngineStep (Option Flit)} (acknowledges : e.Acknowledges s)
    {r : MmioRequest} {ends : Bool} (first : e.mmioQueue.head? = some r)
    (queue : s.state.mmioQueue = if ends then e.mmioQueue.tail else e.mmioQueue) :
    mmioResponses s.events = if ends && r.write then [r.response] else [] := by
  obtain ⟨rest, waiting⟩ := List.head?_eq_some_iff.1 first
  have shorter : e.mmioQueue.tail ≠ e.mmioQueue := by simp [waiting]
  cases acknowledges with
  | quiet same silent =>
    cases ends with
    | true => exact absurd (queue.symm.trans same) shorter
    | false => exact silent
  | ends r' first' tail responses =>
    cases ends with
    | false => exact absurd (tail.symm.trans queue) shorter
    | true =>
      rw [← Option.some.inj (first.symm.trans first')] at responses
      exact responses

theorem Acknowledges.silent {s : EngineStep (Option Flit)} (acknowledges : e.Acknowledges s)
    (queue : s.state.mmioQueue = e.mmioQueue) : mmioResponses s.events = [] := by
  cases acknowledges with
  | quiet _ silent => exact silent
  | ends r first tail _ =>
    obtain ⟨rest, waiting⟩ := List.head?_eq_some_iff.1 first
    rw [tail, waiting] at queue
    simp at queue

end Engine

/-! ## What the calls are seen to do -/

namespace MmioLog

theorem observe_silent (l : MmioLog) {s : EngineStep (Option Flit)}
    (none_ : ∀ f, s.answer ≠ .ok (some f)) (silent : mmioResponses s.events = []) :
    l.observe s = { l with engine := s.state } := by
  unfold observe
  split
  · next f sent => exact absurd sent (none_ f)
  · simp only [silent, List.append_nil]

/-- A beat of the device has nothing to do with the packets to it. -/
theorem accept_eq (l : MmioLog) (cycle : Nat) (flit : Flit) : ∃ occupant answers incoming,
    l.accept cycle flit = { l with
      engine := (l.engine.accept cycle flit).state
      occupant := occupant
      answers := answers
      incoming := incoming } := by
  have answered (beats : List Flit) (responses : List MmioResponse) (l : MmioLog) :
      ∃ occupant answers, responses.foldl (fun l r => l.answer beats r) l =
        { l with occupant := occupant, answers := answers } := by
    induction responses generalizing l with
    | nil => exact ⟨_, _, rfl⟩
    | cons r rest ih => exact ih (l.answer beats r)
  obtain ⟨occupant, answers, seen⟩ := answered (l.incoming ++ [flit])
    (mmioResponses (l.engine.accept cycle flit).events)
    { l with engine := (l.engine.accept cycle flit).state }
  unfold accept
  simp only [seen]
  split
  · exact ⟨_, _, _, rfl⟩
  · exact ⟨_, _, _, rfl⟩

/-- A request is refused, or it waits behind the others. -/
theorem request_cases (l : MmioLog) (r : MmioRequest) :
    (∃ halted, l.request r = { l with engine := { l.engine with halted := halted } } ∧
      (l.engine.halted → halted)) ∨
    l.engine.requestFault? r = none ∧ l.request r = { l with
      engine := (l.engine.request r).state
      accepted := l.accepted ++ [r]
      occupant := if r.write then l.occupant
        else Function.update l.occupant r.slot.toNat (some l.accepted.length)
      overwritten := if !r.write && (l.occupant r.slot.toNat).isSome then
        l.overwritten ++ [r.slot.toNat] else l.overwritten } ∧
      (l.engine.request r).state = { l.engine with
        mmioReads := if r.write then l.engine.mmioReads
          else l.engine.mmioReads.setIfInBounds r.slot.toNat (some ⟨l.engine.cycle, r.tid⟩)
        mmioQueue := l.engine.mmioQueue ++ [r] } := by
  unfold request Engine.request
  by_cases halted : l.engine.halted
  · left
    simp only [halted, if_true]
    exact ⟨true, by simp [← halted], fun _ => rfl⟩
  · simp only [halted]
    cases kept : l.engine.requestFault? r with
    | some v => exact .inl ⟨true, by simp [Engine.halt, mmioResponses], fun _ => rfl⟩
    | none =>
      right
      refine ⟨rfl, ?_, rfl⟩
      cases write : r.write <;> simp [EngineStep.ok]

/-! ## What is seen of the packets -/

/-- What was seen of the packets to the device, next to the requests that still wait. -/
structure Delivers (l : MmioLog) (c : ValidParameters) : Prop where
  config : l.engine.config = c
  attached : l.engine.mmioAttached
  orderly : l.engine.Orderly
  legal : ∀ r ∈ l.accepted, r.Legal
  queue : l.engine.mmioQueue = l.accepted.drop (sent l.packets)
  serve : Serve c l.accepted l.packets
  streaming : l.engine.Streaming l.onStream
  stray : l.stray = []

namespace Delivers

variable {l : MmioLog} {c : ValidParameters}

theorem start (config : ValidParameters) (options : Switches) (random : DrawSource) :
    (MmioLog.start config options random).Delivers config where
  config := rfl
  attached := rfl
  orderly := .create config options random
  legal := List.forall_mem_nil _
  queue := rfl
  serve := .nil config
  streaming := .nothing rfl
  stray := rfl

theorem next (delivers : l.Delivers c) {r : MmioRequest}
    (first : l.engine.mmioQueue.head? = some r) : l.accepted[sent l.packets]? = some r := by
  rw [← List.head?_drop, ← delivers.queue, first]

theorem begun (delivers : l.Delivers c) :
    Serve c l.accepted l.begun ∧ sent l.begun = sent l.packets := by
  unfold MmioLog.begun
  cases on : l.onStream with
  | nothing => exact ⟨delivers.serve, rfl⟩
  | completion => exact ⟨delivers.serve, rfl⟩
  | mmio beats =>
    have streaming := delivers.streaming
    rw [on] at streaming
    cases streaming with
    | mmio toDevice first sends goesOn place =>
      rw [delivers.config] at sends
      refine ⟨delivers.serve.concat (delivers.next first) sends, ?_⟩
      rw [sent_concat, isWhole_eq_false goesOn]
      rfl

theorem undisturbed (delivers : l.Delivers c) {e : Engine} (same : l.engine.Undisturbed e)
    (orderly : e.Orderly) (queue : e.mmioQueue = l.engine.mmioQueue)
    (attached : e.mmioAttached = l.engine.mmioAttached) :
    Delivers { l with engine := e } c where
  config := same.config.trans delivers.config
  attached := attached.trans delivers.attached
  orderly := orderly
  legal := delivers.legal
  queue := queue.trans delivers.queue
  serve := delivers.serve
  streaming := same.streaming delivers.streaming
  stray := delivers.stray

/-! ### Beats to the device -/

section Observe

variable {e : Engine} {b : AnsweredBeat} {r : MmioRequest} {beats : List AnsweredBeat}
  {start left : Nat} {src : Source} {flit : Flit} {answer : Except EngineFault (Option Flit)}
  {effects : List Effect}

/-- A beat of an MMIO packet. -/
theorem mmioBeat (delivers : l.Delivers c) (orderly : e.Orderly) (attached : e.mmioAttached)
    (state : (l.engine.afterBeat (.mmio r) start left).SameStream e)
    (first : l.engine.mmioQueue.head? = some r) (sends : r.Sends c (beats ++ [b]))
    (goesOn : ∀ b ∈ beats, b.flit.last = false)
    (last : b.flit.last = decide (left ≤ c.dwordWidth - start)) (inside : start ≤ c.dwordWidth)
    (place : HeaderWords.count + (Source.mmio r).payload.length =
      c.dwordWidth * beats.length + start + left) :
    (MmioLog.mmioBeat { l with engine := e } beats b).Delivers c := by
  obtain rfl : l.engine.config = c := delivers.config
  have config : e.config = l.engine.config := state.config.trans (Engine.config_advance ..)
  have streaming := (Engine.Undisturbed.of_same state).streaming
    (Engine.streaming_afterBeat first sends goesOn last inside place)
  have queue := state.mmioQueue.trans (l.engine.mmioQueue_afterBeat r start left)
  rw [← last] at queue
  have whole := isWhole_concat beats b
  unfold MmioLog.mmioBeat
  cases ends : b.flit.last with
  | false =>
    rw [ends] at streaming queue
    exact ⟨config, attached, orderly, delivers.legal, queue.trans delivers.queue, delivers.serve,
      streaming, delivers.stray⟩
  | true =>
    rw [ends] at streaming queue whole
    rw [if_pos rfl, delivers.queue, List.tail_drop] at queue
    refine ⟨config, attached, orderly, delivers.legal, ?_,
      delivers.serve.concat (delivers.next first) sends, streaming, delivers.stray⟩
    change e.mmioQueue = l.accepted.drop (sent (l.packets ++ [beats ++ [b]]))
    rw [sent_concat, whole]
    exact queue

/-- A beat of a completion. -/
theorem completionBeat (delivers : l.Delivers c) (orderly : e.Orderly) (attached : e.mmioAttached)
    {p : CompletionPacket} (state : (l.engine.afterBeat (.completion p) start left).SameStream e)
    (last : b.flit.last = decide (left ≤ c.dwordWidth - start)) (silent : b.responses = []) :
    (MmioLog.completionBeat { l with engine := e } b).Delivers c := by
  obtain rfl : l.engine.config = c := delivers.config
  refine ⟨state.config.trans (Engine.config_advance ..), attached, orderly, delivers.legal, ?_,
    delivers.serve, ?_, ?_⟩
  · exact (state.mmioQueue.trans (l.engine.mmioQueue_afterBeat_completion p start left)).trans
      delivers.queue
  · have toDevice := state.toDevice.trans (Engine.toDevice_advance ..)
    rw [← last] at toDevice
    change e.Streaming (if b.flit.last then .nothing else .completion)
    cases ends : b.flit.last with
    | true =>
      rw [ends] at toDevice
      exact .nothing toDevice
    | false =>
      rw [ends] at toDevice
      exact .completion toDevice
  · change l.stray ++ b.responses = []
    rw [delivers.stray, silent]
    rfl

/-- The first beat of a packet. Its header tells from which queue the packet comes. -/
theorem starts (delivers : l.Delivers c) (orderly : e.Orderly) (attached : e.mmioAttached)
    {h : Header} (between : l.engine.toDevice = .start) (first : src.IsFirst l.engine)
    (header : src.HasHeader l.engine.params h)
    (stored : l.engine.blankFlit.storeHeader h = .ok flit)
    (state : (l.engine.afterBeat src HeaderWords.count src.payload.length).SameStream e)
    (acknowledges : l.engine.Acknowledges ⟨answer, e, effects⟩) :
    (MmioLog.receive { l with engine := e }
      ⟨flit.fill l.engine.config.dwordWidth HeaderWords.count src.payload src.payload.length,
        mmioResponses effects⟩).Delivers c := by
  obtain rfl : l.engine.config = c := delivers.config
  have announced := Source.announces_of_hasHeader (delivers.orderly.stocked.of_isFirst first) header
  have known : h.fmtType.kind?.isSome := by
    rcases announced.kind with ⟨kind, -⟩ | ⟨kind | kind, -⟩ <;> rw [kind] <;> rfl
  have beat := Engine.isBeat_first src.payload known stored
  unfold MmioLog.receive
  simp only [delivers.streaming.eq_nothing between]
  unfold startsCompletion
  simp only [beat.header rfl]
  cases src with
  | mmio r =>
    obtain rfl : h = r.header l.engine.config.params := header
    rw [Engine.isCompletion_mmioHeader, if_neg Bool.false_ne_true]
    have responses := acknowledges.responses first
      (state.mmioQueue.trans (l.engine.mmioQueue_afterBeat r _ _))
    exact delivers.mmioBeat orderly attached state first (.first beat responses)
      (List.forall_mem_nil _) rfl l.engine.config.wide_dwordWidth rfl
  | completion p =>
    obtain ⟨request, rfl⟩ := header
    rw [if_pos (p.isCompletion_header request)]
    exact delivers.completionBeat orderly attached state rfl (acknowledges.silent
      (state.mmioQueue.trans (l.engine.mmioQueue_afterBeat_completion p _ _)))

/-- A later beat of a packet, of which the beats before it are known. -/
theorem continues (delivers : l.Delivers c) (orderly : e.Orderly) (attached : e.mmioAttached)
    (inside : l.engine.toDevice = src.inside left) (first : src.IsFirst l.engine)
    (state : (l.engine.afterBeat src 0 left).SameStream e)
    (acknowledges : l.engine.Acknowledges ⟨answer, e, effects⟩) :
    (MmioLog.receive { l with engine := e }
      ⟨l.engine.blankFlit.fill l.engine.config.dwordWidth 0 src.payload left,
        mmioResponses effects⟩).Delivers c := by
  obtain rfl : l.engine.config = c := delivers.config
  have streaming := delivers.streaming
  unfold MmioLog.receive
  simp only
  cases on : l.onStream with
  | nothing =>
    rw [on] at streaming
    cases streaming with
    | nothing toDevice =>
      rw [inside] at toDevice
      cases src <;> cases toDevice
  | completion =>
    rw [on] at streaming
    cases streaming with
    | completion toDevice =>
      cases src with
      | mmio r => cases inside.symm.trans toDevice
      | completion p =>
        exact delivers.completionBeat orderly attached state rfl (acknowledges.silent
          (state.mmioQueue.trans (l.engine.mmioQueue_afterBeat_completion p _ _)))
  | mmio beats =>
    rw [on] at streaming
    cases streaming with
    | @mmio r left' _ toDevice first' sends goesOn place =>
      have same : src.inside left = (Source.mmio r).inside left' := inside.symm.trans toDevice
      obtain ⟨rfl, rfl⟩ := Source.eq_of_inside same first first'
      have later := List.length_pos_of_ne_nil sends.nonempty
      have beat := Engine.isBeat_later (h := r.header l.engine.config.params) later place
      have responses := acknowledges.responses first
        (state.mmioQueue.trans (l.engine.mmioQueue_afterBeat r _ _))
      exact delivers.mmioBeat orderly attached state first (sends.snoc goesOn beat responses)
        goesOn rfl (Nat.zero_le _) place

theorem observe (delivers : l.Delivers c) {s : EngineStep (Option Flit)}
    (streams : l.engine.Streams s) (acknowledges : l.engine.Acknowledges s)
    (orderly : s.state.Orderly) (attached : s.state.mmioAttached = l.engine.mmioAttached) :
    (l.observe s).Delivers c := by
  have still : s.state.mmioAttached := attached.trans delivers.attached
  cases streams with
  | silent none_ same =>
    rw [l.observe_silent none_ (acknowledges.silent same.mmioQueue)]
    exact delivers.undisturbed (.of_same same) orderly same.mmioQueue attached
  | starts src h flit between first header stored state =>
    exact delivers.starts orderly still between first header stored state acknowledges
  | continues src left inside first state =>
    exact delivers.continues orderly still inside first state acknowledges

end Observe

/-! ### The calls -/

theorem observe_silent {s : EngineStep (Option Flit)}
    (kept : Delivers { l with engine := s.state } c) (none_ : ∀ f, s.answer ≠ .ok (some f))
    (silent : mmioResponses s.events = []) : (l.observe s).Delivers c := by
  rw [l.observe_silent none_ silent]
  exact kept

theorem emit (delivers : l.Delivers c) (cycle : Nat) (ready : Bool) :
    (l.observe (l.engine.emit cycle ready)).Delivers c := by
  have only := l.engine.onlyCollected_collect cycle
  have silent := l.engine.mmioResponses_collect cycle
  have collected : Delivers { l with engine := (l.engine.collect cycle).state } c :=
    delivers.undisturbed (l.engine.undisturbed_collect cycle) (delivers.orderly.collect cycle)
      only.mmioQueue (by rw [only])
  rw [Engine.emit_eq]
  by_cases halted : l.engine.halted
  · rw [if_pos halted]
    exact .observe_silent delivers (fun f sent => nomatch sent) rfl
  · rw [if_neg halted]
    unfold EngineStep.andThen
    cases (l.engine.collect cycle).answer with
    | error fault => exact .observe_silent collected (fun f sent => nomatch sent) silent
    | ok u =>
      cases ready with
      | false =>
        refine .observe_silent collected (fun f sent => nomatch sent) ?_
        simpa [EngineStep.after, EngineStep.ok] using silent
      | true =>
        have streams := Engine.sendBeat_streams _ collected.orderly.stocked collected.orderly.place
        have acknowledges := Engine.sendBeat_acknowledges collected.attached
        have only := Engine.onlySent_sendBeat (l.engine.collect cycle).state
        exact collected.observe (streams.after _) (acknowledges.after silent)
          (collected.orderly.streams (streams.after _) only.keepsSlots) only.mmioAttached

theorem accept (delivers : l.Delivers c) (cycle : Nat) (flit : Flit) :
    (l.accept cycle flit).Delivers c := by
  have accepts := l.engine.accept_accepts cycle flit
  have kept : (l.engine.accept cycle flit).state.mmioQueue = l.engine.mmioQueue ∧
      (l.engine.accept cycle flit).state.mmioAttached = l.engine.mmioAttached := by
    cases accepts with
    | quiet state =>
      rw [state]
      exact ⟨rfl, rfl⟩
    | write w sent state =>
      rw [state]
      exact ⟨rfl, rfl⟩
    | read r slot slots stored body completable pool sent state =>
      rw [state]
      exact ⟨rfl, rfl⟩
  have taken := delivers.undisturbed accepts.undisturbed
    (delivers.orderly.perform (.accept cycle flit)) kept.1 kept.2
  obtain ⟨occupant, answers, incoming, seen⟩ := l.accept_eq cycle flit
  rw [seen]
  exact ⟨taken.config, taken.attached, taken.orderly, taken.legal, taken.queue, taken.serve,
    taken.streaming, taken.stray⟩

theorem request (delivers : l.Delivers c) (r : MmioRequest) : (l.request r).Delivers c := by
  have same := l.engine.undisturbed_request r
  have orderly := delivers.orderly.perform (.request r)
  rcases l.request_cases r with ⟨halted, seen, -⟩ | ⟨kept, seen, state⟩
  · rw [seen]
    refine delivers.undisturbed (.of_same ⟨rfl, rfl, rfl, rfl, fun _ => rfl⟩) ?_ rfl rfl
    exact delivers.orderly.undisturbed (.of_same ⟨rfl, rfl, rfl, rfl, fun _ => rfl⟩)
      (.of_eq rfl rfl rfl rfl)
  · rw [seen]
    refine ⟨same.config.trans delivers.config, ?_, orderly, ?_, ?_, delivers.serve.accept r,
      same.streaming delivers.streaming, delivers.stray⟩
    · rw [state]
      exact delivers.attached
    · intro r' member
      rcases List.mem_append.1 member with old | new
      · exact delivers.legal r' old
      · rw [List.mem_singleton.1 new]
        exact Engine.legal_of_requestFault? kept
    · change (l.engine.request r).state.mmioQueue = (l.accepted ++ [r]).drop (sent l.packets)
      rw [state, List.drop_append_of_le_length delivers.serve.inside, ← delivers.queue]

theorem reset (delivers : l.Delivers c) : l.reset.Delivers c := by
  obtain ⟨serve, same⟩ := delivers.begun
  refine ⟨delivers.config, delivers.attached, delivers.orderly.perform .reset, delivers.legal, ?_,
    serve, .nothing rfl, delivers.stray⟩
  change l.engine.mmioQueue = l.accepted.drop (sent l.begun)
  rw [same, delivers.queue]

/-- What a call preserves. -/
theorem step (delivers : l.Delivers c) (call : Engine.Call) : (l.step call).Delivers c := by
  cases call with
  | accept cycle flit => exact delivers.accept cycle flit
  | ready =>
    have kept : l.engine.ready.2.mmioQueue = l.engine.mmioQueue ∧
        l.engine.ready.2.mmioAttached = l.engine.mmioAttached := by
      unfold Engine.ready
      split <;> exact ⟨rfl, rfl⟩
    exact delivers.undisturbed l.engine.undisturbed_ready (delivers.orderly.perform .ready) kept.1
      kept.2
  | request r => exact delivers.request r
  | emit cycle ready => exact delivers.emit cycle ready
  | reset => exact delivers.reset
  | serve link =>
    exact delivers.undisturbed (.of_same ⟨rfl, rfl, rfl, rfl, fun _ => rfl⟩)
      (delivers.orderly.perform (.serve link)) rfl rfl

end Delivers

end MmioLog

end TlpBridge
