import TlpBridge.Proofs.FromDevice.DmaPackets
import TlpBridge.Proofs.Engine.OrderlyRuns

/-!
# Beats and MMIO responses

Two things are answered to the host: a write with the beat that takes it from its queue, and a read
with the last beat of the completion that the device sends for it. Nothing else is answered by any
call, and a slot becomes idle only with the answer.
-/
namespace TlpBridge

/-- The MMIO responses among what a call does. -/
def mmioResponses (effects : List Effect) : List MmioResponse :=
  effects.filterMap fun
    | .respond r => some r
    | _ => none

@[simp] theorem mmioResponses_nil : mmioResponses [] = [] := rfl

@[simp] theorem mmioResponses_append (effects more : List Effect) :
    mmioResponses (effects ++ more) = mmioResponses effects ++ mmioResponses more :=
  List.filterMap_append

namespace Engine

theorem mmioResponses_deliver {e : Engine} (attached : e.mmioAttached) (r : MmioResponse) :
    mmioResponses (e.deliver r) = [r] := by
  rw [deliver, if_pos attached]
  rfl

/-! ## Taking answers -/

theorem mmioResponses_collectWrites (n : Nat) (e : Engine) :
    mmioResponses (collectWrites n e).events = [] := by
  induction n generalizing e with
  | zero => rfl
  | succ n ih =>
    unfold collectWrites
    rcases e.link.receiveWrite with ⟨_ | _ | _, link⟩
    · simp only
      split
      · exact ih _
      · rfl
    · rfl
    · rfl

theorem mmioResponses_receiveRead (e : Engine) (a : ReadResponse) :
    mmioResponses (e.receiveRead a).events = [] := by
  have queued (h : Header) : mmioResponses (e.queueRead a.tag.toNat h a.data).events = [] := by
    unfold queueRead
    simp only
    generalize (if h.isFence (h.request?.getD {}) then 0 else h.byteSize.toNat) = expected
    split
    · rfl
    · split
      · rfl
      · rfl
  unfold receiveRead
  simp only
  split
  · rfl
  · split
    · exact queued _
    · rfl

theorem mmioResponses_collectReads (n : Nat) (e : Engine) :
    mmioResponses (collectReads n e).events = [] := by
  induction n generalizing e with
  | zero => rfl
  | succ n ih =>
    unfold collectReads
    rcases e.link.receiveRead with ⟨a | _ | _, link⟩
    · have received := mmioResponses_receiveRead
        { e with link := link, pendingReads := e.pendingReads - 1 } a
      simp only [EngineStep.andThen]
      split
      · exact received
      · simp only [EngineStep.after, mmioResponses_append, received, ih, List.append_nil]
    · rfl
    · rfl

theorem mmioResponses_collect (e : Engine) (cycle : Nat) :
    mmioResponses (e.collect cycle).events = [] := by
  have written := mmioResponses_collectWrites e.pendingWrites { e with cycle := cycle }
  unfold collect EngineStep.andThen
  split
  · exact written
  · simp only [EngineStep.after, mmioResponses_append, written, mmioResponses_collectReads,
      List.append_nil]

/-! ## Beats to the device -/

/-- What sending has to do with MMIO: the queue stays and nothing is answered, or the request at its
head leaves it, and with that a write is acknowledged. -/
inductive Acknowledges (e : Engine) (s : EngineStep (Option Flit)) : Prop where
  | quiet (queue : s.state.mmioQueue = e.mmioQueue) (silent : mmioResponses s.events = [])
  | ends (r : MmioRequest) (first : e.mmioQueue.head? = some r)
    (queue : s.state.mmioQueue = e.mmioQueue.tail)
    (responses : mmioResponses s.events = if r.write then [r.response] else [])

variable {e : Engine}

theorem Acknowledges.after {s : EngineStep (Option Flit)} (acknowledges : e.Acknowledges s)
    {effects : List Effect} (silent : mmioResponses effects = []) :
    e.Acknowledges (s.after effects) := by
  cases acknowledges with
  | quiet queue silent' => exact .quiet queue (by simp [EngineStep.after, silent, silent'])
  | ends r first queue responses =>
    exact .ends r first queue (by simp [EngineStep.after, silent, responses])

theorem startCompletion_quiet (e : Engine) (c : CompletionPacket) :
    (e.startCompletion c).state.mmioQueue = e.mmioQueue ∧
      mmioResponses (e.startCompletion c).events = [] := by
  obtain ⟨stalled, random, drawn⟩ := e.drawStall_eq
  unfold startCompletion
  simp only [drawn]
  split
  · exact ⟨rfl, rfl⟩
  · split
    · exact ⟨rfl, rfl⟩
    · split
      · exact ⟨rfl, rfl⟩
      · generalize released : (if c.isLast = true then
          { e with random := random, slots := e.slots.release c.slot }
          else { e with random := random }) = e₁
        have queue : e₁.mmioQueue = e.mmioQueue := by
          rw [← released]
          split
          · rfl
          · rfl
        rw [← queue]
        unfold withHeader
        split
        · exact ⟨rfl, rfl⟩
        · unfold completionBeat
          simp only [EngineStep.ok]
          split
          · exact ⟨rfl, rfl⟩
          · exact ⟨rfl, rfl⟩

theorem continueCompletion_quiet (e : Engine) (left : Nat) :
    (e.continueCompletion left).state.mmioQueue = e.mmioQueue ∧
      mmioResponses (e.continueCompletion left).events = [] := by
  obtain ⟨stalled, random, drawn⟩ := e.drawStall_eq
  unfold continueCompletion
  simp only [drawn]
  split
  · exact ⟨rfl, rfl⟩
  · split
    · exact ⟨rfl, rfl⟩
    · unfold completionBeat
      simp only [EngineStep.ok]
      split
      · exact ⟨rfl, rfl⟩
      · exact ⟨rfl, rfl⟩

theorem elseCompletion_quiet (flit : Option Flit) (e : Engine) :
    (elseCompletion flit e).state.mmioQueue = e.mmioQueue ∧
      mmioResponses (elseCompletion flit e).events = [] := by
  unfold elseCompletion
  split
  · exact startCompletion_quiet ..
  · exact ⟨rfl, rfl⟩

theorem mmioBeat_acknowledges (attached : e.mmioAttached) {r : MmioRequest}
    (first : e.mmioQueue.head? = some r) (header : Option Header) (flit : Flit)
    (start left : Nat) : e.Acknowledges (e.mmioBeat r header flit start left) := by
  unfold mmioBeat
  simp only [EngineStep.ok]
  generalize (if r.write then left - min left (e.config.dwordWidth - start) else 0) = rest
  by_cases last : rest == 0
  · refine .ends r first (by simp only [last, if_true]) ?_
    cases write : r.write with
    | true => simp [last, deliver, attached, mmioResponses]
    | false => simp [last, mmioResponses]
  · exact .quiet (by simp only [last]; rfl) (by simp [last, mmioResponses])

theorem startMmio_acknowledges (attached : e.mmioAttached) {r : MmioRequest}
    (first : e.mmioQueue.head? = some r) : e.Acknowledges (e.startMmio r) := by
  obtain ⟨stalled, random, drawn⟩ := e.drawStall_eq
  unfold startMmio
  simp only [drawn]
  split
  · exact .quiet rfl rfl
  · split
    · exact .quiet rfl rfl
    · unfold withHeader
      split
      · exact .quiet rfl rfl
      · next flit _ =>
        have beat := mmioBeat_acknowledges
          (e := { e with random := random, lastMmioCycle := some e.cycle }) attached first
          (some (r.header e.params)) flit HeaderWords.count (r.byteSize / 4)
        cases beat with
        | quiet queue silent => exact .quiet queue silent
        | ends r first queue responses => exact .ends r first queue responses

/-- A completion that goes instead has nothing to do with MMIO. -/
theorem Acknowledges.elseCompletion {s : EngineStep (Option Flit)}
    (acknowledges : e.Acknowledges s) : e.Acknowledges (s.andThen Engine.elseCompletion) := by
  unfold EngineStep.andThen
  split
  · cases acknowledges with
    | quiet queue silent => exact .quiet queue silent
    | ends r first queue responses => exact .ends r first queue responses
  · next flit _ =>
    obtain ⟨same, silent⟩ := elseCompletion_quiet flit s.state
    cases acknowledges with
    | quiet queue silent' =>
      exact .quiet (same.trans queue) (by simp [EngineStep.after, silent, silent'])
    | ends r first queue responses =>
      exact .ends r first (same.trans queue) (by simp [EngineStep.after, silent, responses])

theorem startPacket_acknowledges (attached : e.mmioAttached) : e.Acknowledges e.startPacket := by
  unfold startPacket
  apply Acknowledges.elseCompletion
  split
  · exact .quiet rfl rfl
  · next r rest queue => exact startMmio_acknowledges attached (by rw [queue]; rfl)

theorem sendBeat_acknowledges (attached : e.mmioAttached) : e.Acknowledges e.sendBeat := by
  unfold sendBeat
  split
  · exact startPacket_acknowledges attached
  · obtain ⟨queue, silent⟩ := e.continueCompletion_quiet _
    exact .quiet queue silent
  · unfold continueMmio
    split
    · exact .quiet rfl rfl
    · next r rest queue => exact mmioBeat_acknowledges attached (by rw [queue]; rfl) ..

/-! ## Beats of the device -/

/-- A beat of a completion, given the packet before it and the DWORD at which its payload starts:
the first beat, with a header that breaks no rule, or one that goes on with an open packet. -/
inductive ReplyBeat (e : Engine) (flit : Flit) : OpenPacket → Nat → Prop where
  | first {h : Header} {c : CompletionBody} (between : e.fromDevice = .start)
    (header : flit.header = .ok h) (body : h.body = .completion c)
    (rules : e.completionFault? h c = none) : ReplyBeat e flit ⟨h, []⟩ HeaderWords.count
  | later {p : OpenPacket} (inside : e.fromDevice = .completion p) : ReplyBeat e flit p 0

/-- What a beat of the device has to do with MMIO. -/
inductive Replies (e : Engine) (flit : Flit) (s : EngineStep Unit) : Prop where
  | refused (answer : ∃ fault, s.answer = .error fault) (silent : mmioResponses s.events = [])
    (mmioReads : s.state.mmioReads = e.mmioReads)
    (after : e.halted ∧ s.state = e ∨ s.state.fromDevice = .start)
  /-- A beat of another packet. -/
  | other (answer : s.answer = .ok ()) (silent : mmioResponses s.events = [])
    (mmioReads : s.state.mmioReads = e.mmioReads)
    (after : if flit.last then s.state.fromDevice = .start
      else ∃ p, s.state.fromDevice = .write p)
  /-- More beats of the completion are to come. -/
  | open_ {p p' : OpenPacket} {start : Nat} (beat : e.ReplyBeat flit p start)
    (extended : p.extend flit start (p.header.byteSize.toNat / 4) .mmioCompletion = .ok p')
    (more : ¬ flit.last) (answer : s.answer = .ok ()) (silent : mmioResponses s.events = [])
    (mmioReads : s.state.mmioReads = e.mmioReads)
    (after : s.state.fromDevice = .completion p')
  /-- The completion is whole: its slot becomes idle, and the read in it is answered. -/
  | reply {p p' : OpenPacket} {start : Nat} (beat : e.ReplyBeat flit p start)
    (extended : p.extend flit start (p.header.byteSize.toNat / 4) .mmioCompletion = .ok p')
    (last : flit.last) (answer : s.answer = .ok ())
    (responses : mmioResponses s.events =
      [mmioReadResponse ((e.mmioReads[p.header.tag.toNat]?).join.getD default).tid p.header
        (p.header.completion?.getD {}) p'.payload])
    (mmioReads : s.state.mmioReads = e.mmioReads.setIfInBounds p.header.tag.toNat none)
    (after : s.state.fromDevice = .start)

variable {flit : Flit} {cycle : Nat}

theorem Replies.after {s : EngineStep Unit} (replies : e.Replies flit s) {effects : List Effect}
    (silent : mmioResponses effects = []) : e.Replies flit (s.after effects) := by
  have same : mmioResponses (s.after effects).events = mmioResponses s.events := by
    simp [EngineStep.after, silent]
  cases replies with
  | refused answer none_ mmioReads after =>
    exact .refused answer (same.trans none_) mmioReads after
  | other answer none_ mmioReads after => exact .other answer (same.trans none_) mmioReads after
  | open_ beat extended more answer none_ mmioReads after =>
    exact .open_ beat extended more answer (same.trans none_) mmioReads after
  | reply beat extended last answer responses mmioReads after =>
    exact .reply beat extended last answer (same.trans responses) mmioReads after

theorem replies_haltOn (h : Option Header) (v : Violation) :
    e.Replies flit ((e.idleAt cycle).haltOn h flit v) :=
  .refused ⟨_, rfl⟩ rfl rfl (.inr rfl)

theorem replies_acceptInterrupt (h : Header) (vector : UInt16) :
    e.Replies flit ((e.idleAt cycle).acceptInterrupt h vector flit) := by
  unfold acceptInterrupt
  by_cases last : flit.last
  · rw [if_neg (not_not.2 last)]
    split
    · exact replies_haltOn ..
    · refine .other rfl ?_ rfl (by rw [if_pos last]; rfl)
      unfold raise
      simp only [EngineStep.ok]
      split
      · rfl
      · rfl
  · rw [if_pos last]
    exact replies_haltOn ..

theorem replies_acceptCompletionBeat (attached : e.mmioAttached) {p : OpenPacket} {start : Nat}
    (beat : e.ReplyBeat flit p start) :
    e.Replies flit ((e.idleAt cycle).acceptCompletionBeat p flit start) := by
  unfold acceptCompletionBeat
  cases extended : p.extend flit start (p.header.byteSize.toNat / 4) .mmioCompletion with
  | error v => exact replies_haltOn ..
  | ok p' =>
    have same := OpenPacket.header_extend extended
    by_cases last : flit.last
    · simp only [last, if_true]
      refine .reply beat extended last rfl ?_ ?_ rfl
      · rw [← same]
        exact mmioResponses_deliver (e := e.idleAt cycle) attached _
      · rw [← same]
        rfl
    · simp only [last]
      exact .open_ beat extended last rfl rfl rfl rfl

theorem replies_acceptCompletion (attached : e.mmioAttached) (between : e.fromDevice = .start)
    {h : Header} {c : CompletionBody} (header : flit.header = .ok h)
    (body : h.body = .completion c) :
    e.Replies flit ((e.idleAt cycle).acceptCompletion h c flit) := by
  unfold acceptCompletion
  split
  · exact replies_haltOn ..
  · cases rules : (e.idleAt cycle).completionFault? h c with
    | some v => exact replies_haltOn ..
    | none => exact replies_acceptCompletionBeat attached (.first between header body rules)

theorem replies_acceptWriteBeat (p : OpenPacket) (start : Nat) :
    e.Replies flit ((e.idleAt cycle).acceptWriteBeat p flit start) := by
  unfold acceptWriteBeat
  split
  · exact replies_haltOn ..
  · next p' _ =>
    by_cases last : flit.last
    · rw [if_pos last]
      unfold submitWrite
      simp only
      split
      · exact .refused ⟨_, rfl⟩ rfl rfl (.inr rfl)
      · exact .other rfl rfl rfl (by rw [if_pos last]; rfl)
    · rw [if_neg last]
      exact .other rfl rfl rfl (by rw [if_neg last]; exact ⟨p', rfl⟩)

theorem replies_acceptRead (h : Header) (r : RequestBody) :
    e.Replies flit ((e.idleAt cycle).acceptRead h r flit) := by
  unfold acceptRead
  cases extent : (e.idleAt cycle).params.readExtentFault? flit.last h r with
  | some v => exact replies_haltOn ..
  | none =>
    have last : flit.last := by
      by_contra more
      unfold Parameters.readExtentFault? at extent
      rw [if_pos more] at extent
      cases extent
    simp only
    split
    · exact replies_haltOn ..
    · split
      · exact replies_haltOn ..
      · unfold submitRead
        simp only
        split
        · exact .refused ⟨_, rfl⟩ rfl rfl (.inr rfl)
        · exact .other rfl rfl rfl (by rw [if_pos last]; rfl)

/-- What a beat of the device has to do with MMIO. -/
theorem accept_replies (attached : e.mmioAttached) (cycle : Nat) (flit : Flit) :
    e.Replies flit (e.accept cycle flit) := by
  unfold accept
  by_cases halted : e.halted
  · rw [if_pos halted]
    exact .refused ⟨_, rfl⟩ rfl rfl (.inl ⟨halted, rfl⟩)
  · rw [if_neg halted]
    cases fromDevice : e.fromDevice with
    | completion p => exact (replies_acceptCompletionBeat attached (.later fromDevice)).after rfl
    | write p => exact (replies_acceptWriteBeat p 0).after rfl
    | start =>
      simp only [acceptStart]
      cases header : flit.header with
      | error cause => exact replies_haltOn ..
      | ok h =>
        refine Replies.after ?_ rfl
        simp only [dispatch]
        cases body : h.body with
        | interrupt vector => exact replies_acceptInterrupt h vector
        | completion c => exact replies_acceptCompletion attached fromDevice header body
        | other => exact replies_haltOn ..
        | request r =>
          simp only
          split
          · unfold acceptWrite
            split
            · exact replies_haltOn ..
            · exact replies_acceptWriteBeat ..
          · exact replies_acceptRead h r

end Engine

end TlpBridge
