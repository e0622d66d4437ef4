import TlpBridge.Proofs.Engine.HaltedRuns
import TlpBridge.Proofs.Reads.TakenAnswers

/-!
# The state as it is stored

Some of the state of an engine has a plainer form: the place in the stream to the device is a mode
and two counts of DWORDs, a slot is popped off the pool before it is looked at, and the counts of
what is pending are words of 32 bits. In every run the plainer form does the same.
-/
namespace TlpBridge

/-! ## The place in the stream to the device -/

inductive HostMode where
  | between
  | completion
  | mmio
deriving DecidableEq

/-- The mode of the stream to the device, and what is left of an MMIO request and of a completion,
each zero outside of it. -/
structure HostRegisters where
  mode : HostMode := .between
  mmioLeft : Nat := 0
  completionLeft : Nat := 0
deriving DecidableEq

def ToDeviceState.registers : ToDeviceState → HostRegisters
  | .start => {}
  | .completion left => { mode := .completion, completionLeft := left }
  | .mmio left => { mode := .mmio, mmioLeft := left }

/-- What comes of one attempt to send a beat: a beat perhaps, and whether the packet is finished or
was never started. -/
structure Attempt where
  flit : Option Flit := none
  done : Bool := true

/-- A call that works on the registers. The place that the engine names itself is not looked at. -/
abbrev RegisterStep (α : Type) : Type :=
  Step Effect (HostRegisters × Engine) (Except EngineFault α)

/-- A call with the place that it leaves in registers. -/
def EngineStep.registers {α : Type} (s : EngineStep α) : RegisterStep α :=
  ⟨s.answer, (s.state.toDevice.registers, s.state), s.events⟩

namespace HostRegisters

/-- A call that leaves the registers alone and sends no beat. -/
def keep (r : HostRegisters) (s : EngineStep (Option Flit)) (done : Bool) : RegisterStep Attempt :=
  ⟨s.answer.map fun flit => ⟨flit, done⟩, (r, s.state), s.events⟩

def sendCompletion (r : HostRegisters) (e : Engine) (c : CompletionPacket) (h : Option Header)
    (flit : Flit) (start : Nat) : RegisterStep Attempt :=
  let avail := e.config.dwordWidth - start
  let beat := e.completionBeat c h flit start r.completionLeft
  ⟨beat.answer.map fun flit => ⟨flit, decide (r.completionLeft ≤ avail)⟩,
    ({ r with completionLeft := r.completionLeft - min r.completionLeft avail }, beat.state),
    beat.events⟩

/-- Sends a flit with a header, unless the header cannot be encoded. -/
def withHeader (r : HostRegisters) (e : Engine) (h : Header) (send : Flit → RegisterStep Attempt) :
    RegisterStep Attempt :=
  match e.blankFlit.storeHeader h with
  | .error cause =>
    r.keep ((e.halt none (.encoding cause)).after [.report (.refusedHeader h)]) true
  | .ok flit => send flit

/-- One attempt at a beat of a completion. The register tells whether one has been started. -/
def attemptCompletion (r : HostRegisters) (e : Engine) : RegisterStep Attempt :=
  let (stalled, e) := e.drawStall
  if stalled then r.keep (.ok e none) (r.completionLeft == 0)
  else
    match e.completions.front? with
    | none => r.keep (.ok e none) true
    | some c =>
      if 0 < r.completionLeft then r.sendCompletion e c none e.blankFlit 0
      else
        let slot := (e.slots.states[c.slot]?).getD {}
        match slot.request with
        | none => r.keep (e.halt none (.readResponseTag (UInt16.ofNat c.slot))) true
        | some request =>
          if e.cycle - slot.startCycle < Engine.minReadLatency ∧
              ¬ e.options.unlimitedBandwidth then
            r.keep (.ok e none) true
          else
            let h := c.header request
            let e := if c.isLast then { e with slots := e.slots.release c.slot } else e
            r.withHeader e h fun flit =>
              { r with completionLeft := c.dwordSize }.sendCompletion e c (some h) flit
                HeaderWords.count

def sendMmio (r : HostRegisters) (e : Engine) (request : MmioRequest) (h : Option Header)
    (flit : Flit) (start : Nat) : RegisterStep Attempt :=
  let beat := e.mmioBeat request h flit start r.mmioLeft
  let left :=
    if request.write then r.mmioLeft - min r.mmioLeft (e.config.dwordWidth - start) else 0
  ⟨beat.answer.map fun flit => ⟨flit, left == 0⟩, ({ r with mmioLeft := left }, beat.state),
    beat.events⟩

/-- One attempt at a beat of an MMIO request. -/
def attemptMmio (r : HostRegisters) (e : Engine) : RegisterStep Attempt :=
  match e.mmioQueue with
  | [] => r.keep (.ok e none) true
  | request :: _ =>
    if 0 < r.mmioLeft then r.sendMmio e request none e.blankFlit 0
    else if e.lastMmioCycle.any fun last => e.cycle - last < Engine.mmioSpacing then
      r.keep (.ok e none) true
    else
      let (stalled, e) := e.drawStall
      if stalled then r.keep (.ok e none) true
      else
        let h := request.header e.params
        r.withHeader e h fun flit =>
          { r with mmioLeft := request.byteSize / 4 }.sendMmio
            { e with lastMmioCycle := some e.cycle } request (some h) flit HeaderWords.count

/-- After an attempt the stream is in the given mode, unless the packet is done. -/
def settle (mode : HostMode) (s : RegisterStep Attempt) : RegisterStep Attempt :=
  match s.answer with
  | .error _ => s
  | .ok attempt =>
    { s with state :=
      ({ s.state.1 with mode := if attempt.done then .between else mode }, s.state.2) }

/-- The beat of an attempt. -/
def beat (s : RegisterStep Attempt) : RegisterStep (Option Flit) :=
  ⟨s.answer.map (·.flit), s.state, s.events⟩

/-- Unless there is a beat already, a completion is attempted. -/
def elseCompletion (mmio : Attempt) (s : RegisterStep Attempt) : RegisterStep Attempt :=
  if mmio.flit.isNone && !s.state.2.completions.isEmpty then
    let completion := settle .completion (s.state.1.attemptCompletion s.state.2)
    { completion with events := s.events ++ completion.events }
  else s

/-- Between packets: an MMIO request is attempted, and if no beat comes of it, a completion. -/
def startPacket (r : HostRegisters) (e : Engine) : RegisterStep Attempt :=
  let mmio :=
    if e.mmioQueue.isEmpty then r.keep (.ok e none) true else settle .mmio (r.attemptMmio e)
  match mmio.answer with
  | .error _ => mmio
  | .ok attempt => elseCompletion attempt mmio

def sendBeat (r : HostRegisters) (e : Engine) : RegisterStep (Option Flit) :=
  beat <|
    match r.mode with
    | .between => r.startPacket e
    | .completion => settle .completion (r.attemptCompletion e)
    | .mmio => settle .mmio (r.attemptMmio e)

def emit (r : HostRegisters) (e : Engine) (cycle : Nat) (ready : Bool) :
    RegisterStep (Option Flit) :=
  if e.halted then ⟨.error .halted, (r, e), []⟩
  else
    let collected := e.collect cycle
    match collected.answer with
    | .error fault => ⟨.error fault, (r, collected.state), collected.events⟩
    | .ok () =>
      if ready then
        let s := r.sendBeat collected.state
        { s with events := collected.events ++ s.events }
      else ⟨.ok none, (r, collected.state), collected.events⟩

/-- The registers after a call. -/
def perform (r : HostRegisters) (e : Engine) : Engine.Call → HostRegisters
  | .emit cycle ready => (r.emit e cycle ready).state.1
  | .reset => {}
  | _ => r

/-- The registers after a run of calls. -/
def performAll : HostRegisters → Engine → List Engine.Call → HostRegisters
  | r, _, [] => r
  | r, e, call :: calls => performAll (r.perform e call) (Engine.perform e call) calls

section Place

variable {r : HostRegisters} {e : Engine}

theorem beat_settle_keep {s : EngineStep (Option Flit)} {mode : HostMode} {done : Bool}
    (place : s.state.toDevice.registers = r) (stays : (if done then .between else mode) = r.mode) :
    beat (settle mode (r.keep s done)) = s.registers := by
  obtain ⟨answer, state, events⟩ := s
  subst place
  cases answer with
  | error fault => rfl
  | ok flit =>
    simp only [beat, settle, keep, EngineStep.registers, Except.map, stays]

theorem beat_settle_sendCompletion (outside : r.mmioLeft = 0) (c : CompletionPacket)
    (h : Option Header) (flit : Flit) (start : Nat) :
    beat (settle .completion (r.sendCompletion e c h flit start)) =
      (e.completionBeat c h flit start r.completionLeft).registers := by
  simp only [beat, settle, sendCompletion, EngineStep.registers, Engine.completionBeat,
    EngineStep.ok, Except.map, outside]
  by_cases last : r.completionLeft ≤ e.config.dwordWidth - start
  · simp [last, ToDeviceState.registers]
  · simp [last, ToDeviceState.registers]

theorem beat_settle_sendMmio (outside : r.completionLeft = 0) (request : MmioRequest)
    (h : Option Header) (flit : Flit) (start : Nat) :
    beat (settle .mmio (r.sendMmio e request h flit start)) =
      (e.mmioBeat request h flit start r.mmioLeft).registers := by
  simp only [beat, settle, sendMmio, EngineStep.registers, Engine.mmioBeat, EngineStep.ok,
    Except.map, outside]
  generalize (if request.write then r.mmioLeft - min r.mmioLeft (e.config.dwordWidth - start)
    else 0) = left
  by_cases last : left = 0
  · simp [last, ToDeviceState.registers]
  · simp [last, ToDeviceState.registers]

theorem beat_settle_withHeader {mode : HostMode} {h : Header} {send : Flit → RegisterStep Attempt}
    {sends : Flit → EngineStep (Option Flit)} (place : e.toDevice.registers = r)
    (between : r.mode = .between)
    (same : ∀ flit, beat (settle mode (send flit)) = (sends flit).registers) :
    beat (settle mode (r.withHeader e h send)) = (e.withHeader h sends).registers := by
  unfold withHeader Engine.withHeader
  cases e.blankFlit.storeHeader h with
  | error cause => exact beat_settle_keep place between.symm
  | ok flit => exact same flit

theorem attemptCompletion_between (between : e.toDevice = .start) {c : CompletionPacket}
    (first : e.completions.front? = some c) :
    beat (settle .completion (attemptCompletion {} e)) = (e.startCompletion c).registers := by
  have place : e.drawStall.2.toDevice.registers = {} := congrArg _ between
  have head : e.drawStall.2.completions.front? = some c := first
  unfold attemptCompletion Engine.startCompletion
  generalize e.drawStall = drawn at place head ⊢
  obtain ⟨stalled, e⟩ := drawn
  cases stalled with
  | true => exact beat_settle_keep place (by rfl)
  | false =>
    simp only [Bool.false_eq_true, if_false] at head ⊢
    rw [head]
    simp only [Nat.lt_irrefl, if_false]
    cases request : ((e.slots.states[c.slot]?).getD {}).request with
    | none => exact beat_settle_keep place (by rfl)
    | some request =>
      simp only
      split
      · exact beat_settle_keep place (by rfl)
      · refine beat_settle_withHeader ?_ rfl fun flit => beat_settle_sendCompletion (by rfl) ..
        split
        · exact place
        · exact place

theorem attemptCompletion_inside {left : Nat} (inside : e.toDevice = .completion left)
    (some_ : 0 < left) {c : CompletionPacket} (first : e.completions.front? = some c) :
    beat (settle .completion (attemptCompletion (ToDeviceState.completion left).registers e)) =
      (e.continueCompletion left).registers := by
  have place : e.drawStall.2.toDevice.registers = (ToDeviceState.completion left).registers :=
    congrArg _ inside
  have head : e.drawStall.2.completions.front? = some c := first
  have goesOn : 0 < (ToDeviceState.completion left).registers.completionLeft := some_
  unfold attemptCompletion Engine.continueCompletion
  generalize e.drawStall = drawn at place head ⊢
  obtain ⟨stalled, e⟩ := drawn
  cases stalled with
  | true => exact beat_settle_keep place (if_neg (by simpa using Nat.ne_of_gt goesOn))
  | false =>
    simp only [Bool.false_eq_true, if_false] at head ⊢
    rw [head]
    simp only [goesOn, if_true]
    exact beat_settle_sendCompletion (by rfl) ..

theorem attemptMmio_between (between : e.toDevice = .start) {request : MmioRequest}
    {rest : List MmioRequest} (queue : e.mmioQueue = request :: rest) :
    beat (settle .mmio (attemptMmio {} e)) = (e.startMmio request).registers := by
  have place : e.toDevice.registers = {} := congrArg _ between
  unfold attemptMmio Engine.startMmio
  rw [queue]
  simp only [Nat.lt_irrefl, if_false]
  split
  · exact beat_settle_keep place (by rfl)
  · have drawn : e.drawStall.2.toDevice.registers = {} := place
    generalize e.drawStall = draw at drawn ⊢
    obtain ⟨stalled, e⟩ := draw
    cases stalled with
    | true => exact beat_settle_keep drawn (by rfl)
    | false =>
      exact beat_settle_withHeader drawn rfl fun flit => beat_settle_sendMmio (by rfl) ..

theorem attemptMmio_inside {left : Nat} (some_ : 0 < left) {request : MmioRequest}
    {rest : List MmioRequest} (queue : e.mmioQueue = request :: rest) :
    beat (settle .mmio (attemptMmio (ToDeviceState.mmio left).registers e)) =
      (e.continueMmio left).registers := by
  have goesOn : 0 < (ToDeviceState.mmio left).registers.mmioLeft := some_
  unfold attemptMmio Engine.continueMmio
  rw [queue]
  simp only [goesOn, if_true]
  exact beat_settle_sendMmio (by rfl) ..

theorem toDevice_startMmio_of_none (between : e.toDevice = .start) {request : MmioRequest}
    (none_ : (e.startMmio request).answer = .ok none) :
    (e.startMmio request).state.toDevice = .start := by
  unfold Engine.startMmio at none_ ⊢
  split
  · exact between
  · next late =>
    rw [if_neg late] at none_
    have drawn : e.drawStall.2.toDevice = .start := between
    generalize e.drawStall = draw at drawn none_ ⊢
    obtain ⟨stalled, e⟩ := draw
    cases stalled with
    | true => exact drawn
    | false =>
      simp only [Bool.false_eq_true, if_false, Engine.withHeader] at none_ ⊢
      cases stored : e.blankFlit.storeHeader (request.header e.params) with
      | error cause => exact drawn
      | ok flit =>
        simp only [stored] at none_
        cases none_

theorem beat_elseCompletion (between : e.toDevice = .start) (done : Bool)
    (events : List Effect) :
    beat (elseCompletion ⟨none, done⟩ ⟨.ok ⟨none, done⟩, ({}, e), events⟩) =
      ((Engine.elseCompletion none e).after events).registers := by
  unfold elseCompletion Engine.elseCompletion
  cases items : e.completions.items with
  | nil =>
    simp [OvertakingQueue.isEmpty, OvertakingQueue.front?, items, EngineStep.registers,
      EngineStep.after, EngineStep.ok, between, beat, Except.map, ToDeviceState.registers]
  | cons c rest =>
    have first : e.completions.front? = some c := by
      rw [OvertakingQueue.front?, items, List.head?_cons]
    have waiting : e.completions.isEmpty = false := by
      rw [OvertakingQueue.isEmpty, items, List.isEmpty_cons]
    have same := attemptCompletion_between between first
    simp only [first, waiting, Option.isNone_none, Bool.not_false, Bool.and_self, if_true]
    exact congrArg
      (fun s : RegisterStep (Option Flit) => { s with events := events ++ s.events }) same

theorem beat_startPacket (between : e.toDevice = .start) :
    beat (startPacket {} e) = e.startPacket.registers := by
  unfold startPacket Engine.startPacket
  cases queue : e.mmioQueue with
  | nil => exact beat_elseCompletion between true []
  | cons request rest =>
    have same := attemptMmio_between between queue
    have idle (none_ : (e.startMmio request).answer = .ok none) :
        (e.startMmio request).state.toDevice = .start := toDevice_startMmio_of_none between none_
    simp only [List.isEmpty_cons, Bool.false_eq_true, if_false]
    generalize settle .mmio (attemptMmio {} e) = attempted at same ⊢
    generalize e.startMmio request = started at same idle ⊢
    obtain ⟨answer, state, events⟩ := started
    obtain ⟨outcome, place, effects⟩ := attempted
    simp only [beat, EngineStep.registers, Step.mk.injEq] at same
    obtain ⟨rfl, rfl, rfl⟩ := same
    cases outcome with
    | error fault => rfl
    | ok attempt =>
      obtain ⟨flit, done⟩ := attempt
      cases flit with
      | some f =>
        simp [elseCompletion, beat, EngineStep.andThen, EngineStep.after, EngineStep.ok,
          EngineStep.registers, Engine.elseCompletion, Except.map]
      | none =>
        have between : state.toDevice = .start := idle rfl
        have same := beat_elseCompletion between done effects
        rw [between]
        exact same

theorem sendBeat_registers (place : e.toDevice = .start ∨ e.InPacket) :
    e.toDevice.registers.sendBeat e = e.sendBeat.registers := by
  unfold sendBeat Engine.sendBeat
  rcases place with between | ⟨src, left, inside, first, some_, -⟩
  · rw [between]
    exact beat_startPacket between
  · rw [inside]
    cases src with
    | completion c => exact attemptCompletion_inside inside some_ first
    | mmio request =>
      obtain ⟨rest, queue⟩ := List.head?_eq_some_iff.1 first
      exact attemptMmio_inside some_ queue

theorem emit_registers (orderly : e.Orderly) (cycle : Nat) (ready : Bool) :
    e.toDevice.registers.emit e cycle ready = (e.emit cycle ready).registers := by
  have collected := orderly.collect cycle
  have same : (e.collect cycle).state.toDevice = e.toDevice :=
    (e.undisturbed_collect cycle).toDevice
  rw [Engine.emit_eq, emit]
  split
  · rfl
  · rw [← same]
    unfold EngineStep.andThen
    cases answer : (e.collect cycle).answer with
    | error fault => simp only [answer, EngineStep.registers]
    | ok done =>
      cases ready with
      | false => simp [answer, EngineStep.registers, EngineStep.after, EngineStep.ok]
      | true =>
        simp only [answer, if_true, sendBeat_registers collected.place]
        rfl

theorem perform_registers (orderly : e.Orderly) (call : Engine.Call) :
    e.toDevice.registers.perform e call = (e.perform call).toDevice.registers := by
  cases call with
  | accept cycle flit =>
    exact congrArg ToDeviceState.registers (e.accept_accepts cycle flit).undisturbed.toDevice.symm
  | ready => exact congrArg ToDeviceState.registers e.undisturbed_ready.toDevice.symm
  | request r => exact congrArg ToDeviceState.registers (e.undisturbed_request r).toDevice.symm
  | emit cycle ready => rw [perform, emit_registers orderly]; rfl
  | reset => rfl
  | serve link => rfl

theorem performAll_registers (orderly : e.Orderly) (calls : List Engine.Call) :
    e.toDevice.registers.performAll e calls = (e.performAll calls).toDevice.registers := by
  induction calls generalizing e with
  | nil => rfl
  | cons call calls ih =>
    rw [performAll, perform_registers orderly]
    exact ih (orderly.perform call)

end Place

/-- In every run, registers that start at zero are those of the engine, and an engine that goes by
them sends the same beats with the same effects. -/
theorem run_registers (config : ValidParameters) (options : Switches) (random : DrawSource)
    (calls : List Engine.Call) :
    let start := (Engine.create config options).withDraws random
    let r := performAll {} start calls
    let e := start.performAll calls
    r = e.toDevice.registers ∧
      ∀ cycle ready, r.emit e cycle ready = (e.emit cycle ready).registers := by
  intro start r e
  have orderly : start.Orderly := .create config options random
  have same : r = e.toDevice.registers := performAll_registers orderly calls
  rw [same]
  exact ⟨rfl, emit_registers (orderly.performAll calls)⟩

end HostRegisters

/-! ## The pool of slots -/

/-- Pops a slot off the free ones. -/
def SlotPool.popFree : EStateM Violation SlotPool Nat := fun s =>
  match s.takeFree? with
  | none => .error .tagMapperExhausted s
  | some (slot, rest) => .ok slot rest

/-- A slot, unless it is busy. -/
def SlotPool.checkIdle (slot : Nat) : EStateM Violation SlotPool Nat := do
  if (← get).isBusy slot then throw .dmaTagBusy else return slot

/-- The slot for a read with a tag. With a mapper it is popped off the free ones before it is seen
whether it is busy, and it stays popped if it is. -/
def SlotPool.takeSlot (tag : Nat) : EStateM Violation SlotPool Nat := do
  let slot ← if (← get).mapped then popFree else pure tag
  checkIdle slot

namespace Engine

/-- A read for which a slot is taken from the pool in place. -/
def acceptReadInPlace (e : Engine) (h : Header) (r : RequestBody) (flit : Flit) :
    EngineStep Unit :=
  match e.params.readExtentFault? flit.last h r with
  | some v => e.haltOn (some h) flit v
  | none =>
    let r := h.effectiveRequest r
    let h := { h with body := .request r }
    match e.params.readFault? h r with
    | some v => e.haltOn (some h) flit v
    | none =>
      match (SlotPool.takeSlot h.tag.toNat).run e.slots with
      | .error v slots => { e with slots := slots }.haltOn (some h) flit v
      | .ok slot slots => e.submitRead h r flit slot slots

theorem run_checkIdle (s : SlotPool) (slot : Nat) :
    (SlotPool.checkIdle slot).run s =
      if s.isBusy slot then .error .dmaTagBusy s else .ok slot s := by
  change (if s.isBusy slot then throw .dmaTagBusy else pure slot :
    EStateM Violation SlotPool Nat).run s = _
  split
  · rfl
  · rfl

/-- Only a busy slot that was popped is missing after a refusal. -/
theorem run_takeSlot (s : SlotPool) (tag : Nat) :
    (SlotPool.takeSlot tag).run s =
      match chooseSlot s tag with
      | .ok (slot, rest) => .ok slot rest
      | .error .dmaTagBusy =>
        .error .dmaTagBusy (if s.mapped then { s with free := s.free.tail } else s)
      | .error v => .error v s := by
  obtain ⟨states, free, mapped⟩ := s
  unfold chooseSlot
  cases mapped with
  | false =>
    refine (run_checkIdle ⟨states, free, false⟩ tag).trans ?_
    cases busy : SlotPool.isBusy ⟨states, free, false⟩ tag with
    | false => simp
    | true => simp
  | true =>
    cases free with
    | nil => rfl
    | cons slot rest =>
      refine (run_checkIdle ⟨states, rest, true⟩ slot).trans ?_
      cases busy : SlotPool.isBusy ⟨states, rest, true⟩ slot with
      | false => simp [SlotPool.takeFree?, busy]
      | true => simp [SlotPool.takeFree?, busy]

theorem run_takeSlot_of_balanced {s : SlotPool} (balanced : s.Balanced) (tag : Nat) :
    (SlotPool.takeSlot tag).run s =
      match chooseSlot s tag with
      | .ok (slot, rest) => .ok slot rest
      | .error v => .error v s := by
  rw [run_takeSlot]
  cases chosen : chooseSlot s tag with
  | ok choice => rfl
  | error v =>
    by_cases busy : v = .dmaTagBusy
    · subst busy
      have unmapped : ¬ s.mapped := fun mapped => not_busy_of_balanced balanced mapped chosen
      simp only [if_neg unmapped]
    · split
      · next same => cases same
      · next same => cases same; exact absurd rfl busy
      · next same => cases same; rfl

theorem acceptReadInPlace_eq {e : Engine} (balanced : e.slots.Balanced) (h : Header)
    (r : RequestBody) (flit : Flit) : e.acceptReadInPlace h r flit = e.acceptRead h r flit := by
  unfold acceptReadInPlace acceptRead
  simp only [run_takeSlot_of_balanced balanced]
  cases chooseSlot e.slots h.tag.toNat with
  | ok choice => rfl
  | error v => rfl

/-- In every run a slot can be popped off the pool before it is looked at. -/
theorem run_acceptReadInPlace (config : ValidParameters) (options : Switches)
    (random : DrawSource) (calls : List Call) (cycle : Nat) (h : Header) (r : RequestBody)
    (flit : Flit) :
    let e := (((create config options).withDraws random).performAll calls).idleAt cycle
    e.acceptReadInPlace h r flit = e.acceptRead h r flit := by
  intro e
  have start : ((create config options).withDraws random).slots.Balanced :=
    SlotPool.balanced_ofCount ..
  have balanced : e.slots.Balanced := balanced_performAll start calls
  exact acceptReadInPlace_eq balanced h r flit

/-! ## The counts of what is pending -/

theorem pendingWrites_emit_le (e : Engine) (cycle : Nat) (ready : Bool) :
    (e.emit cycle ready).state.pendingWrites ≤ e.pendingWrites := by
  have collected : (e.collect cycle).state.pendingWrites ≤ e.pendingWrites := by
    have taken := (e.takesAnswers_collect cycle).writes
    have fewer := taken.rest.length_le
    have counted := taken.counted
    omega
  rw [emit_eq]
  split
  · exact Nat.le_refl _
  · unfold EngineStep.andThen
    split
    · exact collected
    · cases ready with
      | false => exact collected
      | true =>
        obtain ⟨released, sent⟩ := onlySent_sendBeat (e.collect cycle).state
        change (e.collect cycle).state.sendBeat.state.pendingWrites ≤ e.pendingWrites
        rw [sent]
        exact collected

theorem pendingWrites_perform_le (e : Engine) (call : Call) :
    (e.perform call).pendingWrites ≤ e.pendingWrites + 1 := by
  cases call with
  | accept cycle flit =>
    change (e.accept cycle flit).state.pendingWrites ≤ e.pendingWrites + 1
    cases e.accept_accepts cycle flit with
    | quiet state => rw [state]; exact Nat.le_succ _
    | write w sent state => rw [state]
    | read r slot slots stored body completable pool sent state => rw [state]; exact Nat.le_succ _
  | ready => exact (Nat.le_of_eq e.frees_ready.pendingWrites).trans (Nat.le_succ _)
  | request r => exact (Nat.le_of_eq (e.frees_request r).pendingWrites).trans (Nat.le_succ _)
  | emit cycle ready => exact (e.pendingWrites_emit_le cycle ready).trans (Nat.le_succ _)
  | reset => exact Nat.le_succ _
  | serve link => exact Nat.le_succ _

theorem pendingWrites_performAll_le (e : Engine) (calls : List Call) :
    (e.performAll calls).pendingWrites ≤ e.pendingWrites + calls.length := by
  induction calls generalizing e with
  | nil => exact Nat.le_refl _
  | cons call calls ih =>
    have one := e.pendingWrites_perform_le call
    have rest := ih (e.perform call)
    rw [List.length_cons]
    exact rest.trans (by omega)

/-- Fewer than `2 ^ 32` calls cannot bring a word of 32 bits to its end. -/
theorem run_pendingWrites_lt (config : ValidParameters) (options : Switches) (random : DrawSource)
    (calls : List Call) (few : calls.length < 2 ^ 32) :
    (((create config options).withDraws random).performAll calls).pendingWrites < 2 ^ 32 := by
  have bound := pendingWrites_performAll_le ((create config options).withDraws random) calls
  exact Nat.lt_of_le_of_lt bound (by simpa [create, withDraws] using few)

end Engine

end TlpBridge
