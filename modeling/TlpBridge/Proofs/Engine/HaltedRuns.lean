import TlpBridge.Proofs.FromDevice.ServedKinds
import TlpBridge.Proofs.Reads.SoundRuns

/-!
# Broken rules halt the engine

A beat of the device or a request of the host that breaks a rule has no effect but to halt the
engine, and nothing else halts it. A halted engine answers that it is halted, does nothing and
stays halted.
-/
namespace TlpBridge

/-- The call is refused because of some rule. -/
def EngineStep.BreaksRule {α : Type} (s : EngineStep α) : Prop := ∃ v, s.Blames v

namespace Engine

/-- A call of a running engine halts it exactly if it breaks a rule. -/
def FailsStop {α : Type} (s : EngineStep α) : Prop := s.state.halted = true ↔ s.BreaksRule

section Steps

variable {α β : Type} {e : Engine} {s : EngineStep α}

theorem not_breaksRule_of_ok {a : α} (done : s.answer = .ok a) : ¬ s.BreaksRule := by
  rintro ⟨v, cycle, h, refused⟩
  cases done.symm.trans refused

namespace FailsStop

theorem of_allowed (running : s.state.halted = false) (allowed : ¬ s.BreaksRule) : FailsStop s :=
  ⟨fun halted => absurd halted (by simp [running]), fun broken => absurd broken allowed⟩

theorem of_ok {a : α} (done : s.answer = .ok a) (running : s.state.halted = false) :
    FailsStop s := .of_allowed running (not_breaksRule_of_ok done)

/-- Host memory that refuses an access does not halt the engine. -/
theorem of_memoryAccess {op : DmaOp} {status : AccessStatus} {pa va : UInt64}
    (failed : s.answer = .error (.memoryAccess op status pa va))
    (running : s.state.halted = false) : FailsStop s := by
  refine .of_allowed running ?_
  rintro ⟨v, cycle, h, refused⟩
  cases failed.symm.trans refused

/-- Nor does host memory that is gone. -/
theorem of_disconnected (failed : s.answer = .error .disconnected)
    (running : s.state.halted = false) : FailsStop s := by
  refine .of_allowed running ?_
  rintro ⟨v, cycle, h, refused⟩
  cases failed.symm.trans refused

theorem halt (e : Engine) (h : Option Header) (v : Violation) :
    FailsStop (e.halt (α := α) h v) :=
  ⟨fun _ => ⟨v, e.cycle, h, rfl⟩, fun _ => rfl⟩

theorem after (stops : FailsStop s) (effects : List Effect) :
    FailsStop (s.after effects) := stops

theorem running (stops : FailsStop s) {a : α} (done : s.answer = .ok a) :
    s.state.halted = false := by
  by_contra halted
  exact not_breaksRule_of_ok done (stops.1 (eq_true_of_ne_false halted))

/-- A call that goes on with another one. -/
theorem andThen {f : α → Engine → EngineStep β} (first : FailsStop s)
    (second : ∀ a, s.state.halted = false → FailsStop (f a s.state)) :
    FailsStop (s.andThen f) := by
  unfold EngineStep.andThen
  cases answer : s.answer with
  | ok a => exact (second a (first.running answer)).after s.events
  | error fault =>
    refine first.trans ⟨?_, ?_⟩
    · rintro ⟨v, cycle, h, refused⟩
      exact ⟨v, cycle, h, congrArg _ (Except.error.inj (answer.symm.trans refused))⟩
    · rintro ⟨v, cycle, h, refused⟩
      exact ⟨v, cycle, h, answer.trans (congrArg _ (Except.error.inj refused))⟩

end FailsStop

end Steps

/-! ## Beats of the device and requests of the host -/

/-- A call that is refused before it did anything, or that breaks no rule. Either way the free slots
stay the idle ones. -/
inductive ChecksFirst (e : Engine) (s : EngineStep Unit) : Prop
  | refused (refuses : e.Refuses s)
  | allowed (state : s.state.halted = e.halted) (allowed : ¬ s.BreaksRule)
    (slots : e.slots.Balanced → s.state.slots.Balanced)

namespace ChecksFirst

variable {e e' : Engine} {s : EngineStep Unit}

theorem of_ok (done : s.answer = .ok ()) (state : s.state.halted = e.halted)
    (slots : e.slots.Balanced → s.state.slots.Balanced) : e.ChecksFirst s :=
  .allowed state (not_breaksRule_of_ok done) slots

/-- Without host memory a request of the device fails, but it breaks no rule. -/
theorem disconnected (state : e'.halted = e.halted)
    (slots : e.slots.Balanced → e'.slots.Balanced) :
    e.ChecksFirst ⟨.error .disconnected, e', []⟩ := by
  refine .allowed state ?_ slots
  rintro ⟨v, cycle, h, refused⟩
  cases refused

theorem after (checks : e.ChecksFirst s) (event : EngineEvent) :
    e.ChecksFirst (s.after [.report event]) := by
  cases checks with
  | refused refuses => exact .refused (refuses.after event)
  | allowed state allowed slots => exact .allowed state allowed slots

theorem refuses (checks : e.ChecksFirst s) (broken : s.BreaksRule) : e.Refuses s := by
  cases checks with
  | refused refuses => exact refuses
  | allowed _ allowed => exact absurd broken allowed

theorem failsStop (checks : e.ChecksFirst s) (running : e.halted = false) : FailsStop s := by
  cases checks with
  | refused refuses =>
    obtain ⟨v, h, answer⟩ := refuses.answer
    exact ⟨fun _ => ⟨v, e.cycle, h, answer⟩, fun _ => by rw [refuses.state]⟩
  | allowed state allowed => exact .of_allowed (state.trans running) allowed

theorem balanced (checks : e.ChecksFirst s) (balanced : e.slots.Balanced) :
    s.state.slots.Balanced := by
  cases checks with
  | refused refuses =>
    rw [refuses.state]
    exact balanced
  | allowed _ _ slots => exact slots balanced

end ChecksFirst

section Accept

variable (e : Engine) (h : Header) (flit : Flit)

theorem checksFirst_haltOn (h : Option Header) (v : Violation) :
    e.ChecksFirst (e.haltOn h flit v) := .refused (refuses_haltOn ..)

theorem checksFirst_acceptInterrupt (vector : UInt16) :
    e.ChecksFirst (e.acceptInterrupt h vector flit) := by
  unfold acceptInterrupt
  split
  · exact checksFirst_haltOn ..
  · split
    · exact checksFirst_haltOn ..
    · exact .of_ok rfl rfl id

theorem checksFirst_acceptCompletionBeat (p : OpenPacket) (start : Nat) :
    e.ChecksFirst (e.acceptCompletionBeat p flit start) := by
  unfold acceptCompletionBeat
  split
  · exact checksFirst_haltOn ..
  · split
    · exact .of_ok rfl rfl id
    · exact .of_ok rfl rfl id

theorem checksFirst_acceptCompletion (c : CompletionBody) :
    e.ChecksFirst (e.acceptCompletion h c flit) := by
  unfold acceptCompletion
  split
  · exact checksFirst_haltOn ..
  · split
    · exact checksFirst_haltOn ..
    · exact checksFirst_acceptCompletionBeat ..

theorem checksFirst_acceptWriteBeat (p : OpenPacket) (start : Nat) :
    e.ChecksFirst (e.acceptWriteBeat p flit start) := by
  unfold acceptWriteBeat
  split
  · exact checksFirst_haltOn ..
  · split
    · unfold submitWrite
      simp only
      split
      · exact .disconnected rfl id
      · exact .of_ok rfl rfl id
    · exact .of_ok rfl rfl id

theorem checksFirst_acceptWrite (r : RequestBody) :
    e.ChecksFirst (e.acceptWrite h r flit) := by
  unfold acceptWrite
  split
  · exact checksFirst_haltOn ..
  · exact checksFirst_acceptWriteBeat ..

theorem checksFirst_acceptRead (r : RequestBody) : e.ChecksFirst (e.acceptRead h r flit) := by
  unfold acceptRead
  split
  · exact checksFirst_haltOn ..
  · simp only
    split
    · exact checksFirst_haltOn ..
    · split
      · exact checksFirst_haltOn ..
      · next slot slots chosen =>
        have entered (stored : Header) (balanced : e.slots.Balanced) :
            (slots.occupy slot e.cycle stored).Balanced :=
          balanced_occupy balanced chosen e.cycle stored
        unfold submitRead
        simp only
        split
        · exact .disconnected rfl (entered _)
        · exact .of_ok rfl rfl (entered _)

theorem checksFirst_dispatch : e.ChecksFirst (e.dispatch h flit) := by
  unfold dispatch
  split
  · exact checksFirst_acceptInterrupt ..
  · exact checksFirst_acceptCompletion ..
  · split
    · exact checksFirst_acceptWrite ..
    · exact checksFirst_acceptRead ..
  · exact checksFirst_haltOn ..

theorem checksFirst_acceptStart : e.ChecksFirst (e.acceptStart flit) := by
  unfold acceptStart
  split
  · exact checksFirst_haltOn ..
  · exact (checksFirst_dispatch ..).after _

variable {e}

/-- A beat is checked before anything is done but to set the packet in progress aside. -/
theorem checksFirst_accept (running : e.halted = false) (cycle : Nat) :
    (e.idleAt cycle).ChecksFirst (e.accept cycle flit) := by
  unfold accept
  rw [if_neg (by simp [running])]
  cases e.fromDevice with
  | start => exact checksFirst_acceptStart ..
  | completion p => exact (checksFirst_acceptCompletionBeat ..).after _
  | write p => exact (checksFirst_acceptWriteBeat ..).after _

theorem checksFirst_request (running : e.halted = false) (r : MmioRequest) :
    e.ChecksFirst (e.request r) := by
  unfold request
  rw [if_neg (by simp [running])]
  split
  · refine .refused ⟨⟨_, _, rfl⟩, rfl, fun effect member => ?_⟩
    exact ⟨_, List.mem_singleton.1 member⟩
  · exact .of_ok rfl rfl id

end Accept

/-! ## Beats to the device -/

section Emit

variable {e : Engine}

theorem failsStop_collectWrites (n : Nat) (running : e.halted = false) :
    FailsStop (collectWrites n e) := by
  induction n generalizing e with
  | zero => exact .of_ok rfl running
  | succ n ih =>
    unfold collectWrites
    split
    · exact .of_disconnected rfl running
    · exact .of_ok rfl running
    · simp only
      split
      · exact ih running
      · exact .of_memoryAccess rfl running

theorem failsStop_queueRead (running : e.halted = false) (slot : Nat) (h : Header)
    (data : List UInt8) : FailsStop (e.queueRead slot h data) := by
  unfold queueRead
  simp only
  generalize (if h.isFence (h.request?.getD {}) then 0 else h.byteSize.toNat) = expected
  by_cases length : data.length = expected
  · rw [if_neg (not_not_intro length)]
    split
    · exact .halt ..
    · next count _ =>
      have queued := onlyQueued_queuePackets slot h (h.request?.getD {})
        (paddedDwords h.dwordSize data) h.dwordSize 0 count e
      refine .of_ok rfl ?_
      rw [EngineStep.ok, queued]
      exact running
  · rw [if_pos length]
    exact .halt ..

theorem failsStop_receiveRead (running : e.halted = false) (a : ReadResponse) :
    FailsStop (e.receiveRead a) := by
  unfold receiveRead
  simp only
  split
  · exact .halt ..
  · split
    · exact failsStop_queueRead running ..
    · exact .of_memoryAccess rfl running

theorem failsStop_collectReads (n : Nat) (running : e.halted = false) :
    FailsStop (collectReads n e) := by
  induction n generalizing e with
  | zero => exact .of_ok rfl running
  | succ n ih =>
    unfold collectReads
    split
    · exact .of_disconnected rfl running
    · exact .of_ok rfl running
    · refine FailsStop.andThen (failsStop_receiveRead ?_ _) fun _ still => ih still
      exact running

theorem failsStop_withHeader (h : Header) {send : Flit → EngineStep (Option Flit)}
    (sends : ∀ flit, FailsStop (send flit)) : FailsStop (e.withHeader h send) := by
  unfold withHeader
  split
  · exact (FailsStop.halt ..).after _
  · exact sends _

theorem failsStop_completionBeat (running : e.halted = false) (c : CompletionPacket)
    (header : Option Header) (flit : Flit) (start left : Nat) :
    FailsStop (e.completionBeat c header flit start left) := by
  unfold completionBeat
  simp only
  refine .of_ok rfl ?_
  simp only [EngineStep.ok]
  split
  · exact running
  · exact running

theorem failsStop_mmioBeat (running : e.halted = false) (r : MmioRequest)
    (header : Option Header) (flit : Flit) (start left : Nat) :
    FailsStop (e.mmioBeat r header flit start left) := by
  unfold mmioBeat
  simp only [EngineStep.ok]
  generalize (if r.write then left - min left (e.config.dwordWidth - start) else 0) = rest
  refine .of_ok rfl ?_
  simp only
  split
  · exact running
  · exact running

theorem failsStop_startCompletion (running : e.halted = false) (c : CompletionPacket) :
    FailsStop (e.startCompletion c) := by
  obtain ⟨stalled, random, drawn⟩ := e.drawStall_eq
  unfold startCompletion
  simp only [drawn]
  split
  · exact .of_ok rfl running
  · split
    · exact .halt ..
    · split
      · exact .of_ok rfl running
      · refine failsStop_withHeader _ fun flit => failsStop_completionBeat ?_ ..
        split
        · exact running
        · exact running

theorem failsStop_continueCompletion (running : e.halted = false) (left : Nat) :
    FailsStop (e.continueCompletion left) := by
  obtain ⟨stalled, random, drawn⟩ := e.drawStall_eq
  unfold continueCompletion
  simp only [drawn]
  split
  · exact .of_ok rfl running
  · split
    · exact .of_ok rfl running
    · exact failsStop_completionBeat (e := { e with random := random }) running ..

theorem failsStop_startMmio (running : e.halted = false) (r : MmioRequest) :
    FailsStop (e.startMmio r) := by
  obtain ⟨stalled, random, drawn⟩ := e.drawStall_eq
  unfold startMmio
  simp only [drawn]
  split
  · exact .of_ok rfl running
  · split
    · exact .of_ok rfl running
    · exact failsStop_withHeader _ fun flit => failsStop_mmioBeat (by exact running) ..

theorem failsStop_continueMmio (running : e.halted = false) (left : Nat) :
    FailsStop (e.continueMmio left) := by
  unfold continueMmio
  split
  · exact .of_ok rfl running
  · exact failsStop_mmioBeat running ..

theorem failsStop_elseCompletion (running : e.halted = false) (flit : Option Flit) :
    FailsStop (elseCompletion flit e) := by
  unfold elseCompletion
  split
  · exact failsStop_startCompletion running ..
  · exact .of_ok rfl running

theorem failsStop_sendBeat (running : e.halted = false) : FailsStop e.sendBeat := by
  unfold sendBeat
  split
  · unfold startPacket
    refine FailsStop.andThen ?_ fun flit still => failsStop_elseCompletion still flit
    split
    · exact .of_ok rfl running
    · exact failsStop_startMmio running ..
  · exact failsStop_continueCompletion running ..
  · exact failsStop_continueMmio running ..

theorem failsStop_emit (running : e.halted = false) (cycle : Nat) (ready : Bool) :
    FailsStop (e.emit cycle ready) := by
  unfold emit
  rw [if_neg (by simp [running])]
  refine FailsStop.andThen (failsStop_collectWrites _ running) fun _ written => ?_
  refine FailsStop.andThen (failsStop_collectReads _ written) fun _ read => ?_
  split
  · exact failsStop_sendBeat read
  · exact .of_ok rfl read

end Emit

/-! ## Runs -/

section Run

variable {e : Engine}

theorem balanced_emit (balanced : e.slots.Balanced) (cycle : Nat) (ready : Bool) :
    (e.emit cycle ready).state.slots.Balanced := by
  obtain ⟨released, slots⟩ := (e.takesAnswers_collect cycle).slots
  have collected : (e.collect cycle).state.slots.Balanced := by
    rw [slots]
    exact balanced.releaseAll released
  rw [emit_eq]
  split
  · exact balanced
  · unfold EngineStep.andThen
    split
    · exact collected
    · cases ready with
      | false => exact collected
      | true =>
        obtain ⟨given, state⟩ := onlySent_sendBeat (e.collect cycle).state
        change (e.collect cycle).state.sendBeat.state.slots.Balanced
        rw [state]
        exact collected.releaseAll given

/-- With a mapper the free slots stay the idle ones, whatever is called. -/
theorem balanced_perform (balanced : e.slots.Balanced) (call : Call) :
    (e.perform call).slots.Balanced := by
  cases call with
  | accept cycle flit =>
    by_cases halted : e.halted
    · rw [perform, accept, if_pos halted]
      exact balanced
    · exact (checksFirst_accept flit (eq_false_of_ne_true halted) cycle).balanced balanced
  | ready =>
    rw [perform, ready]
    split
    · exact balanced
    · exact balanced
  | request r =>
    by_cases halted : e.halted
    · rw [perform, request, if_pos halted]
      exact balanced
    · exact (checksFirst_request (eq_false_of_ne_true halted) r).balanced balanced
  | emit cycle ready => exact balanced_emit balanced cycle ready
  | reset => exact balanced
  | serve link => exact balanced

theorem balanced_performAll (balanced : e.slots.Balanced) (calls : List Call) :
    (e.performAll calls).slots.Balanced := by
  induction calls generalizing e with
  | nil => exact balanced
  | cons call calls ih => exact ih (balanced_perform balanced call)

/-- A halted engine answers that it is halted, does nothing and stays as it is. -/
structure Silent (e : Engine) : Prop where
  halted : e.halted = true
  accept : ∀ cycle flit, e.accept cycle flit = ⟨.error .halted, e, []⟩
  request : ∀ r, e.request r = ⟨.error .halted, e, []⟩
  emit : ∀ cycle ready, e.emit cycle ready = ⟨.error .halted, e, []⟩
  ready : e.ready = (false, e)

theorem silent_of_halted (halted : e.halted = true) : e.Silent where
  halted := halted
  accept _ _ := if_pos halted
  request _ := if_pos halted
  emit _ _ := if_pos halted
  ready := if_pos halted

/-- All that can still change: host memory, and the packets in progress, which a reset drops. -/
def OnlyReset (e e' : Engine) : Prop :=
  e' = { e with link := e'.link, fromDevice := e'.fromDevice, toDevice := e'.toDevice }

theorem OnlyReset.trans {e e' e'' : Engine} (first : e.OnlyReset e') (second : e'.OnlyReset e'') :
    e.OnlyReset e'' := by
  unfold OnlyReset at *
  rw [second, first]

theorem Silent.perform (silent : e.Silent) (call : Call) :
    (e.perform call).Silent ∧ e.OnlyReset (e.perform call) := by
  have same {e' : Engine} (state : e' = e) : e'.Silent ∧ e.OnlyReset e' := by
    subst state
    exact ⟨silent, rfl⟩
  cases call with
  | accept cycle flit => exact same (congrArg Step.state (silent.accept cycle flit))
  | ready => exact same (congrArg Prod.snd silent.ready)
  | request r => exact same (congrArg Step.state (silent.request r))
  | emit cycle ready => exact same (congrArg Step.state (silent.emit cycle ready))
  | reset => exact ⟨silent_of_halted silent.halted, rfl⟩
  | serve link => exact ⟨silent_of_halted silent.halted, rfl⟩

/-- Once it is halted, an engine is silent for ever. -/
theorem Silent.performAll (silent : e.Silent) (calls : List Call) :
    (e.performAll calls).Silent ∧ e.OnlyReset (e.performAll calls) := by
  induction calls generalizing e with
  | nil => exact ⟨silent, rfl⟩
  | cons call calls ih =>
    obtain ⟨still, first⟩ := silent.perform call
    obtain ⟨last, rest⟩ := ih still
    exact ⟨last, first.trans rest⟩

/-- What broken rules do to an engine. -/
structure HaltsCleanly (e : Engine) : Prop where
  /-- A refused beat halts the engine and drops the packet in progress; besides that it is only
  reported. -/
  accept : ∀ cycle flit, (e.accept cycle flit).BreaksRule →
    (e.idleAt cycle).Refuses (e.accept cycle flit)
  request : ∀ r, (e.request r).BreaksRule → e.Refuses (e.request r)
  /-- A slot that was taken from the free ones is idle, so no slot is lost to a refusal. -/
  idle : e.slots.mapped → ∀ cycle flit, ¬ (e.accept cycle flit).Blames .dmaTagBusy
  accept_iff : e.halted = false → ∀ cycle flit, FailsStop (e.accept cycle flit)
  request_iff : e.halted = false → ∀ r, FailsStop (e.request r)
  emit_iff : e.halted = false → ∀ cycle ready, FailsStop (e.emit cycle ready)
  ready : e.ready.2.halted = e.halted
  reset : e.reset.halted = e.halted

theorem haltsCleanly_of_balanced (balanced : e.slots.Balanced) : e.HaltsCleanly where
  accept cycle flit broken := by
    by_cases halted : e.halted
    · rw [(silent_of_halted halted).accept] at broken
      obtain ⟨v, c, h, refused⟩ := broken
      cases refused
    · exact (checksFirst_accept flit (eq_false_of_ne_true halted) cycle).refuses broken
  request r broken := by
    by_cases halted : e.halted
    · rw [(silent_of_halted halted).request] at broken
      obtain ⟨v, c, h, refused⟩ := broken
      cases refused
    · exact (checksFirst_request (eq_false_of_ne_true halted) r).refuses broken
  idle mapped cycle flit blames := by
    obtain ⟨tag, refused⟩ := chooseSlot_of_blames_accept rfl blames
    exact not_busy_of_balanced balanced mapped refused
  accept_iff running cycle flit := (checksFirst_accept flit running cycle).failsStop running
  request_iff running r := (checksFirst_request running r).failsStop running
  emit_iff running cycle ready := failsStop_emit running cycle ready
  ready := by
    unfold Engine.ready
    split
    · rfl
    · rfl
  reset := rfl

/-- The engine with or without somebody to take its responses and its interrupts. -/
def withReceivers (e : Engine) (mmio interrupts : Bool) : Engine :=
  { e with mmioAttached := mmio, interruptsAttached := interrupts }

/-- After every run a beat or a request that breaks a rule does nothing but halt the engine, only a
broken rule halts it, and once it is halted it is silent for ever. -/
theorem run_haltsCleanly (config : ValidParameters) (options : Switches) (random : DrawSource)
    (calls : List Call) (mmio interrupts : Bool) :
    let e := (((create config options).withDraws random).performAll calls).withReceivers mmio
      interrupts
    e.HaltsCleanly ∧
      (e.halted = true → ∀ more, (e.performAll more).Silent ∧ e.OnlyReset (e.performAll more)) := by
  intro e
  have start : ((create config options).withDraws random).slots.Balanced :=
    SlotPool.balanced_ofCount config.params.maxDmaReads config.params.tagMapper
  have balanced : e.slots.Balanced := balanced_performAll start calls
  exact ⟨haltsCleanly_of_balanced balanced, fun halted more =>
    (silent_of_halted halted).performAll more⟩

/-- A read of sixteen bits halts a fresh engine. After a reset it is still silent. -/
theorem run_haltsCleanly_narrow_read :
    let r : MmioRequest :=
      { tid := 1, addr := 0x10, widthBits := 16, write := false, slot := 0, data := [] }
    let e := (create ⟨{}, by decide⟩ {}).withReceivers true true
    let halted := (e.performAll [.request r]).withReceivers true true
    (e.request r).BreaksRule ∧ e.Refuses (e.request r) ∧ halted.halted = true ∧
      (halted.performAll [.reset, .request r]).Silent := by
  intro r e halted
  have clean := (run_haltsCleanly ⟨{}, by decide⟩ {} (DrawSource.ofOptions {}) [] true true).1
  have stopped : halted.halted = true := rfl
  have broken := (clean.request_iff rfl r).1 stopped
  have after := (run_haltsCleanly ⟨{}, by decide⟩ {} (DrawSource.ofOptions {}) [.request r] true
    true).2 stopped [.reset, .request r]
  exact ⟨broken, clean.request r broken, stopped, after.1⟩

end Run

end Engine
end TlpBridge
