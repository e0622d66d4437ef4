import TlpBridge.Proofs.ToDevice.FullBandwidth
import TlpBridge.Proofs.Mmio.MmioLog

/-!
# Paced beats

A packet starts only when it may: an MMIO request long enough after the last one, a completion
long enough after a read has taken its slot. An MMIO request that may start goes before every
completion.
-/
namespace TlpBridge

namespace SlotPool

/-- The cycle in which the last read took a slot. -/
def startCycle (s : SlotPool) (slot : Nat) : Nat := ((s.states[slot]?).getD {}).startCycle

theorem startCycle_congr {s s' : SlotPool} (same : s'.states = s.states) (slot : Nat) :
    s'.startCycle slot = s.startCycle slot := by
  rw [startCycle, startCycle, same]

theorem startCycle_release (s : SlotPool) (slot other : Nat) :
    (s.release slot).startCycle other = s.startCycle other := by
  rw [startCycle, release_eq]
  simp only [setBusy, startCycle, Array.getElem?_modify]
  by_cases same : slot = other
  · subst same
    cases s.states[slot]? <;> simp
  · simp [same]

theorem startCycle_releaseAll (s : SlotPool) (slots : List Nat) (other : Nat) :
    (s.releaseAll slots).startCycle other = s.startCycle other := by
  induction slots generalizing s with
  | nil => rfl
  | cons slot slots ih => exact (ih (s.release slot)).trans (s.startCycle_release slot other)

theorem startCycle_occupy (s : SlotPool) (slot cycle : Nat) (request : Header) (other : Nat) :
    (s.occupy slot cycle request).startCycle other =
      if other = slot ∧ slot < s.states.size then cycle else s.startCycle other := by
  simp only [occupy, startCycle, Array.getElem?_modify]
  by_cases same : slot = other
  · subst same
    by_cases inside : slot < s.states.size
    · simp [inside]
    · simp [inside]
  · simp [same, Ne.symm same]

end SlotPool

namespace Engine

variable {e e' : Engine}

/-! ## The clock -/

section Accept

variable (e)

theorem cycle_acceptInterrupt (h : Header) (vector : UInt16) (flit : Flit) :
    (e.acceptInterrupt h vector flit).state.cycle = e.cycle := by
  unfold acceptInterrupt
  split
  · rfl
  · split <;> rfl

theorem cycle_acceptCompletionBeat (p : OpenPacket) (flit : Flit) (start : Nat) :
    (e.acceptCompletionBeat p flit start).state.cycle = e.cycle := by
  unfold acceptCompletionBeat
  split
  · rfl
  · split <;> rfl

theorem cycle_acceptCompletion (h : Header) (c : CompletionBody) (flit : Flit) :
    (e.acceptCompletion h c flit).state.cycle = e.cycle := by
  unfold acceptCompletion
  split
  · rfl
  · split
    · rfl
    · exact e.cycle_acceptCompletionBeat ..

theorem cycle_acceptWriteBeat (p : OpenPacket) (flit : Flit) (start : Nat) :
    (e.acceptWriteBeat p flit start).state.cycle = e.cycle := by
  unfold acceptWriteBeat
  split
  · rfl
  · split
    · unfold submitWrite
      simp only
      split <;> rfl
    · rfl

theorem cycle_acceptWrite (h : Header) (r : RequestBody) (flit : Flit) :
    (e.acceptWrite h r flit).state.cycle = e.cycle := by
  unfold acceptWrite
  split
  · rfl
  · exact e.cycle_acceptWriteBeat ..

theorem cycle_acceptRead (h : Header) (r : RequestBody) (flit : Flit) :
    (e.acceptRead h r flit).state.cycle = e.cycle := by
  rcases e.acceptRead_cases h r flit with refuses | ⟨slot, slots, admits⟩
  · rw [refuses.state]
  · rw [acceptRead_of_admits admits]
    unfold submitRead
    simp only
    split <;> rfl

theorem cycle_dispatch (h : Header) (flit : Flit) :
    (e.dispatch h flit).state.cycle = e.cycle := by
  unfold dispatch
  split
  · exact e.cycle_acceptInterrupt ..
  · exact e.cycle_acceptCompletion ..
  · split
    · exact e.cycle_acceptWrite ..
    · exact e.cycle_acceptRead ..
  · rfl

variable {e}

/-- A beat of the device sets the clock. -/
theorem cycle_accept (running : e.halted = false) (cycle : Nat) (flit : Flit) :
    (e.accept cycle flit).state.cycle = cycle := by
  unfold accept
  rw [if_neg (by simp [running])]
  cases e.fromDevice with
  | start =>
    simp only [acceptStart]
    split
    · rfl
    · exact cycle_dispatch (e.idleAt cycle) ..
  | completion p => exact cycle_acceptCompletionBeat (e.idleAt cycle) ..
  | write p => exact cycle_acceptWriteBeat (e.idleAt cycle) ..

end Accept

/-- What paces the beats to the device, but for the slots: when the last MMIO request was started,
and whether reads are held back. -/
structure SamePace (e e' : Engine) : Prop where
  lastMmioCycle : e'.lastMmioCycle = e.lastMmioCycle
  options : e'.options = e.options

theorem Accepts.samePace (accepts : e.Accepts e') : e.SamePace e' := by
  cases accepts with
  | quiet state => exact ⟨by rw [state], by rw [state]⟩
  | write w sent state => exact ⟨by rw [state], by rw [state]⟩
  | read r slot slots stored body completable pool sent state =>
    exact ⟨by rw [state], by rw [state]⟩

theorem samePace_ready (e : Engine) : e.SamePace e.ready.2 ∧ e.ready.2.slots = e.slots := by
  unfold ready
  split
  · exact ⟨⟨rfl, rfl⟩, rfl⟩
  · exact ⟨⟨rfl, rfl⟩, rfl⟩

theorem samePace_request (e : Engine) (r : MmioRequest) :
    e.SamePace (e.request r).state ∧ (e.request r).state.slots = e.slots := by
  unfold request
  split
  · exact ⟨⟨rfl, rfl⟩, rfl⟩
  · cases e.requestFault? r with
    | some v => exact ⟨⟨rfl, rfl⟩, rfl⟩
    | none => exact ⟨⟨rfl, rfl⟩, rfl⟩

theorem samePace_collect (e : Engine) (cycle : Nat) : e.SamePace (e.collect cycle).state := by
  have only := e.onlyCollected_collect cycle
  unfold OnlyCollected at only
  exact ⟨by rw [only], by rw [only]⟩

/-- A read takes a slot in the cycle of its beat; no other beat touches a slot. -/
theorem startCycle_accept (running : e.halted = false) (cycle : Nat) (flit : Flit) (slot : Nat) :
    (e.accept cycle flit).state.slots.startCycle slot = e.slots.startCycle slot ∨
      (e.accept cycle flit).state.slots.startCycle slot = cycle := by
  have accepts := e.accept_accepts cycle flit
  have clock := cycle_accept running cycle flit
  generalize (e.accept cycle flit).state = e' at accepts clock ⊢
  cases accepts with
  | quiet state => exact .inl (by rw [state])
  | write w sent state => exact .inl (by rw [state])
  | read r taken slots stored body completable pool sent state =>
    rw [state, ← clock]
    change (slots.occupy taken e'.cycle stored).startCycle slot = _ ∨
      (slots.occupy taken e'.cycle stored).startCycle slot = _
    rw [SlotPool.startCycle_occupy, SlotPool.startCycle_congr pool]
    split
    · exact .inr rfl
    · exact .inl rfl

theorem OnlySent.startCycle (only : e.OnlySent e') (slot : Nat) :
    e'.slots.startCycle slot = e.slots.startCycle slot := by
  obtain ⟨released, state⟩ := only
  rw [state]
  exact e.slots.startCycle_releaseAll released slot

theorem OnlySent.options (only : e.OnlySent e') : e'.options = e.options := by
  obtain ⟨released, state⟩ := only
  rw [state]

theorem startCycle_collect (e : Engine) (cycle slot : Nat) :
    (e.collect cycle).state.slots.startCycle slot = e.slots.startCycle slot := by
  obtain ⟨released, slots⟩ := (e.takesAnswers_collect cycle).slots
  rw [slots]
  exact e.slots.startCycle_releaseAll released slot

/-- A read enters a slot that there is. -/
theorem Orderly.slot_of_takesRead (orderly : e.Orderly) {flit : Flit} {h : Header}
    {r : RequestBody} {slot : Nat} {slots : SlotPool}
    (takes : e.TakesRead e' flit h r slot slots) : slot < e.slots.states.size ∧
      slots.states = e.slots.states ∧ (UInt16.ofNat slot).toNat = slot := by
  obtain ⟨-, -, -, -, tag⟩ := Parameters.rules_of_legal takes.rules
  obtain ⟨-, inside, states, -⟩ :=
    chooseSlot_spec orderly.free (orderly.states ▸ tag) takes.chosen
  have limit := (e.config.legal.limits .maxDmaReads).2
  change e.params.maxDmaReads ≤ 1024 at limit
  refine ⟨inside, states, ?_⟩
  rw [orderly.states] at inside
  rw [UInt16.toNat_ofNat']
  omega

/-- A beat of the device asks for no read, or it is one. -/
theorem accept_posts (e : Engine) (cycle : Nat) (flit : Flit) :
    e.link.postedReads (e.accept cycle flit).state.link = [] ∨
      ∃ h r slot slots, e.TakesRead (e.accept cycle flit).state flit h r slot slots := by
  by_cases attached : e.link.engineAttached ∧ e.link.serviceAttached
  · exact (e.accept_cases cycle flit attached).imp_left And.right
  · left
    have detached (r : MemoryRequest) : e.link.send r = none := if_neg attached
    have accepts := e.accept_accepts cycle flit
    generalize (e.accept cycle flit).state = e' at accepts ⊢
    cases accepts with
    | quiet state =>
      rw [state]
      exact MemoryLink.postedReads_self _
    | write w sent => cases (detached _).symm.trans sent
    | read r slot slots stored body completable pool sent =>
      rcases sent with same | posted
      · rw [same]
        exact MemoryLink.postedReads_self _
      · cases (detached _).symm.trans posted

/-! ## What may start -/

/-- The last MMIO request was started long enough ago. -/
def Spaced (e : Engine) : Prop := ∀ last, e.lastMmioCycle = some last → last + mmioSpacing ≤ e.cycle

theorem spaced_iff (e : Engine) :
    e.Spaced ↔ ¬ e.lastMmioCycle.any fun last => e.cycle - last < mmioSpacing := by
  have spacing : mmioSpacing = 63 := rfl
  unfold Spaced
  cases e.lastMmioCycle with
  | none => simp
  | some last =>
    simp only [Option.some.injEq, forall_eq', Option.any_some, decide_eq_true_eq]
    omega

/-- What asking for a beat comes to, as far as time is concerned. -/
inductive Paces (e : Engine) (s : EngineStep (Option Flit)) : Prop where
  | silent (none_ : ∀ f, s.answer ≠ .ok (some f)) (last : s.state.lastMmioCycle = e.lastMmioCycle)
  | goesOn (inside : e.toDevice ≠ .start) (last : s.state.lastMmioCycle = e.lastMmioCycle)
  /-- The last MMIO request was started long enough ago. -/
  | mmio (f : Flit) (r : MmioRequest) (sent : s.answer = .ok (some f))
    (between : e.toDevice = .start) (header : f.header = .ok (r.header e.params))
    (spaced : e.Spaced) (last : s.state.lastMmioCycle = some e.cycle)
  /-- The read in the slot of the completion is old enough. -/
  | completion (f : Flit) (c : CompletionPacket) (request : Header)
    (sent : s.answer = .ok (some f)) (between : e.toDevice = .start)
    (first : e.completions.front? = some c) (stored : e.slots.request? c.slot = some request)
    (header : f.header = .ok (c.header request))
    (aged : e.options.unlimitedBandwidth = false →
      e.slots.startCycle c.slot + minReadLatency ≤ e.cycle)
    (last : s.state.lastMmioCycle = e.lastMmioCycle)

theorem Paces.after {s : EngineStep (Option Flit)} (paces : e.Paces s) (effects : List Effect) :
    e.Paces (s.after effects) := by
  cases paces with
  | silent none_ last => exact .silent none_ last
  | goesOn inside last => exact .goesOn inside last
  | mmio f r sent between header spaced last =>
    exact .mmio f r sent between header spaced last
  | completion f c request sent between first stored header aged last =>
    exact .completion f c request sent between first stored header aged last

/-- A draw before a beat makes no difference. -/
theorem Paces.of_draw {random : DrawSource} {s : EngineStep (Option Flit)}
    (paces : { e with random := random }.Paces s) : e.Paces s := by
  cases paces with
  | silent none_ last => exact .silent none_ last
  | goesOn inside last => exact .goesOn inside last
  | mmio f r sent between header spaced last =>
    exact .mmio f r sent between header spaced last
  | completion f c request sent between first stored header aged last =>
    exact .completion f c request sent between first stored header aged last

theorem lastMmioCycle_mmioBeat (e : Engine) (r : MmioRequest) (header : Option Header)
    (flit : Flit) (start left : Nat) :
    (e.mmioBeat r header flit start left).state.lastMmioCycle = e.lastMmioCycle := by
  unfold mmioBeat
  simp only [EngineStep.ok]
  generalize (if r.write then left - min left (e.config.dwordWidth - start) else 0) = rest
  split
  · rfl
  · rfl

theorem continueMmio_paces (e : Engine) {left : Nat} (inside : e.toDevice = .mmio left) :
    e.Paces (e.continueMmio left) := by
  refine .goesOn (by rw [inside]; exact fun start => nomatch start) ?_
  unfold continueMmio
  split
  · rfl
  · exact lastMmioCycle_mmioBeat ..

theorem lastMmioCycle_completionBeat (e : Engine) (c : CompletionPacket) (header : Option Header)
    (flit : Flit) (start left : Nat) :
    (e.completionBeat c header flit start left).state.lastMmioCycle = e.lastMmioCycle := by
  unfold completionBeat
  simp only [EngineStep.ok]
  split
  · rfl
  · rfl

theorem continueCompletion_paces (e : Engine) {left : Nat}
    (inside : e.toDevice = .completion left) : e.Paces (e.continueCompletion left) := by
  obtain ⟨stalled, random, drawn⟩ := e.drawStall_eq
  refine .goesOn (by rw [inside]; exact fun start => nomatch start) ?_
  unfold continueCompletion
  simp only [drawn]
  split
  · rfl
  · split
    · rfl
    · exact lastMmioCycle_completionBeat ..

/-- An MMIO request that passes both gates is started, if its header can be encoded. -/
theorem startMmio_of_passed (e : Engine) (r : MmioRequest) (spaced : e.Spaced)
    (passed : e.drawStall.1 = false) :
    (∃ cause fault, (r.header e.params).fault? = some cause ∧
      (e.startMmio r).answer = .error fault ∧
      (e.startMmio r).state.lastMmioCycle = e.lastMmioCycle) ∨
    ∃ f, (e.startMmio r).answer = .ok (some f) ∧ f.header = .ok (r.header e.params) ∧
      (e.startMmio r).state.lastMmioCycle = some e.cycle := by
  obtain ⟨stalled, random, drawn⟩ := e.drawStall_eq
  obtain rfl : stalled = false := by rwa [drawn] at passed
  let e₁ : Engine := { e with random := random }
  have start : e.startMmio r = e₁.withHeader (r.header e.params) fun flit =>
      { e₁ with lastMmioCycle := some e.cycle }.mmioBeat r (some (r.header e.params)) flit
        HeaderWords.count (r.byteSize / 4) := by
    unfold startMmio
    rw [if_neg (e.spaced_iff.1 spaced), drawn]
    rfl
  rw [start, withHeader]
  cases fault : (r.header e.params).fault? with
  | some cause =>
    have store : e₁.blankFlit.storeHeader (r.header e.params) = .error cause :=
      (Flit.storeHeader_eq_error_iff ..).2 fault
    simp only [store]
    exact .inl ⟨cause, _, rfl, rfl, rfl⟩
  | none =>
    have known : (r.header e.params).fmtType.kind?.isSome := by
      rw [kind?_mmioHeader]
      rfl
    obtain ⟨flit, store, shown, width⟩ := e₁.storeHeader_blankFlit known fault
    have timed := lastMmioCycle_mmioBeat { e₁ with lastMmioCycle := some e.cycle } r
      (some (r.header e.params)) flit HeaderWords.count (r.byteSize / 4)
    obtain ⟨f, e', effects, sent, -, header⟩ := mmioBeat_spec
      { e₁ with lastMmioCycle := some e.cycle } r (some (r.header e.params)) flit
      HeaderWords.count (r.byteSize / 4) width
    simp only [store]
    refine .inr ⟨f, ?_, (header (Nat.le_refl _)).trans shown, timed⟩
    rw [sent]
    rfl

/-- An MMIO request that does not pass both gates stays where it is. -/
theorem startMmio_of_held (e : Engine) (r : MmioRequest)
    (held : ¬ (e.Spaced ∧ e.drawStall.1 = false)) :
    ∃ random, e.startMmio r = .ok { e with random := random } none := by
  obtain ⟨stalled, random, drawn⟩ := e.drawStall_eq
  unfold startMmio
  by_cases spaced : e.Spaced
  · have refused : stalled = true := by
      rw [drawn] at held
      simpa [spaced] using held
    rw [if_neg (e.spaced_iff.1 spaced), drawn, refused]
    exact ⟨random, rfl⟩
  · rw [if_pos (not_not.1 (mt e.spaced_iff.2 spaced))]
    exact ⟨e.random, rfl⟩

/-- An MMIO request that passes both gates goes before every completion. -/
theorem startPacket_of_passed (e : Engine) {r : MmioRequest} (first : e.mmioQueue.head? = some r)
    (spaced : e.Spaced) (passed : e.drawStall.1 = false) :
    (∃ cause fault, (r.header e.params).fault? = some cause ∧
      e.startPacket.answer = .error fault ∧
      e.startPacket.state.lastMmioCycle = e.lastMmioCycle) ∨
    ∃ f, e.startPacket.answer = .ok (some f) ∧ f.header = .ok (r.header e.params) ∧
      e.startPacket.state.lastMmioCycle = some e.cycle := by
  obtain ⟨rest, queue⟩ := List.head?_eq_some_iff.1 first
  have start : e.startPacket = (e.startMmio r).andThen elseCompletion := by
    simp only [startPacket, queue]
  rw [start, EngineStep.andThen]
  rcases e.startMmio_of_passed r spaced passed with
    ⟨cause, fault, refused, failed, last⟩ | ⟨f, sent, header, last⟩
  · simp only [failed]
    exact .inl ⟨cause, fault, refused, rfl, last⟩
  · simp only [sent]
    exact .inr ⟨f, rfl, header, last⟩

/-- The gate before the start of a completion. -/
theorem startCompletion_paces (e : Engine) {c : CompletionPacket} (stocked : e.Stocked)
    (between : e.toDevice = .start) (first : e.completions.front? = some c) :
    e.Paces (e.startCompletion c) := by
  obtain ⟨stalled, random, drawn⟩ := e.drawStall_eq
  have filled := stocked.completions c (List.mem_of_head? first)
  unfold startCompletion
  simp only [drawn]
  cases stalled with
  | true => exact .silent (fun f sent => nomatch sent) rfl
  | false =>
    simp only [Bool.false_eq_true, if_false]
    split
    · exact .silent (fun f sent => nomatch sent) rfl
    · next request taken =>
      have stored : e.slots.request? c.slot = some request := by
        unfold SlotPool.request?
        cases state : e.slots.states[c.slot]? with
        | none => simp [state] at taken
        | some s => simpa [state] using taken
      split
      · exact .silent (fun f sent => nomatch sent) rfl
      · next old =>
        obtain ⟨body, completable⟩ := stocked.requests c.slot request stored
        have known : (c.header request).fmtType.kind?.isSome := by
          change FmtType.completionData.kind?.isSome
          decide
        generalize released : (if c.isLast = true then
          { e with random := random, slots := e.slots.release c.slot }
          else { e with random := random }) = e₁
        have same : e₁.lastMmioCycle = e.lastMmioCycle := by
          rw [← released]
          split <;> rfl
        obtain ⟨flit, store, shown, width⟩ :=
          e₁.storeHeader_blankFlit known (filled.encodable.fault?_header completable)
        obtain ⟨f, e', effects, sent, beat, header⟩ := e₁.completionBeat_spec c
          (some (c.header request)) flit HeaderWords.count c.dwordSize width filled.data
          (Nat.le_refl _)
        simp only [withHeader, store, sent]
        refine .completion f c request rfl between first stored
          ((header (Nat.le_refl _)).trans shown) (fun limited => ?_)
          (by rw [beat.state]; exact same)
        change ¬ (e.cycle - e.slots.startCycle c.slot < minReadLatency ∧
          ¬ e.options.unlimitedBandwidth) at old
        rw [limited] at old
        have latency : minReadLatency = 250 := rfl
        simp only [Bool.false_eq_true, not_false_eq_true, and_true] at old
        omega

theorem elseCompletion_paces (e : Engine) (stocked : e.Stocked) (between : e.toDevice = .start) :
    e.Paces (elseCompletion none e) := by
  unfold elseCompletion
  cases first : e.completions.front? with
  | none => exact .silent (fun f sent => nomatch sent) rfl
  | some c => exact e.startCompletion_paces stocked between first

theorem startPacket_paces (e : Engine) (stocked : e.Stocked) (between : e.toDevice = .start) :
    e.Paces e.startPacket := by
  cases queue : e.mmioQueue with
  | nil =>
    have start : e.startPacket = (elseCompletion none e).after [] := by
      simp only [startPacket, queue]
      rfl
    rw [start]
    exact (e.elseCompletion_paces stocked between).after []
  | cons r rest =>
    by_cases passed : e.Spaced ∧ e.drawStall.1 = false
    · have first : e.mmioQueue.head? = some r := by rw [queue]; rfl
      rcases e.startPacket_of_passed first passed.1 passed.2 with
        ⟨cause, fault, -, failed, last⟩ | ⟨f, sent, header, last⟩
      · exact .silent (fun f sent => by rw [failed] at sent; cases sent) last
      · exact .mmio f r sent between header passed.1 last
    · obtain ⟨random, held⟩ := e.startMmio_of_held r passed
      have start : e.startPacket = (elseCompletion none { e with random := random }).after [] := by
        simp only [startPacket, queue, held]
        rfl
      rw [start]
      have drawn : Engine.Stocked { e with random := random } :=
        ⟨stocked.mmio, stocked.completions, stocked.requests⟩
      exact (Paces.of_draw (elseCompletion_paces _ drawn between)).after []

theorem sendBeat_paces (e : Engine) (stocked : e.Stocked) : e.Paces e.sendBeat := by
  unfold sendBeat
  cases toDevice : e.toDevice with
  | start => exact e.startPacket_paces stocked toDevice
  | completion left => exact e.continueCompletion_paces toDevice
  | mmio left => exact e.continueMmio_paces toDevice

end Engine

end TlpBridge
