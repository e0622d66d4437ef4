import TlpBridge.Proofs.ToDevice.FramedRuns
import TlpBridge.Proofs.Reads.TakenAnswers

/-!
# Orderly runs

Whatever the device, the host and host memory do, with resets at any time, the engine keeps as many
slots as it was made with, what it sends stands at the head of its queue, and what it takes from the
device answers a slot that exists.
-/
namespace TlpBridge

theorem OpenPacket.header_extend {p p' : OpenPacket} {flit : Flit} {start total : Nat}
    {kind : DevicePacket} (extended : p.extend flit start total kind = .ok p') :
    p'.header = p.header := by
  unfold extend at extended
  simp only at extended
  split at extended
  · split at extended
    · cases extended
    · rw [← Except.ok.inj extended]
  · split at extended
    · rw [← Except.ok.inj extended]
    · cases extended

theorem SlotPool.freeExist_occupy {s : SlotPool} (h : s.FreeExist) (slot cycle : Nat)
    (request : Header) : (s.occupy slot cycle request).FreeExist := by
  intro k member
  rw [size_occupy]
  exact h k member

theorem SlotPool.size_releaseAll (s : SlotPool) (slots : List Nat) :
    (s.releaseAll slots).states.size = s.states.size := by
  induction slots generalizing s with
  | nil => rfl
  | cons slot slots ih => exact (ih (s.release slot)).trans (s.size_release slot)

theorem SlotPool.freeExist_releaseAll {s : SlotPool} (h : s.FreeExist) (slots : List Nat) :
    (s.releaseAll slots).FreeExist := by
  induction slots generalizing s with
  | nil => exact h
  | cons slot slots ih => exact ih (freeExist_release h slot)

namespace Engine

theorem freeExist_chooseSlot {s s' : SlotPool} {tag slot : Nat} (free : s.FreeExist)
    (chosen : chooseSlot s tag = .ok (slot, s')) : s'.FreeExist := by
  rcases chooseSlot_cases chosen with ⟨-, -, rest, top, rfl⟩ | ⟨-, -, -, rfl⟩
  · intro k member
    exact free k (by rw [top]; exact List.mem_cons_of_mem _ member)
  · exact free

/-- A call of the engine, or what host memory does between two calls. -/
inductive Call where
  /-- The device sends a beat. -/
  | accept (cycle : Nat) (flit : Flit)
  /-- The device asks whether its next beat will be taken. -/
  | ready
  /-- The host asks for an access to the device. -/
  | request (r : MmioRequest)
  /-- A cycle in which the device may be ready for a beat. -/
  | emit (cycle : Nat) (ready : Bool)
  | reset
  /-- Host memory takes requests and posts answers of any kind. -/
  | serve (link : MemoryLink)

/-- The engine that a call leaves. -/
def perform (e : Engine) : Call → Engine
  | .accept cycle flit => (e.accept cycle flit).state
  | .ready => e.ready.2
  | .request r => (e.request r).state
  | .emit cycle ready => (e.emit cycle ready).state
  | .reset => e.reset
  | .serve link => { e with link := link }

/-- The engine after a run of calls. -/
def performAll (e : Engine) (calls : List Call) : Engine := calls.foldl perform e

/-- The completion of which the device has sent a part answers a slot. -/
def Answering (e : Engine) : Prop :=
  ∀ p, e.fromDevice = .completion p → p.header.tag.toNat < e.params.maxMmioReads

/-- What holds of an engine between two calls. -/
structure Orderly (e : Engine) : Prop where
  stocked : e.Stocked
  place : e.toDevice = .start ∨ e.InPacket
  mmioReads : e.mmioReads.size = e.params.maxMmioReads
  states : e.slots.states.size = e.params.maxDmaReads
  free : e.slots.FreeExist
  answering : e.Answering

/-- There are as many slots as before, and the free ones and the one that the device answers
exist if they did. -/
structure KeepsSlots (e e' : Engine) : Prop where
  config : e'.config = e.config
  mmioReads : e'.mmioReads.size = e.mmioReads.size
  states : e'.slots.states.size = e.slots.states.size
  free : e.slots.FreeExist → e'.slots.FreeExist
  answering : e.Answering → e'.Answering

variable {e e' e'' : Engine}

namespace KeepsSlots

theorem trans (first : e.KeepsSlots e') (second : e'.KeepsSlots e'') : e.KeepsSlots e'' where
  config := second.config.trans first.config
  mmioReads := second.mmioReads.trans first.mmioReads
  states := second.states.trans first.states
  free h := second.free (first.free h)
  answering h := second.answering (first.answering h)

theorem of_eq (config : e'.config = e.config) (mmioReads : e'.mmioReads = e.mmioReads)
    (slots : e'.slots = e.slots) (fromDevice : e'.fromDevice = e.fromDevice) :
    e.KeepsSlots e' where
  config := config
  mmioReads := congrArg Array.size mmioReads
  states := congrArg (·.states.size) slots
  free h := slots ▸ h
  answering h p inside := by
    rw [params, config]
    exact h p (fromDevice.symm.trans inside)

theorem refl (e : Engine) : e.KeepsSlots e := .of_eq rfl rfl rfl rfl

end KeepsSlots

/-! ## Beats of the device -/

theorem keepsSlots_haltOn (h : Option Header) (flit : Flit) (v : Violation) :
    e.KeepsSlots (e.haltOn (α := Unit) h flit v).state :=
  .of_eq rfl rfl rfl rfl

section Accept

variable (e)

theorem keepsSlots_acceptInterrupt (h : Header) (vector : UInt16) (flit : Flit) :
    e.KeepsSlots (e.acceptInterrupt h vector flit).state := by
  unfold acceptInterrupt
  split
  · exact keepsSlots_haltOn ..
  · split
    · exact keepsSlots_haltOn ..
    · exact .refl e

theorem keepsSlots_acceptCompletionBeat {p : OpenPacket} (flit : Flit) (start : Nat)
    (inRange : p.header.tag.toNat < e.params.maxMmioReads) :
    e.KeepsSlots (e.acceptCompletionBeat p flit start).state := by
  unfold acceptCompletionBeat
  cases extended : p.extend flit start (p.header.byteSize.toNat / 4) .mmioCompletion with
  | error v => exact keepsSlots_haltOn ..
  | ok p' =>
    simp only
    split
    · exact ⟨rfl, Array.size_setIfInBounds .., rfl, id, id⟩
    · refine ⟨rfl, rfl, rfl, id, fun _ p'' inside => ?_⟩
      rw [← FromDeviceState.completion.inj inside, OpenPacket.header_extend extended]
      exact inRange

theorem keepsSlots_acceptCompletion (h : Header) (c : CompletionBody) (flit : Flit) :
    e.KeepsSlots (e.acceptCompletion h c flit).state := by
  unfold acceptCompletion
  split
  · exact keepsSlots_haltOn ..
  · split
    · exact keepsSlots_haltOn ..
    · next kept =>
      refine keepsSlots_acceptCompletionBeat e (p := ⟨h, []⟩) flit _ ?_
      by_contra outside
      unfold completionFault? at kept
      rw [if_pos (Nat.le_of_not_lt outside)] at kept
      cases kept

theorem keepsSlots_acceptWriteBeat (p : OpenPacket) (flit : Flit) (start : Nat) :
    e.KeepsSlots (e.acceptWriteBeat p flit start).state := by
  unfold acceptWriteBeat
  split
  · exact keepsSlots_haltOn ..
  · split
    · unfold submitWrite
      simp only
      split
      · exact .refl e
      · exact .of_eq rfl rfl rfl rfl
    · exact ⟨rfl, rfl, rfl, id, fun _ _ inside => nomatch inside⟩

theorem keepsSlots_acceptWrite (h : Header) (r : RequestBody) (flit : Flit) :
    e.KeepsSlots (e.acceptWrite h r flit).state := by
  unfold acceptWrite
  split
  · exact keepsSlots_haltOn ..
  · exact keepsSlots_acceptWriteBeat ..

theorem keepsSlots_acceptRead (h : Header) (r : RequestBody) (flit : Flit) :
    e.KeepsSlots (e.acceptRead h r flit).state := by
  unfold acceptRead
  split
  · exact keepsSlots_haltOn ..
  · simp only
    split
    · exact keepsSlots_haltOn ..
    · split
      · exact keepsSlots_haltOn ..
      · next slot slots chosen =>
        have taken (cycle : Nat) (stored : Header) :
            e.KeepsSlots { e with slots := slots.occupy slot cycle stored } := by
          refine ⟨rfl, rfl, ?_, fun free => ?_, id⟩
          · rw [SlotPool.size_occupy, states_chooseSlot chosen]
          · exact SlotPool.freeExist_occupy (freeExist_chooseSlot free chosen) slot cycle stored
        unfold submitRead
        simp only
        split
        · exact taken ..
        · exact (taken ..).trans (.of_eq rfl rfl rfl rfl)

theorem keepsSlots_dispatch (h : Header) (flit : Flit) :
    e.KeepsSlots (e.dispatch h flit).state := by
  unfold dispatch
  split
  · exact keepsSlots_acceptInterrupt ..
  · exact keepsSlots_acceptCompletion ..
  · split
    · exact keepsSlots_acceptWrite ..
    · exact keepsSlots_acceptRead ..
  · exact keepsSlots_haltOn ..

/-- A beat of the device. -/
theorem keepsSlots_accept (answering : e.Answering) (cycle : Nat) (flit : Flit) :
    e.KeepsSlots (e.accept cycle flit).state := by
  have idle : e.KeepsSlots (e.idleAt cycle) :=
    ⟨rfl, rfl, rfl, id, fun _ _ inside => nomatch inside⟩
  unfold accept
  split
  · exact .refl e
  · cases fromDevice : e.fromDevice with
    | completion p =>
      exact idle.trans ((e.idleAt cycle).keepsSlots_acceptCompletionBeat flit 0
        (answering p fromDevice))
    | write p => exact idle.trans ((e.idleAt cycle).keepsSlots_acceptWriteBeat p flit 0)
    | start =>
      simp only [acceptStart]
      split
      · exact idle.trans (keepsSlots_haltOn ..)
      · exact idle.trans ((e.idleAt cycle).keepsSlots_dispatch ..)

end Accept

/-! ## The other calls -/

theorem keepsSlots_ready (e : Engine) : e.KeepsSlots e.ready.2 := by
  unfold ready
  split
  · exact .refl e
  · exact .of_eq rfl rfl rfl rfl

theorem keepsSlots_request (e : Engine) (r : MmioRequest) :
    e.KeepsSlots (e.request r).state := by
  unfold request
  split
  · exact .refl e
  · split
    · exact .of_eq rfl rfl rfl rfl
    · refine ⟨rfl, ?_, rfl, id, id⟩
      simp only [EngineStep.ok]
      split
      · rfl
      · exact Array.size_setIfInBounds ..

/-- Taking answers at most gives slots back. -/
theorem keepsSlots_collect (e : Engine) (cycle : Nat) :
    e.KeepsSlots (e.collect cycle).state := by
  have only := e.onlyCollected_collect cycle
  obtain ⟨released, slots⟩ := (e.takesAnswers_collect cycle).slots
  generalize (e.collect cycle).state = e' at only slots ⊢
  refine ⟨only.config, ?_, ?_, fun free => ?_, fun answering p inside => ?_⟩
  · rw [only]
  · rw [slots, SlotPool.size_releaseAll]
  · rw [slots]
    exact SlotPool.freeExist_releaseAll free released
  · rw [params, only.config]
    exact answering p (only.fromDevice.symm.trans inside)

/-- What sending a beat changes: the side of the device and that of host memory stay, and slots are
at most given back. -/
def OnlySent (e e' : Engine) : Prop :=
  ∃ released, e' = { e with
    random := e'.random
    halted := e'.halted
    toDevice := e'.toDevice
    mmioQueue := e'.mmioQueue
    lastMmioCycle := e'.lastMmioCycle
    slots := e.slots.releaseAll released
    completions := e'.completions }

namespace OnlySent

theorem refl (e : Engine) : e.OnlySent e := ⟨[], rfl⟩

theorem trans (first : e.OnlySent e') (second : e'.OnlySent e'') : e.OnlySent e'' := by
  obtain ⟨released, before⟩ := first
  obtain ⟨more, after⟩ := second
  refine ⟨released ++ more, ?_⟩
  rw [SlotPool.releaseAll_append, after, before]

theorem mmioAttached (only : e.OnlySent e') : e'.mmioAttached = e.mmioAttached := by
  obtain ⟨released, state⟩ := only
  rw [state]

theorem mmioReads (only : e.OnlySent e') : e'.mmioReads = e.mmioReads := by
  obtain ⟨released, state⟩ := only
  rw [state]

theorem fromDevice (only : e.OnlySent e') : e'.fromDevice = e.fromDevice := by
  obtain ⟨released, state⟩ := only
  rw [state]

theorem keepsSlots (only : e.OnlySent e') : e.KeepsSlots e' := by
  obtain ⟨released, state⟩ := only
  rw [state]
  exact ⟨rfl, rfl, SlotPool.size_releaseAll .., fun free =>
    SlotPool.freeExist_releaseAll free released, id⟩

end OnlySent

section Send

variable (e)

theorem onlySent_withHeader (h : Header) {send : Flit → EngineStep (Option Flit)}
    (sends : ∀ flit, e.OnlySent (send flit).state) : e.OnlySent (e.withHeader h send).state := by
  unfold withHeader
  split
  · exact ⟨[], rfl⟩
  · exact sends _

theorem onlySent_completionBeat (c : CompletionPacket) (header : Option Header) (flit : Flit)
    (start left : Nat) : e.OnlySent (e.completionBeat c header flit start left).state := by
  unfold completionBeat
  simp only [EngineStep.ok]
  split
  · exact ⟨[], rfl⟩
  · exact ⟨[], rfl⟩

theorem onlySent_startCompletion (c : CompletionPacket) :
    e.OnlySent (e.startCompletion c).state := by
  obtain ⟨stalled, random, drawn⟩ := e.drawStall_eq
  have drew : e.OnlySent { e with random := random } := ⟨[], rfl⟩
  unfold startCompletion
  simp only [drawn]
  split
  · exact drew
  · split
    · exact ⟨[], rfl⟩
    · split
      · exact drew
      · generalize released : (if c.isLast = true then
          { e with random := random, slots := e.slots.release c.slot }
          else { e with random := random }) = e₁
        have gave : e.OnlySent e₁ := by
          rw [← released]
          split
          · exact ⟨[c.slot], rfl⟩
          · exact drew
        exact gave.trans (onlySent_withHeader _ _ fun flit => onlySent_completionBeat ..)

theorem onlySent_continueCompletion (left : Nat) :
    e.OnlySent (e.continueCompletion left).state := by
  obtain ⟨stalled, random, drawn⟩ := e.drawStall_eq
  have drew : e.OnlySent { e with random := random } := ⟨[], rfl⟩
  unfold continueCompletion
  simp only [drawn]
  split
  · exact drew
  · split
    · exact ⟨[], rfl⟩
    · exact drew.trans (onlySent_completionBeat ..)

theorem onlySent_mmioBeat (r : MmioRequest) (header : Option Header) (flit : Flit)
    (start left : Nat) : e.OnlySent (e.mmioBeat r header flit start left).state := by
  unfold mmioBeat
  simp only [EngineStep.ok]
  generalize (if r.write then left - min left (e.config.dwordWidth - start) else 0) = rest
  split
  · exact ⟨[], rfl⟩
  · exact ⟨[], rfl⟩

theorem onlySent_startMmio (r : MmioRequest) : e.OnlySent (e.startMmio r).state := by
  obtain ⟨stalled, random, drawn⟩ := e.drawStall_eq
  have drew : e.OnlySent { e with random := random } := ⟨[], rfl⟩
  unfold startMmio
  simp only [drawn]
  split
  · exact .refl e
  · split
    · exact drew
    · refine drew.trans (onlySent_withHeader _ _ fun flit => ?_)
      have timed : Engine.OnlySent { e with random := random }
          { e with random := random, lastMmioCycle := some e.cycle } := ⟨[], rfl⟩
      exact timed.trans (onlySent_mmioBeat ..)

theorem onlySent_continueMmio (left : Nat) : e.OnlySent (e.continueMmio left).state := by
  unfold continueMmio
  split
  · exact ⟨[], rfl⟩
  · exact onlySent_mmioBeat ..

theorem onlySent_elseCompletion (flit : Option Flit) :
    e.OnlySent (elseCompletion flit e).state := by
  unfold elseCompletion
  split
  · exact onlySent_startCompletion ..
  · exact .refl e

variable {e} in
theorem OnlySent.andThen {s : EngineStep (Option Flit)}
    {f : Option Flit → Engine → EngineStep (Option Flit)} (first : e.OnlySent s.state)
    (second : ∀ flit, s.state.OnlySent (f flit s.state).state) :
    e.OnlySent (s.andThen f).state := by
  unfold EngineStep.andThen
  split
  · exact first
  · exact first.trans (second _)

theorem onlySent_startPacket : e.OnlySent e.startPacket.state := by
  unfold startPacket
  refine OnlySent.andThen ?_ fun flit => onlySent_elseCompletion _ flit
  split
  · exact .refl e
  · exact onlySent_startMmio ..

theorem onlySent_sendBeat : e.OnlySent e.sendBeat.state := by
  unfold sendBeat
  split
  · exact onlySent_startPacket ..
  · exact onlySent_continueCompletion ..
  · exact onlySent_continueMmio ..

end Send

/-! ## What is sent -/

theorem Undisturbed.place (same : e.Undisturbed e') (place : e.toDevice = .start ∨ e.InPacket) :
    e'.toDevice = .start ∨ e'.InPacket := by
  rcases place with between | ⟨src, left, inside, first, some_, within⟩
  · exact .inl (same.toDevice.trans between)
  · exact .inr ⟨src, left, same.toDevice.trans inside, same.heads src first, some_, within⟩

/-- After a beat of a packet the engine is between two packets, or some of the packet is left. -/
theorem place_afterBeat {src : Source} (first : src.IsFirst e) (start : Nat) {left : Nat}
    (within : left ≤ src.payload.length) :
    (e.afterBeat src start left).toDevice = .start ∨ (e.afterBeat src start left).InPacket := by
  unfold afterBeat
  by_cases ends : left ≤ e.config.dwordWidth - start
  · left
    rw [decide_eq_true ends, toDevice_advance]
    rfl
  · right
    rw [decide_eq_false ends]
    refine ⟨src, _, toDevice_advance .., ?_, Nat.sub_pos_of_lt (Nat.lt_of_not_le ends),
      (Nat.sub_le ..).trans within⟩
    cases src with
    | mmio r => exact first
    | completion c => exact first

/-- Where a beat leaves the stream to the device. -/
theorem Streams.place {s : EngineStep (Option Flit)} (streams : e.Streams s)
    (place : e.toDevice = .start ∨ e.InPacket) :
    s.state.toDevice = .start ∨ s.state.InPacket := by
  cases streams with
  | silent none_ same => exact (Undisturbed.of_same same).place place
  | starts src h flit between first header stored state =>
    exact (Undisturbed.of_same state).place (place_afterBeat first _ (Nat.le_refl _))
  | continues src left inside first state =>
    refine (Undisturbed.of_same state).place (place_afterBeat first 0 ?_)
    rcases place with between | ⟨src', left', inside', first', -, within⟩
    · rw [between] at inside
      cases src <;> cases inside
    · obtain ⟨rfl, rfl⟩ := Source.eq_of_inside (inside.symm.trans inside') first first'
      exact within

theorem Streams.stocked {s : EngineStep (Option Flit)} (streams : e.Streams s)
    (stocked : e.Stocked) : s.state.Stocked := by
  cases streams with
  | silent none_ same => exact (Undisturbed.of_same same).stocked stocked
  | starts src h flit between first header stored state =>
    exact (Undisturbed.of_same state).stocked (stocked.advance ..)
  | continues src left inside first state =>
    exact (Undisturbed.of_same state).stocked (stocked.advance ..)

/-- A call of the host: where the device stands in its packet, what it has asked for, the reads that
it may answer and who is there to take what it sends all stay. -/
structure KeepsDevice (e e' : Engine) : Prop where
  config : e'.config = e.config
  requests : e'.link.requests = e.link.requests
  fromDevice : e'.fromDevice = e.fromDevice
  mmioReads : e'.mmioReads = e.mmioReads
  mmioAttached : e'.mmioAttached = e.mmioAttached
  engineAttached : e'.link.engineAttached = e.link.engineAttached
  serviceAttached : e'.link.serviceAttached = e.link.serviceAttached
  halted : e.halted → e'.halted

theorem keepsDevice_emit (e : Engine) (cycle : Nat) (ready : Bool) :
    e.KeepsDevice (e.emit cycle ready).state := by
  rw [emit_eq]
  by_cases halted : e.halted
  · rw [if_pos halted]
    exact ⟨rfl, rfl, rfl, rfl, rfl, rfl, rfl, id⟩
  · have stopped {e' : Engine} : e.halted → e'.halted := fun h => absurd h halted
    have only := e.onlyCollected_collect cycle
    have collected : e.KeepsDevice (e.collect cycle).state := by
      refine ⟨?_, ?_, ?_, ?_, ?_, ?_, ?_, stopped⟩ <;> rw [only]
    rw [if_neg halted]
    unfold EngineStep.andThen
    split
    · exact collected
    · cases ready with
      | false => exact collected
      | true =>
        obtain ⟨released, sent⟩ := onlySent_sendBeat (e.collect cycle).state
        simp only [if_true]
        refine ⟨?_, ?_, ?_, ?_, ?_, ?_, ?_, stopped⟩ <;>
          simp only [EngineStep.after] <;> rw [sent, only]

theorem config_emit (e : Engine) (cycle : Nat) (ready : Bool) :
    (e.emit cycle ready).state.config = e.config :=
  (e.keepsDevice_emit cycle ready).config

/-- No call changes the configuration. -/
theorem config_perform (e : Engine) (call : Call) : (e.perform call).config = e.config := by
  cases call with
  | accept cycle flit => exact (e.accept_accepts cycle flit).undisturbed.config
  | ready => exact e.undisturbed_ready.config
  | request r => exact (e.undisturbed_request r).config
  | emit cycle ready => exact e.config_emit cycle ready
  | reset => rfl
  | serve link => rfl

namespace Orderly

theorem create (config : ValidParameters) (options : Switches) (random : DrawSource) :
    ((Engine.create config options).withDraws random).Orderly where
  stocked := (DeviceStream.Framed.start config options random).stocked
  place := .inl rfl
  mmioReads := Array.size_replicate
  states := Array.size_replicate
  free := SlotPool.freeExist_ofCount config.params.maxDmaReads config.params.tagMapper
  answering _ inside := nomatch inside

/-- A call that leaves the stream to the device alone. -/
theorem undisturbed (orderly : e.Orderly) (same : e.Undisturbed e') (keeps : e.KeepsSlots e') :
    e'.Orderly where
  stocked := same.stocked orderly.stocked
  place := same.place orderly.place
  mmioReads := by
    rw [keeps.mmioReads, orderly.mmioReads, params, params, keeps.config]
  states := by
    rw [keeps.states, orderly.states, params, params, keeps.config]
  free := keeps.free orderly.free
  answering := keeps.answering orderly.answering

/-- Asking for a beat. -/
theorem streams (orderly : e.Orderly) {s : EngineStep (Option Flit)} (streams : e.Streams s)
    (keeps : e.KeepsSlots s.state) : s.state.Orderly where
  stocked := streams.stocked orderly.stocked
  place := streams.place orderly.place
  mmioReads := by
    rw [keeps.mmioReads, orderly.mmioReads, params, params, keeps.config]
  states := by
    rw [keeps.states, orderly.states, params, params, keeps.config]
  free := keeps.free orderly.free
  answering := keeps.answering orderly.answering

theorem collect (orderly : e.Orderly) (cycle : Nat) : (e.collect cycle).state.Orderly :=
  orderly.undisturbed (e.undisturbed_collect cycle) (e.keepsSlots_collect cycle)

theorem sendBeat (orderly : e.Orderly) : e.sendBeat.state.Orderly :=
  orderly.streams (sendBeat_streams e orderly.stocked orderly.place)
    (onlySent_sendBeat e).keepsSlots

theorem emit (orderly : e.Orderly) (cycle : Nat) (ready : Bool) :
    (e.emit cycle ready).state.Orderly := by
  have collected := orderly.collect cycle
  rw [emit_eq]
  split
  · exact orderly
  · unfold EngineStep.andThen
    split
    · exact collected
    · cases ready with
      | false => exact collected
      | true => exact collected.sendBeat

/-- What a call preserves. -/
theorem perform (orderly : e.Orderly) (call : Call) : (e.perform call).Orderly := by
  cases call with
  | accept cycle flit =>
    exact orderly.undisturbed (e.accept_accepts cycle flit).undisturbed
      (e.keepsSlots_accept orderly.answering cycle flit)
  | ready => exact orderly.undisturbed e.undisturbed_ready e.keepsSlots_ready
  | request r => exact orderly.undisturbed (e.undisturbed_request r) (e.keepsSlots_request r)
  | emit cycle ready => exact orderly.emit cycle ready
  | reset =>
    exact ⟨⟨orderly.stocked.mmio, orderly.stocked.completions, orderly.stocked.requests⟩, .inl rfl,
      orderly.mmioReads, orderly.states, orderly.free, fun _ inside => nomatch inside⟩
  | serve link =>
    exact orderly.undisturbed (.of_same ⟨rfl, rfl, rfl, rfl, fun _ => rfl⟩)
      (.of_eq rfl rfl rfl rfl)

/-- What a run preserves. -/
theorem performAll (orderly : e.Orderly) (calls : List Call) : (e.performAll calls).Orderly := by
  induction calls generalizing e with
  | nil => exact orderly
  | cons call calls ih => exact ih (orderly.perform call)

end Orderly

end Engine

end TlpBridge
