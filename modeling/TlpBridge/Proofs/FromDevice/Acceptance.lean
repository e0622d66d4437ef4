import TlpBridge.Proofs.Reads.CompletionHeaders

/-!
# What a beat of the device can do

A beat is refused or kept, or it completes a write or a read. Only then is host memory asked for
something, and only a read takes a slot.
-/
namespace TlpBridge.Engine

/-- What a beat of the device does to the engine. -/
inductive Accepts (e : Engine) : Engine → Prop where
  /-- Nothing is asked of host memory. -/
  | quiet {e'} (state : e' = { e with
      halted := e'.halted
      cycle := e'.cycle
      fromDevice := e'.fromDevice
      mmioReads := e'.mmioReads }) : Accepts e e'
  | write {e'} (w : WriteRequest) (sent : e.link.send (.write w) = some e'.link)
    (state : e' = { e with
      link := e'.link
      cycle := e'.cycle
      fromDevice := e'.fromDevice
      pendingWrites := e.pendingWrites + 1 }) : Accepts e e'
  /-- A read takes a slot, even if nobody is left to answer it. -/
  | read {e'} (r : ReadRequest) (slot : Nat) (slots : SlotPool) (stored : Header)
    (body : RequestBody) (completable : stored.Completable body)
    (pool : slots.states = e.slots.states)
    (sent : e'.link = e.link ∨ e.link.send (.read r) = some e'.link)
    (state : e' = { e with
      link := e'.link
      cycle := e'.cycle
      fromDevice := e'.fromDevice
      slots := slots.occupy slot e'.cycle stored
      pendingReads := e'.pendingReads }) : Accepts e e'

theorem states_chooseSlot {s s' : SlotPool} {tag slot : Nat}
    (chosen : chooseSlot s tag = .ok (slot, s')) : s'.states = s.states := by
  unfold chooseSlot SlotPool.takeFree? at chosen
  split at chosen
  · split at chosen
    · cases chosen
    · next taken =>
      split at taken
      · cases taken
      · cases taken
        split at chosen
        · cases chosen
        · cases chosen
          rfl
  · split at chosen
    · cases chosen
    · cases chosen
      rfl

namespace Accepts

variable {e e' e'' : Engine}

/-- A call with another cycle, between packets. -/
theorem of_idle {cycle : Nat} {fromDevice : FromDeviceState}
    (accepts : Accepts { e with cycle := cycle, fromDevice := fromDevice } e') : e.Accepts e' := by
  cases accepts with
  | quiet state => exact .quiet state
  | write w sent state => exact .write w sent state
  | read r slot slots stored body completable pool sent state =>
    exact .read r slot slots stored body completable pool sent state

end Accepts

theorem acceptInterrupt_accepts (e : Engine) (h : Header) (vector : UInt16) (flit : Flit) :
    e.Accepts (e.acceptInterrupt h vector flit).state := by
  unfold acceptInterrupt
  split
  · exact .quiet rfl
  · split
    · exact .quiet rfl
    · exact .quiet rfl

theorem acceptCompletionBeat_accepts (e : Engine) (p : OpenPacket) (flit : Flit) (start : Nat) :
    e.Accepts (e.acceptCompletionBeat p flit start).state := by
  unfold acceptCompletionBeat
  split
  · exact .quiet rfl
  · split
    · exact .quiet rfl
    · exact .quiet rfl

theorem acceptCompletion_accepts (e : Engine) (h : Header) (c : CompletionBody) (flit : Flit) :
    e.Accepts (e.acceptCompletion h c flit).state := by
  unfold acceptCompletion
  split
  · exact .quiet rfl
  · split
    · exact .quiet rfl
    · exact e.acceptCompletionBeat_accepts ..

theorem acceptWriteBeat_accepts (e : Engine) (p : OpenPacket) (flit : Flit) (start : Nat) :
    e.Accepts (e.acceptWriteBeat p flit start).state := by
  unfold acceptWriteBeat
  split
  · exact .quiet rfl
  · split
    · unfold submitWrite
      simp only
      split
      · exact .quiet rfl
      · next sent => exact .write _ sent rfl
    · exact .quiet rfl

theorem acceptWrite_accepts (e : Engine) (h : Header) (r : RequestBody) (flit : Flit) :
    e.Accepts (e.acceptWrite h r flit).state := by
  unfold acceptWrite
  split
  · exact .quiet rfl
  · exact e.acceptWriteBeat_accepts ..

theorem acceptRead_accepts (e : Engine) (h : Header) (r : RequestBody) (flit : Flit)
    (header : flit.header = .ok h) (body : h.body = .request r) :
    e.Accepts (e.acceptRead h r flit).state := by
  unfold acceptRead
  cases extent : e.params.readExtentFault? flit.last h r with
  | some v => exact .quiet rfl
  | none =>
    cases rules : e.params.readFault? { h with body := .request (h.effectiveRequest r) }
        (h.effectiveRequest r) with
    | some v =>
      simp only [rules]
      exact .quiet rfl
    | none =>
      cases chosen : chooseSlot e.slots h.tag.toNat with
      | error v =>
        simp only [rules, chosen]
        exact .quiet rfl
      | ok choice =>
        obtain ⟨slot, slots⟩ := choice
        have completable := completable_of_legal header body extent rules
        have pool := states_chooseSlot chosen
        simp only [rules, chosen, submitRead]
        split
        · exact .read (Header.readRequest { h with body := .request (h.effectiveRequest r) }
            (h.effectiveRequest r) flit slot) slot slots _ _ completable pool (.inl rfl) rfl
        · next sent => exact .read _ slot slots _ _ completable pool (.inr sent) rfl

/-- What a beat of the device can do. -/
theorem accept_accepts (e : Engine) (cycle : Nat) (flit : Flit) :
    e.Accepts (e.accept cycle flit).state := by
  unfold accept
  split
  · exact .quiet rfl
  · cases e.fromDevice with
    | completion p => exact .of_idle (acceptCompletionBeat_accepts _ p flit 0)
    | write p => exact .of_idle (acceptWriteBeat_accepts _ p flit 0)
    | start =>
      unfold acceptStart
      cases header : flit.header with
      | error cause => exact .quiet rfl
      | ok h =>
        simp only [EngineStep.after, dispatch]
        cases body : h.body with
        | interrupt vector => exact .of_idle (acceptInterrupt_accepts ..)
        | completion c => exact .of_idle (acceptCompletion_accepts ..)
        | other => exact .quiet rfl
        | request r =>
          simp only
          split
          · exact .of_idle (acceptWrite_accepts ..)
          · exact .of_idle (acceptRead_accepts _ h r flit header body)

end TlpBridge.Engine
