import TlpBridge.Proofs.Reads.CollectedAnswers

/-!
# What taking answers changes

The engine takes the answers of host memory before it sends a beat. Whatever they are, this
changes neither the stream to the device nor the MMIO requests, and posts nothing.
-/
namespace TlpBridge

namespace Engine

/-- Nothing has changed but what the answers of host memory concern. -/
def OnlyCollected (e e' : Engine) : Prop :=
  e' = { e with
    random := e'.random
    link := { e.link with
      readResponses := e'.link.readResponses
      writeResponses := e'.link.writeResponses }
    halted := e'.halted
    cycle := e'.cycle
    slots := e'.slots
    completions := e'.completions
    pendingReads := e'.pendingReads
    pendingWrites := e'.pendingWrites }

namespace OnlyCollected

theorem refl (e : Engine) : e.OnlyCollected e := rfl

theorem trans {e e' e'' : Engine} (first : e.OnlyCollected e') (second : e'.OnlyCollected e'') :
    e.OnlyCollected e'' := by
  unfold OnlyCollected at *
  rw [second, first]

theorem of_onlyQueued {e e' : Engine} (queued : e.OnlyQueued e') : e.OnlyCollected e' := by
  unfold OnlyQueued at queued
  rw [queued]
  rfl

variable {e e' : Engine} (only : e.OnlyCollected e')

include only

theorem config : e'.config = e.config := by rw [only]

theorem toDevice : e'.toDevice = e.toDevice := by rw [only]

theorem mmioQueue : e'.mmioQueue = e.mmioQueue := by rw [only]

theorem requests : e'.link.requests = e.link.requests := by rw [only]

theorem fromDevice : e'.fromDevice = e.fromDevice := by rw [only]

end OnlyCollected

theorem onlyCollected_collectWrites (n : Nat) (e : Engine) :
    e.OnlyCollected (collectWrites n e).state := by
  induction n generalizing e with
  | zero => exact .refl e
  | succ n ih =>
    unfold collectWrites MemoryLink.receiveWrite
    cases e.link.writeResponses with
    | nil =>
      cases e.link.serviceAttached with
      | true => exact .refl e
      | false => exact .refl e
    | cons a rest =>
      have taken : e.OnlyCollected { e with
          link := { e.link with writeResponses := rest }
          pendingWrites := e.pendingWrites - 1 } := rfl
      simp only [MemoryLink.receive]
      split
      · exact taken.trans (ih _)
      · exact taken

/-- Whatever is queued, nothing else changes. -/
theorem onlyQueued_queuePackets (slot : Nat) (h : Header) (r : RequestBody) (data : List UInt32)
    (fuel start byteCount : Nat) (e : Engine) :
    e.OnlyQueued (queuePackets slot h r data fuel start byteCount e) := by
  induction fuel generalizing start byteCount e with
  | zero => exact .refl e
  | succ fuel ih =>
    unfold queuePackets
    simp only
    split
    · exact .refl e
    · exact ((e.onlyQueued_packetLength _).1.trans (onlyQueued_queueCompletion ..)).trans (ih ..)

theorem onlyCollected_queueRead (e : Engine) (slot : Nat) (h : Header) (data : List UInt8) :
    e.OnlyCollected (e.queueRead slot h data).state := by
  unfold queueRead
  simp only
  generalize (if h.isFence (h.request?.getD {}) then 0 else h.byteSize.toNat) = expected
  by_cases length : data.length = expected
  · rw [if_neg (not_not_intro length)]
    cases ByteEnable.byteCount? h.dwordSize (h.request?.getD {}).firstEnable
        (h.request?.getD {}).lastEnable with
    | none => rfl
    | some count => exact .of_onlyQueued (onlyQueued_queuePackets ..)
  · rw [if_pos length]
    rfl

theorem onlyCollected_receiveRead (e : Engine) (a : ReadResponse) :
    e.OnlyCollected (e.receiveRead a).state := by
  unfold receiveRead
  simp only
  split
  · rfl
  · split
    · exact onlyCollected_queueRead ..
    · rfl

theorem onlyCollected_collectReads (n : Nat) (e : Engine) :
    e.OnlyCollected (collectReads n e).state := by
  induction n generalizing e with
  | zero => exact .refl e
  | succ n ih =>
    unfold collectReads MemoryLink.receiveRead
    cases e.link.readResponses with
    | nil =>
      cases e.link.serviceAttached with
      | true => exact .refl e
      | false => exact .refl e
    | cons a rest =>
      have taken : e.OnlyCollected (e.withoutAnswer rest) := rfl
      have received := taken.trans ((e.withoutAnswer rest).onlyCollected_receiveRead a)
      change e.OnlyCollected (EngineStep.andThen ((e.withoutAnswer rest).receiveRead a)
        fun () e => collectReads n e).state
      unfold EngineStep.andThen
      split
      · exact received
      · exact received.trans (ih _)

/-- What the engine does before it sends a beat. -/
theorem onlyCollected_collect (e : Engine) (cycle : Nat) :
    e.OnlyCollected (e.collect cycle).state := by
  have tick : e.OnlyCollected { e with cycle := cycle } := rfl
  have written := tick.trans (onlyCollected_collectWrites e.pendingWrites { e with cycle := cycle })
  unfold collect EngineStep.andThen
  split
  · exact written
  · exact written.trans (onlyCollected_collectReads ..)

/-! ## The cycle of the call -/

theorem OnlyQueued.cycle {e e' : Engine} (queued : e.OnlyQueued e') : e'.cycle = e.cycle := by
  rw [queued]

theorem cycle_collectWrites (n : Nat) (e : Engine) : (collectWrites n e).state.cycle = e.cycle := by
  induction n generalizing e with
  | zero => rfl
  | succ n ih =>
    unfold collectWrites
    rcases e.link.receiveWrite with ⟨_ | _ | _, link⟩
    · simp only
      split
      · exact ih _
      · rfl
    · rfl
    · rfl

theorem cycle_receiveRead (e : Engine) (a : ReadResponse) :
    (e.receiveRead a).state.cycle = e.cycle := by
  have queued (h : Header) : (e.queueRead a.tag.toNat h a.data).state.cycle = e.cycle := by
    unfold queueRead
    simp only
    generalize (if h.isFence (h.request?.getD {}) then 0 else h.byteSize.toNat) = expected
    split
    · rfl
    · split
      · rfl
      · exact (onlyQueued_queuePackets ..).cycle
  unfold receiveRead
  simp only
  split
  · rfl
  · split
    · exact queued _
    · rfl

theorem cycle_collectReads (n : Nat) (e : Engine) : (collectReads n e).state.cycle = e.cycle := by
  induction n generalizing e with
  | zero => rfl
  | succ n ih =>
    unfold collectReads
    rcases e.link.receiveRead with ⟨a | _ | _, link⟩
    · have received := cycle_receiveRead
        { e with link := link, pendingReads := e.pendingReads - 1 } a
      simp only [EngineStep.andThen]
      split
      · exact received
      · exact (ih _).trans received
    · rfl
    · rfl

theorem cycle_collect (e : Engine) (cycle : Nat) : (e.collect cycle).state.cycle = cycle := by
  have written := cycle_collectWrites e.pendingWrites { e with cycle := cycle }
  unfold collect EngineStep.andThen
  split
  · exact written
  · exact (cycle_collectReads ..).trans written

end Engine

end TlpBridge
