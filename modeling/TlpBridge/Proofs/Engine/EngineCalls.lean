import TlpBridge.Engine.ToDevice
import TlpBridge.Proofs.Reads.ReadSlots

/-!
# What the calls of the engine change

Each call is described once by what it does to the side of the engine that serves DMA
reads: the read slots, the queued completions, the stream to the device and the answers of
host memory. Most calls leave that side alone.
-/
namespace TlpBridge

/-- The read requests among the requests that were posted to a link. -/
def MemoryLink.postedReads (before after : MemoryLink) : List ReadRequest :=
  (after.requests.drop before.requests.length).filterMap fun
    | .read r => some r
    | .write _ => none

theorem MemoryLink.send_of_attached {l : MemoryLink}
    (attached : l.engineAttached ∧ l.serviceAttached) (r : MemoryRequest) :
    l.send r = some { l with requests := l.requests ++ [r] } := if_pos attached

theorem MemoryLink.postedReads_self (l : MemoryLink) : l.postedReads l = [] := by
  simp [postedReads]

namespace Engine

/-- The side of the engine that serves reads is the same. -/
structure SameReads (e e' : Engine) : Prop where
  config : e'.config = e.config
  slots : e'.slots = e.slots
  completions : e'.completions = e.completions
  toDevice : e'.toDevice = e.toDevice
  pendingReads : e'.pendingReads = e.pendingReads
  responses : e'.link.readResponses = e.link.readResponses
  mmioQueue : e.mmioQueue <+: e'.mmioQueue
  engineAttached : e'.link.engineAttached = e.link.engineAttached
  serviceAttached : e'.link.serviceAttached = e.link.serviceAttached

namespace SameReads

/-- The fields that do not belong to that side. -/
theorem of_eq {e e' : Engine} (same : e' = { e with
    random := e'.random
    link := { e.link with
      requests := e'.link.requests
      writeResponses := e'.link.writeResponses }
    halted := e'.halted
    cycle := e'.cycle
    fromDevice := e'.fromDevice
    mmioReads := e'.mmioReads
    lastMmioCycle := e'.lastMmioCycle
    pendingWrites := e'.pendingWrites }) : e.SameReads e' := by
  rw [same]
  exact ⟨rfl, rfl, rfl, rfl, rfl, rfl, List.prefix_refl _, rfl, rfl⟩

theorem refl (e : Engine) : e.SameReads e := of_eq rfl

theorem trans {e e' e'' : Engine} (h : e.SameReads e') (h' : e'.SameReads e'') :
    e.SameReads e'' where
  config := h'.config.trans h.config
  slots := h'.slots.trans h.slots
  completions := h'.completions.trans h.completions
  toDevice := h'.toDevice.trans h.toDevice
  pendingReads := h'.pendingReads.trans h.pendingReads
  responses := h'.responses.trans h.responses
  mmioQueue := h.mmioQueue.trans h'.mmioQueue
  engineAttached := h'.engineAttached.trans h.engineAttached
  serviceAttached := h'.serviceAttached.trans h.serviceAttached

end SameReads

/-- The side that serves reads is the same and no read was posted. -/
def Quiet (e e' : Engine) : Prop := e.SameReads e' ∧ e.link.postedReads e'.link = []

theorem Quiet.refl (e : Engine) : e.Quiet e := ⟨.refl e, e.link.postedReads_self⟩

theorem Quiet.of_eq {e e' : Engine} (same : e' = { e with
    halted := e'.halted, cycle := e'.cycle, fromDevice := e'.fromDevice,
    random := e'.random, mmioReads := e'.mmioReads, lastMmioCycle := e'.lastMmioCycle,
    pendingWrites := e'.pendingWrites }) : e.Quiet e' := by
  rw [same]
  exact ⟨.of_eq rfl, e.link.postedReads_self⟩

theorem quiet_ready (e : Engine) : e.Quiet e.ready.2 := by
  unfold ready
  by_cases halted : e.halted
  · rw [if_pos halted]
    exact .refl e
  · rw [if_neg halted]
    exact .of_eq rfl

theorem quiet_request (e : Engine) (r : MmioRequest) : e.Quiet (e.request r).state := by
  unfold request
  by_cases halted : e.halted
  · rw [if_pos halted]
    exact .refl e
  · rw [if_neg halted]
    cases e.requestFault? r with
    | some v => exact .of_eq rfl
    | none =>
      exact ⟨⟨rfl, rfl, rfl, rfl, rfl, rfl, List.prefix_append .., rfl, rfl⟩,
        e.link.postedReads_self⟩

end Engine

end TlpBridge
