import TlpBridge.Proofs.FromDevice.Acceptance
import TlpBridge.Proofs.Reads.Collecting
import TlpBridge.Proofs.Reads.SoundRuns

/-!
# Requests in the link

A beat of the device puts requests behind those that wait in the link. No other call of
the engine touches them.
-/
namespace TlpBridge

/-- The reads among the requests that wait. -/
def MemoryLink.readRequests (l : MemoryLink) : List ReadRequest :=
  l.requests.filterMap fun
    | .read r => some r
    | .write _ => none

theorem MemoryLink.readRequests_of_prefix {l l' : MemoryLink} (more : l.requests <+: l'.requests) :
    l'.readRequests = l.readRequests ++ l.postedReads l' := by
  obtain ⟨posted, all⟩ := more
  rw [readRequests, ← all, List.filterMap_append, postedReads, ← all, List.drop_left]
  rfl

theorem MemoryLink.requests_send {l l' : MemoryLink} {r : MemoryRequest}
    (sent : l.send r = some l') : l.requests <+: l'.requests := by
  obtain ⟨-, posted⟩ := Option.ite_none_right_eq_some.1 sent
  rw [← Option.some.inj posted]
  exact List.prefix_append ..

namespace Engine

theorem link_ready (e : Engine) : e.ready.2.link = e.link := by
  unfold ready
  split <;> rfl

theorem link_request (e : Engine) (r : MmioRequest) : (e.request r).state.link = e.link := by
  unfold request
  split
  · rfl
  · cases e.requestFault? r <;> rfl

theorem Accepts.requests {e e' : Engine} (accepts : e.Accepts e') :
    e.link.requests <+: e'.link.requests := by
  cases accepts with
  | quiet state => rw [state]
  | write w sent => exact MemoryLink.requests_send sent
  | read r slot slots stored body completable pool sent =>
    rcases sent with same | posted
    · rw [same]
    · exact MemoryLink.requests_send posted

/-- The stream from the device and the requests that were made of it stand as before. -/
structure KeepsInbound (e e' : Engine) : Prop where
  requests : e'.link.requests = e.link.requests
  fromDevice : e'.fromDevice = e.fromDevice
  halted : e.halted → e'.halted

theorem keepsInbound_ready (e : Engine) : e.KeepsInbound e.ready.2 := by
  unfold ready
  split <;> exact ⟨rfl, rfl, id⟩

theorem keepsInbound_request (e : Engine) (r : MmioRequest) :
    e.KeepsInbound (e.request r).state := by
  unfold request
  split
  · exact ⟨rfl, rfl, id⟩
  · cases e.requestFault? r with
    | some v => exact ⟨rfl, rfl, fun _ => rfl⟩
    | none => exact ⟨rfl, rfl, id⟩

/-- What is sent concerns neither the link nor the stream from the device. -/
theorem Sends.beside {e : Engine} {s : EngineStep (Option Flit)} (sends : e.Sends s) :
    s.state.link = e.link ∧ s.state.fromDevice = e.fromDevice := by
  cases sends with
  | nothing state =>
    rw [state]
    exact ⟨rfl, rfl⟩
  | refused r cause first fault state =>
    rw [state]
    exact ⟨rfl, rfl⟩
  | startsMmio r between first header beat =>
    rw [beat.state]
    exact ⟨rfl, rfl⟩
  | continuesMmio left inside beat =>
    rw [beat.state]
    exact ⟨rfl, rfl⟩
  | startsCompletion c request random between first stored header beat =>
    rw [beat.state]
    exact ⟨rfl, rfl⟩
  | continuesCompletion c random left inside first beat =>
    rw [beat.state]
    exact ⟨rfl, rfl⟩

/-- A cycle ends with a halted engine, after the answers were taken or after a beat was sent. -/
theorem emit_ends (e : Engine) (cycle : Nat) (ready : Bool)
    (sendable : (e.collect cycle).state.Sendable) {P : Engine → Prop} (halted : e.halted → P e)
    (collected : P (e.collect cycle).state)
    (sent : ∀ s, (e.collect cycle).state.Sends s → P s.state) : P (e.emit cycle ready).state := by
  rw [emit_eq]
  by_cases stopped : e.halted
  · rw [if_pos stopped]
    exact halted stopped
  · rw [if_neg stopped]
    unfold EngineStep.andThen
    cases (e.collect cycle).answer with
    | error fault => exact collected
    | ok u =>
      cases ready with
      | false => exact collected
      | true => exact sent (e.collect cycle).state.sendBeat (sendBeat_sends _ sendable)

theorem keepsInbound_emit (e : Engine) (cycle : Nat) (ready : Bool)
    (sendable : (e.collect cycle).state.Sendable) :
    e.KeepsInbound (e.emit cycle ready).state := by
  have only := e.onlyCollected_collect cycle
  by_cases stopped : e.halted
  · rw [emit_eq, if_pos stopped]
    exact ⟨rfl, rfl, id⟩
  · refine e.emit_ends cycle ready sendable (fun halted => absurd halted stopped)
      ⟨only.requests, only.fromDevice, fun halted => absurd halted stopped⟩ fun s sends => ?_
    obtain ⟨link, fromDevice⟩ := sends.beside
    exact ⟨(congrArg MemoryLink.requests link).trans only.requests,
      fromDevice.trans only.fromDevice, fun halted => absurd halted stopped⟩

end Engine

end TlpBridge
