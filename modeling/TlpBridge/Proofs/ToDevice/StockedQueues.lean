import TlpBridge.Proofs.FromDevice.Acceptance
import TlpBridge.Proofs.Reads.Collecting
import TlpBridge.Proofs.ToDevice.StreamSteps

/-!
# What the queues to the device hold

Between two beats the device, the host and host memory may do anything. What stands at the
head of a queue stays there, and all that is queued can be sent.
-/
namespace TlpBridge

namespace SlotPool

/-- The request of the outstanding read in a slot. -/
def outstanding? (s : SlotPool) (slot : Nat) : Option Header :=
  (s.states[slot]?).bind fun state => if state.busy then state.request else none

theorem request?_of_outstanding? {s : SlotPool} {slot : Nat} {h : Header}
    (found : s.outstanding? slot = some h) : s.request? slot = some h := by
  obtain ⟨state, is, busy⟩ := Option.bind_eq_some_iff.1 found
  exact Option.bind_eq_some_iff.2 ⟨state, is, (Option.ite_none_right_eq_some.1 busy).2⟩

theorem request?_occupy_cases {s : SlotPool} {slot cycle other : Nat} {h g : Header}
    (found : (s.occupy slot cycle h).request? other = some g) :
    s.request? other = some g ∨ g = h := by
  by_cases inside : slot < s.states.size
  · rw [request?_occupy _ _ _ _ _ inside] at found
    by_cases same : other = slot
    · rw [if_pos same] at found
      exact .inr (Option.some.inj found).symm
    · rw [if_neg same] at found
      exact .inl found
  · left
    have same : (s.occupy slot cycle h).states = s.states := by
      apply Array.ext_getElem?
      intro i
      rw [occupy, Array.getElem?_modify]
      split
      · next here =>
        rw [← here, Array.getElem?_eq_none (Nat.le_of_not_lt inside)]
        rfl
      · rfl
    rwa [request?_congr same] at found

end SlotPool

namespace Engine

/-- The stream to the device can go on: it is where it was, no head of a queue was displaced, and
what was queued can be sent if that held before. -/
structure Undisturbed (e e' : Engine) : Prop where
  config : e'.config = e.config
  toDevice : e'.toDevice = e.toDevice
  heads : ∀ src : Source, src.IsFirst e → src.IsFirst e'
  stocked : e.Stocked → e'.Stocked

namespace Undisturbed

variable {e e' e'' : Engine}

theorem of_same (same : e.SameStream e') : e.Undisturbed e' where
  config := same.config
  toDevice := same.toDevice
  heads src first := by
    cases src with
    | mmio r => exact (congrArg List.head? same.mmioQueue).trans first
    | completion c => exact (congrArg OvertakingQueue.front? same.completions).trans first
  stocked stocked := by
    constructor
    · rw [same.mmioQueue]
      exact stocked.mmio
    · rw [same.completions]
      exact stocked.completions
    · intro slot h stored
      rw [same.requests] at stored
      exact stocked.requests slot h stored

theorem refl (e : Engine) : e.Undisturbed e := .of_same (.refl e)

theorem trans (first : e.Undisturbed e') (second : e'.Undisturbed e'') : e.Undisturbed e'' where
  config := second.config.trans first.config
  toDevice := second.toDevice.trans first.toDevice
  heads src head := second.heads src (first.heads src head)
  stocked stocked := second.stocked (first.stocked stocked)

end Undisturbed

/-- A beat of the device. -/
theorem Accepts.undisturbed {e e' : Engine} (accepts : e.Accepts e') : e.Undisturbed e' := by
  cases accepts with
  | quiet state =>
    rw [state]
    exact .of_same ⟨rfl, rfl, rfl, rfl, fun _ => rfl⟩
  | write w sent state =>
    rw [state]
    exact .of_same ⟨rfl, rfl, rfl, rfl, fun _ => rfl⟩
  | read r slot slots stored body completable pool sent state =>
    rw [state]
    refine ⟨rfl, rfl, fun src first => ?_, fun stocked => ⟨stocked.mmio, stocked.completions, ?_⟩⟩
    · cases src with
      | mmio r => exact first
      | completion c => exact first
    · intro k h found
      rcases SlotPool.request?_occupy_cases found with old | rfl
      · rw [SlotPool.request?_congr pool] at old
        exact stocked.requests k h old
      · exact ⟨body, completable⟩

theorem undisturbed_ready (e : Engine) : e.Undisturbed e.ready.2 := by
  unfold ready
  split
  · exact .refl e
  · exact .of_same ⟨rfl, rfl, rfl, rfl, fun _ => rfl⟩

theorem legal_of_requestFault? {e : Engine} {r : MmioRequest} (kept : e.requestFault? r = none) :
    r.Legal := by
  unfold requestFault? at kept
  split at kept
  · cases kept
  · next width =>
    have aligned : r.widthBits % 32 = 0 := by omega
    have bounds : 32 ≤ r.widthBits ∧ r.widthBits ≤ widestMmio := by omega
    refine ⟨aligned, bounds.1, bounds.2, fun write => ?_⟩
    rw [if_pos write] at kept
    split at kept
    · cases kept
    · next enough => exact Nat.le_of_not_lt enough

/-- A request of the host comes behind those that wait. -/
theorem undisturbed_request (e : Engine) (r : MmioRequest) :
    e.Undisturbed (e.request r).state := by
  unfold request
  split
  · exact .refl e
  · cases kept : e.requestFault? r with
    | some v => exact .of_same ⟨rfl, rfl, rfl, rfl, fun _ => rfl⟩
    | none =>
      refine ⟨rfl, rfl, fun src first => ?_, fun stocked => ⟨?_, stocked.completions,
        stocked.requests⟩⟩
      · cases src with
        | mmio r' =>
          obtain ⟨rest, queue⟩ := List.head?_eq_some_iff.1 first
          change (e.mmioQueue ++ [r]).head? = some r'
          rw [queue]
          rfl
        | completion c => exact first
      · intro r' member
        rcases List.mem_append.1 member with old | new
        · exact stocked.mmio r' old
        · rw [List.mem_singleton.1 new]
          exact legal_of_requestFault? kept

/-- Queueing the completions of a read: the head stays, and each new completion is a part of the
data. -/
theorem completions_queuePackets (slot : Nat) (h : Header) (r : RequestBody) (data : List UInt32)
    (byteCount : Nat) (e : Engine) :
    (∀ c, e.completions.front? = some c →
      (queuePackets slot h r data h.dwordSize 0 byteCount e).completions.front? = some c) ∧
      ∀ c ∈ (queuePackets slot h r data h.dwordSize 0 byteCount e).completions.items,
        c ∈ e.completions.items ∨ c.data = data ∧ c.startDword + c.dwordSize ≤ h.dwordSize := by
  -- the old completions go under the number 0, so that 1 stands for the new ones
  let q : OwnedQueue := e.completions.items.map fun c => (0, c)
  have queue : e.completions.items = q.packets := by
    simp [q, OwnedQueue.packets]
  have fresh : q.ofRead 1 = [] := by
    simp [q, OwnedQueue.ofRead, OwnedQueue.packets]
  obtain ⟨q', cs, queue', joins, range, -⟩ := carriesRange_queuePackets slot h r data (i := 1)
    h.dwordSize 0 byteCount e (q := q) (Nat.le_refl _) (Nat.zero_le _) queue (by simp [fresh])
  constructor
  · intro c first
    rw [OvertakingQueue.front?, queue, OwnedQueue.packets, List.head?_map,
      Option.map_eq_some_iff] at first
    obtain ⟨x, head, rfl⟩ := first
    rw [OvertakingQueue.front?, queue', OwnedQueue.packets, List.head?_map, joins.head x head]
    rfl
  · intro c member
    rw [queue'] at member
    obtain ⟨x, listed, rfl⟩ := List.mem_map.1 member
    rcases joins.mem listed with old | new
    · left
      rw [queue]
      exact List.mem_map_of_mem old
    · right
      have own := (OwnedQueue.mem_ofRead_iff q' x.1 x.2).2 listed
      rw [new, joins.own, fresh, List.nil_append] at own
      have carries := range.carries_of_mem own
      exact ⟨carries.data, carries.inside⟩

/-- Queueing the completions of a read. They can be sent if the read is one that can be
completed. -/
theorem undisturbed_queuePackets (e : Engine) (slot : Nat) {h : Header} {r : RequestBody}
    (data : List UInt8) {count : Nat}
    (counted : ByteEnable.byteCount? h.dwordSize r.firstEnable r.lastEnable = some count)
    (known : e.Stocked → h.Completable r) :
    e.Undisturbed
      (queuePackets slot h r (paddedDwords h.dwordSize data) h.dwordSize 0 count e) := by
  have only := onlyQueued_queuePackets slot h r (paddedDwords h.dwordSize data) h.dwordSize 0
    count e
  have collected := OnlyCollected.of_onlyQueued only
  have slots := congrArg Engine.slots only
  obtain ⟨head, parts⟩ := completions_queuePackets slot h r (paddedDwords h.dwordSize data) count e
  refine ⟨collected.config, collected.toDevice, fun src first => ?_, fun stocked => ⟨?_, ?_, ?_⟩⟩
  · cases src with
    | mmio r => exact (congrArg List.head? collected.mmioQueue).trans first
    | completion c => exact head c first
  · rw [collected.mmioQueue]
    exact stocked.mmio
  · have total : ByteEnable.remaining h.dwordSize r.firstEnable r.lastEnable 0 = count := by
      rw [ByteEnable.remaining, if_pos rfl, counted]
      rfl
    have encodable := encodable_queuePackets (known stocked) slot (paddedDwords h.dwordSize data) e
    rw [total] at encodable
    intro c member
    rcases parts c member with old | ⟨data, inside⟩
    · exact stocked.completions c old
    · rcases encodable c member with old | new
      · exact stocked.completions c old
      · refine ⟨new, ?_⟩
        rw [data, length_paddedDwords]
        exact inside
  · intro k g stored
    refine stocked.requests k g ?_
    rw [← stored]
    exact congrArg (·.request? k) slots.symm

theorem undisturbed_queueRead (e : Engine) (slot : Nat) (h : Header) (data : List UInt8)
    (known : e.Stocked → ∃ r, h.Completable r) : e.Undisturbed (e.queueRead slot h data).state := by
  have halted (header : Option Header) (v : Violation) :
      e.Undisturbed (e.halt (α := Unit) header v).state :=
    .of_same ⟨rfl, rfl, rfl, rfl, fun _ => rfl⟩
  have completable (stocked : e.Stocked) : h.Completable (h.request?.getD {}) := by
    obtain ⟨r, completable⟩ := known stocked
    rw [Header.request?, completable.body]
    exact completable
  unfold queueRead
  simp only
  generalize (if h.isFence (h.request?.getD {}) then 0 else h.byteSize.toNat) = expected
  split
  · exact halted ..
  · cases counted : ByteEnable.byteCount? h.dwordSize (h.request?.getD {}).firstEnable
        (h.request?.getD {}).lastEnable with
    | none => exact halted ..
    | some count => exact e.undisturbed_queuePackets slot data counted completable

theorem undisturbed_receiveRead (e : Engine) (a : ReadResponse) :
    e.Undisturbed (e.receiveRead a).state := by
  unfold receiveRead
  simp only
  split
  · exact .of_same ⟨rfl, rfl, rfl, rfl, fun _ => rfl⟩
  · next h request =>
    have stored := SlotPool.request?_of_outstanding? request
    split
    · exact undisturbed_queueRead e _ h a.data fun stocked => stocked.requests _ h stored
    · exact .of_same ⟨rfl, rfl, rfl, rfl, fun slot => SlotPool.request?_release ..⟩

theorem undisturbed_collectWrites (n : Nat) (e : Engine) :
    e.Undisturbed (collectWrites n e).state := by
  have same := (collectWrites_spec n e).1
  have only := onlyCollected_collectWrites n e
  exact .of_same ⟨same.config, same.toDevice, only.mmioQueue, same.completions,
    fun slot => by rw [same.slots]⟩

theorem undisturbed_collectReads (n : Nat) (e : Engine) :
    e.Undisturbed (collectReads n e).state := by
  induction n generalizing e with
  | zero => exact .refl e
  | succ n ih =>
    unfold collectReads MemoryLink.receiveRead
    cases e.link.readResponses with
    | nil =>
      cases e.link.serviceAttached with
      | true => exact .refl e
      | false => exact .refl e
    | cons a rest =>
      have taken : e.Undisturbed (e.withoutAnswer rest) :=
        .of_same ⟨rfl, rfl, rfl, rfl, fun _ => rfl⟩
      have received := taken.trans ((e.withoutAnswer rest).undisturbed_receiveRead a)
      change e.Undisturbed (EngineStep.andThen ((e.withoutAnswer rest).receiveRead a)
        fun () e => collectReads n e).state
      unfold EngineStep.andThen
      split
      · exact received
      · exact received.trans (ih _)

theorem undisturbed_collect (e : Engine) (cycle : Nat) :
    e.Undisturbed (e.collect cycle).state := by
  have tick : e.Undisturbed { e with cycle := cycle } :=
    .of_same ⟨rfl, rfl, rfl, rfl, fun _ => rfl⟩
  have written := tick.trans (undisturbed_collectWrites e.pendingWrites { e with cycle := cycle })
  unfold collect EngineStep.andThen
  split
  · exact written
  · exact written.trans (undisturbed_collectReads ..)

end Engine

end TlpBridge
