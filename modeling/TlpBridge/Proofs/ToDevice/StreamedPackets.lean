import TlpBridge.Proofs.Reads.CompletionHeaders
import TlpBridge.Proofs.Word.DwordImages
import TlpBridge.Proofs.ToDevice.PacketBeats

/-!
# Streamed packets

A beat to the device belongs to one packet, which is made from what stands at the head of
its queue and stays there until the last beat has been sent.
-/
namespace TlpBridge

/-- An MMIO request that passed the checks. -/
structure MmioRequest.Legal (r : MmioRequest) : Prop where
  aligned : r.widthBits % 32 = 0
  nonempty : 32 ≤ r.widthBits
  short : r.widthBits ≤ Engine.widestMmio
  data : r.write → r.byteSize ≤ r.data.length

/-- A completion that has its data, and lengths that fit into its header. -/
structure CompletionPacket.Filled (c : CompletionPacket) : Prop where
  encodable : c.Encodable
  data : c.startDword + c.dwordSize ≤ c.data.length

/-- What a packet to the device is made from. -/
inductive Source where
  | mmio (r : MmioRequest)
  | completion (c : CompletionPacket)
deriving DecidableEq

namespace Source

/-- The payload of the packet. -/
def payload : Source → List UInt32
  | .mmio r => if r.write then (dwordsOfBytes r.data).take (r.byteSize / 4) else []
  | .completion c => (c.data.drop c.startDword).take c.dwordSize

/-- The packet can go under the header. -/
def HasHeader (p : Parameters) (h : Header) : Source → Prop
  | .mmio r => h = r.header p
  | .completion c => ∃ request, h = c.header request

/-- An engine inside the packet. -/
def inside (left : Nat) : Source → ToDeviceState
  | .mmio _ => .mmio left
  | .completion _ => .completion left

/-- The packet is the next one of its queue. -/
def IsFirst (e : Engine) : Source → Prop
  | .mmio r => e.mmioQueue.head? = some r
  | .completion c => e.completions.front? = some c

/-- What the packet is made from can be sent. -/
def Legal : Source → Prop
  | .mmio r => r.Legal
  | .completion c => c.Filled

theorem length_payload_mmio {r : MmioRequest} (legal : r.Legal) :
    (Source.mmio r).payload.length = if r.write then r.byteSize / 4 else 0 := by
  change (if r.write then (dwordsOfBytes r.data).take (r.byteSize / 4) else []).length = _
  by_cases write : r.write
  · have enough := legal.data write
    rw [if_pos write, if_pos write, List.length_take, length_dwordsOfBytes]
    omega
  · rw [if_neg write, if_neg write]
    rfl

theorem length_payload_completion {c : CompletionPacket} (filled : c.Filled) :
    (Source.completion c).payload.length = c.dwordSize := by
  have enough := filled.data
  change ((c.data.drop c.startDword).take c.dwordSize).length = _
  rw [List.length_take, List.length_drop]
  omega

end Source

namespace Engine

/-- The engine once a beat of a packet was sent. After the last one the packet leaves its queue. -/
def advance (e : Engine) (src : Source) (ends : Bool) (left : Nat) : Engine :=
  if ends then
    match src with
    | .mmio _ => { e with mmioQueue := e.mmioQueue.tail, toDevice := .start }
    | .completion _ => { e with completions := e.completions.tail, toDevice := .start }
  else { e with toDevice := src.inside left }

/-- The engine once a beat took DWORDs from DWORD `start` on, when `left` of them were left. -/
def afterBeat (e : Engine) (src : Source) (start left : Nat) : Engine :=
  e.advance src (decide (left ≤ e.config.dwordWidth - start))
    (left - (e.config.dwordWidth - start))

@[simp] theorem config_advance (e : Engine) (src : Source) (ends : Bool) (left : Nat) :
    (e.advance src ends left).config = e.config := by
  unfold advance
  cases ends <;> cases src <;> rfl

theorem toDevice_advance (e : Engine) (src : Source) (ends : Bool) (left : Nat) :
    (e.advance src ends left).toDevice = if ends then .start else src.inside left := by
  cases ends <;> cases src <;> rfl

/-- The stream to the device is where it was, and nothing that it is made from has changed. -/
structure SameStream (e e' : Engine) : Prop where
  config : e'.config = e.config
  toDevice : e'.toDevice = e.toDevice
  mmioQueue : e'.mmioQueue = e.mmioQueue
  completions : e'.completions = e.completions
  requests : ∀ slot, e'.slots.request? slot = e.slots.request? slot

namespace SameStream

variable {e e' e'' : Engine}

theorem refl (e : Engine) : e.SameStream e := ⟨rfl, rfl, rfl, rfl, fun _ => rfl⟩

theorem trans (first : e.SameStream e') (second : e'.SameStream e'') : e.SameStream e'' where
  config := second.config.trans first.config
  toDevice := second.toDevice.trans first.toDevice
  mmioQueue := second.mmioQueue.trans first.mmioQueue
  completions := second.completions.trans first.completions
  requests slot := (second.requests slot).trans (first.requests slot)

theorem advance (same : e.SameStream e') (src : Source) (ends : Bool) (left : Nat) :
    (e.advance src ends left).SameStream (e'.advance src ends left) := by
  unfold Engine.advance
  cases ends with
  | false => exact ⟨same.config, rfl, same.mmioQueue, same.completions, same.requests⟩
  | true =>
    cases src with
    | mmio r =>
      exact ⟨same.config, rfl, congrArg List.tail same.mmioQueue, same.completions, same.requests⟩
    | completion c =>
      exact ⟨same.config, rfl, same.mmioQueue, congrArg OvertakingQueue.tail same.completions,
        same.requests⟩

theorem afterBeat (same : e.SameStream e') (src : Source) (start left : Nat) :
    (e.afterBeat src start left).SameStream (e'.afterBeat src start left) := by
  have moved := same.advance src (decide (left ≤ e.config.dwordWidth - start))
    (left - (e.config.dwordWidth - start))
  rw [Engine.afterBeat, Engine.afterBeat, same.config]
  exact moved

theorem isFirst (same : e.SameStream e') {src : Source} (first : src.IsFirst e') :
    src.IsFirst e := by
  cases src with
  | mmio r => exact (congrArg List.head? same.mmioQueue).symm.trans first
  | completion c => exact (congrArg OvertakingQueue.front? same.completions).symm.trans first

theorem blankFlit (same : e.SameStream e') : e'.blankFlit = e.blankFlit := by
  rw [Engine.blankFlit, Engine.blankFlit, params, params, same.config]

end SameStream

/-- The queues hold what can be sent, and the slots requests that can be completed. -/
structure Stocked (e : Engine) : Prop where
  mmio : ∀ r ∈ e.mmioQueue, r.Legal
  completions : ∀ c ∈ e.completions.items, c.Filled
  requests : ∀ slot h, e.slots.request? slot = some h → ∃ r, h.Completable r

theorem Stocked.of_isFirst {e : Engine} (stocked : e.Stocked) {src : Source}
    (first : src.IsFirst e) : src.Legal := by
  cases src with
  | mmio r => exact stocked.mmio r (List.mem_of_head? first)
  | completion c => exact stocked.completions c (List.mem_of_head? first)

/-- A beat of a completion of which `left` DWORDs are left. -/
theorem completionBeat_eq (e : Engine) {c : CompletionPacket} (filled : c.Filled)
    (header : Option Header) (flit : Flit) (start : Nat) {left : Nat}
    (within : left ≤ c.dwordSize) :
    ∃ e' effects, e.completionBeat c header flit start left =
        .ok e' (some (flit.fill e.config.dwordWidth start (Source.completion c).payload left))
          effects ∧
      (e.afterBeat (.completion c) start left).SameStream e' := by
  have length := Source.length_payload_completion filled
  have aligned := filled.encodable.aligned
  have dwords : c.dwordSize = (c.byteSize + 3) / 4 := rfl
  let n := min left (e.config.dwordWidth - start)
  have chunk : (c.data.drop (c.startDword + (c.dwordSize - left))).take n =
      ((Source.completion c).payload.drop (c.dwordSize - left)).take
        (e.config.dwordWidth - start) := by
    change _ = (((c.data.drop c.startDword).take c.dwordSize).drop _).take _
    rw [List.drop_take, List.drop_drop, List.take_take]
    congr 1
    omega
  have whole : 4 * ((c.data.drop (c.startDword + (c.dwordSize - left))).take n).length ≤
      c.byteSize - 4 * (c.dwordSize - left) := by
    rw [List.length_take]
    omega
  have sent : flit.fill e.config.dwordWidth start (Source.completion c).payload left =
      { flit.setPayload start ((c.data.drop (c.startDword + (c.dwordSize - left))).take n)
          (c.byteSize - 4 * (c.dwordSize - left)) with
        last := decide (left ≤ e.config.dwordWidth - start) } := by
    rw [Flit.setPayload_eq_setDwords _ _ _ whole, chunk, Flit.fill, length]
  rw [sent]
  refine ⟨_, _, rfl, ?_⟩
  have rest : left - min left (e.config.dwordWidth - start) =
      left - (e.config.dwordWidth - start) := by omega
  unfold afterBeat
  by_cases last : left ≤ e.config.dwordWidth - start
  · simp only [last, decide_true, if_true]
    exact .refl _
  · simp only [last, decide_false, Bool.false_eq_true, if_false, rest]
    exact .refl _

/-- A beat of an MMIO write of which `left` DWORDs are left. -/
theorem mmioBeat_write (e : Engine) {r : MmioRequest} (legal : r.Legal) (write : r.write)
    (header : Option Header) (flit : Flit) (start : Nat) {left : Nat}
    (within : left ≤ r.byteSize / 4) :
    ∃ e' effects, e.mmioBeat r header flit start left =
        .ok e' (some (flit.fill e.config.dwordWidth start (Source.mmio r).payload left)) effects ∧
      (e.afterBeat (.mmio r) start left).SameStream e' := by
  have length := Source.length_payload_mmio legal
  rw [if_pos write] at length
  let n := min left (e.config.dwordWidth - start)
  have chunk : ((dwordsOfBytes r.data).drop (r.byteSize / 4 - left)).take n =
      ((Source.mmio r).payload.drop (r.byteSize / 4 - left)).take
        (e.config.dwordWidth - start) := by
    change _ = (List.drop _ (if r.write then (dwordsOfBytes r.data).take _ else [])).take _
    rw [if_pos write, List.drop_take, List.take_take]
    congr 1
    omega
  have ends : (left - n == 0) = decide (left ≤ e.config.dwordWidth - start) := by
    rw [Bool.eq_iff_iff, beq_iff_eq, decide_eq_true_eq]
    omega
  have sent : flit.fill e.config.dwordWidth start (Source.mmio r).payload left =
      { flit.setDwords start (((dwordsOfBytes r.data).drop (r.byteSize / 4 - left)).take n) with
        last := left - n == 0 } := by
    rw [chunk, ends, Flit.fill, length]
  rw [sent]
  unfold afterBeat
  rw [← ends]
  have rest : left - n = left - (e.config.dwordWidth - start) := by omega
  unfold mmioBeat
  simp only [write, if_true]
  refine ⟨_, _, rfl, ?_⟩
  rw [rest]
  by_cases last : left - (e.config.dwordWidth - start) == 0
  · simp only [last, if_true]
    exact .refl _
  · simp only [last]
    exact .refl _

theorem mmioBeat_read (e : Engine) {r : MmioRequest} (read : r.write = false)
    (header : Option Header) (flit : Flit) (start left : Nat) :
    ∃ e' effects, e.mmioBeat r header flit start left =
        .ok e' (some (flit.fill e.config.dwordWidth start (Source.mmio r).payload 0)) effects ∧
      (e.afterBeat (.mmio r) start 0).SameStream e' := by
  have none_ : (Source.mmio r).payload = [] := by
    simp [Source.payload, read]
  have empty : flit.fill e.config.dwordWidth start [] 0 = { flit with last := true } := by
    simp [Flit.fill, Flit.setDwords]
  rw [none_, empty]
  unfold mmioBeat
  simp only [read, Bool.false_eq_true, if_false, beq_self_eq_true, if_true]
  refine ⟨_, _, rfl, ?_⟩
  rw [afterBeat, decide_eq_true (Nat.zero_le _)]
  exact .refl _

theorem mmioBeat_first (e : Engine) {r : MmioRequest} (legal : r.Legal) (header : Option Header)
    (flit : Flit) (start : Nat) :
    ∃ e' effects, e.mmioBeat r header flit start (r.byteSize / 4) =
        .ok e' (some (flit.fill e.config.dwordWidth start (Source.mmio r).payload
          (Source.mmio r).payload.length)) effects ∧
      (e.afterBeat (.mmio r) start (Source.mmio r).payload.length).SameStream e' := by
  rw [Source.length_payload_mmio legal]
  cases write : r.write with
  | true => exact e.mmioBeat_write legal write header flit start (Nat.le_refl _)
  | false => exact e.mmioBeat_read write header flit start _

end Engine

end TlpBridge
