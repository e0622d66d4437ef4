import TlpBridge.Proofs.Engine.OrderlyRuns
import TlpBridge.Proofs.FromDevice.ServedKinds

/-!
# Full bandwidth

With draws of zero and no least latency the engine never holds a beat back. The data of a read
becomes one completion, whatever its length, because the longest read is a whole number of
completion boundaries, and no completion overtakes another.
-/
namespace TlpBridge

theorem OvertakingQueue.insertOvertaking_zero {α : Type} (q : OvertakingQueue α) (a : α)
    (same : α → Bool) : q.insertOvertaking a 0 same = ⟨q.items ++ [a]⟩ := by
  have none_ : q.overtaken 0 same = 0 := by simp [overtaken]
  simp [insertOvertaking, none_, length]

theorem four_dvd_of_isPowerOfTwo {n : Nat} (power : isPowerOfTwo n) (large : 4 ≤ n) : 4 ∣ n := by
  have exact_ : n = 2 ^ n.log2 := by simpa [isPowerOfTwo] using power
  have two : 2 ≤ n.log2 := (Nat.le_log2 (by omega)).2 large
  rw [exact_]
  exact pow_dvd_pow 2 two

theorem Parameters.Legal.le_boundaries {p : Parameters} (legal : p.Legal) {dwords : Nat}
    (short : 4 * dwords ≤ p.maxReadBytes) :
    dwords ≤ max 1 (p.maxReadBytes / p.completionBoundary) * (p.completionBoundary / 4) := by
  obtain ⟨quarter, boundary⟩ := four_dvd_of_isPowerOfTwo legal.power legal.boundary
  have whole := Nat.div_add_mod p.maxReadBytes p.completionBoundary
  rw [legal.granularity, Nat.add_zero] at whole
  generalize p.maxReadBytes / p.completionBoundary = chunks at whole ⊢
  have bytes : 4 * dwords ≤ 4 * (chunks * quarter) := by
    calc 4 * dwords ≤ p.completionBoundary * chunks := by rwa [whole]
      _ = 4 * (chunks * quarter) := by rw [boundary]; ring
  rw [boundary, Nat.mul_div_cancel_left _ (by decide)]
  calc dwords ≤ chunks * quarter := Nat.le_of_mul_le_mul_left bytes (by decide)
    _ ≤ max 1 chunks * quarter := Nat.mul_le_mul_right _ (Nat.le_max_right ..)

/-! ## Slots -/

namespace SlotPool

theorem request?_releaseAll (s : SlotPool) (slots : List Nat) (other : Nat) :
    (s.releaseAll slots).request? other = s.request? other := by
  induction slots generalizing s with
  | nil => rfl
  | cons slot slots ih => exact (ih (s.release slot)).trans (s.request?_release slot other)

/-- The pool has all its slots, knows the free ones, and no read in it is longer than allowed. -/
structure Bounded (s : SlotPool) (p : Parameters) : Prop where
  balanced : s.Balanced
  size : s.states.size = p.maxDmaReads
  short : ∀ slot h, s.request? slot = some h → h.byteSize.toNat ≤ p.maxReadBytes

namespace Bounded

variable {s : SlotPool} {p : Parameters}

theorem ofCount (p : Parameters) : (SlotPool.ofCount p.maxDmaReads p.tagMapper).Bounded p where
  balanced := balanced_ofCount ..
  size := Array.size_replicate
  short slot h found := by
    rw [request?_ofCount] at found
    cases found

theorem releaseAll (bounded : s.Bounded p) (slots : List Nat) :
    (s.releaseAll slots).Bounded p where
  balanced := bounded.balanced.releaseAll slots
  size := (s.size_releaseAll slots).trans bounded.size
  short slot h found := bounded.short slot h (by rwa [request?_releaseAll] at found)

theorem hasRoom (bounded : s.Bounded p) {slot : Nat} (inside : slot < p.maxDmaReads)
    (idle : s.isBusy slot = false) : s.hasRoom := by
  unfold SlotPool.hasRoom
  cases mapped : s.mapped with
  | false => rfl
  | true =>
    have free := (bounded.balanced.mem_iff mapped slot).2 ⟨by rwa [bounded.size], idle⟩
    cases list : s.free with
    | nil => simp [list] at free
    | cons top rest => rfl

end Bounded

end SlotPool

theorem Header.completedBytes_le (h : Header) : h.completedBytes ≤ h.byteSize.toNat := by
  unfold completedBytes
  split
  · exact Nat.div_le_self ..
  · exact Nat.le_refl _

/-- A read that breaks no rule enters a pool within its bounds. -/
theorem Engine.Admits.bounded {p : Parameters} {s slots : SlotPool} {flit : Flit} {h : Header}
    {r : RequestBody} {slot : Nat} (admits : Admits p s flit h r slot slots)
    (bounded : s.Bounded p) (cycle : Nat) : (slots.occupy slot cycle (h.stored r)).Bounded p := by
  obtain ⟨long, -⟩ := Parameters.extent_of_legal admits.extent
  have powerUser := (Parameters.rules_of_legal admits.rules).1
  have states := states_chooseSlot admits.chosen
  refine ⟨balanced_occupy bounded.balanced admits.chosen .., ?_, fun k g found => ?_⟩
  · rw [SlotPool.size_occupy, states]
    exact bounded.size
  · rcases SlotPool.request?_occupy_cases found with old | rfl
    · rw [SlotPool.request?_congr states] at old
      exact bounded.short k g old
    · have mode : h.mode = .powerUser := if_neg (by simpa using powerUser)
      rw [mode] at long
      rw [Header.toNat_byteSize_stored]
      exact h.completedBytes_le.trans long

namespace Engine

section Accept

variable (e : Engine)

theorem slots_acceptInterrupt (h : Header) (vector : UInt16) (flit : Flit) :
    (e.acceptInterrupt h vector flit).state.slots = e.slots := by
  unfold acceptInterrupt
  split
  · rfl
  · split <;> rfl

theorem slots_acceptCompletionBeat (p : OpenPacket) (flit : Flit) (start : Nat) :
    (e.acceptCompletionBeat p flit start).state.slots = e.slots := by
  unfold acceptCompletionBeat
  split
  · rfl
  · split <;> rfl

theorem slots_acceptCompletion (h : Header) (c : CompletionBody) (flit : Flit) :
    (e.acceptCompletion h c flit).state.slots = e.slots := by
  unfold acceptCompletion
  split
  · rfl
  · split
    · rfl
    · exact e.slots_acceptCompletionBeat ..

theorem slots_acceptWriteBeat (p : OpenPacket) (flit : Flit) (start : Nat) :
    (e.acceptWriteBeat p flit start).state.slots = e.slots := by
  unfold acceptWriteBeat
  split
  · rfl
  · split
    · unfold submitWrite
      simp only
      split <;> rfl
    · rfl

theorem slots_acceptWrite (h : Header) (r : RequestBody) (flit : Flit) :
    (e.acceptWrite h r flit).state.slots = e.slots := by
  unfold acceptWrite
  split
  · rfl
  · exact e.slots_acceptWriteBeat ..

variable {e} (bounded : e.slots.Bounded e.params)

include bounded

theorem bounded_acceptRead (h : Header) (r : RequestBody) (flit : Flit) :
    (e.acceptRead h r flit).state.slots.Bounded e.params := by
  rcases e.acceptRead_cases h r flit with refuses | ⟨slot, slots, admits⟩
  · rw [refuses.state]
    exact bounded
  · have kept := admits.bounded bounded e.cycle
    rw [acceptRead_of_admits admits]
    unfold submitRead
    simp only
    split
    · exact kept
    · exact kept

theorem bounded_dispatch (h : Header) (flit : Flit) :
    (e.dispatch h flit).state.slots.Bounded e.params := by
  unfold dispatch
  split
  · rw [slots_acceptInterrupt]
    exact bounded
  · rw [slots_acceptCompletion]
    exact bounded
  · split
    · rw [slots_acceptWrite]
      exact bounded
    · exact bounded_acceptRead bounded ..
  · exact bounded

/-- A beat of the device leaves the pool within its bounds. -/
theorem bounded_accept (cycle : Nat) (flit : Flit) :
    (e.accept cycle flit).state.slots.Bounded e.params := by
  unfold accept
  split
  · exact bounded
  · simp only
    split
    · unfold acceptStart
      split
      · exact bounded
      · exact bounded_dispatch (e := { e with cycle := cycle, fromDevice := .start }) bounded ..
    · simp only [EngineStep.after, slots_acceptCompletionBeat]
      exact bounded
    · simp only [EngineStep.after, slots_acceptWriteBeat]
      exact bounded

end Accept

/-! ## Draws of zero -/

/-- Every draw is zero and no least latency is kept. -/
structure Unthrottled (e : Engine) : Prop where
  draws : e.random = .fullBandwidth
  latency : e.options.unlimitedBandwidth

variable {e : Engine}

theorem draw_eq (draws : e.random = .fullBandwidth) : e.draw = (0, e) := by
  cases e
  cases draws
  rfl

theorem drawStall_eq_false (draws : e.random = .fullBandwidth) : e.drawStall = (false, e) := by
  simp only [drawStall, draw_eq draws]
  rfl

theorem ready_eq (draws : e.random = .fullBandwidth) :
    e.ready = (!e.halted && e.slots.hasRoom, e) := by
  unfold ready
  cases halted : e.halted with
  | true => rfl
  | false =>
    simp only [draw_eq draws, Bool.false_eq_true, if_false]
    rfl

theorem packetLength_eq (draws : e.random = .fullBandwidth) {left : Nat}
    (short : 4 * left ≤ e.params.maxReadBytes) : e.packetLength left = (left, e) := by
  have whole : left ≤ max 1 (e.params.maxReadBytes / e.params.completionBoundary) *
      (e.params.completionBoundary / 4) := e.config.legal.le_boundaries short
  unfold packetLength
  simp only [draw_eq draws, if_true]
  split
  · rfl
  · rw [Nat.min_eq_left whole]

/-- The engine with one more completion at the end of its queue. -/
def withCompletion (e : Engine) (c : CompletionPacket) : Engine :=
  { e with completions := ⟨e.completions.items ++ [c]⟩ }

theorem queueCompletion_eq (draws : e.random = .fullBandwidth) (c : CompletionPacket) :
    e.queueCompletion c = e.withCompletion c := by
  have last (same : CompletionPacket → Bool) :
      e.completions.insertOvertaking c (overtakeLimit (0 % 256)) same =
        ⟨e.completions.items ++ [c]⟩ := e.completions.insertOvertaking_zero c same
  unfold queueCompletion
  simp only [draw_eq draws, ite_self, last]
  rfl

end Engine

/-! ## Answers -/

/-- The number of bytes with which host memory has to answer a read. A fence reads none. -/
def Header.answerBytes (h : Header) : Nat :=
  if h.isFence (h.request?.getD {}) then 0 else h.byteSize.toNat

/-- A read of the device and the data with which host memory has answered it. -/
structure AnsweredRead where
  slot : Nat
  request : Header
  data : List UInt8

/-- The completion that carries all of the data. -/
def AnsweredRead.completion (a : AnsweredRead) : CompletionPacket where
  slot := a.slot
  data := paddedDwords a.request.dwordSize a.data
  byteSize := a.request.byteSize.toNat
  startDword := 0
  byteCount := (ByteEnable.byteCount? a.request.dwordSize
    (a.request.request?.getD {}).firstEnable (a.request.request?.getD {}).lastEnable).getD 0
  isFirst := true
  isLast := true

/-- The read that a response answers, if it is a valid response to an outstanding read and has as
many bytes as were asked for. -/
def SlotPool.answeredBy? (s : SlotPool) (a : ReadResponse) : Option AnsweredRead :=
  (s.outstanding? a.tag.toNat).bind fun h =>
    if a.status = .valid ∧ a.data.length = h.answerBytes then some ⟨a.tag.toNat, h, a.data⟩
    else none

namespace Engine

variable {e : Engine}

/-- Completions can be made for every read in a slot, and each fits into the longest one. -/
def Answerable (e : Engine) : Prop :=
  ∀ slot h, e.slots.request? slot = some h →
    (∃ r, h.Completable r) ∧ h.byteSize.toNat ≤ e.params.maxReadBytes

theorem queuePackets_eq (draws : e.random = .fullBandwidth) (slot : Nat) {h : Header}
    (r : RequestBody) (data : List UInt32) (fuel byteCount : Nat) (some_ : 0 < h.dwordSize)
    (short : 4 * h.dwordSize ≤ e.params.maxReadBytes) :
    queuePackets slot h r data (fuel + 1) 0 byteCount e =
      e.withCompletion ⟨slot, data, h.byteSize.toNat, 0, byteCount, true, true⟩ := by
  have all : h.dwordSize ≤ 0 + h.dwordSize := by rw [Nat.zero_add]
  rw [queuePackets, Nat.sub_zero, if_neg (Nat.ne_of_gt some_), packetLength_eq draws short]
  simp only [queuePackets_of_done slot r data fuel _ _ all, queueCompletion_eq draws,
    beq_self_eq_true, if_true, Nat.mul_zero, Nat.sub_zero]

theorem queueRead_of_answered (draws : e.random = .fullBandwidth) (slot : Nat) {h : Header}
    {r : RequestBody} (completable : h.Completable r)
    (short : h.byteSize.toNat ≤ e.params.maxReadBytes) {data : List UInt8}
    (length : data.length = h.answerBytes) :
    e.queueRead slot h data =
      .ok (e.withCompletion (AnsweredRead.completion ⟨slot, h, data⟩)) () := by
  obtain ⟨count, counted, -⟩ := completable.counted
  have request : h.request?.getD {} = r := by
    rw [Header.request?, completable.body]
    rfl
  have aligned := completable.aligned
  have nonempty := completable.nonempty
  have dwords : h.dwordSize = (h.byteSize.toNat + 3) / 4 := rfl
  obtain ⟨fuel, size⟩ : ∃ fuel, h.dwordSize = fuel + 1 :=
    Nat.exists_eq_succ_of_ne_zero (by omega)
  have queued := queuePackets_eq draws slot r (paddedDwords h.dwordSize data) fuel count
    (h := h) (by omega) (by omega)
  rw [← size] at queued
  have expected : data.length = if h.isFence r then 0 else h.byteSize.toNat := by
    rw [length, Header.answerBytes, request]
  unfold queueRead
  simp only [request, ← expected, ne_eq, not_true_eq_false, if_false, counted, queued,
    AnsweredRead.completion, Option.getD_some]

theorem receiveRead_of_answered (draws : e.random = .fullBandwidth) (answerable : e.Answerable)
    {a : ReadResponse} {read : AnsweredRead} (answered : e.slots.answeredBy? a = some read) :
    e.receiveRead a = .ok (e.withCompletion read.completion) () := by
  obtain ⟨h, outstanding, found⟩ := Option.bind_eq_some_iff.1 answered
  obtain ⟨⟨valid, length⟩, same⟩ := Option.ite_none_right_eq_some.1 found
  obtain rfl := Option.some.inj same
  obtain ⟨⟨r, completable⟩, short⟩ :=
    answerable _ h (SlotPool.request?_of_outstanding? outstanding)
  unfold SlotPool.outstanding? at outstanding
  unfold receiveRead
  simp only [outstanding, valid, if_true]
  exact queueRead_of_answered draws _ completable short length

/-- Any other response is an error, and a valid one to an outstanding read halts the engine. -/
theorem receiveRead_of_unanswered {a : ReadResponse} (unanswered : e.slots.answeredBy? a = none) :
    (∃ fault, (e.receiveRead a).answer = .error fault) ∧
      (e.receiveRead a).state.completions = e.completions ∧
      (e.receiveRead a).state.random = e.random ∧
      ∀ h, e.slots.outstanding? a.tag.toNat = some h → a.status = .valid →
        (e.receiveRead a).state.halted := by
  unfold SlotPool.answeredBy? at unanswered
  cases outstanding : e.slots.outstanding? a.tag.toNat with
  | none =>
    unfold SlotPool.outstanding? at outstanding
    unfold receiveRead
    simp only [outstanding]
    refine ⟨⟨_, rfl⟩, rfl, rfl, fun h found => ?_⟩
    cases found
  | some h =>
    rw [outstanding] at unanswered
    unfold SlotPool.outstanding? at outstanding
    unfold receiveRead
    simp only [outstanding]
    by_cases valid : a.status = .valid
    · have length : a.data.length ≠ h.answerBytes := by
        intro length
        rw [Option.bind_some, if_pos ⟨valid, length⟩] at unanswered
        cases unanswered
      have refused : e.queueRead a.tag.toNat h a.data =
          e.halt (some h) (.readResponseLength a.data.length h.answerBytes) := if_pos length
      rw [if_pos valid, refused]
      exact ⟨⟨_, rfl⟩, rfl, rfl, fun _ _ _ => rfl⟩
    · rw [if_neg valid]
      exact ⟨⟨_, rfl⟩, rfl, rfl, fun _ _ is => absurd is valid⟩

/-- The call takes the given responses to reads. Each one that answers a read becomes a completion,
and the completions join the queue in order. -/
structure Collects (e : Engine) (s : EngineStep Unit) (taken : List ReadResponse) : Prop where
  rest : e.link.readResponses = taken ++ s.state.link.readResponses
  completions : s.state.completions.items =
    e.completions.items ++ (taken.filterMap e.slots.answeredBy?).map AnsweredRead.completion
  draws : s.state.random = .fullBandwidth
  /-- Data of another length than was asked for halts the engine. -/
  length : ∀ a ∈ taken, ∀ h, e.slots.outstanding? a.tag.toNat = some h → a.status = .valid →
    (e.slots.answeredBy? a).isSome ∨ (∃ fault, s.answer = .error fault) ∧ s.state.halted

theorem Collects.none {s : EngineStep Unit}
    (rest : s.state.link.readResponses = e.link.readResponses)
    (completions : s.state.completions = e.completions) (draws : s.state.random = .fullBandwidth) :
    e.Collects s [] where
  rest := rest.symm
  completions := by simp [completions]
  draws := draws
  length := nofun

theorem collects_collectReads (n : Nat) (draws : e.random = .fullBandwidth)
    (answerable : e.Answerable) : ∃ taken, e.Collects (collectReads n e) taken := by
  induction n generalizing e with
  | zero => exact ⟨[], .none rfl rfl draws⟩
  | succ n ih =>
    unfold collectReads MemoryLink.receiveRead
    cases waiting : e.link.readResponses with
    | nil =>
      cases e.link.serviceAttached with
      | true => exact ⟨[], .none rfl rfl draws⟩
      | false => exact ⟨[], .none rfl rfl draws⟩
    | cons a rest =>
      change ∃ taken, e.Collects (EngineStep.andThen ((e.withoutAnswer rest).receiveRead a)
        fun () e => collectReads n e) taken
      cases answered : e.slots.answeredBy? a with
      | some read =>
        rw [receiveRead_of_answered (e := e.withoutAnswer rest) draws answerable answered]
        obtain ⟨taken, later⟩ :=
          ih (e := (e.withoutAnswer rest).withCompletion read.completion) draws answerable
        refine ⟨a :: taken, ?_, ?_, later.draws, fun b member => ?_⟩
        · rw [waiting]
          exact congrArg (a :: ·) later.rest
        · rw [List.filterMap_cons_some answered, List.map_cons, List.append_cons]
          exact later.completions
        · rcases List.mem_cons.1 member with rfl | member
          · exact fun _ _ _ => .inl (by rw [answered]; rfl)
          · exact later.length b member
      | none =>
        obtain ⟨⟨fault, failed⟩, completions, random, halted⟩ :=
          receiveRead_of_unanswered (e := e.withoutAnswer rest) answered
        have link := congrArg MemoryLink.readResponses
          ((e.withoutAnswer rest).frees_receiveRead a).link
        simp only [EngineStep.andThen, failed]
        refine ⟨[a], ?_, ?_, random.trans draws, fun b member h outstanding valid => ?_⟩
        · rw [waiting]
          exact congrArg (a :: ·) link.symm
        · rw [completions, List.filterMap_cons_none answered]
          simp [withoutAnswer]
        · obtain rfl := List.mem_singleton.1 member
          exact .inr ⟨⟨fault, rfl⟩, halted h outstanding valid⟩

theorem random_collectWrites (n : Nat) (e : Engine) :
    (collectWrites n e).state.random = e.random := by
  induction n generalizing e with
  | zero => rfl
  | succ n ih =>
    unfold collectWrites
    rcases e.link.receiveWrite with ⟨_ | _ | _, link⟩
    · simp only
      split
      · exact ih _
      · rfl
    · rfl
    · rfl

/-- What the engine takes before it sends a beat. -/
theorem collects_collect (cycle : Nat) (draws : e.random = .fullBandwidth)
    (answerable : e.Answerable) : ∃ taken, e.Collects (e.collect cycle) taken := by
  obtain ⟨same, -⟩ := collectWrites_spec e.pendingWrites { e with cycle := cycle }
  have random := random_collectWrites e.pendingWrites { e with cycle := cycle }
  unfold collect EngineStep.andThen
  generalize collectWrites e.pendingWrites { e with cycle := cycle } = s at same random ⊢
  have slots : s.state.slots = e.slots := same.slots
  have params : s.state.params = e.params := congrArg ValidParameters.params same.config
  split
  · exact ⟨[], .none same.responses same.completions (random.trans draws)⟩
  · obtain ⟨taken, collects⟩ := collects_collectReads s.state.pendingReads (e := s.state)
      (random.trans draws) (by unfold Answerable; rwa [slots, params])
    refine ⟨taken, ?_, ?_, collects.draws, ?_⟩
    · exact same.responses.symm.trans collects.rest
    · rw [← slots, ← congrArg OvertakingQueue.items same.completions]
      exact collects.completions
    · rw [← slots]
      exact collects.length

/-! ## Beats -/

/-- The call draws nothing but zeros and, where a beat is due, fails or sends one. -/
structure Flows (due : Prop) (s : EngineStep (Option Flit)) : Prop where
  draws : s.state.random = .fullBandwidth
  beat : due → ∀ sent, s.answer = .ok sent → sent.isSome

theorem flows_completionBeat (draws : e.random = .fullBandwidth) (c : CompletionPacket)
    (header : Option Header) (flit : Flit) (start left : Nat) :
    Flows True (e.completionBeat c header flit start left) := by
  refine ⟨?_, fun _ sent answer => ?_⟩
  · unfold completionBeat
    simp only [EngineStep.ok]
    split
    · exact draws
    · exact draws
  · obtain rfl := Except.ok.inj answer
    rfl

theorem flows_mmioBeat (draws : e.random = .fullBandwidth) (r : MmioRequest)
    (header : Option Header) (flit : Flit) (start left : Nat) :
    Flows True (e.mmioBeat r header flit start left) := by
  refine ⟨?_, fun _ sent answer => ?_⟩
  · unfold mmioBeat
    simp only [EngineStep.ok]
    generalize (if r.write then left - min left (e.config.dwordWidth - start) else 0) = rest
    split
    · exact draws
    · exact draws
  · obtain rfl := Except.ok.inj answer
    rfl

theorem flows_withHeader (draws : e.random = .fullBandwidth) (h : Header)
    {send : Flit → EngineStep (Option Flit)} (sends : ∀ flit, Flows True (send flit)) :
    Flows True (e.withHeader h send) := by
  unfold withHeader
  split
  · exact ⟨draws, nofun⟩
  · exact sends _

/-- A completion at the head of the queue starts without delay. -/
theorem flows_startCompletion (unthrottled : e.Unthrottled) (c : CompletionPacket) :
    Flows True (e.startCompletion c) := by
  have draws := unthrottled.draws
  unfold startCompletion
  simp only [drawStall_eq_false draws, Bool.false_eq_true, if_false, unthrottled.latency,
    not_true_eq_false, and_false]
  split
  · exact ⟨draws, nofun⟩
  · next request _ =>
    generalize released : (if c.isLast = true then { e with slots := e.slots.release c.slot }
      else e) = e'
    have draws' : e'.random = .fullBandwidth := by
      rw [← released]
      split
      · exact draws
      · exact draws
    exact flows_withHeader draws' _ fun flit => flows_completionBeat draws' ..

theorem flows_continueCompletion (draws : e.random = .fullBandwidth) (left : Nat) :
    Flows (e.completions.items ≠ []) (e.continueCompletion left) := by
  unfold continueCompletion
  simp only [drawStall_eq_false draws, Bool.false_eq_true, if_false]
  cases queue : e.completions.items with
  | nil =>
    simp only [OvertakingQueue.front?, queue]
    exact ⟨draws, fun due => absurd rfl due⟩
  | cons c rest =>
    simp only [OvertakingQueue.front?, queue, List.head?_cons]
    have flows := flows_completionBeat draws c none e.blankFlit 0 left
    exact ⟨flows.draws, fun _ => flows.beat trivial⟩

theorem flows_elseCompletion (unthrottled : e.Unthrottled) (flit : Option Flit) :
    Flows (flit.isSome ∨ e.completions.items ≠ []) (elseCompletion flit e) := by
  unfold elseCompletion
  cases flit with
  | some f =>
    refine ⟨unthrottled.draws, fun _ sent answer => ?_⟩
    obtain rfl := Except.ok.inj answer
    rfl
  | none =>
    cases queue : e.completions.items with
    | nil =>
      simp only [OvertakingQueue.front?, queue]
      exact ⟨unthrottled.draws, fun due => absurd due (by simp)⟩
    | cons c rest =>
      simp only [OvertakingQueue.front?, queue, List.head?_cons]
      have flows := flows_startCompletion unthrottled c
      exact ⟨flows.draws, fun _ => flows.beat trivial⟩

theorem startMmio_cases (draws : e.random = .fullBandwidth) (r : MmioRequest) :
    e.startMmio r = .ok e none ∨ Flows True (e.startMmio r) := by
  unfold startMmio
  split
  · exact .inl rfl
  · right
    simp only [drawStall_eq_false draws, Bool.false_eq_true, if_false]
    exact flows_withHeader draws _ fun flit =>
      flows_mmioBeat (e := { e with lastMmioCycle := some e.cycle }) draws ..

theorem flows_startPacket (unthrottled : e.Unthrottled) :
    Flows (e.completions.items ≠ []) e.startPacket := by
  have waits : Flows (e.completions.items ≠ []) (elseCompletion none e) := by
    have flows := flows_elseCompletion unthrottled none
    exact ⟨flows.draws, fun due => flows.beat (.inr due)⟩
  unfold startPacket
  cases queue : e.mmioQueue with
  | nil => exact waits
  | cons r rest =>
    simp only
    rcases startMmio_cases unthrottled.draws r with silent | flows
    · rw [silent]
      exact waits
    · unfold EngineStep.andThen
      cases answer : (e.startMmio r).answer with
      | error fault => exact ⟨flows.draws, nofun⟩
      | ok sent =>
        obtain ⟨f, rfl⟩ := Option.isSome_iff_exists.1 (flows.beat trivial sent answer)
        exact ⟨flows.draws, fun _ _ answer => by obtain rfl := Except.ok.inj answer; rfl⟩

/-- While a completion waits or is on its way, each time the device is ready it gets a beat. -/
theorem flows_sendBeat (unthrottled : e.Unthrottled)
    (place : e.toDevice = .start ∨ e.InPacket) :
    Flows (e.completions.items ≠ []) e.sendBeat := by
  unfold sendBeat
  rcases place with between | ⟨src, left, inside, first, -, -⟩
  · rw [between]
    exact flows_startPacket unthrottled
  · rw [inside]
    cases src with
    | mmio r =>
      obtain ⟨rest, queue⟩ := List.head?_eq_some_iff.1 first
      have flows := flows_mmioBeat unthrottled.draws r none e.blankFlit 0 left
      unfold Source.inside continueMmio
      simp only [queue]
      exact ⟨flows.draws, fun _ => flows.beat trivial⟩
    | completion c => exact flows_continueCompletion unthrottled.draws left

end Engine

end TlpBridge
