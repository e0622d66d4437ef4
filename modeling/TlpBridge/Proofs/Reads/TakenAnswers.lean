import TlpBridge.Proofs.Reads.FreeSlots
import TlpBridge.Proofs.Reads.LinkRequests

/-!
# Answers that a cycle takes

In a cycle the engine takes answers from the front of both queues of the link and counts each of
them off. Slots are at most given back.
-/
namespace TlpBridge.Engine

/-- From one state to the next the engine takes answers to reads. What is left is the rest of the
queue, and each answer taken is one read fewer that the engine waits for. -/
structure TakesReads (e e' : Engine) : Prop where
  rest : e'.link.readResponses <:+ e.link.readResponses
  counted : e'.pendingReads + e.link.readResponses.length =
    e.pendingReads + e'.link.readResponses.length

/-- The same for answers to writes. -/
structure TakesWrites (e e' : Engine) : Prop where
  rest : e'.link.writeResponses <:+ e.link.writeResponses
  counted : e'.pendingWrites + e.link.writeResponses.length =
    e.pendingWrites + e'.link.writeResponses.length

/-- Slots are at most given back, and nothing is taken. -/
structure Frees (e e' : Engine) : Prop where
  link : e'.link = e.link
  pendingReads : e'.pendingReads = e.pendingReads
  pendingWrites : e'.pendingWrites = e.pendingWrites
  slots : ∃ released, e'.slots = e.slots.releaseAll released

/-- What a cycle does to the slots, the answers and the counts of what is pending. -/
structure TakesAnswers (e e' : Engine) : Prop where
  reads : e.TakesReads e'
  writes : e.TakesWrites e'
  slots : ∃ released, e'.slots = e.slots.releaseAll released

variable {e e' e'' : Engine}

theorem TakesReads.trans (first : e.TakesReads e') (second : e'.TakesReads e'') :
    e.TakesReads e'' where
  rest := second.rest.trans first.rest
  counted := by
    have before := first.counted
    have after := second.counted
    omega

theorem TakesReads.of_eq (responses : e'.link.readResponses = e.link.readResponses)
    (pending : e'.pendingReads = e.pendingReads) : e.TakesReads e' where
  rest := responses ▸ List.suffix_refl _
  counted := by rw [responses, pending]

theorem TakesWrites.trans (first : e.TakesWrites e') (second : e'.TakesWrites e'') :
    e.TakesWrites e'' where
  rest := second.rest.trans first.rest
  counted := by
    have before := first.counted
    have after := second.counted
    omega

theorem TakesWrites.of_eq (responses : e'.link.writeResponses = e.link.writeResponses)
    (pending : e'.pendingWrites = e.pendingWrites) : e.TakesWrites e' where
  rest := responses ▸ List.suffix_refl _
  counted := by rw [responses, pending]

namespace TakesAnswers

theorem trans (first : e.TakesAnswers e') (second : e'.TakesAnswers e'') :
    e.TakesAnswers e'' where
  reads := first.reads.trans second.reads
  writes := first.writes.trans second.writes
  slots := by
    obtain ⟨released, before⟩ := first.slots
    obtain ⟨more, after⟩ := second.slots
    exact ⟨released ++ more, by rw [after, before, SlotPool.releaseAll_append]⟩

theorem of_frees (frees : e.Frees e') : e.TakesAnswers e' :=
  ⟨.of_eq (congrArg _ frees.link) frees.pendingReads,
    .of_eq (congrArg _ frees.link) frees.pendingWrites, frees.slots⟩

theorem refl (e : Engine) : e.TakesAnswers e := of_frees ⟨rfl, rfl, rfl, [], rfl⟩

end TakesAnswers

theorem frees_ready (e : Engine) : e.Frees e.ready.2 := by
  unfold ready
  split
  · exact ⟨rfl, rfl, rfl, [], rfl⟩
  · exact ⟨rfl, rfl, rfl, [], rfl⟩

theorem frees_request (e : Engine) (r : MmioRequest) : e.Frees (e.request r).state := by
  unfold request
  split
  · exact ⟨rfl, rfl, rfl, [], rfl⟩
  · cases e.requestFault? r with
    | some v => exact ⟨rfl, rfl, rfl, [], rfl⟩
    | none => exact ⟨rfl, rfl, rfl, [], rfl⟩

theorem takesAnswers_collectWrites (n : Nat) (e : Engine) (few : n ≤ e.pendingWrites) :
    e.TakesAnswers (collectWrites n e).state := by
  induction n generalizing e with
  | zero => exact .refl e
  | succ n ih =>
    unfold collectWrites MemoryLink.receiveWrite
    cases waiting : e.link.writeResponses with
    | nil =>
      cases e.link.serviceAttached with
      | true => exact .refl e
      | false => exact .refl e
    | cons a rest =>
      let e' := { e with
        link := { e.link with writeResponses := rest }
        pendingWrites := e.pendingWrites - 1 }
      have taken : e.TakesAnswers e' := by
        refine ⟨.of_eq rfl rfl, ⟨?_, ?_⟩, [], rfl⟩
        · rw [waiting]
          exact List.suffix_cons a rest
        · change e.pendingWrites - 1 + e.link.writeResponses.length = e.pendingWrites + rest.length
          rw [waiting, List.length_cons]
          omega
      simp only [MemoryLink.receive]
      split
      · exact taken.trans (ih e' (Nat.le_sub_one_of_lt few))
      · exact taken

theorem frees_queueRead (e : Engine) (slot : Nat) (h : Header) (data : List UInt8) :
    e.Frees (e.queueRead slot h data).state := by
  unfold queueRead
  simp only
  generalize (if h.isFence (h.request?.getD {}) then 0 else h.byteSize.toNat) = expected
  by_cases length : data.length = expected
  · rw [if_neg (not_not_intro length)]
    cases ByteEnable.byteCount? h.dwordSize (h.request?.getD {}).firstEnable
        (h.request?.getD {}).lastEnable with
    | none => exact ⟨rfl, rfl, rfl, [], rfl⟩
    | some count =>
      have only := onlyQueued_queuePackets slot h (h.request?.getD {})
        (paddedDwords h.dwordSize data) h.dwordSize 0 count e
      unfold OnlyQueued at only
      simp only [EngineStep.ok]
      rw [only]
      exact ⟨rfl, rfl, rfl, [], rfl⟩
  · rw [if_pos length]
    exact ⟨rfl, rfl, rfl, [], rfl⟩

theorem frees_receiveRead (e : Engine) (a : ReadResponse) :
    e.Frees (e.receiveRead a).state := by
  unfold receiveRead
  simp only
  split
  · exact ⟨rfl, rfl, rfl, [], rfl⟩
  · split
    · exact frees_queueRead ..
    · exact ⟨rfl, rfl, rfl, [a.tag.toNat], rfl⟩

theorem takesAnswers_collectReads (n : Nat) (e : Engine) (few : n ≤ e.pendingReads) :
    e.TakesAnswers (collectReads n e).state := by
  induction n generalizing e with
  | zero => exact .refl e
  | succ n ih =>
    unfold collectReads MemoryLink.receiveRead
    cases waiting : e.link.readResponses with
    | nil =>
      cases e.link.serviceAttached with
      | true => exact .refl e
      | false => exact .refl e
    | cons a rest =>
      have taken : e.TakesAnswers (e.withoutAnswer rest) := by
        refine ⟨⟨?_, ?_⟩, .of_eq rfl rfl, [], rfl⟩
        · rw [waiting]
          exact List.suffix_cons a rest
        · change e.pendingReads - 1 + e.link.readResponses.length = e.pendingReads + rest.length
          rw [waiting, List.length_cons]
          omega
      have frees := (e.withoutAnswer rest).frees_receiveRead a
      have received := taken.trans (.of_frees frees)
      change e.TakesAnswers (EngineStep.andThen ((e.withoutAnswer rest).receiveRead a)
        fun () e => collectReads n e).state
      unfold EngineStep.andThen
      split
      · exact received
      · refine received.trans (ih _ ?_)
        rw [frees.pendingReads]
        exact Nat.le_sub_one_of_lt few

theorem takesAnswers_collect (e : Engine) (cycle : Nat) :
    e.TakesAnswers (e.collect cycle).state := by
  have tick : e.TakesAnswers { e with cycle := cycle } := .of_frees ⟨rfl, rfl, rfl, [], rfl⟩
  have written := tick.trans
    (takesAnswers_collectWrites e.pendingWrites { e with cycle := cycle } (Nat.le_refl _))
  unfold collect EngineStep.andThen
  split
  · exact written
  · exact written.trans (takesAnswers_collectReads _ _ (Nat.le_refl _))

/-- A beat to the device takes no answer, and with the header of a last completion a slot is given
back. -/
theorem Sends.frees {s : EngineStep (Option Flit)} (sends : e.Sends s) :
    e.Frees s.state := by
  cases sends with
  | nothing state =>
    rw [state]
    exact ⟨rfl, rfl, rfl, [], rfl⟩
  | refused r cause first fault state =>
    rw [state]
    exact ⟨rfl, rfl, rfl, [], rfl⟩
  | startsMmio r between first header beat =>
    rw [beat.state]
    exact ⟨rfl, rfl, rfl, [], rfl⟩
  | continuesMmio left inside beat =>
    rw [beat.state]
    exact ⟨rfl, rfl, rfl, [], rfl⟩
  | startsCompletion c request random between first stored header beat =>
    rw [beat.state]
    refine ⟨rfl, rfl, rfl, if c.isLast then [c.slot] else [], ?_⟩
    split
    · rfl
    · rfl
  | continuesCompletion c random left inside first beat =>
    rw [beat.state]
    exact ⟨rfl, rfl, rfl, [], rfl⟩

/-- What a cycle does to the slots and the answers. -/
theorem takesAnswers_emit (e : Engine) (cycle : Nat) (ready : Bool)
    (sendable : (e.collect cycle).state.Sendable) :
    e.TakesAnswers (e.emit cycle ready).state := by
  have collected := e.takesAnswers_collect cycle
  exact e.emit_ends cycle ready sendable (fun _ => .refl e) collected fun _ sends =>
    collected.trans (.of_frees sends.frees)

end TlpBridge.Engine
