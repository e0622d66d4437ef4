import Mathlib.Order.Bounds.Basic
import TlpBridge.Proofs.ToDevice.FramedRuns
import TlpBridge.Proofs.ToDevice.FullBandwidth
import TlpBridge.Proofs.Reads.SlotAccounts

/-!
# Streams without jitter

At full bandwidth each answered read becomes one packet to the device. The packets come in the
order of the answers, with as few beats as they need, and as long as one is left every time the
device is ready brings a beat.
-/
namespace TlpBridge

/-- The completion that a packet is made from. -/
def Source.completion? : Source → Option CompletionPacket
  | .mmio _ => none
  | .completion c => some c

/-- The completion of which the first of some beats is. -/
def completionOf (beats : List SentBeat) : Option CompletionPacket :=
  (beats.head?.bind SentBeat.source).bind Source.completion?

/-- The beats to the device, cut behind those that are marked as the last of their packet. -/
def DeviceStream.packets (s : DeviceStream) : List (List SentBeat) :=
  s.beats.splitBy fun b _ => !b.flit.last

/-- The responses to reads that an engine takes from one state to the next. -/
def Engine.takenReads (e e' : Engine) : List ReadResponse :=
  e.link.readResponses.take (e.link.readResponses.length - e'.link.readResponses.length)

/-- A stream to the device, and the reads that host memory has answered with data so far. -/
structure ReadStream extends DeviceStream where
  answered : List AnsweredRead := []

namespace ReadStream

/-- A fresh engine that draws nothing but zeros. -/
def start (config : ValidParameters) (options : Switches) : ReadStream where
  toDeviceStream := .start config options .fullBandwidth

/-- Asked for a beat, an engine `e` has given an answer. Before, it took responses. -/
def observe (s : ReadStream) (e : Engine) (result : EngineStep (Option Flit)) : ReadStream where
  toDeviceStream := s.toDeviceStream.observe e result
  answered :=
    s.answered ++ (s.engine.takenReads result.state).filterMap s.engine.slots.answeredBy?

def step (s : ReadStream) : DeviceStream.Move → ReadStream
  | .emit cycle ready =>
    s.observe (s.engine.collect cycle).state (s.engine.emit cycle ready)
  | m => { s with toDeviceStream := s.toDeviceStream.step m }

def run (s : ReadStream) (moves : List DeviceStream.Move) : ReadStream := moves.foldl step s

/-- Full bandwidth, as the device and host memory see it. -/
structure JitterFree (s : ReadStream) (c : ValidParameters) : Prop where
  cut : IsCut c s.beats s.packets
  /-- Each answered read has one packet, on its way or to be started, in the order of answers. -/
  ordered : s.packets.filterMap completionOf ++ s.engine.unstarted =
    s.answered.map AnsweredRead.completion
  /-- A completion takes no beat more than its header and its data need. -/
  shortest : ∀ p ∈ s.packets, Ended p → ∀ x, completionOf p = some x →
    IsLeast { n | HeaderWords.count + x.dwordSize ≤ c.dwordWidth * n } p.length
  /-- A valid response to an outstanding read answers it, unless its length halts the engine. -/
  taken : ∀ cycle ready, ∀ a ∈ s.engine.takenReads (s.engine.emit cycle ready).state,
    ∀ h, s.engine.slots.outstanding? a.tag.toNat = some h → a.status = .valid →
      (s.engine.slots.answeredBy? a).isSome ∨ (s.engine.emit cycle ready).state.halted
  /-- While a completion waits or is on its way, no cycle in which the device is ready is lost. -/
  flows : ∀ cycle sent, (s.engine.emit cycle true).answer = .ok sent →
    0 < s.engine.backlog ∨ 0 < (s.engine.collect cycle).state.backlog → sent.isSome
  /-- As long as a slot is free the beats of the device are taken. -/
  ready : s.engine.halted = false → ∀ slot < c.params.maxDmaReads,
    s.engine.readBusy slot = false → s.engine.ready.1 = true

end ReadStream

/-- A packet that is whole has as few beats as its header and its payload need. -/
theorem BeatsOf.isLeast_length {c : ValidParameters} {src : Source} {h : Header}
    {beats : List SentBeat} (beatsOf : BeatsOf c src h beats)
    (goesOn : ∀ b ∈ beats.dropLast, b.flit.last = false) (ended : Ended beats) :
    IsLeast { n | HeaderWords.count + src.payload.length ≤ c.dwordWidth * n } beats.length := by
  obtain ⟨b, ends, last⟩ := ended
  obtain ⟨before, rfl⟩ := List.getLast?_eq_some_iff.1 ends
  rw [List.dropLast_concat] at goesOn
  rw [List.length_append, List.length_singleton]
  constructor
  · have final := (beatsOf.beat before.length b List.getElem?_concat_length).2.last
    rw [last] at final
    exact of_decide_eq_true final.symm
  · intro n enough
    change HeaderWords.count + src.payload.length ≤ c.dwordWidth * n at enough
    by_contra fewer
    have some_ : 0 < n := by
      apply Nat.pos_of_ne_zero
      rintro rfl
      rw [Nat.mul_zero] at enough
      exact absurd (Nat.le_trans (Nat.le_add_right ..) enough) (by decide)
    have inside : n - 1 < before.length := by omega
    have found : (before ++ [b])[n - 1]? = some before[n - 1] := by
      rw [List.getElem?_append_left inside, List.getElem?_eq_getElem inside]
    have more := (beatsOf.beat (n - 1) _ found).2.last
    rw [goesOn _ (List.getElem_mem inside), Nat.sub_add_cancel some_, decide_eq_true enough] at more
    cases more

namespace Engine

variable {e e' : Engine}

theorem unstarted_congr (completions : e'.completions = e.completions)
    (toDevice : e'.toDevice = e.toDevice) : e'.unstarted = e.unstarted := by
  rw [unstarted, unstarted, completions, toDevice]

theorem unstarted_advance_of_start {src : Source} (between : e.toDevice = .start)
    (first : src.IsFirst e) (ends : Bool) (left : Nat) :
    e.unstarted = src.completion?.toList ++ (e.advance src ends left).unstarted := by
  cases src with
  | mmio r => cases ends <;> rw [unstarted, between] <;> rfl
  | completion c =>
    obtain ⟨rest, queue⟩ := List.head?_eq_some_iff.1 first
    have after : (e.advance (.completion c) ends left).unstarted = e.completions.items.tail := by
      cases ends <;> rfl
    rw [after, unstarted, between, queue]
    rfl

theorem unstarted_advance_of_inside {src : Source} {left : Nat}
    (inside : e.toDevice = src.inside left) (ends : Bool) (left' : Nat) :
    (e.advance src ends left').unstarted = e.unstarted := by
  rw [unstarted, unstarted, inside]
  cases src <;> cases ends <;> rfl

theorem takenReads_self (e : Engine) : e.takenReads e = [] := by
  rw [takenReads, Nat.sub_self, List.take_zero]

theorem takenReads_congr {e'' : Engine} (link : e''.link = e'.link) :
    e.takenReads e'' = e.takenReads e' := by
  rw [takenReads, takenReads, link]

variable {s : EngineStep Unit} {taken : List ReadResponse}

theorem Collects.takenReads (collects : e.Collects s taken) : e.takenReads s.state = taken := by
  rw [Engine.takenReads, collects.rest, List.length_append, Nat.add_sub_cancel, List.take_left]

theorem Collects.unstarted (collects : e.Collects s taken)
    (toDevice : s.state.toDevice = e.toDevice) (place : e.toDevice = .start ∨ e.InPacket) :
    s.state.unstarted = e.unstarted ++
      (taken.filterMap e.slots.answeredBy?).map AnsweredRead.completion := by
  rw [Engine.unstarted, Engine.unstarted, toDevice, collects.completions]
  rcases place with between | ⟨src, left, inside, first, -⟩
  · rw [between]
  · rw [inside]
    cases src with
    | mmio r => rfl
    | completion c =>
      obtain ⟨rest, queue⟩ := List.head?_eq_some_iff.1 first
      simp only [Source.inside, queue]
      rfl

theorem Accepts.besideReads (accepts : e.Accepts e') :
    e'.completions = e.completions ∧ e'.random = e.random ∧ e'.options = e.options := by
  cases accepts with
  | quiet state =>
    rw [state]
    exact ⟨rfl, rfl, rfl⟩
  | write w sent state =>
    rw [state]
    exact ⟨rfl, rfl, rfl⟩
  | read r slot slots stored body completable pool sent state =>
    rw [state]
    exact ⟨rfl, rfl, rfl⟩

section Emit

variable (cycle : Nat) (ready : Bool)

theorem emit_of_halted (halted : e.halted) : e.emit cycle ready = ⟨.error .halted, e, []⟩ := by
  rw [emit_eq, if_pos halted]

variable {cycle}

theorem emit_of_failed (running : ¬ e.halted) {fault : EngineFault}
    (failed : (e.collect cycle).answer = .error fault) : e.emit cycle ready =
      ⟨.error fault, (e.collect cycle).state, (e.collect cycle).events⟩ := by
  rw [emit_eq, if_neg running, EngineStep.andThen, failed]

theorem emit_of_collected (running : ¬ e.halted) (done : (e.collect cycle).answer = .ok ()) :
    e.emit cycle ready = EngineStep.after (e.collect cycle).events
      (if ready then (e.collect cycle).state.sendBeat else .ok (e.collect cycle).state none) := by
  rw [emit_eq, if_neg running, EngineStep.andThen, done]

theorem takenReads_emit (running : ¬ e.halted) :
    e.takenReads (e.emit cycle ready).state = e.takenReads (e.collect cycle).state := by
  cases answer : (e.collect cycle).answer with
  | error fault => rw [emit_of_failed ready running answer]
  | ok u =>
    rw [emit_of_collected ready running answer]
    apply takenReads_congr
    cases ready with
    | false => rfl
    | true =>
      obtain ⟨released, state⟩ := (e.collect cycle).state.onlySent_sendBeat
      change (e.collect cycle).state.sendBeat.state.link = _
      rw [state]

end Emit

theorem besideReads_request (e : Engine) (r : MmioRequest) :
    (e.request r).state.completions = e.completions ∧ (e.request r).state.random = e.random ∧
      (e.request r).state.options = e.options := by
  unfold request
  split
  · exact ⟨rfl, rfl, rfl⟩
  · split <;> exact ⟨rfl, rfl, rfl⟩

end Engine

theorem filterMap_singleton {α β : Type} (f : α → Option β) (a : α) :
    [a].filterMap f = (f a).toList := by
  cases found : f a with
  | none => exact List.filterMap_cons_none found
  | some b => exact List.filterMap_cons_some found

/-- The completions of which the first beat was sent. -/
def startedCompletions (packets : List (List SentBeat)) (current : List SentBeat) :
    List CompletionPacket := packets.filterMap completionOf ++ (completionOf current).toList

theorem startedCompletions_withBeat (packets : List (List SentBeat)) (current : List SentBeat)
    (b : SentBeat) :
    startedCompletions (DeviceStream.withBeat packets current b).1
        (DeviceStream.withBeat packets current b).2 =
      startedCompletions packets current ++
        if current = [] then (b.source.bind Source.completion?).toList else [] := by
  have filed : startedCompletions (DeviceStream.withBeat packets current b).1
      (DeviceStream.withBeat packets current b).2 =
        packets.filterMap completionOf ++ (completionOf (current ++ [b])).toList := by
    unfold startedCompletions DeviceStream.withBeat
    split
    · rw [List.filterMap_append, filterMap_singleton]
      exact List.append_nil _
    · rfl
  rw [filed, startedCompletions, List.append_assoc]
  congr 1
  cases current with
  | nil => rfl
  | cons first rest => exact (List.append_nil _).symm

namespace ReadStream

/-- What every run without jitter keeps. -/
structure Steady (s : ReadStream) (c : ValidParameters) (packets : List (List SentBeat))
    (current : List SentBeat) : Prop where
  framed : s.Framed c packets current
  unthrottled : s.engine.Unthrottled
  bounded : s.engine.slots.Bounded c.params
  ordered : startedCompletions packets current ++ s.engine.unstarted =
    s.answered.map AnsweredRead.completion

namespace Steady

variable {s : ReadStream} {c : ValidParameters} {packets : List (List SentBeat)}
  {current : List SentBeat}

theorem start (config : ValidParameters) (options : Switches)
    (unlimited : options.unlimitedBandwidth) : (start config options).Steady config [] [] where
  framed := .start config options .fullBandwidth
  unthrottled := ⟨rfl, unlimited⟩
  bounded := .ofCount config.params
  ordered := rfl

theorem answerable (steady : s.Steady c packets current) : s.engine.Answerable := by
  intro slot h found
  have config : s.engine.config = c := steady.framed.config
  refine ⟨steady.framed.stocked.requests slot h found, ?_⟩
  rw [Engine.params, config]
  exact steady.bounded.short slot h found

theorem quiet (steady : s.Steady c packets current) {e : Engine}
    (same : s.engine.Undisturbed e) (beside : e.completions = s.engine.completions ∧
      e.random = s.engine.random ∧ e.options = s.engine.options)
    (bounded : e.slots.Bounded c.params) :
    Steady ⟨⟨e, s.beats⟩, s.answered⟩ c packets current := by
  obtain ⟨completions, random, options⟩ := beside
  refine ⟨steady.framed.undisturbed same, ⟨random.trans steady.unthrottled.draws, ?_⟩, bounded, ?_⟩
  · rw [options]
    exact steady.unthrottled.latency
  · rw [← steady.ordered]
    exact congrArg _ (Engine.unstarted_congr completions same.toDevice)

theorem collect (steady : s.Steady c packets current) (cycle : Nat) :
    Steady ⟨⟨(s.engine.collect cycle).state, s.beats⟩, s.answered ++
      (s.engine.takenReads (s.engine.collect cycle).state).filterMap s.engine.slots.answeredBy?⟩
      c packets current := by
  obtain ⟨taken, collects⟩ :=
    Engine.collects_collect cycle steady.unthrottled.draws steady.answerable
  have same := s.engine.undisturbed_collect cycle
  have only := s.engine.onlyCollected_collect cycle
  obtain ⟨released, slots⟩ := (s.engine.takesAnswers_collect cycle).slots
  refine ⟨steady.framed.undisturbed same, ⟨collects.draws, ?_⟩, ?_, ?_⟩
  · rw [only]
    exact steady.unthrottled.latency
  · rw [slots]
    exact steady.bounded.releaseAll released
  · have waiting := collects.unstarted same.toDevice steady.framed.sending.inPacket
    rw [collects.takenReads, List.map_append, ← steady.ordered, List.append_assoc]
    exact congrArg _ waiting

/-- What a beat starts no longer waits. -/
theorem unstarted_of_streams (steady : s.Steady c packets current) {e : Engine} {f : Flit}
    {effects : List Effect} (streams : s.engine.Streams (.ok e (some f) effects)) :
    (if current = [] then ((s.engine.sourceOf f).bind Source.completion?).toList else []) ++
      e.unstarted = s.engine.unstarted := by
  cases streams with
  | silent none_ => exact absurd rfl (none_ f)
  | starts src h flit between first header stored state =>
    obtain ⟨-, source, -⟩ := steady.framed.stocked.firstBeat between first header stored
    rw [if_pos (steady.framed.sending.eq_nil_iff.2 between), source,
      Engine.unstarted_congr state.completions state.toDevice]
    exact (Engine.unstarted_advance_of_start between first ..).symm
  | continues src left inside first state =>
    have started : current ≠ [] := by
      rw [ne_eq, steady.framed.sending.eq_nil_iff, inside]
      cases src <;> exact nofun
    rw [if_neg started, Engine.unstarted_congr state.completions state.toDevice]
    exact Engine.unstarted_advance_of_inside inside ..

/-- The engine was asked for a beat. -/
theorem sent (steady : s.Steady c packets current) {result : EngineStep (Option Flit)}
    (streams : s.engine.Streams result) (only : s.engine.OnlySent result.state)
    (draws : result.state.random = .fullBandwidth) : ∃ packets current,
      Steady ⟨s.toDeviceStream.observe s.engine result, s.answered⟩ c packets current := by
  obtain ⟨released, state⟩ := only
  have unthrottled : result.state.Unthrottled := by
    refine ⟨draws, ?_⟩
    rw [state]
    exact steady.unthrottled.latency
  have bounded : result.state.slots.Bounded c.params := by
    rw [state]
    exact steady.bounded.releaseAll released
  have silent (same : s.engine.SameStream result.state) :
      Steady ⟨⟨result.state, s.beats⟩, s.answered⟩ c packets current := by
    refine ⟨steady.framed.undisturbed (.of_same same), unthrottled, bounded, ?_⟩
    rw [← steady.ordered]
    exact congrArg _ (Engine.unstarted_congr same.completions same.toDevice)
  rcases result with ⟨fault | (_ | f), e, effects⟩
  · cases streams with
    | silent _ same => exact ⟨packets, current, silent same⟩
  · cases streams with
    | silent _ same => exact ⟨packets, current, silent same⟩
  · refine ⟨_, _, steady.framed.sent streams, unthrottled, bounded, ?_⟩
    rw [startedCompletions_withBeat, ← steady.ordered, List.append_assoc]
    exact congrArg _ (steady.unstarted_of_streams streams)

/-- Asking for a beat, which first takes what host memory has answered. -/
theorem emit (steady : s.Steady c packets current) (cycle : Nat) (ready : Bool) :
    ∃ packets current, (s.step (.emit cycle ready)).Steady c packets current := by
  have collected := steady.collect cycle
  change ∃ packets current, (s.observe (s.engine.collect cycle).state
    (s.engine.emit cycle ready)).Steady c packets current
  by_cases halted : s.engine.halted
  · rw [Engine.emit_of_halted cycle ready halted, ReadStream.observe, Engine.takenReads_self,
      List.filterMap_nil, List.append_nil]
    exact ⟨packets, current, steady⟩
  · rw [ReadStream.observe, Engine.takenReads_emit ready halted]
    cases answer : (s.engine.collect cycle).answer with
    | error fault =>
      rw [Engine.emit_of_failed ready halted answer]
      exact ⟨packets, current, collected⟩
    | ok u =>
      rw [Engine.emit_of_collected ready halted answer]
      cases ready with
      | false => exact ⟨packets, current, collected⟩
      | true =>
        have place := collected.framed.sending.inPacket
        have streams := Engine.sendBeat_streams _ collected.framed.stocked place
        have flows := Engine.flows_sendBeat collected.unthrottled place
        exact collected.sent (streams.after _) (Engine.onlySent_sendBeat _) flows.draws

theorem step (steady : s.Steady c packets current) (m : DeviceStream.Move) :
    ∃ packets current, (s.step m).Steady c packets current := by
  have config : s.engine.config = c := steady.framed.config
  cases m with
  | accept cycle flit =>
    have accepts := s.engine.accept_accepts cycle flit
    have bounded : s.engine.slots.Bounded s.engine.params := by
      rw [Engine.params, config]
      exact steady.bounded
    have kept := Engine.bounded_accept bounded cycle flit
    rw [Engine.params, config] at kept
    exact ⟨_, _, steady.quiet accepts.undisturbed accepts.besideReads kept⟩
  | ready =>
    change ∃ packets current, Steady ⟨⟨s.engine.ready.2, s.beats⟩, s.answered⟩ c packets current
    rw [Engine.ready_eq steady.unthrottled.draws]
    exact ⟨packets, current, steady⟩
  | request r =>
    obtain ⟨same, -⟩ := s.engine.quiet_request r
    exact ⟨_, _, steady.quiet (s.engine.undisturbed_request r) (s.engine.besideReads_request r)
      (same.slots ▸ steady.bounded)⟩
  | emit cycle ready => exact steady.emit cycle ready
  | serve link =>
    exact ⟨_, _, steady.quiet (.of_same ⟨rfl, rfl, rfl, rfl, fun _ => rfl⟩) ⟨rfl, rfl, rfl⟩
      steady.bounded⟩
  | attach mmio interrupts =>
    exact ⟨_, _, steady.quiet (.of_same ⟨rfl, rfl, rfl, rfl, fun _ => rfl⟩) ⟨rfl, rfl, rfl⟩
      steady.bounded⟩

theorem run (steady : s.Steady c packets current) (moves : List DeviceStream.Move) :
    ∃ packets current, (s.run moves).Steady c packets current := by
  induction moves generalizing s packets current with
  | nil => exact ⟨packets, current, steady⟩
  | cons m rest ih =>
    obtain ⟨packets', current', next⟩ := steady.step m
    exact ih next

/-! ## What a steady stream shows -/

theorem packets_eq (steady : s.Steady c packets current) :
    s.packets = packets ++ if current = [] then [] else [current] :=
  steady.framed.isCut.eq_splitBy

theorem isCut (steady : s.Steady c packets current) : IsCut c s.beats s.packets := by
  rw [steady.packets_eq]
  exact steady.framed.isCut

theorem filterMap_packets (steady : s.Steady c packets current) :
    s.packets.filterMap completionOf = startedCompletions packets current := by
  rw [steady.packets_eq, List.filterMap_append, startedCompletions]
  congr 1
  by_cases empty : current = []
  · rw [if_pos empty, empty]
    rfl
  · rw [if_neg empty, filterMap_singleton]

theorem answered_of_mem (steady : s.Steady c packets current) {p : List SentBeat}
    (member : p ∈ s.packets) {x : CompletionPacket} (is : completionOf p = some x) :
    ∃ a ∈ s.answered, x = a.completion := by
  have started : x ∈ startedCompletions packets current ++ s.engine.unstarted := by
    rw [← steady.filterMap_packets]
    exact List.mem_append_left _ (List.mem_filterMap.2 ⟨p, member, is⟩)
  rw [steady.ordered] at started
  obtain ⟨a, answered, same⟩ := List.mem_map.1 started
  exact ⟨a, answered, same.symm⟩

theorem shortest (steady : s.Steady c packets current) {p : List SentBeat}
    (member : p ∈ s.packets) (ended : Ended p) {x : CompletionPacket}
    (is : completionOf p = some x) :
    IsLeast { n | HeaderWords.count + x.dwordSize ≤ c.dwordWidth * n } p.length := by
  obtain ⟨nonempty, goesOn, src, h, beatsOf, -⟩ := steady.isCut.each p member
  obtain ⟨a, -, rfl⟩ := steady.answered_of_mem member is
  obtain ⟨b, rest, rfl⟩ := List.exists_cons_of_ne_nil nonempty
  obtain rfl : src = .completion a.completion := by
    have source := (beatsOf.beat 0 b rfl).1
    change b.source.bind Source.completion? = some a.completion at is
    rw [source, Option.bind_some] at is
    cases src with
    | mmio r => cases is
    | completion x => exact congrArg Source.completion (Option.some.inj is)
  have length : (Source.completion a.completion).payload.length = a.completion.dwordSize := by
    obtain ⟨request, rfl⟩ := beatsOf.announces.header
    have bound := a.request.byteSize.toNat_lt
    rcases beatsOf.announces.kind with ⟨read, -⟩ | ⟨-, bytes⟩
    · exact absurd read (by change FmtType.completionData.kind? ≠ _; decide)
    · change 4 * _ = (UInt32.ofNat a.request.byteSize.toNat).toNat at bytes
      rw [UInt32.ofNat_toNat] at bytes
      change _ = (a.request.byteSize.toNat + 3) / 4
      omega
  rw [← length]
  exact beatsOf.isLeast_length goesOn ended

theorem taken (steady : s.Steady c packets current) (cycle : Nat) (ready : Bool)
    {a : ReadResponse} (member : a ∈ s.engine.takenReads (s.engine.emit cycle ready).state)
    {h : Header} (outstanding : s.engine.slots.outstanding? a.tag.toNat = some h)
    (valid : a.status = .valid) :
    (s.engine.slots.answeredBy? a).isSome ∨ (s.engine.emit cycle ready).state.halted := by
  obtain ⟨taken, collects⟩ :=
    Engine.collects_collect cycle steady.unthrottled.draws steady.answerable
  by_cases halted : s.engine.halted
  · rw [Engine.emit_of_halted cycle ready halted]
    exact .inr halted
  · rw [Engine.takenReads_emit ready halted, collects.takenReads] at member
    refine (collects.length a member h outstanding valid).imp_right ?_
    rintro ⟨⟨fault, failed⟩, stops⟩
    rw [Engine.emit_of_failed ready halted failed]
    exact stops

theorem flows (steady : s.Steady c packets current) (cycle : Nat) {sent : Option Flit}
    (answer : (s.engine.emit cycle true).answer = .ok sent)
    (due : 0 < s.engine.backlog ∨ 0 < (s.engine.collect cycle).state.backlog) : sent.isSome := by
  have collected := steady.collect cycle
  obtain ⟨taken, collects⟩ :=
    Engine.collects_collect cycle steady.unthrottled.draws steady.answerable
  have waiting : (s.engine.collect cycle).state.completions.items ≠ [] := by
    rcases due with before | after
    · rw [collects.completions]
      exact List.append_ne_nil_of_left_ne_nil (List.length_pos_iff.1 before) _
    · exact List.length_pos_iff.1 after
  by_cases halted : s.engine.halted
  · rw [Engine.emit_of_halted cycle true halted] at answer
    cases answer
  · cases done : (s.engine.collect cycle).answer with
    | error fault =>
      rw [Engine.emit_of_failed true halted done] at answer
      cases answer
    | ok u =>
      rw [Engine.emit_of_collected true halted done] at answer
      have flows :=
        Engine.flows_sendBeat collected.unthrottled collected.framed.sending.inPacket
      exact flows.beat waiting sent answer

theorem ready (steady : s.Steady c packets current) (running : s.engine.halted = false)
    {slot : Nat} (inside : slot < c.params.maxDmaReads)
    (idle : s.engine.readBusy slot = false) : s.engine.ready.1 = true := by
  rw [Engine.ready_eq steady.unthrottled.draws, running]
  exact steady.bounded.hasRoom inside idle

theorem jitterFree (steady : s.Steady c packets current) : s.JitterFree c where
  cut := steady.isCut
  ordered := by rw [steady.filterMap_packets, steady.ordered]
  shortest _ member ended _ is := steady.shortest member ended is
  taken cycle ready _ member _ outstanding valid :=
    steady.taken cycle ready member outstanding valid
  flows cycle _ answer due := steady.flows cycle answer due
  ready running _ inside idle := steady.ready running inside idle

end Steady

/-- Without a reset, whatever the device, the host and host memory do: at full bandwidth the stream
to the device has no jitter. -/
theorem run_jitterFree (config : ValidParameters) (options : Switches)
    (unlimited : options.unlimitedBandwidth) (moves : List DeviceStream.Move) :
    ((start config options).run moves).JitterFree config := by
  obtain ⟨packets, current, steady⟩ := (Steady.start config options unlimited).run moves
  exact steady.jitterFree

/-- Two reads, one of which is as long as two completion boundaries and is answered last. -/
theorem run_jitterFree_two_reads :
    let config : ValidParameters := ⟨{ dataWidth := 256, maxReadBytes := 128 }, by decide⟩
    let options : Switches := { unlimitedBandwidth := true }
    let read (byteSize : UInt32) (tag : UInt16) (lastEnable : UInt8) : Flit :=
      { (Flit.blank 256 10).storing
          { fmtType := .memRead32, byteSize := byteSize, tag := tag
            body := .request { addr := 0x1000, firstEnable := 0xf, lastEnable := lastEnable } } with
        last := true }
    let answers : List ReadResponse :=
      [⟨4, .valid, 0, 0, [9, 10, 11, 12]⟩, ⟨3, .valid, 0, 0, List.replicate 128 7⟩]
    let moves : List DeviceStream.Move :=
      [.accept 1 (read 128 3 0xf), .accept 2 (read 4 4 0), .serve { readResponses := answers },
        .emit 3 true, .emit 4 true, .emit 5 true, .emit 6 true, .emit 7 true, .emit 8 true,
        .emit 9 true]
    let s := (start config options).run moves
    options.unlimitedBandwidth ∧ s.JitterFree config ∧ s.answered.map (·.slot) = [4, 3] ∧
      s.packets.map List.length = [2, 5] ∧ s.engine.unstarted = [] := by
  intro config options read answers moves s
  exact ⟨rfl, run_jitterFree config options rfl moves, by decide +kernel, by decide +kernel,
    by decide +kernel⟩

end ReadStream

end TlpBridge
