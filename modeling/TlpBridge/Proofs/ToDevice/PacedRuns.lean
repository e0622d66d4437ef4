import TlpBridge.Proofs.ToDevice.JitterFree
import TlpBridge.Proofs.ToDevice.PacedBeats

/-!
# Paced runs

When reads are taken and packets are started over a whole run: MMIO requests at least
`mmioSpacing` cycles apart, completions at least `minReadLatency` cycles after every read that has
taken their slot, and no completion where an MMIO request may start.
-/
namespace TlpBridge

/-- A read that the engine has taken, and when. -/
structure TimedRead where
  cycle : Nat
  slot : Nat
  /-- The header as the device sent it. -/
  header : Header

namespace TimedRead

/-- The header that is kept for the completions. -/
def stored (r : TimedRead) : Header := r.header.stored (r.header.request?.getD {})

/-- The read that took a slot last. -/
def lastIn? (reads : List TimedRead) (slot : Nat) : Option TimedRead :=
  reads.reverse.find? (·.slot == slot)

theorem lastIn?_concat (reads : List TimedRead) (r : TimedRead) (slot : Nat) :
    lastIn? (reads ++ [r]) slot = if slot = r.slot then some r else lastIn? reads slot := by
  rw [lastIn?, List.reverse_concat, List.find?_cons]
  by_cases same : slot = r.slot
  · simp [same]
  · simp [lastIn?, same, beq_eq_false_iff_ne.2 (Ne.symm same)]

end TimedRead

/-- A completion of which the device has got the first beat, and when. -/
structure TimedCompletion where
  cycle : Nat
  /-- The completion that was at the head of the queue. -/
  packet : Option CompletionPacket
  flit : Flit
  /-- The reads that the engine had taken by then. -/
  earlier : List TimedRead

namespace TimedCompletion

/-- Every read that had taken the slot of the completion was old enough. -/
def Aged (x : TimedCompletion) : Prop :=
  ∃ c, x.packet = some c ∧
    ∀ r ∈ x.earlier, r.slot = c.slot → r.cycle + Engine.minReadLatency ≤ x.cycle

/-- The completion goes under the names of the read that had taken its slot last. -/
def Belongs (x : TimedCompletion) : Prop :=
  ∃ c r, x.packet = some c ∧ TimedRead.lastIn? x.earlier c.slot = some r ∧
    x.flit.header = .ok (c.header r.stored)

end TimedCompletion

/-- The cycle that a call names. -/
def Engine.Call.cycle? : Engine.Call → Option Nat
  | .accept cycle _ | .emit cycle _ => some cycle
  | .ready | .request _ | .reset | .serve _ => none

/-- Neither end of the link goes away. -/
def Engine.Call.KeepsLink : Engine.Call → Prop
  | .serve link => link.engineAttached ∧ link.serviceAttached
  | .accept _ _ | .ready | .request _ | .emit _ _ | .reset => True

/-- An engine, when it has taken reads, and when it has started packets. -/
structure PacedLog where
  engine : Engine
  reads : List TimedRead := []
  /-- The cycles in which MMIO requests were started. -/
  mmio : List Nat := []
  completions : List TimedCompletion := []

namespace PacedLog

/-- The log of a fresh engine. -/
def start (config : ValidParameters) (options : Switches) (random : DrawSource) : PacedLog where
  engine := (Engine.create config options).withDraws random

/-- The device has sent a beat. A read was taken if host memory is asked for it. -/
def accept (l : PacedLog) (cycle : Nat) (flit : Flit) : PacedLog :=
  let engine := (l.engine.accept cycle flit).state
  match flit.header, l.engine.link.postedReads engine.link with
  | .ok h, [r] => { l with engine := engine, reads := l.reads ++ [⟨cycle, r.tag.toNat, h⟩] }
  | _, _ => { l with engine := engine }

/-- The device gets the first beat of a packet; `front` is the completion at the head of the
queue. -/
def starts (l : PacedLog) (cycle : Nat) (front : Option CompletionPacket) (flit : Flit) :
    PacedLog :=
  if MmioLog.startsCompletion flit then
    { l with completions := l.completions ++ [⟨cycle, front, flit, l.reads⟩] }
  else { l with mmio := l.mmio ++ [cycle] }

/-- Asked for a beat, the engine has given an answer. A beat is the first one of its packet if the
engine was between two packets. -/
def observe (l : PacedLog) (cycle : Nat) (e : Engine) (result : EngineStep (Option Flit)) :
    PacedLog :=
  match e.toDevice, result.answer with
  | .start, .ok (some flit) =>
    starts { l with engine := result.state } cycle e.completions.front? flit
  | _, _ => { l with engine := result.state }

def emit (l : PacedLog) (cycle : Nat) (ready : Bool) : PacedLog :=
  l.observe cycle (l.engine.collect cycle).state (l.engine.emit cycle ready)

def step (l : PacedLog) : Engine.Call → PacedLog
  | .accept cycle flit => l.accept cycle flit
  | .ready => { l with engine := l.engine.ready.2 }
  | .request r => { l with engine := (l.engine.request r).state }
  | .emit cycle ready => l.emit cycle ready
  | .reset => { l with engine := l.engine.reset }
  | .serve link => { l with engine := { l.engine with link := link } }

def run (l : PacedLog) (calls : List Engine.Call) : PacedLog := calls.foldl step l

/-- An MMIO request waits between two packets, the last one was started long enough ago, and the
next draw does not hold it back. -/
structure MayStartMmio (e : Engine) (r : MmioRequest) : Prop where
  between : e.toDevice = .start
  first : e.mmioQueue.head? = some r
  spaced : e.Spaced
  passed : e.drawStall.1 = false

/-- Where an MMIO request may start, no completion is started, and the request is unless the cycle
fails before or the request cannot be encoded. -/
def PrefersMmio (l : PacedLog) : Prop :=
  ∀ cycle ready r, MayStartMmio (l.engine.collect cycle).state r →
    (l.emit cycle ready).completions = l.completions ∧
      (l.engine.halted = false → (l.engine.collect cycle).answer = .ok () → ready →
        (r.header l.engine.params).fault? = none → (l.emit cycle ready).mmio = l.mmio ++ [cycle])

/-- What all packets of a run have been held to. -/
structure Paced (l : PacedLog) (options : Switches) : Prop where
  spaced : l.mmio.Pairwise fun a b => a + Engine.mmioSpacing ≤ b
  aged : options.unlimitedBandwidth = false → ∀ x ∈ l.completions, x.Aged
  prefers : l.PrefersMmio

variable {l : PacedLog} {e : Engine} {cycle : Nat} {flit : Flit}

section Observe

variable {result : EngineStep (Option Flit)}

theorem observe_of_first (between : e.toDevice = .start) (sent : result.answer = .ok (some flit)) :
    l.observe cycle e result =
      starts { l with engine := result.state } cycle e.completions.front? flit := by
  simp only [observe, between, sent]

theorem observe_of_silent (none_ : ∀ f, result.answer ≠ .ok (some f)) :
    l.observe cycle e result = { l with engine := result.state } := by
  unfold observe
  split
  · next sent => exact absurd sent (none_ _)
  · rfl

theorem observe_of_inside (inside : e.toDevice ≠ .start) :
    l.observe cycle e result = { l with engine := result.state } := by
  unfold observe
  split
  · next between _ => exact absurd between inside
  · rfl

theorem starts_mmio {r : MmioRequest} {p : Parameters} {front : Option CompletionPacket}
    (header : flit.header = .ok (r.header p)) :
    l.starts cycle front flit = { l with mmio := l.mmio ++ [cycle] } := by
  have kind : MmioLog.startsCompletion flit = false := by
    simp only [MmioLog.startsCompletion, header, Engine.isCompletion_mmioHeader]
  rw [starts, kind, if_neg Bool.false_ne_true]

theorem starts_completion {c : CompletionPacket} {request : Header}
    {front : Option CompletionPacket} (header : flit.header = .ok (c.header request)) :
    l.starts cycle front flit =
      { l with completions := l.completions ++ [⟨cycle, front, flit, l.reads⟩] } := by
  have kind : MmioLog.startsCompletion flit = true := by
    simp only [MmioLog.startsCompletion, header]
    exact c.isCompletion_header request
  rw [starts, if_pos kind]

end Observe

theorem emit_of_collected (running : l.engine.halted = false)
    (done : (l.engine.collect cycle).answer = .ok ()) : l.emit cycle true =
      l.observe cycle (l.engine.collect cycle).state
        ((l.engine.collect cycle).state.sendBeat.after (l.engine.collect cycle).events) := by
  rw [emit, Engine.emit_of_collected true (by simp [running]) done]
  rfl

/-- A cycle ends as it began, or after the answers were taken, or with what the engine sends
then. -/
theorem emit_cases (l : PacedLog) (cycle : Nat) (ready : Bool) :
    l.emit cycle ready = l ∨
      l.emit cycle ready = { l with engine := (l.engine.collect cycle).state } ∨
      ∃ effects, l.emit cycle ready = l.observe cycle (l.engine.collect cycle).state
        ((l.engine.collect cycle).state.sendBeat.after effects) := by
  cases halted : l.engine.halted with
  | true =>
    left
    rw [emit, Engine.emit_of_halted cycle ready halted]
    exact observe_of_silent fun f sent => nomatch sent
  | false =>
    right
    have running : ¬ l.engine.halted := by simp [halted]
    cases answer : (l.engine.collect cycle).answer with
    | error fault =>
      left
      rw [emit, Engine.emit_of_failed ready running answer]
      exact observe_of_silent fun f sent => nomatch sent
    | ok u =>
      cases ready with
      | false =>
        left
        rw [emit, Engine.emit_of_collected false running answer]
        exact observe_of_silent fun f sent => nomatch sent
      | true => exact .inr ⟨_, emit_of_collected halted answer⟩

theorem observe_of_mayStart (l : PacedLog) (cycle : Nat) {r : MmioRequest}
    (may : MayStartMmio e r) (effects : List Effect) :
    (∃ cause, (r.header e.params).fault? = some cause) ∧
        l.observe cycle e (e.sendBeat.after effects) = { l with engine := e.sendBeat.state } ∨
      l.observe cycle e (e.sendBeat.after effects) =
        { l with engine := e.sendBeat.state, mmio := l.mmio ++ [cycle] } := by
  have next : e.sendBeat = e.startPacket := by
    rw [Engine.sendBeat, may.between]
  rw [next]
  rcases e.startPacket_of_passed may.first may.spaced may.passed with
    ⟨cause, fault, refused, failed, -⟩ | ⟨f, sent, header, -⟩
  · refine .inl ⟨⟨cause, refused⟩, observe_of_silent fun f sent => ?_⟩
    cases failed.symm.trans sent
  · right
    have answer : (e.startPacket.after effects).answer = .ok (some f) := sent
    rw [observe_of_first may.between answer]
    exact starts_mmio header

theorem prefersMmio (l : PacedLog) : l.PrefersMmio := by
  intro cycle ready r may
  have params : (l.engine.collect cycle).state.params = l.engine.params :=
    congrArg ValidParameters.params (l.engine.onlyCollected_collect cycle).config
  constructor
  · rcases l.emit_cases cycle ready with same | collected | ⟨effects, observed⟩
    · rw [same]
    · rw [collected]
    · rw [observed]
      rcases l.observe_of_mayStart cycle may effects with ⟨-, kept⟩ | started
      · rw [kept]
      · rw [started]
  · intro running done sends encodable
    subst sends
    rw [emit_of_collected running done]
    rcases l.observe_of_mayStart cycle may (l.engine.collect cycle).events with
      ⟨⟨cause, refused⟩, -⟩ | started
    · rw [params, encodable] at refused
      cases refused
    · rw [started]

theorem accept_of_silent
    (none_ : l.engine.link.postedReads (l.engine.accept cycle flit).state.link = []) :
    l.accept cycle flit = { l with engine := (l.engine.accept cycle flit).state } := by
  simp only [accept, none_]
  split
  · contradiction
  · rfl

theorem accept_of_takesRead (orderly : l.engine.Orderly) {h : Header} {r : RequestBody}
    {slot : Nat} {slots : SlotPool}
    (takes : l.engine.TakesRead (l.engine.accept cycle flit).state flit h r slot slots) :
    l.accept cycle flit = { l with
      engine := (l.engine.accept cycle flit).state
      reads := l.reads ++ [⟨cycle, slot, h⟩] } := by
  obtain ⟨-, -, tag⟩ := orderly.slot_of_takesRead takes
  have own : (Header.readRequest { h with body := .request (h.effectiveRequest r) }
      (h.effectiveRequest r) flit slot).tag.toNat = slot := tag
  simp only [accept, takes.header, takes.posted, own]

/-! ## Over a run -/

/-- What a run keeps; `now` is the last cycle that was named. -/
structure Timely (l : PacedLog) (options : Switches) (now : Nat) : Prop where
  orderly : l.engine.Orderly
  switches : l.engine.options = options
  last : l.engine.lastMmioCycle = l.mmio.getLast?
  spaced : l.mmio.Pairwise fun a b => a + Engine.mmioSpacing ≤ b
  past : ∀ r ∈ l.reads, r.cycle ≤ now
  /-- No read of a slot is younger than the one that took it last. -/
  entered : ∀ r ∈ l.reads, r.cycle ≤ l.engine.slots.startCycle r.slot
  aged : options.unlimitedBandwidth = false → ∀ x ∈ l.completions, x.Aged

namespace Timely

variable {options : Switches} {now : Nat}

theorem start (config : ValidParameters) (options : Switches) (random : DrawSource) :
    (PacedLog.start config options random).Timely options 0 where
  orderly := .create config options random
  switches := rfl
  last := rfl
  spaced := .nil
  past _ member := nomatch member
  entered _ member := nomatch member
  aged _ _ member := nomatch member

theorem congr (timely : l.Timely options now) {later : Nat} (forward : now ≤ later)
    (orderly : e.Orderly) (same : l.engine.SamePace e)
    (slots : ∀ slot, e.slots.startCycle slot = l.engine.slots.startCycle slot ∨
      e.slots.startCycle slot = later) : Timely { l with engine := e } options later where
  orderly := orderly
  switches := same.options.trans timely.switches
  last := same.lastMmioCycle.trans timely.last
  spaced := timely.spaced
  past r member := (timely.past r member).trans forward
  entered r member := by
    rcases slots r.slot with old | new
    · rw [old]
      exact timely.entered r member
    · rw [new]
      exact (timely.past r member).trans forward
  aged := timely.aged

theorem read (timely : l.Timely options now) (h : Header) {slot : Nat}
    (entered : l.engine.slots.startCycle slot = now) :
    Timely { l with reads := l.reads ++ [⟨now, slot, h⟩] } options now := by
  refine { timely with past := ?past, entered := ?entered }
  case past =>
    intro r member
    rcases List.mem_append.1 member with old | new
    · exact timely.past r old
    · rw [List.mem_singleton.1 new]
  case entered =>
    intro r member
    rcases List.mem_append.1 member with old | new
    · exact timely.entered r old
    · rw [List.mem_singleton.1 new]
      exact Nat.le_of_eq entered.symm

/-- A beat of the device. -/
theorem accept (timely : l.Timely options now) (forward : now ≤ cycle) (flit : Flit) :
    (l.accept cycle flit).Timely options cycle := by
  have orderly := timely.orderly.perform (.accept cycle flit)
  have same := (l.engine.accept_accepts cycle flit).samePace
  cases halted : l.engine.halted with
  | true =>
    have stays : (l.engine.accept cycle flit).state = l.engine := by
      rw [Engine.accept, if_pos halted]
    rw [accept_of_silent (by rw [stays]; exact MemoryLink.postedReads_self _)]
    refine timely.congr forward orderly same fun slot => .inl ?_
    rw [stays]
  | false =>
    have quiet := timely.congr forward orderly same
      (Engine.startCycle_accept halted cycle flit)
    rcases l.engine.accept_posts cycle flit with none_ | ⟨h, r, slot, slots, takes⟩
    · rw [accept_of_silent none_]
      exact quiet
    · obtain ⟨inside, states, -⟩ := timely.orderly.slot_of_takesRead takes
      rw [accept_of_takesRead timely.orderly takes]
      refine quiet.read h ?_
      have pool : (l.engine.accept cycle flit).state.slots = slots.occupy slot
        (l.engine.accept cycle flit).state.cycle _ := congrArg Engine.slots takes.state
      change (l.engine.accept cycle flit).state.slots.startCycle slot = cycle
      rw [pool, SlotPool.startCycle_occupy, states, if_pos ⟨rfl, inside⟩,
        Engine.cycle_accept halted]

theorem le_last {mmio : List Nat} {n : Nat}
    (spaced : mmio.Pairwise fun a b => a + n ≤ b)
    {last : Nat} (ends : mmio.getLast? = some last) : ∀ a ∈ mmio, a ≤ last := by
  obtain ⟨before, rfl⟩ := List.getLast?_eq_some_iff.1 ends
  intro a member
  rcases List.mem_append.1 member with earlier | own
  · have apart := (List.pairwise_append.1 spaced).2.2 a earlier last (by simp)
    omega
  · rw [List.mem_singleton.1 own]

/-- The engine was asked for a beat. -/
theorem observe (timely : l.Timely options now) (clock : l.engine.cycle = cycle)
    {result : EngineStep (Option Flit)} (paces : l.engine.Paces result)
    (orderly : result.state.Orderly) (only : l.engine.OnlySent result.state) :
    (l.observe cycle l.engine result).Timely options now := by
  have slots (slot : Nat) : result.state.slots.startCycle slot =
      l.engine.slots.startCycle slot := only.startCycle slot
  have quiet (last : result.state.lastMmioCycle = l.engine.lastMmioCycle) :
      Timely { l with engine := result.state } options now :=
    timely.congr (Nat.le_refl _) orderly ⟨last, only.options⟩ fun slot => .inl (slots slot)
  cases paces with
  | silent none_ last =>
    rw [observe_of_silent none_]
    exact quiet last
  | goesOn inside last =>
    rw [observe_of_inside inside]
    exact quiet last
  | mmio f r sent between header spaced last =>
    rw [observe_of_first between sent, starts_mmio header]
    rw [clock] at last
    refine ⟨orderly, only.options.trans timely.switches, ?last, ?spaced, timely.past, ?entered,
      timely.aged⟩
    case last => exact last.trans List.getLast?_concat.symm
    case spaced =>
      refine List.pairwise_append.2 ⟨timely.spaced, List.pairwise_singleton .., ?_⟩
      intro a member b own
      rw [List.mem_singleton.1 own, ← clock]
      cases ends : l.mmio.getLast? with
      | none =>
        rw [List.getLast?_eq_none_iff.1 ends] at member
        cases member
      | some last =>
        have before := le_last timely.spaced ends a member
        have apart := spaced last (timely.last.trans ends)
        omega
    case entered =>
      intro r member
      rw [slots]
      exact timely.entered r member
  | completion f c request sent between first stored header aged last =>
    rw [observe_of_first between sent, starts_completion header]
    refine { quiet last with aged := fun limited x member => ?_ }
    rcases List.mem_append.1 member with old | new
    · exact timely.aged limited x old
    · rw [List.mem_singleton.1 new]
      refine ⟨c, first, fun r earlier own => ?_⟩
      have entered := timely.entered r earlier
      have old := aged (by rw [timely.switches]; exact limited)
      rw [own] at entered
      rw [clock] at old
      exact (Nat.add_le_add_right entered _).trans old

theorem emit (timely : l.Timely options now) (forward : now ≤ cycle) (ready : Bool) :
    (l.emit cycle ready).Timely options cycle := by
  have later := timely.congr forward timely.orderly ⟨rfl, rfl⟩ fun _ => .inl rfl
  have collected := timely.congr forward (timely.orderly.collect cycle)
    (l.engine.samePace_collect cycle) fun slot => .inl (l.engine.startCycle_collect cycle slot)
  rcases l.emit_cases cycle ready with same | quiet | ⟨effects, observed⟩
  · rw [same]
    exact later
  · rw [quiet]
    exact collected
  · rw [observed]
    have paces := (l.engine.collect cycle).state.sendBeat_paces collected.orderly.stocked
    exact collected.observe (l.engine.cycle_collect cycle) (paces.after effects)
      collected.orderly.sendBeat (l.engine.collect cycle).state.onlySent_sendBeat

theorem step (timely : l.Timely options now) (call : Engine.Call)
    (forward : ∀ cycle, call.cycle? = some cycle → now ≤ cycle) :
    (l.step call).Timely options (call.cycle?.getD now) := by
  have orderly := timely.orderly.perform call
  cases call with
  | accept cycle flit => exact timely.accept (forward cycle rfl) flit
  | ready =>
    obtain ⟨same, slots⟩ := l.engine.samePace_ready
    exact timely.congr (Nat.le_refl _) orderly same fun _ => .inl (by rw [slots])
  | request r =>
    obtain ⟨same, slots⟩ := l.engine.samePace_request r
    exact timely.congr (Nat.le_refl _) orderly same fun _ => .inl (by rw [slots])
  | emit cycle ready => exact timely.emit (forward cycle rfl) ready
  | reset => exact timely.congr (Nat.le_refl _) orderly ⟨rfl, rfl⟩ fun _ => .inl rfl
  | serve link => exact timely.congr (Nat.le_refl _) orderly ⟨rfl, rfl⟩ fun _ => .inl rfl

theorem run (timely : l.Timely options now) (calls : List Engine.Call)
    (forward : (now :: calls.filterMap Engine.Call.cycle?).Pairwise (· ≤ ·)) :
    ∃ now, (l.run calls).Timely options now := by
  induction calls generalizing l now with
  | nil => exact ⟨now, timely⟩
  | cons call calls ih =>
    cases named : call.cycle? with
    | none =>
      have next := timely.step call fun cycle is => nomatch named.symm.trans is
      rw [named] at next
      rw [List.filterMap_cons_none named] at forward
      exact ih next forward
    | some cycle =>
      rw [List.filterMap_cons_some named] at forward
      obtain ⟨first, rest⟩ := List.pairwise_cons.1 forward
      have next := timely.step call fun cycle' is => by
        rw [← Option.some.inj (named.symm.trans is)]
        exact first cycle List.mem_cons_self
      rw [named] at next
      exact ih next rest

end Timely

/-- The link has stayed whole; the header in a slot is that of the read that took it last, and the
completions have gone under the names of those reads. -/
structure Attributed (l : PacedLog) : Prop where
  orderly : l.engine.Orderly
  attached : l.engine.link.engineAttached ∧ l.engine.link.serviceAttached
  stored : ∀ slot, l.engine.slots.request? slot =
    (TimedRead.lastIn? l.reads slot).map TimedRead.stored
  belongs : ∀ x ∈ l.completions, x.Belongs

namespace Attributed

theorem start (config : ValidParameters) (options : Switches) (random : DrawSource) :
    (PacedLog.start config options random).Attributed where
  orderly := .create config options random
  attached := ⟨rfl, rfl⟩
  stored _ := SlotPool.request?_ofCount ..
  belongs _ member := nomatch member

theorem congr (attributed : l.Attributed) (orderly : e.Orderly)
    (attached : e.link.engineAttached ∧ e.link.serviceAttached)
    (slots : ∀ slot, e.slots.request? slot = l.engine.slots.request? slot) :
    Attributed { l with engine := e } where
  orderly := orderly
  attached := attached
  stored slot := (slots slot).trans (attributed.stored slot)
  belongs := attributed.belongs

/-- A beat of the device. -/
theorem accept (attributed : l.Attributed) (cycle : Nat) (flit : Flit) :
    (l.accept cycle flit).Attributed := by
  have orderly := attributed.orderly.perform (.accept cycle flit)
  rcases l.engine.accept_cases cycle flit attributed.attached with
    quiet | ⟨h, r, slot, slots, takes⟩
  · rw [accept_of_silent quiet.2]
    refine attributed.congr orderly ?_ fun slot => by rw [quiet.1.slots]
    rw [quiet.1.engineAttached, quiet.1.serviceAttached]
    exact attributed.attached
  · obtain ⟨inside, states, -⟩ := attributed.orderly.slot_of_takesRead takes
    rw [accept_of_takesRead attributed.orderly takes]
    refine ⟨orderly, ?attached, fun k => ?stored, attributed.belongs⟩
    case attached =>
      change (l.engine.accept cycle flit).state.link.engineAttached ∧
        (l.engine.accept cycle flit).state.link.serviceAttached
      rw [takes.state]
      exact attributed.attached
    case stored =>
      have request : h.request?.getD {} = r := by
        rw [Header.request?, takes.body]
        rfl
      have pool : (l.engine.accept cycle flit).state.slots = slots.occupy slot
        (l.engine.accept cycle flit).state.cycle (h.stored r) := congrArg Engine.slots takes.state
      change (l.engine.accept cycle flit).state.slots.request? k = _
      rw [pool, SlotPool.request?_occupy _ _ _ _ _ (by rwa [states]), TimedRead.lastIn?_concat]
      by_cases same : k = slot
      · rw [if_pos same, if_pos same, Option.map_some, TimedRead.stored, request]
      · rw [if_neg same, if_neg same, SlotPool.request?_congr states]
        exact attributed.stored k

/-- The engine was asked for a beat. -/
theorem observe (attributed : l.Attributed) (cycle : Nat) {result : EngineStep (Option Flit)}
    (paces : l.engine.Paces result) (orderly : result.state.Orderly)
    (only : l.engine.OnlySent result.state) : (l.observe cycle l.engine result).Attributed := by
  have quiet : Attributed { l with engine := result.state } := by
    obtain ⟨released, state⟩ := only
    refine attributed.congr orderly ?_ fun slot => ?_
    · rw [state]
      exact attributed.attached
    · rw [state]
      exact SlotPool.request?_releaseAll ..
  cases paces with
  | silent none_ last =>
    rw [observe_of_silent none_]
    exact quiet
  | goesOn inside last =>
    rw [observe_of_inside inside]
    exact quiet
  | mmio f r sent between header spaced last =>
    rw [observe_of_first between sent, starts_mmio header]
    exact ⟨quiet.orderly, quiet.attached, quiet.stored, quiet.belongs⟩
  | completion f c request sent between first stored header aged last =>
    rw [observe_of_first between sent, starts_completion header]
    refine { quiet with belongs := fun x member => ?_ }
    rcases List.mem_append.1 member with old | new
    · exact attributed.belongs x old
    · rw [List.mem_singleton.1 new]
      rw [attributed.stored] at stored
      obtain ⟨r, taken, same⟩ := Option.map_eq_some_iff.1 stored
      refine ⟨c, r, first, taken, ?_⟩
      rw [same]
      exact header

theorem emit (attributed : l.Attributed) (cycle : Nat) (ready : Bool) :
    (l.emit cycle ready).Attributed := by
  have collected : Attributed { l with engine := (l.engine.collect cycle).state } := by
    refine attributed.congr (attributed.orderly.collect cycle) ?_ fun slot => ?_
    · have only := l.engine.onlyCollected_collect cycle
      unfold Engine.OnlyCollected at only
      rw [only]
      exact attributed.attached
    · obtain ⟨released, slots⟩ := (l.engine.takesAnswers_collect cycle).slots
      rw [slots]
      exact SlotPool.request?_releaseAll ..
  rcases l.emit_cases cycle ready with same | quiet | ⟨effects, observed⟩
  · rw [same]
    exact attributed
  · rw [quiet]
    exact collected
  · rw [observed]
    have paces := (l.engine.collect cycle).state.sendBeat_paces collected.orderly.stocked
    exact collected.observe cycle (paces.after effects) collected.orderly.sendBeat
      (l.engine.collect cycle).state.onlySent_sendBeat

theorem step (attributed : l.Attributed) (call : Engine.Call) (keeps : call.KeepsLink) :
    (l.step call).Attributed := by
  have orderly := attributed.orderly.perform call
  cases call with
  | accept cycle flit => exact attributed.accept cycle flit
  | ready =>
    refine attributed.congr orderly ?_ fun slot => by rw [l.engine.samePace_ready.2]
    rw [l.engine.link_ready]
    exact attributed.attached
  | request r =>
    refine attributed.congr orderly ?_ fun slot => by rw [(l.engine.samePace_request r).2]
    rw [l.engine.link_request]
    exact attributed.attached
  | emit cycle ready => exact attributed.emit cycle ready
  | reset => exact attributed.congr orderly attributed.attached fun _ => rfl
  | serve link => exact attributed.congr orderly keeps fun _ => rfl

theorem run (attributed : l.Attributed) (calls : List Engine.Call)
    (keeps : ∀ call ∈ calls, call.KeepsLink) : (l.run calls).Attributed := by
  induction calls generalizing l with
  | nil => exact attributed
  | cons call calls ih =>
    exact ih (attributed.step call (keeps call List.mem_cons_self)) fun call' later =>
      keeps call' (List.mem_cons_of_mem _ later)

end Attributed

/-- In a run whose cycles never go back, MMIO requests are started 63 cycles apart, resets or not,
completions 250 cycles after all reads that have taken their slots unless the bandwidth is
unlimited, and no completion where an MMIO request may start. As long as neither end of the link
goes away, each completion is for the read that took its slot last. -/
theorem run_paced (config : ValidParameters) (options : Switches) (random : DrawSource)
    (calls : List Engine.Call)
    (forward : (calls.filterMap Engine.Call.cycle?).Pairwise (· ≤ ·)) :
    ((start config options random).run calls).Paced options ∧
      ((∀ call ∈ calls, call.KeepsLink) →
        ∀ x ∈ ((start config options random).run calls).completions, x.Belongs) := by
  obtain ⟨now, timely⟩ := (Timely.start config options random).run calls
    (List.pairwise_cons.2 ⟨fun _ _ => Nat.zero_le _, forward⟩)
  exact ⟨⟨timely.spaced, timely.aged, prefersMmio _⟩,
    fun keeps => ((Attributed.start config options random).run calls keeps).belongs⟩

/-- Two MMIO writes with a reset between them, and a read whose completion could go first: the
second write starts 63 cycles after the first one, the completion 250 cycles after the read. -/
theorem run_paced_two_writes :
    let config : ValidParameters := ⟨{ dataWidth := 256 }, by decide⟩
    let write : MmioRequest := ⟨7, 0x40, 32, true, 0, [1, 2, 3, 4]⟩
    let read : Flit :=
      { (Flit.blank 256 10).storing
          { fmtType := .memRead32, byteSize := 4, tag := 3
            body := .request { addr := 0x1000, firstEnable := 0xf } } with
        last := true }
    let calls : List Engine.Call :=
      [.request write, .request write, .accept 2 read, .emit 3 true, .emit 4 true,
        .serve { readResponses := [⟨3, .valid, 0, 0, [9, 10, 11, 12]⟩] }, .reset, .emit 65 true,
        .emit 66 true, .emit 67 true, .emit 251 true, .emit 252 true]
    let l := (start config {} .fullBandwidth).run calls
    (calls.filterMap Engine.Call.cycle?).Pairwise (· ≤ ·) ∧ (∀ call ∈ calls, call.KeepsLink) ∧
      l.Paced {} ∧ (∀ x ∈ l.completions, x.Belongs) ∧ l.reads.map (·.cycle) = [2] ∧
      l.mmio = [3, 66] ∧ l.completions.map (·.cycle) = [252] := by
  intro config write read calls l
  have forward : (calls.filterMap Engine.Call.cycle?).Pairwise (· ≤ ·) := by decide +kernel
  have keeps : ∀ call ∈ calls, call.KeepsLink := by simp [calls, Engine.Call.KeepsLink]
  have evaluated : l.reads.map (·.cycle) = [2] ∧ l.mmio = [3, 66] ∧
      l.completions.map (·.cycle) = [252] := by decide +kernel
  obtain ⟨paced, belongs⟩ := run_paced config {} .fullBandwidth calls forward
  exact ⟨forward, keeps, paced, belongs keeps, evaluated⟩

end PacedLog

end TlpBridge
