import TlpBridge.Proofs.ToDevice.DeviceStream

/-!
# Framed runs

Every move leaves the beats that the device got cut into packets, and the engine either
between two packets or in the one that the last beats are of.
-/
namespace TlpBridge

/-- An engine and what the device has got from it. -/
structure DeviceStream where
  engine : Engine
  beats : List SentBeat := []

namespace DeviceStream

/-- What happens between the device, the engine, the host and host memory. -/
inductive Move where
  /-- The device sends a beat. -/
  | accept (cycle : Nat) (flit : Flit)
  /-- The device asks whether its next beat will be taken. -/
  | ready
  /-- The host asks for an access to the device. -/
  | request (r : MmioRequest)
  /-- A cycle in which the device may be ready for a beat. -/
  | emit (cycle : Nat) (ready : Bool)
  /-- Host memory takes requests and posts answers of any kind. -/
  | serve (link : MemoryLink)
  /-- The host takes MMIO responses and interrupts, or does so no longer. -/
  | attach (mmio interrupts : Bool)

/-- A fresh engine, of which the device has got nothing. -/
def start (config : ValidParameters) (options : Switches) (random : DrawSource) :
    DeviceStream where
  engine := (Engine.create config options).withDraws random

/-- Asked for a beat, an engine `e` has given an answer. -/
def observe (s : DeviceStream) (e : Engine) (result : EngineStep (Option Flit)) : DeviceStream :=
  match result.answer with
  | .ok (some f) => ⟨result.state, s.beats ++ [⟨e.sourceOf f, f⟩]⟩
  | _ => { s with engine := result.state }

def emit (s : DeviceStream) (cycle : Nat) (ready : Bool) : DeviceStream :=
  s.observe (s.engine.collect cycle).state (s.engine.emit cycle ready)

def step (s : DeviceStream) : Move → DeviceStream
  | .accept cycle flit => { s with engine := (s.engine.accept cycle flit).state }
  | .ready => { s with engine := s.engine.ready.2 }
  | .request r => { s with engine := (s.engine.request r).state }
  | .emit cycle ready => s.emit cycle ready
  | .serve link => { s with engine := { s.engine with link := link } }
  | .attach mmio interrupts =>
    { s with
      engine := { s.engine with mmioAttached := mmio, interruptsAttached := interrupts } }

def run (s : DeviceStream) (moves : List Move) : DeviceStream := moves.foldl step s

end DeviceStream

namespace Engine

/-- The beats of the packet in progress. -/
inductive Sending (e : Engine) (current : List SentBeat) : Prop where
  | between (toDevice : e.toDevice = .start) (none_ : current = [])
  | inside (src : Source) (left : Nat) (h : Header) (toDevice : e.toDevice = src.inside left)
    (first : src.IsFirst e) (beats : BeatsOf e.config src h current) (some_ : current ≠ [])
    (goesOn : ∀ b ∈ current, b.flit.last = false) (rest : 0 < left)
    (place : HeaderWords.count + src.payload.length =
      e.config.dwordWidth * current.length + left)

variable {e e' : Engine} {current : List SentBeat}

theorem Undisturbed.sending (same : e.Undisturbed e') (sending : e.Sending current) :
    e'.Sending current := by
  cases sending with
  | between toDevice none_ => exact .between (same.toDevice.trans toDevice) none_
  | inside src left h toDevice first beats some_ goesOn rest place =>
    rw [← same.config] at beats place
    exact .inside src left h (same.toDevice.trans toDevice) (same.heads src first) beats some_
      goesOn rest place

theorem Sending.inPacket (sending : e.Sending current) : e.toDevice = .start ∨ e.InPacket := by
  cases sending with
  | between toDevice => exact .inl toDevice
  | inside src left h toDevice first beats some_ goesOn rest place =>
    right
    refine ⟨src, left, toDevice, first, rest, ?_⟩
    have wide := e.config.wide_dwordWidth
    have one := List.length_pos_of_ne_nil some_
    have count : HeaderWords.count = 8 := rfl
    have beat : e.config.dwordWidth ≤ e.config.dwordWidth * current.length :=
      Nat.le_mul_of_pos_right _ one
    omega

theorem Sending.eq_nil_iff (sending : e.Sending current) : current = [] ↔ e.toDevice = .start := by
  cases sending with
  | between toDevice none_ => exact iff_of_true none_ toDevice
  | inside src left h toDevice first beats some_ =>
    refine iff_of_false some_ fun between => ?_
    rw [between] at toDevice
    cases src <;> cases toDevice

theorem Stocked.firstBeat (stocked : e.Stocked) {src : Source} {h : Header} {flit : Flit}
    (between : e.toDevice = .start) (first : src.IsFirst e) (header : src.HasHeader e.params h)
    (stored : e.blankFlit.storeHeader h = .ok flit) :
    src.Announces e.params h ∧
      e.sourceOf (flit.fill e.config.dwordWidth HeaderWords.count src.payload
        src.payload.length) = some src ∧
      (flit.fill e.config.dwordWidth HeaderWords.count src.payload src.payload.length).IsBeat
        e.config.dwordWidth 0 h src.payload := by
  have announced := Source.announces_of_hasHeader (stocked.of_isFirst first) header
  have known : h.fmtType.kind?.isSome := by
    rcases announced.kind with ⟨kind, -⟩ | ⟨kind | kind, -⟩ <;> rw [kind] <;> rfl
  have beat := isBeat_first src.payload known stored
  exact ⟨announced, Source.sourceOf_first between first header (beat.header rfl), beat⟩

theorem Stocked.advance (stocked : e.Stocked) (src : Source) (ends : Bool) (left : Nat) :
    (e.advance src ends left).Stocked := by
  unfold Engine.advance
  cases ends with
  | false => exact ⟨stocked.mmio, stocked.completions, stocked.requests⟩
  | true =>
    cases src with
    | mmio r =>
      exact ⟨fun r' member => stocked.mmio r' (List.mem_of_mem_tail member), stocked.completions,
        stocked.requests⟩
    | completion c =>
      exact ⟨stocked.mmio, fun c' member => stocked.completions c' (List.mem_of_mem_tail member),
        stocked.requests⟩

end Engine

/-- The whole packets and the beats of the one in progress once there is one more beat. -/
def DeviceStream.withBeat (packets : List (List SentBeat)) (current : List SentBeat)
    (b : SentBeat) : List (List SentBeat) × List SentBeat :=
  if b.flit.last then (packets ++ [current ++ [b]], []) else (packets, current ++ [b])

/-- The beats are cut into whole packets and those of the packet in progress. -/
structure DeviceStream.Framed (s : DeviceStream) (c : ValidParameters)
    (packets : List (List SentBeat)) (current : List SentBeat) : Prop where
  config : s.engine.config = c
  stocked : s.engine.Stocked
  cut : s.beats = packets.flatten ++ current
  whole : ∀ p ∈ packets, IsPacket c p ∧ Ended p
  sending : s.engine.Sending current

namespace DeviceStream.Framed

variable {s : DeviceStream} {c : ValidParameters} {packets : List (List SentBeat)}
  {current : List SentBeat}

theorem start (c : ValidParameters) (options : Switches) (random : DrawSource) :
    (DeviceStream.start c options random).Framed c [] [] where
  config := rfl
  stocked := by
    refine ⟨List.forall_mem_nil _, List.forall_mem_nil _, fun slot h found => ?_⟩
    have empty := SlotPool.request?_ofCount c.params.maxDmaReads c.params.tagMapper slot
    cases empty.symm.trans found
  cut := rfl
  whole _ member := nomatch member
  sending := .between rfl rfl

theorem undisturbed (framed : s.Framed c packets current) {e : Engine}
    (same : s.engine.Undisturbed e) : Framed { s with engine := e } c packets current where
  config := same.config.trans framed.config
  stocked := same.stocked framed.stocked
  cut := framed.cut
  whole := framed.whole
  sending := same.sending framed.sending

variable {src : Source} {h : Header} {b : SentBeat} {e : Engine} {start left : Nat}

theorem ended (framed : s.Framed c packets current)
    (state : (s.engine.advance src true left).SameStream e)
    (beats : BeatsOf c src h (current ++ [b])) (goesOn : ∀ b ∈ current, b.flit.last = false)
    (last : b.flit.last) :
    Framed ⟨e, s.beats ++ [b]⟩ c (packets ++ [current ++ [b]]) [] where
  config := by
    rw [state.config, Engine.config_advance]
    exact framed.config
  stocked := (Engine.Undisturbed.of_same state).stocked (framed.stocked.advance ..)
  cut := by
    rw [framed.cut]
    simp
  whole p member := by
    rcases List.mem_append.1 member with old | new
    · exact framed.whole p old
    · rw [List.mem_singleton.1 new]
      refine ⟨beats.isPacket (by simp) ?_, b, List.getLast?_concat, last⟩
      rw [List.dropLast_concat]
      exact goesOn
  sending := .between (state.toDevice.trans (s.engine.toDevice_advance ..)) rfl

/-- A beat with which a packet goes on. -/
theorem grown (framed : s.Framed c packets current) (first : src.IsFirst s.engine)
    (state : (s.engine.advance src false left).SameStream e)
    (beats : BeatsOf c src h (current ++ [b])) (goesOn : ∀ b ∈ current, b.flit.last = false)
    (last : b.flit.last = false) (rest : 0 < left)
    (place : HeaderWords.count + src.payload.length =
      c.dwordWidth * (current.length + 1) + left) :
    Framed ⟨e, s.beats ++ [b]⟩ c packets (current ++ [b]) := by
  have config : e.config = c := by
    rw [state.config, Engine.config_advance]
    exact framed.config
  have stays : src.IsFirst (s.engine.advance src false left) := by
    cases src with
    | mmio r => exact first
    | completion c => exact first
  have same := Engine.Undisturbed.of_same state
  have all : ∀ x ∈ current ++ [b], x.flit.last = false := by
    intro x member
    rcases List.mem_append.1 member with old | new
    · exact goesOn x old
    · rw [List.mem_singleton.1 new]
      exact last
  refine ⟨config, same.stocked (framed.stocked.advance ..), ?_, framed.whole,
    .inside src left h state.toDevice (same.heads src stays) ?_ (by simp) all rest ?_⟩
  · rw [framed.cut, List.append_assoc]
  · rw [config]
    exact beats
  · rw [config, List.length_append, List.length_singleton]
    exact place

theorem beat (framed : s.Framed c packets current) (first : src.IsFirst s.engine)
    (state : (s.engine.afterBeat src start left).SameStream e)
    (beats : BeatsOf c src h (current ++ [b])) (goesOn : ∀ b ∈ current, b.flit.last = false)
    (last : b.flit.last = decide (left ≤ c.dwordWidth - start)) (inside : start ≤ c.dwordWidth)
    (place : HeaderWords.count + src.payload.length =
      c.dwordWidth * current.length + start + left) :
    Framed ⟨e, s.beats ++ [b]⟩ c (withBeat packets current b).1 (withBeat packets current b).2 := by
  rw [Engine.afterBeat, framed.config] at state
  by_cases ends : left ≤ c.dwordWidth - start
  · rw [decide_eq_true ends] at state last
    rw [withBeat, if_pos last]
    exact framed.ended state beats goesOn last
  · rw [decide_eq_false ends] at state last
    have some_ : 0 < left - (c.dwordWidth - start) := by omega
    rw [withBeat, if_neg (by simp [last])]
    refine framed.grown first state beats goesOn last some_ ?_
    rw [Nat.mul_succ]
    omega

/-- The engine has sent a beat. -/
theorem sent (framed : s.Framed c packets current) {f : Flit} {effects : List Effect}
    (streams : s.engine.Streams (.ok e (some f) effects)) :
    Framed ⟨e, s.beats ++ [⟨s.engine.sourceOf f, f⟩]⟩ c
      (withBeat packets current ⟨s.engine.sourceOf f, f⟩).1
      (withBeat packets current ⟨s.engine.sourceOf f, f⟩).2 := by
  have width : s.engine.config = c := framed.config
  cases streams with
  | silent none_ => exact absurd rfl (none_ f)
  | starts src h flit between first header stored state =>
    obtain ⟨announced, source, beat⟩ := framed.stocked.firstBeat between first header stored
    rw [Engine.params, width] at announced
    rw [width] at beat source
    have empty := framed.sending.eq_nil_iff.2 between
    subst empty
    rw [width]
    exact framed.beat first state ((BeatsOf.nil announced).snoc source beat)
      (List.forall_mem_nil _) rfl c.wide_dwordWidth rfl
  | continues src left inside first state =>
    cases framed.sending with
    | between toDevice =>
      rw [inside] at toDevice
      cases src <;> cases toDevice
    | inside src' left' h toDevice first' beats some_ goesOn rest place =>
      obtain ⟨rfl, rfl⟩ := Source.eq_of_inside (inside.symm.trans toDevice) first first'
      have later := List.length_pos_of_ne_nil some_
      have source := Source.sourceOf_inside inside first
      have beat := Engine.isBeat_later (h := h) later place
      rw [width] at beats place beat
      rw [width]
      exact framed.beat first state (beats.snoc (source _) beat) goesOn rfl (Nat.zero_le _) place

theorem observe (framed : s.Framed c packets current) {result : EngineStep (Option Flit)}
    (streams : s.engine.Streams result) :
    ∃ packets current, (s.observe s.engine result).Framed c packets current := by
  rcases result with ⟨fault | (_ | f), e, effects⟩
  · cases streams with
    | silent _ same => exact ⟨packets, current, framed.undisturbed (.of_same same)⟩
  · cases streams with
    | silent _ same => exact ⟨packets, current, framed.undisturbed (.of_same same)⟩
  · exact ⟨_, _, framed.sent streams⟩

theorem emit (framed : s.Framed c packets current) (cycle : Nat) (ready : Bool) :
    ∃ packets current, (s.emit cycle ready).Framed c packets current := by
  have collected := framed.undisturbed (s.engine.undisturbed_collect cycle)
  unfold DeviceStream.emit
  rw [Engine.emit_eq]
  by_cases halted : s.engine.halted
  · rw [if_pos halted]
    exact ⟨packets, current, framed⟩
  · rw [if_neg halted]
    unfold EngineStep.andThen
    cases (s.engine.collect cycle).answer with
    | error fault => exact ⟨packets, current, collected⟩
    | ok u =>
      cases ready with
      | false => exact ⟨packets, current, collected⟩
      | true =>
        have streams := Engine.sendBeat_streams _ collected.stocked collected.sending.inPacket
        exact collected.observe (streams.after (s.engine.collect cycle).events)

theorem step (framed : s.Framed c packets current) (m : Move) :
    ∃ packets current, (s.step m).Framed c packets current := by
  cases m with
  | accept cycle flit =>
    exact ⟨_, _, framed.undisturbed (s.engine.accept_accepts cycle flit).undisturbed⟩
  | ready => exact ⟨_, _, framed.undisturbed s.engine.undisturbed_ready⟩
  | request r => exact ⟨_, _, framed.undisturbed (s.engine.undisturbed_request r)⟩
  | emit cycle ready => exact framed.emit cycle ready
  | serve link =>
    exact ⟨_, _, framed.undisturbed (.of_same ⟨rfl, rfl, rfl, rfl, fun _ => rfl⟩)⟩
  | attach mmio interrupts =>
    exact ⟨_, _, framed.undisturbed (.of_same ⟨rfl, rfl, rfl, rfl, fun _ => rfl⟩)⟩

theorem run (framed : s.Framed c packets current) (moves : List Move) :
    ∃ packets current, (s.run moves).Framed c packets current := by
  induction moves generalizing s packets current with
  | nil => exact ⟨packets, current, framed⟩
  | cons m rest ih =>
    obtain ⟨packets', current', next⟩ := framed.step m
    exact ih next

theorem isCut (framed : s.Framed c packets current) :
    IsCut c s.beats (packets ++ if current = [] then [] else [current]) := by
  by_cases empty : current = []
  · rw [if_pos empty, List.append_nil]
    refine ⟨?_, fun p member => (framed.whole p member).1, fun p member => ?_⟩
    · rw [framed.cut, empty, List.append_nil]
    · exact (framed.whole p (List.mem_of_mem_dropLast member)).2
  · rw [if_neg empty]
    refine ⟨?_, fun p member => ?_, fun p member => ?_⟩
    · rw [framed.cut, List.flatten_append, List.flatten_singleton]
    · rcases List.mem_append.1 member with old | new
      · exact (framed.whole p old).1
      · rw [List.mem_singleton.1 new]
        cases framed.sending with
        | between _ none_ => exact absurd none_ empty
        | inside src left h toDevice first beats some_ goesOn =>
          rw [framed.config] at beats
          exact beats.isPacket some_ fun b inside => goesOn b (List.mem_of_mem_dropLast inside)
    · rw [List.dropLast_concat] at member
      exact (framed.whole p member).2

end DeviceStream.Framed

/-- Without a reset, there is exactly one way to cut the beats to the device into packets, of which
at most the last one is unfinished, whatever the device, the host and host memory do. -/
theorem DeviceStream.run_framed (config : ValidParameters) (options : Switches)
    (random : DrawSource) (moves : List Move) :
    ∃! packets, IsCut config ((start config options random).run moves).beats packets := by
  obtain ⟨packets, current, framed⟩ := (Framed.start config options random).run moves
  refine ⟨_, framed.isCut, fun packets' cut => ?_⟩
  exact cut.eq_splitBy.symm.trans framed.isCut.eq_splitBy

end TlpBridge
