import TlpBridge.Proofs.Mmio.MmioRuns

/-!
# MMIO requests that can be sent

A request is checked when the host makes it, and its header is encoded when its turn on the stream
has come. Two things that a header cannot carry pass the checks: the slot of a write, which the host
may set to anything, and a long address that is not one of a DWORD. All else that is taken can be
sent.
-/
namespace TlpBridge

open scoped Power

namespace MmioRequest

/-- What the header of a request cannot carry although the request is taken. -/
def encodingFault? (r : MmioRequest) : Option EncodingError :=
  (if r.write then Header.overflow? .tag r.slot.toNat 10 else none)
  <|> (if 2 ^ (32 : Nat) ≤ r.addr.toNat then Header.overflow? .addrLow (r.addr.toNat % 4) 0
    else none)

variable {r : MmioRequest}

theorem isMemoryRequest_header (r : MmioRequest) (p : Parameters) :
    (r.header p).fmtType.isMemoryRequest := by
  have kinds : FmtType.memWrite32.isMemoryRequest ∧ FmtType.memWrite64.isMemoryRequest ∧
      FmtType.memRead32.isMemoryRequest ∧ FmtType.memRead64.isMemoryRequest := by decide
  unfold header
  cases r.write <;> cases decide (2 ^ (32 : Nat) ≤ r.addr.toNat) <;> simp [kinds]

theorem hasLongAddress_header (r : MmioRequest) (p : Parameters) :
    (r.header p).fmtType.hasLongAddress = decide (2 ^ (32 : Nat) ≤ r.addr.toNat) := by
  have kinds : FmtType.memWrite32.hasLongAddress = false ∧
      FmtType.memWrite64.hasLongAddress = true ∧ FmtType.memRead32.hasLongAddress = false ∧
      FmtType.memRead64.hasLongAddress = true := by decide
  unfold header
  cases r.write <;> cases decide (2 ^ (32 : Nat) ≤ r.addr.toNat) <;> simp [kinds]

theorem Legal.lengthFault?_header (legal : r.Legal) (p : Parameters) :
    Header.powerUserLengthFault? (r.header p).byteSize = none := by
  have aligned := legal.aligned
  have short : r.widthBits ≤ 512 := legal.short
  have size : (r.header p).byteSize.toNat = r.widthBits / 8 := by
    change (UInt32.ofNat (r.widthBits / 8)).toNat = _
    rw [UInt32.toNat_ofNat']
    omega
  rw [Header.powerUserLengthFault?_eq_none_iff, size]
  omega

theorem Legal.bodyFault?_header (legal : r.Legal) (p : Parameters) :
    (r.header p).bodyFault? = if 2 ^ (32 : Nat) ≤ r.addr.toNat then
      Header.overflow? .addrLow (r.addr.toNat % 4) 0 else none := by
  have enables : Header.overflow? .firstEnable (0xf : UInt8).toNat 4 = none ∧
      Header.overflow? .lastEnable
        (if r.widthBits ≤ 32 then 0 else 0xf : UInt8).toNat 4 = none := by
    constructor
    · decide
    · split <;> decide
  have request : (r.header p).bodyFault? = (r.header p).powerUserRequestFault?
      { addr := r.addr
        firstEnable := 0xf
        lastEnable := if r.widthBits ≤ 32 then 0 else 0xf } := by
    rw [Header.bodyFault?]
    change (if (r.header p).fmtType.isMemoryRequest = true then _ else _) = _
    rw [if_pos (r.isMemoryRequest_header p)]
    rfl
  rw [request, Header.powerUserRequestFault?, legal.lengthFault?_header, enables.1, enables.2,
    r.hasLongAddress_header]
  by_cases long : 2 ^ (32 : Nat) ≤ r.addr.toNat
  · simp only [decide_eq_true_eq, if_pos long]
    rfl
  · have fits := (Header.overflow?_eq_none_iff .addr r.addr.toNat 32).2 (Nat.lt_of_not_le long)
    simp only [decide_eq_true_eq, if_neg long, fits]
    rfl

/-- The slot of a read is below the number of MMIO reads, which a tag can name. -/
theorem Legal.fault?_header (legal : r.Legal) (c : ValidParameters)
    (housed : r.write = false → r.slot.toNat < c.params.maxMmioReads) :
    (r.header c.params).fault? = r.encodingFault? := by
  have most : c.params.maxMmioReads ≤ 1024 := (c.legal.limits .maxMmioReads).2
  have function := c.legal.function
  have routing : Header.routingFault? (r.header c.params).routing = none :=
    (Header.routingFault?_eq_none_iff _).2
      ⟨UInt8.toNat_zero.trans_lt (by decide), UInt8.toNat_zero.trans_lt (by decide),
        UInt16.lt_iff_toNat_lt.1 function.2, UInt8.lt_iff_toNat_lt.1 function.1⟩
  have tlpPrefix : Header.prefixFault? (r.header c.params).prefixWord = none :=
    (Header.prefixFault?_eq_none_iff _).2
      ⟨UInt8.toNat_zero.trans_lt (by decide), UInt32.toNat_zero.trans_lt (by decide)⟩
  rw [Header.fault?, legal.bodyFault?_header, routing, tlpPrefix, encodingFault?]
  change (Header.overflow? .tag r.slot.toNat 10 <|> _) = _
  cases write : r.write with
  | true => simp
  | false =>
    have fits := (Header.overflow?_eq_none_iff .tag r.slot.toNat 10).2
      ((housed write).trans_le most)
    simp [fits]

end MmioRequest

/-! ## Headers that cannot be encoded -/

/-- A call fails because a header cannot be encoded. -/
def EngineStep.FailsToEncode {α : Type} (s : EngineStep α) : Prop :=
  ∃ cycle cause h, s.answer = .error (.protocol cycle (.encoding cause) h)

theorem EngineStep.not_failsToEncode_ok {α : Type} {e : Engine} {a : α} {effects : List Effect} :
    ¬ (EngineStep.ok e a effects).FailsToEncode := by
  rintro ⟨_, _, _, fails⟩
  cases fails

theorem EngineStep.FailsToEncode.of_andThen {α β : Type} {s : EngineStep α}
    {f : α → Engine → EngineStep β} (fails : (s.andThen f).FailsToEncode) :
    s.FailsToEncode ∨ ∃ a, s.answer = .ok a ∧ (f a s.state).FailsToEncode := by
  obtain ⟨cycle, cause, h, fails⟩ := fails
  unfold EngineStep.andThen at fails
  split at fails
  · next fault answer =>
    left
    rw [Except.error.inj fails] at answer
    exact ⟨cycle, cause, h, answer⟩
  · next a answer => exact .inr ⟨a, answer, cycle, cause, h, fails⟩

namespace Engine

variable {e : Engine} {r : MmioRequest}

theorem not_failsToEncode_collectWrites (n : Nat) (e : Engine) :
    ¬ (collectWrites n e).FailsToEncode := by
  induction n generalizing e with
  | zero => exact EngineStep.not_failsToEncode_ok
  | succ n ih =>
    unfold collectWrites
    rcases e.link.receiveWrite with ⟨_ | _ | _, link⟩
    · simp only
      split
      · exact ih _
      · rintro ⟨_, _, _, fails⟩
        cases fails
    · exact EngineStep.not_failsToEncode_ok
    · rintro ⟨_, _, _, fails⟩
      cases fails

theorem not_failsToEncode_receiveRead (e : Engine) (a : ReadResponse) :
    ¬ (e.receiveRead a).FailsToEncode := by
  have queued (h : Header) : ¬ (e.queueRead a.tag.toNat h a.data).FailsToEncode := by
    unfold queueRead
    simp only
    generalize (if h.isFence (h.request?.getD {}) then 0 else h.byteSize.toNat) = expected
    split
    · rintro ⟨_, _, _, fails⟩
      cases fails
    · split
      · rintro ⟨_, _, _, fails⟩
        cases fails
      · exact EngineStep.not_failsToEncode_ok
  unfold receiveRead
  simp only
  split
  · rintro ⟨_, _, _, fails⟩
    cases fails
  · split
    · exact queued _
    · rintro ⟨_, _, _, fails⟩
      cases fails

theorem not_failsToEncode_collectReads (n : Nat) (e : Engine) :
    ¬ (collectReads n e).FailsToEncode := by
  induction n generalizing e with
  | zero => exact EngineStep.not_failsToEncode_ok
  | succ n ih =>
    unfold collectReads
    rcases e.link.receiveRead with ⟨a | _ | _, link⟩
    · intro fails
      rcases fails.of_andThen with received | ⟨_, _, rest⟩
      · exact not_failsToEncode_receiveRead _ a received
      · exact ih _ rest
    · exact EngineStep.not_failsToEncode_ok
    · rintro ⟨_, _, _, fails⟩
      cases fails

theorem not_failsToEncode_collect (e : Engine) (cycle : Nat) :
    ¬ (e.collect cycle).FailsToEncode := by
  intro fails
  rcases fails.of_andThen with written | ⟨_, _, read⟩
  · exact not_failsToEncode_collectWrites _ _ written
  · exact not_failsToEncode_collectReads _ _ read

/-- The header of a completion can always be encoded. -/
theorem not_failsToEncode_startCompletion (stocked : e.Stocked) {c : CompletionPacket}
    (first : e.completions.front? = some c) : ¬ (e.startCompletion c).FailsToEncode := by
  have filled := stocked.completions c (List.mem_of_head? first)
  obtain ⟨stalled, random, drawn⟩ := e.drawStall_eq
  unfold startCompletion
  simp only [drawn]
  split
  · exact EngineStep.not_failsToEncode_ok
  · split
    · rintro ⟨_, _, _, fails⟩
      cases fails
    · next request kept =>
      split
      · exact EngineStep.not_failsToEncode_ok
      · have stored : e.slots.request? c.slot = some request := by
          unfold SlotPool.request?
          cases state : e.slots.states[c.slot]? with
          | none => simp [state] at kept
          | some s => simpa [state] using kept
        obtain ⟨_, completable⟩ := stocked.requests c.slot request stored
        have fault := filled.encodable.fault?_header completable
        unfold withHeader
        split
        · next cause refused =>
          have broken := (Flit.storeHeader_eq_error_iff ..).1 refused
          rw [fault] at broken
          cases broken
        · exact EngineStep.not_failsToEncode_ok

theorem not_failsToEncode_elseCompletion (stocked : e.Stocked) (flit : Option Flit) :
    ¬ (elseCompletion flit e).FailsToEncode := by
  unfold elseCompletion
  split
  · next c first => exact not_failsToEncode_startCompletion stocked first
  · exact EngineStep.not_failsToEncode_ok

/-! ## The turn of a request -/

/-- Asked for a beat, the engine gets as far as the header of the request. -/
structure Starts (e : Engine) (r : MmioRequest) : Prop where
  between : e.toDevice = .start
  first : e.mmioQueue.head? = some r
  spaced : ¬ e.lastMmioCycle.any fun last => e.cycle - last < mmioSpacing
  drawn : e.drawStall.1 = false

theorem Starts.sendBeat_eq (starts : e.Starts r) :
    e.sendBeat = (e.startMmio r).andThen elseCompletion := by
  obtain ⟨rest, queue⟩ := List.head?_eq_some_iff.1 starts.first
  rw [sendBeat, starts.between]
  change e.startPacket = _
  rw [startPacket, queue]

theorem Starts.startMmio_eq (starts : e.Starts r) : ∃ random, e.startMmio r =
    { e with random := random }.withHeader (r.header e.params) fun flit =>
      { e with random := random, lastMmioCycle := some e.cycle }.mmioBeat r
        (some (r.header e.params)) flit HeaderWords.count (r.byteSize / 4) := by
  obtain ⟨stalled, random, drawn⟩ := e.drawStall_eq
  have goes : stalled = false := by
    have drawn' := starts.drawn
    rwa [drawn] at drawn'
  refine ⟨random, ?_⟩
  unfold startMmio
  rw [if_neg starts.spaced, drawn, goes]
  rfl

/-- A header that can be encoded goes out with the first beat, any other halts the engine. -/
theorem Starts.sendBeat_answer (starts : e.Starts r) :
    match (r.header e.params).fault? with
    | some cause => e.sendBeat.answer = .error (.protocol e.cycle (.encoding cause) none)
    | none => ∃ f, e.sendBeat.answer = .ok (some f) ∧ f.header = .ok (r.header e.params) := by
  obtain ⟨random, started⟩ := starts.startMmio_eq
  have known : (r.header e.params).fmtType.kind?.isSome := by
    rw [kind?_mmioHeader]
    rfl
  rw [starts.sendBeat_eq, started, withHeader]
  cases fault : (r.header e.params).fault? with
  | some cause =>
    have refused : { e with random := random }.blankFlit.storeHeader (r.header e.params) =
        .error cause := (Flit.storeHeader_eq_error_iff ..).2 fault
    rw [refused]
    rfl
  | none =>
    obtain ⟨flit, stored, shown, width⟩ :=
      storeHeader_blankFlit { e with random := random } known fault
    obtain ⟨f, e', effects, sent, -, header⟩ := mmioBeat_spec
      { e with random := random, lastMmioCycle := some e.cycle } r (some (r.header e.params)) flit
      HeaderWords.count (r.byteSize / 4) width
    rw [stored]
    simp only [sent]
    exact ⟨f, rfl, (header (Nat.le_refl _)).trans shown⟩

/-- No other header fails. -/
theorem starts_of_failsToEncode (stocked : e.Stocked) (fails : e.sendBeat.FailsToEncode) :
    ∃ r, e.Starts r := by
  obtain ⟨stalled, random, drawn⟩ := e.drawStall_eq
  -- A turn that passes leaves the completions as they were.
  have passes {random : DrawSource} {s : EngineStep (Option Flit)}
      (same : s = .ok { e with random := random } none) :
      ¬ (s.andThen elseCompletion).FailsToEncode := by
    intro fails
    rw [same] at fails
    rcases fails.of_andThen with none_ | ⟨_, _, other⟩
    · exact EngineStep.not_failsToEncode_ok none_
    · have restocked : { e with random := random }.Stocked :=
        ⟨stocked.mmio, stocked.completions, stocked.requests⟩
      exact not_failsToEncode_elseCompletion restocked _ other
  unfold sendBeat at fails
  split at fails
  · next between =>
    unfold startPacket at fails
    cases queue : e.mmioQueue with
    | nil =>
      rw [queue] at fails
      exact absurd fails (passes rfl)
    | cons r rest =>
      rw [queue] at fails
      refine ⟨r, between, by rw [queue]; rfl, fun early => ?_, ?_⟩
      · exact passes (if_pos early) fails
      · rw [drawn]
        cases stalled with
        | false => rfl
        | true =>
          by_cases early : e.lastMmioCycle.any fun last => e.cycle - last < mmioSpacing
          · exact absurd fails (passes (if_pos early))
          · have stalls : e.startMmio r = .ok { e with random := random } none := by
              unfold startMmio
              rw [if_neg early, drawn]
              rfl
            exact absurd fails (passes stalls)
  · next left _ =>
    unfold continueCompletion at fails
    simp only [drawn] at fails
    split at fails
    · exact absurd fails EngineStep.not_failsToEncode_ok
    · split at fails
      · exact absurd fails EngineStep.not_failsToEncode_ok
      · exact absurd fails EngineStep.not_failsToEncode_ok
  · unfold continueMmio at fails
    split at fails
    · exact absurd fails EngineStep.not_failsToEncode_ok
    · exact absurd fails EngineStep.not_failsToEncode_ok

/-! ## Calls and runs -/

/-- Asked for a beat, the engine takes what host memory has answered and then comes to the
request. -/
structure ComesTo (e : Engine) (cycle : Nat) (ready : Bool) (r : MmioRequest) : Prop where
  running : e.halted = false
  ready : ready = true
  collected : (e.collect cycle).answer = .ok ()
  starts : (e.collect cycle).state.Starts r

theorem ComesTo.emit_answer {cycle : Nat} {ready : Bool} (comes : e.ComesTo cycle ready r) :
    (e.emit cycle ready).answer = (e.collect cycle).state.sendBeat.answer := by
  rw [emit_eq, if_neg (by rw [comes.running]; exact Bool.false_ne_true), comes.ready,
    EngineStep.andThen, comes.collected]
  rfl

theorem comesTo_of_failsToEncode (orderly : e.Orderly) {cycle : Nat} {ready : Bool}
    (fails : (e.emit cycle ready).FailsToEncode) : ∃ r, e.ComesTo cycle ready r := by
  rw [emit_eq] at fails
  split at fails
  · obtain ⟨_, _, _, fails⟩ := fails
    cases fails
  · next running =>
    rcases fails.of_andThen with collects | ⟨_, collected, sends⟩
    · exact absurd collects (e.not_failsToEncode_collect cycle)
    · cases ready with
      | false => exact absurd sends EngineStep.not_failsToEncode_ok
      | true =>
        obtain ⟨r, starts⟩ := starts_of_failsToEncode (orderly.collect cycle).stocked sends
        exact ⟨r, Bool.eq_false_of_not_eq_true running, rfl, collected, starts⟩

end Engine

namespace MmioLog

variable {l : MmioLog} {c : ValidParameters}

/-- The slot of a read that was taken is that of some tag. -/
def Housed (l : MmioLog) (c : ValidParameters) : Prop :=
  ∀ r ∈ l.accepted, r.write = false → r.slot.toNat < c.params.maxMmioReads

theorem Housed.step (housed : l.Housed c) (delivers : l.Delivers c) (call : Engine.Call) :
    (l.step call).Housed c := by
  have same {l' : MmioLog} (accepted : l'.accepted = l.accepted) : l'.Housed c := by
    rw [Housed, accepted]
    exact housed
  cases call with
  | accept cycle flit =>
    obtain ⟨_, _, _, seen⟩ := l.accept_eq cycle flit
    exact same (by rw [MmioLog.step, seen])
  | emit cycle ready =>
    obtain ⟨_, _, _, seen⟩ := l.observe_eq (l.engine.emit cycle ready)
    exact same (by rw [MmioLog.step, seen])
  | ready => exact same rfl
  | reset => exact same rfl
  | serve link => exact same rfl
  | request r =>
    change (l.request r).Housed c
    rcases l.request_cases r with ⟨halted, seen, -⟩ | ⟨kept, seen, -⟩
    · exact same (by rw [seen])
    · rw [seen]
      intro r' member read
      rcases List.mem_append.1 member with old | new
      · exact housed r' old read
      · rw [List.mem_singleton.1 new] at read ⊢
        have free := Engine.free_of_requestFault? kept read
        have inside := (Array.getElem?_eq_some_iff.1 free).1
        rwa [delivers.orderly.mmioReads, Engine.params, delivers.config] at inside

theorem Housed.run (housed : l.Housed c) (delivers : l.Delivers c) (calls : List Engine.Call) :
    (l.run calls).Housed c := by
  induction calls generalizing l with
  | nil => exact housed
  | cons call rest ih => exact ih (housed.step delivers call) (delivers.step call)

theorem Delivers.next_of_comesTo (delivers : l.Delivers c) {cycle : Nat} {ready : Bool}
    {r : MmioRequest} (comes : l.engine.ComesTo cycle ready r) :
    l.accepted[sent l.begun]? = some r := by
  have first := comes.starts.first
  rw [(l.engine.onlyCollected_collect cycle).mmioQueue] at first
  rw [delivers.begun.2]
  exact delivers.next first

theorem Housed.fault?_header (housed : l.Housed c) (delivers : l.Delivers c) {cycle : Nat}
    {ready : Bool} {r : MmioRequest} (comes : l.engine.ComesTo cycle ready r) :
    (r.header c.params).fault? = r.encodingFault? := by
  have taken := List.mem_of_getElem? (delivers.next_of_comesTo comes)
  exact (delivers.legal r taken).fault?_header c (housed r taken)

theorem Housed.emit_answer (housed : l.Housed c) (delivers : l.Delivers c) {cycle : Nat}
    {ready : Bool} {r : MmioRequest} (comes : l.engine.ComesTo cycle ready r) :
    match r.encodingFault? with
    | some cause =>
      (l.engine.emit cycle ready).answer = .error (.protocol cycle (.encoding cause) none)
    | none => ∃ f, (l.engine.emit cycle ready).answer = .ok (some f) ∧
        f.header = .ok (r.header c.params) := by
  have config := (l.engine.onlyCollected_collect cycle).config.trans delivers.config
  have answer := comes.starts.sendBeat_answer
  rw [l.engine.cycle_collect, Engine.params, config, housed.fault?_header delivers comes,
    ← comes.emit_answer] at answer
  exact answer

/-- In every run, whatever the host asks for and the device and host memory do: asked for a beat,
the engine fails to encode a header exactly if it has come to a request, the next of those that were
taken, with one of the two faults. Every other request to which it comes is sent. -/
theorem run_encodes_iff (config : ValidParameters) (options : Switches) (random : DrawSource)
    (calls : List Engine.Call) (cycle : Nat) (ready : Bool) :
    let l := (start config options random).run calls
    (∀ stamp cause h, (l.engine.emit cycle ready).answer =
        .error (.protocol stamp (.encoding cause) h) ↔ stamp = cycle ∧ h = none ∧
      ∃ r, l.accepted[sent l.begun]? = some r ∧ l.engine.ComesTo cycle ready r ∧
        r.encodingFault? = some cause) ∧
    ∀ r, l.engine.ComesTo cycle ready r → r.encodingFault? = none →
      ∃ f, (l.engine.emit cycle ready).answer = .ok (some f) ∧
        f.header = .ok (r.header config.params) := by
  intro l
  have fresh := Delivers.start config options random
  obtain ⟨delivers, -⟩ := fresh.run (.start config options random) calls
  have empty : (start config options random).Housed config := List.forall_mem_nil _
  have housed := empty.run fresh calls
  refine ⟨fun stamp cause h => ⟨fun fails => ?_, ?_⟩, fun r comes sound => ?_⟩
  · obtain ⟨r, comes⟩ := Engine.comesTo_of_failsToEncode delivers.orderly ⟨_, _, _, fails⟩
    have answer := housed.emit_answer delivers comes
    cases fault : r.encodingFault? with
    | none =>
      rw [fault] at answer
      obtain ⟨f, sent, -⟩ := answer
      cases sent.symm.trans fails
    | some cause' =>
      rw [fault] at answer
      cases answer.symm.trans fails
      exact ⟨rfl, rfl, r, delivers.next_of_comesTo comes, comes, fault⟩
  · rintro ⟨rfl, rfl, r, -, comes, fault⟩
    have answer := housed.emit_answer delivers comes
    rw [fault] at answer
    exact answer
  · have answer := housed.emit_answer delivers comes
    rw [sound] at answer
    exact answer

/-- A write for a slot that no tag can name. -/
example :
    let write : MmioRequest := { MmioRequest.ofWrite 5 0x40 [1, 2, 3, 4] with slot := 1024 }
    let l := (start ⟨{ dataWidth := 256 }, by decide⟩ {} .fullBandwidth).run [.request write]
    l.accepted = [write] ∧ (l.engine.emit 1 true).answer =
      .error (.protocol 1 (.encoding (.fieldOverflow .tag 1024)) none) :=
  ⟨rfl, rfl⟩

end MmioLog

end TlpBridge
