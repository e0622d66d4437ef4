import TlpBridge.Proofs.ToDevice.StreamedPackets

/-!
# Steps of the stream to the device

Asked for a beat, the engine starts the packet at the head of one of its queues, goes on
with the packet that it is in, or sends nothing and stays where it is.
-/
namespace TlpBridge.Engine

/-- What asking an engine for a beat comes to. -/
inductive Streams (e : Engine) : EngineStep (Option Flit) → Prop where
  | silent {answer e' effects} (none_ : ∀ f, answer ≠ .ok (some f)) (same : e.SameStream e') :
    Streams e ⟨answer, e', effects⟩
  | starts {e' effects} (src : Source) (h : Header) (flit : Flit) (between : e.toDevice = .start)
    (first : src.IsFirst e) (header : src.HasHeader e.params h)
    (stored : e.blankFlit.storeHeader h = .ok flit)
    (state : (e.afterBeat src HeaderWords.count src.payload.length).SameStream e') :
    Streams e (.ok e' (some (flit.fill e.config.dwordWidth HeaderWords.count src.payload
      src.payload.length)) effects)
  | continues {e' effects} (src : Source) (left : Nat) (inside : e.toDevice = src.inside left)
    (first : src.IsFirst e) (state : (e.afterBeat src 0 left).SameStream e') :
    Streams e (.ok e' (some (e.blankFlit.fill e.config.dwordWidth 0 src.payload left)) effects)

theorem Streams.after {e : Engine} {s : EngineStep (Option Flit)} (streams : e.Streams s)
    (effects : List Effect) : e.Streams (s.after effects) := by
  cases streams with
  | silent none_ same => exact .silent none_ same
  | starts src h flit between first header stored state =>
    exact .starts src h flit between first header stored state
  | continues src left inside first state => exact .continues src left inside first state

theorem Streams.of_same {e e' : Engine} {s : EngineStep (Option Flit)} (same : e.SameStream e')
    (streams : e'.Streams s) : e.Streams s := by
  cases streams with
  | silent none_ same' => exact .silent none_ (same.trans same')
  | starts src h flit between first header stored state =>
    rw [same.blankFlit] at stored
    rw [params, same.config] at header
    rw [same.config]
    exact .starts src h flit (same.toDevice.symm.trans between) (same.isFirst first) header stored
      ((same.afterBeat ..).trans state)
  | continues src left inside first state =>
    rw [same.blankFlit, same.config]
    exact .continues src left (same.toDevice.symm.trans inside) (same.isFirst first)
      ((same.afterBeat ..).trans state)

theorem withHeader_streams {e : Engine} {h : Header} {send : Flit → EngineStep (Option Flit)}
    (sends : ∀ flit, e.blankFlit.storeHeader h = .ok flit → e.Streams (send flit)) :
    e.Streams (e.withHeader h send) := by
  unfold withHeader
  cases stored : e.blankFlit.storeHeader h with
  | error cause => exact .silent (fun f sent => nomatch sent) ⟨rfl, rfl, rfl, rfl, fun _ => rfl⟩
  | ok flit => exact sends flit stored

theorem startMmio_streams (e : Engine) {r : MmioRequest} (legal : r.Legal)
    (between : e.toDevice = .start) (first : e.mmioQueue.head? = some r) :
    e.Streams (e.startMmio r) := by
  obtain ⟨stalled, random, drawn⟩ := e.drawStall_eq
  have same : e.SameStream { e with random := random } := ⟨rfl, rfl, rfl, rfl, fun _ => rfl⟩
  unfold startMmio
  split
  · exact .silent (fun f sent => nomatch sent) (.refl e)
  · simp only [drawn]
    cases stalled with
    | true => exact .silent (fun f sent => nomatch sent) same
    | false =>
      simp only [Bool.false_eq_true, if_false]
      apply Streams.of_same same
      apply withHeader_streams
      intro flit stored
      have started : Engine.SameStream { e with random := random }
          { e with random := random, lastMmioCycle := some e.cycle } :=
        ⟨rfl, rfl, rfl, rfl, fun _ => rfl⟩
      obtain ⟨e', effects, sent, state⟩ :=
        mmioBeat_first { e with random := random, lastMmioCycle := some e.cycle } legal
          (some (r.header e.params)) flit HeaderWords.count
      change Streams _ (mmioBeat { e with random := random, lastMmioCycle := some e.cycle } r
        (some (r.header e.params)) flit HeaderWords.count (r.byteSize / 4))
      rw [sent]
      exact .starts (.mmio r) _ flit between first rfl stored ((started.afterBeat ..).trans state)

theorem startCompletion_streams (e : Engine) {c : CompletionPacket} (filled : c.Filled)
    (between : e.toDevice = .start) (first : e.completions.front? = some c) :
    e.Streams (e.startCompletion c) := by
  obtain ⟨stalled, random, drawn⟩ := e.drawStall_eq
  have same : e.SameStream { e with random := random } := ⟨rfl, rfl, rfl, rfl, fun _ => rfl⟩
  unfold startCompletion
  simp only [drawn]
  cases stalled with
  | true => exact .silent (fun f sent => nomatch sent) same
  | false =>
    simp only [Bool.false_eq_true, if_false]
    split
    · exact .silent (fun f sent => nomatch sent) ⟨rfl, rfl, rfl, rfl, fun _ => rfl⟩
    · next request _ =>
      split
      · exact .silent (fun f sent => nomatch sent) same
      · generalize released : (if c.isLast = true then
          { e with random := random, slots := e.slots.release c.slot }
          else { e with random := random }) = e₁
        have same₁ : e.SameStream e₁ := by
          rw [← released]
          split
          · exact ⟨rfl, rfl, rfl, rfl, fun slot => SlotPool.request?_release ..⟩
          · exact same
        apply Streams.of_same same₁
        apply withHeader_streams
        intro flit stored
        obtain ⟨e', effects, sent, state⟩ := e₁.completionBeat_eq filled
          (some (c.header request)) flit HeaderWords.count (Nat.le_refl c.dwordSize)
        rw [sent, ← Source.length_payload_completion filled]
        rw [← Source.length_payload_completion filled] at state
        exact .starts (.completion c) _ flit (same₁.toDevice.trans between)
          ((congrArg OvertakingQueue.front? same₁.completions).trans first) ⟨request, rfl⟩ stored
          state

theorem continueCompletion_streams (e : Engine) {c : CompletionPacket} (filled : c.Filled)
    {left : Nat} (inside : e.toDevice = .completion left)
    (first : e.completions.front? = some c) (within : left ≤ c.dwordSize) :
    e.Streams (e.continueCompletion left) := by
  obtain ⟨stalled, random, drawn⟩ := e.drawStall_eq
  have same : e.SameStream { e with random := random } := ⟨rfl, rfl, rfl, rfl, fun _ => rfl⟩
  unfold continueCompletion
  simp only [drawn]
  cases stalled with
  | true => exact .silent (fun f sent => nomatch sent) same
  | false =>
    obtain ⟨e', effects, sent, state⟩ := completionBeat_eq { e with random := random } filled none
      e.blankFlit 0 within
    simp only [Bool.false_eq_true, if_false, first]
    change e.Streams (completionBeat { e with random := random } c none e.blankFlit 0 left)
    rw [sent]
    exact .continues (.completion c) left inside first ((same.afterBeat ..).trans state)

theorem continueMmio_streams (e : Engine) {r : MmioRequest} (legal : r.Legal) (write : r.write)
    {left : Nat} (inside : e.toDevice = .mmio left) (first : e.mmioQueue.head? = some r)
    (within : left ≤ r.byteSize / 4) : e.Streams (e.continueMmio left) := by
  obtain ⟨rest, queue⟩ := List.head?_eq_some_iff.1 first
  obtain ⟨e', effects, sent, state⟩ := e.mmioBeat_write legal write none e.blankFlit 0 within
  unfold continueMmio
  simp only [queue, sent]
  exact .continues (.mmio r) left inside first state

/-- What is at the head of a queue between two packets goes next. -/
theorem startPacket_streams (e : Engine) (stocked : e.Stocked) (between : e.toDevice = .start) :
    e.Streams e.startPacket := by
  have completes {e' : Engine} (same : e.SameStream e') :
      e.Streams (elseCompletion none e') := by
    unfold elseCompletion
    cases first : e'.completions.front? with
    | none => exact .silent (fun f sent => nomatch sent) same
    | some c =>
      have head : (Source.completion c).IsFirst e := same.isFirst first
      have filled := stocked.completions c (List.mem_of_head? head)
      exact .of_same same (startCompletion_streams e' filled (same.toDevice.trans between) first)
  unfold startPacket
  cases queue : e.mmioQueue with
  | nil => exact (completes (.refl e)).after []
  | cons r rest =>
    have first : e.mmioQueue.head? = some r := by rw [queue]; rfl
    have streams := e.startMmio_streams (stocked.mmio r (List.mem_of_head? first)) between first
    simp only
    generalize e.startMmio r = s at streams ⊢
    unfold EngineStep.andThen
    cases streams with
    | @silent answer e' effects none_ same =>
      cases answer with
      | error fault => exact .silent none_ same
      | ok sent =>
        cases sent with
        | none => exact (completes same).after effects
        | some f => exact absurd rfl (none_ f)
    | starts src h flit between first header stored state =>
      exact (Streams.starts src h flit between first header stored state).after _
    | continues src left inside first state =>
      exact (Streams.continues src left inside first state).after _

/-- The packet that an engine is in stands at the head of its queue, and some of its payload is
left. -/
def InPacket (e : Engine) : Prop :=
  ∃ (src : Source) (left : Nat), e.toDevice = src.inside left ∧ src.IsFirst e ∧
    0 < left ∧ left ≤ src.payload.length

theorem sendBeat_streams (e : Engine) (stocked : e.Stocked)
    (place : e.toDevice = .start ∨ e.InPacket) : e.Streams e.sendBeat := by
  unfold sendBeat
  rcases place with between | ⟨src, left, inside, first, some_, within⟩
  · rw [between]
    exact e.startPacket_streams stocked between
  · have legal := stocked.of_isFirst first
    rw [inside]
    cases src with
    | mmio r =>
      rw [Source.length_payload_mmio legal] at within
      cases write : r.write with
      | true =>
        rw [write, if_pos rfl] at within
        exact e.continueMmio_streams legal write inside first within
      | false =>
        rw [write, if_neg Bool.false_ne_true] at within
        omega
    | completion c =>
      rw [Source.length_payload_completion legal] at within
      exact e.continueCompletion_streams legal inside first within

end TlpBridge.Engine
