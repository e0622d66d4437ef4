import TlpBridge.Engine.ToDevice
import TlpBridge.Proofs.Stream.LegalParameters
import TlpBridge.Proofs.Reads.ReadSlots
import TlpBridge.Proofs.Tlp.StoredHeaders

/-!
# Beats to the device

What one beat to the device holds and how the engine stands after it. A beat that starts
a packet shows the header of the packet, and the payload is found behind it and in the
beats that follow.
-/
namespace TlpBridge

namespace Flit

theorem data_setPayload (f : Flit) (i : Nat) (vs : List UInt32) (bytes : Nat) :
    (f.setPayload i vs bytes).data = (f.setDwords i vs).data := by
  induction vs generalizing f i bytes with
  | nil => rfl
  | cons v vs ih =>
    have same (g h : Flit) (i : Nat) (vs : List UInt32) (eq : g.data = h.data) :
        (g.setDwords i vs).data = (h.setDwords i vs).data := by
      induction vs generalizing g h i with
      | nil => exact eq
      | cons v vs ih => exact ih _ _ _ (congrArg (·.setDword i v) eq)
    rw [setPayload, ih, setDwords_cons]
    exact same _ _ _ _ rfl

theorem user_setPayload (f : Flit) (i : Nat) (vs : List UInt32) (bytes : Nat) :
    (f.setPayload i vs bytes).user = f.user := by
  induction vs generalizing f i bytes with
  | nil => rfl
  | cons v vs ih => rw [setPayload, ih, setDword]

theorem dwordsAt_congr {f g : Flit} (data : f.data = g.data) (start n : Nat) :
    f.dwordsAt start n = g.dwordsAt start n := by
  simp only [dwordsAt, dwordAt, data]

theorem dwordsAt_setDwords (f : Flit) (i : Nat) (vs : List UInt32)
    (inside : 32 * (i + vs.length) ≤ f.data.width) :
    (f.setDwords i vs).dwordsAt i vs.length = vs := by
  apply List.ext_getElem
  · simp [dwordsAt]
  · intro k _ stored
    simp only [dwordsAt, List.getElem_map, List.getElem_range]
    exact f.dwordAt_setDwords stored (by omega)

theorem header_congr {f g : Flit} (data : f.data = g.data) (user : f.user = g.user) :
    f.header = g.header := by
  simp only [header, dataMover, data, user]

/-- Payload behind the header that fits into the flit leaves the header alone. -/
theorem header_setDwords_of_le (f : Flit) {i : Nat} (vs : List UInt32)
    (wide : 256 ≤ f.data.width) (behind : HeaderWords.count ≤ i)
    (room : vs.length ≤ f.dwordWidth - i) : (f.setDwords i vs).header = f.header := by
  by_cases none_ : vs = []
  · rw [none_, setDwords]
  have fits : 32 * (i + vs.length) ≤ f.data.positions := by
    have some_ := List.length_pos_iff.2 none_
    rw [dwordWidth, Lane.dwordWidth] at room
    exact le_trans (by omega) f.data.width_le_positions
  rw [header_eq_decode _ (by rwa [width_data_setDwords]), header_eq_decode _ wide,
    headerWords_setDwords_of_le _ _ behind fits, dataMover_setDwords]

end Flit

namespace Engine

theorem wide_blankFlit (e : Engine) : 256 ≤ e.blankFlit.data.width := e.config.legal.wide

/-- A stored header keeps the widths of the flit and can be read back. -/
theorem storeHeader_blankFlit (e : Engine) {h : Header} (known : h.fmtType.kind?.isSome)
    (fault : h.fault? = none) : ∃ f, e.blankFlit.storeHeader h = .ok f ∧ f.header = .ok h ∧
      f.data.width = e.params.dataWidth := by
  refine ⟨_, (Flit.storeHeader_eq_ok_iff ..).2 ⟨fault, rfl⟩, ?_, ?_⟩
  · exact Flit.header_of_storeHeader known e.wide_blankFlit e.config.legal.marked
      ((Flit.storeHeader_eq_ok_iff ..).2 ⟨fault, rfl⟩)
  · rw [Flit.width_data_setDwords]
    rfl

/-- A beat that carries DWORDs of a completion of which `left` are left, from DWORD `start` of the
flit on. -/
structure CompletionBeat (e : Engine) (c : CompletionPacket) (start left : Nat) (f : Flit)
    (e' : Engine) : Prop where
  width : f.dwordWidth = e.config.dwordWidth
  payload : f.dwordsAt start (min left (f.dwordWidth - start)) =
    (c.data.drop (c.startDword + (c.dwordSize - left))).take (min left (f.dwordWidth - start))
  last : f.last = decide (left ≤ f.dwordWidth - start)
  state : e' = { e with
    completions := if f.last then e.completions.tail else e.completions
    toDevice := if f.last then .start else .completion (left - (f.dwordWidth - start)) }

theorem completionBeat_spec (e : Engine) (c : CompletionPacket) (header : Option Header)
    (flit : Flit) (start left : Nat) (width : flit.data.width = e.params.dataWidth)
    (data : c.startDword + c.dwordSize ≤ c.data.length) (within : left ≤ c.dwordSize) :
    ∃ f e' effects, e.completionBeat c header flit start left = .ok e' (some f) effects ∧
      e.CompletionBeat c start left f e' ∧
      (HeaderWords.count ≤ start → f.header = flit.header) := by
  have legal := e.config.legal
  have wide : flit.data.width = 32 * e.config.dwordWidth := by
    have dwords : e.params.dataWidth % 32 = 0 := legal.dwords
    rw [width]
    change e.params.dataWidth = 32 * (e.params.dataWidth / 32)
    omega
  let n := min left (e.config.dwordWidth - start)
  let payload := (c.data.drop (c.startDword + (c.dwordSize - left))).take n
  have count : payload.length = n := by
    simp only [payload, List.length_take, List.length_drop]
    omega
  let f : Flit := { flit.setPayload start payload (c.byteSize - 4 * (c.dwordSize - left)) with
    last := decide (left ≤ e.config.dwordWidth - start) }
  have stored : f.data = (flit.setDwords start payload).data := flit.data_setPayload ..
  have same : f.dwordWidth = e.config.dwordWidth := by
    change f.data.width / 32 = _
    rw [stored, Flit.width_data_setDwords, wide, Nat.mul_div_cancel_left _ (by decide)]
  refine ⟨f, _, _, rfl, ⟨same, ?_, ?_, ?_⟩, ?_⟩
  · rw [same, Flit.dwordsAt_congr stored]
    by_cases none_ : n = 0
    · change Flit.dwordsAt _ start n = payload
      rw [none_, List.eq_nil_of_length_eq_zero (count.trans none_)]
      rfl
    · change Flit.dwordsAt _ start n = payload
      rw [← count]
      apply Flit.dwordsAt_setDwords
      rw [wide]
      omega
  · rw [same]
  · have rest : left - min left (e.config.dwordWidth - start) =
        left - (e.config.dwordWidth - start) := by omega
    have closed : f.last = decide (left ≤ e.config.dwordWidth - start) := rfl
    rw [same, closed, ← rest]
    by_cases last : left ≤ e.config.dwordWidth - start
    · simp only [last, decide_true, if_true]
    · simp only [last, decide_false, if_false, Bool.false_eq_true]
  · intro behind
    have user : f.user = (flit.setDwords start payload).user := by
      rw [Flit.user_setDwords]
      exact flit.user_setPayload ..
    rw [Flit.header_congr stored user]
    refine flit.header_setDwords_of_le payload (by rw [width]; exact legal.wide) behind ?_
    rw [count, Flit.dwordWidth, Lane.dwordWidth, wide]
    omega

theorem kind?_mmioHeader (r : MmioRequest) (p : Parameters) : (r.header p).fmtType.kind? =
    some (if r.write then .memoryWrite else .memoryRead) := by
  have known : FmtType.memWrite32.kind? = some .memoryWrite ∧
      FmtType.memWrite64.kind? = some .memoryWrite ∧
      FmtType.memRead32.kind? = some .memoryRead ∧
      FmtType.memRead64.kind? = some .memoryRead := by decide
  unfold MmioRequest.header
  cases r.write <;> cases decide (2 ^ 32 ≤ r.addr.toNat) <;> simp [known]

theorem isCompletion_mmioHeader (r : MmioRequest) (p : Parameters) :
    (r.header p).fmtType.isCompletion = false := by
  have other : FmtType.memWrite32.isCompletion = false ∧ FmtType.memWrite64.isCompletion = false ∧
      FmtType.memRead32.isCompletion = false ∧ FmtType.memRead64.isCompletion = false := by decide
  unfold MmioRequest.header
  cases r.write <;> cases decide (2 ^ 32 ≤ r.addr.toNat) <;> simp [other]

/-- A beat of an MMIO request: the packet ends with it or goes on. -/
structure MmioBeat (e : Engine) (f : Flit) (e' : Engine) : Prop where
  state : e' = { e with
    random := e'.random
    lastMmioCycle := e'.lastMmioCycle
    mmioQueue := if f.last then e.mmioQueue.tail else e.mmioQueue
    toDevice := e'.toDevice }
  ends : f.last → e'.toDevice = .start
  goesOn : ¬ f.last → ∃ left, e'.toDevice = .mmio left

theorem mmioBeat_spec (e : Engine) (r : MmioRequest) (header : Option Header) (flit : Flit)
    (start left : Nat) (width : flit.data.width = e.params.dataWidth) :
    ∃ f e' effects, e.mmioBeat r header flit start left = .ok e' (some f) effects ∧
      e.MmioBeat f e' ∧ (HeaderWords.count ≤ start → f.header = flit.header) := by
  let n := min left (e.config.dwordWidth - start)
  let payload := if r.write then
    ((dwordsOfBytes r.data).drop (r.byteSize / 4 - left)).take n else []
  let rest := if r.write then left - n else 0
  refine ⟨{ flit.setDwords start payload with last := rest == 0 }, _, _, rfl, ?_, ?_⟩
  · by_cases last : rest = 0
    · have done : (rest == 0) = true := by simp [last]
      simp only [rest, n] at done
      refine ⟨?_, ?_, ?_⟩
      · simp only [rest, n, done, if_true]
      · intro _
        simp only [done, if_true]
      · intro more
        simp [rest, n, done] at more
    · have more : (rest == 0) = false := by simp [last]
      simp only [rest, n] at more
      refine ⟨?_, ?_, ?_⟩
      · simp only [rest, n, more, Bool.false_eq_true, if_false]
      · intro done
        simp [rest, n, more] at done
      · intro _
        simp only [more, Bool.false_eq_true, if_false]
        exact ⟨_, rfl⟩
  · intro behind
    have room : payload.length ≤ flit.dwordWidth - start := by
      rw [Flit.dwordWidth, Lane.dwordWidth, width]
      change payload.length ≤ e.config.dwordWidth - start
      simp only [payload]
      split
      · rw [List.length_take]
        omega
      · exact Nat.zero_le _
    rw [← flit.header_setDwords_of_le payload (by rw [width]; exact e.config.legal.wide) behind
      room]
    exact Flit.header_congr rfl rfl

/-- What the engine does when the device takes a beat in a cycle. -/
inductive Sends (e : Engine) : EngineStep (Option Flit) → Prop where
  | nothing {e'} {effects} (state : e' = { e with random := e'.random }) :
    Sends e (.ok e' none effects)
  /-- The MMIO request at the head of the queue cannot be encoded. -/
  | refused {e'} {effects} (r : MmioRequest) (cause : EncodingError)
    (first : e.mmioQueue.head? = some r) (fault : (r.header e.params).fault? = some cause)
    (state : e' = { e with random := e'.random, halted := true }) :
    Sends e ⟨.error (.protocol e.cycle (.encoding cause) none), e', effects⟩
  | startsMmio {f e'} {effects} (r : MmioRequest) (between : e.toDevice = .start)
    (first : e.mmioQueue.head? = some r) (header : f.header = .ok (r.header e.params))
    (beat : e.MmioBeat f e') : Sends e (.ok e' (some f) effects)
  | continuesMmio {f e'} {effects} (left : Nat) (inside : e.toDevice = .mmio left)
    (beat : e.MmioBeat f e') : Sends e (.ok e' (some f) effects)
  /-- A completion starts. With the header of the last one of a read its slot becomes free. -/
  | startsCompletion {f e'} {effects} (c : CompletionPacket) (request : Header)
    (random : DrawSource) (between : e.toDevice = .start)
    (first : e.completions.front? = some c) (stored : e.slots.request? c.slot = some request)
    (header : f.header = .ok (c.header request))
    (beat : CompletionBeat
      { e with
        random := random
        slots := if c.isLast then e.slots.release c.slot else e.slots }
      c HeaderWords.count c.dwordSize f e') : Sends e (.ok e' (some f) effects)
  | continuesCompletion {f e'} {effects} (c : CompletionPacket) (random : DrawSource)
    (left : Nat) (inside : e.toDevice = .completion left)
    (first : e.completions.front? = some c)
    (beat : CompletionBeat { e with random := random } c 0 left f e') :
    Sends e (.ok e' (some f) effects)

theorem drawStall_eq (e : Engine) :
    ∃ stalled random, e.drawStall = (stalled, { e with random := random }) := ⟨_, _, rfl⟩

theorem startCompletion_sends (e : Engine) (c : CompletionPacket) (request : Header)
    (between : e.toDevice = .start) (first : e.completions.front? = some c)
    (stored : e.slots.request? c.slot = some request) (fault : (c.header request).fault? = none)
    (data : c.startDword + c.dwordSize ≤ c.data.length) : e.Sends (e.startCompletion c) := by
  obtain ⟨stalled, random, drawn⟩ := e.drawStall_eq
  have known : (c.header request).fmtType.kind?.isSome := by
    change FmtType.completionData.kind?.isSome
    decide
  have kept : ((e.slots.states[c.slot]?).getD {}).request = some request := by
    unfold SlotPool.request? at stored
    cases state : e.slots.states[c.slot]? with
    | none => simp [state] at stored
    | some s => simpa [state] using stored
  unfold startCompletion
  simp only [drawn]
  cases stalled with
  | true =>
    rw [if_pos rfl]
    exact .nothing rfl
  | false =>
    simp only [Bool.false_eq_true, if_false, kept]
    split
    · exact .nothing rfl
    · have slots : (if c.isLast = true then
          { e with random := random, slots := e.slots.release c.slot }
          else { e with random := random }) =
          { e with
            random := random
            slots := if c.isLast then e.slots.release c.slot else e.slots } := by
        cases c.isLast <;> rfl
      rw [slots]
      obtain ⟨flit, store, shown, width⟩ := storeHeader_blankFlit
        { e with
          random := random
          slots := if c.isLast then e.slots.release c.slot else e.slots } known fault
      obtain ⟨f, e', effects, sent, beat, header⟩ := completionBeat_spec
        { e with
          random := random
          slots := if c.isLast then e.slots.release c.slot else e.slots }
        c (some (c.header request)) flit HeaderWords.count c.dwordSize width data (Nat.le_refl _)
      simp only [withHeader, store, sent]
      exact .startsCompletion c request random between first stored
        ((header (Nat.le_refl _)).trans shown) beat

theorem continueCompletion_sends (e : Engine) (c : CompletionPacket) (left : Nat)
    (inside : e.toDevice = .completion left) (first : e.completions.front? = some c)
    (data : c.startDword + c.dwordSize ≤ c.data.length) (within : left ≤ c.dwordSize) :
    e.Sends (e.continueCompletion left) := by
  obtain ⟨stalled, random, drawn⟩ := e.drawStall_eq
  unfold continueCompletion
  simp only [drawn]
  cases stalled with
  | true =>
    rw [if_pos rfl]
    exact .nothing rfl
  | false =>
    obtain ⟨f, e', effects, sent, beat, -⟩ := completionBeat_spec { e with random := random } c
      none e.blankFlit 0 left rfl data within
    simp only [Bool.false_eq_true, if_false, first]
    change e.Sends (completionBeat { e with random := random } c none e.blankFlit 0 left)
    rw [sent]
    exact .continuesCompletion c random left inside first beat

theorem startMmio_sends (e : Engine) (r : MmioRequest) (between : e.toDevice = .start)
    (first : e.mmioQueue.head? = some r) : e.Sends (e.startMmio r) := by
  obtain ⟨stalled, random, drawn⟩ := e.drawStall_eq
  have known : (r.header e.params).fmtType.kind?.isSome := by
    rw [kind?_mmioHeader]
    rfl
  unfold startMmio
  split
  · exact .nothing rfl
  · simp only [drawn]
    cases stalled with
    | true =>
      rw [if_pos rfl]
      exact .nothing rfl
    | false =>
      simp only [Bool.false_eq_true, if_false, withHeader]
      cases fault : (r.header e.params).fault? with
      | some cause =>
        have store : { e with random := random }.blankFlit.storeHeader
            (r.header { e with random := random }.params) = .error cause :=
          (Flit.storeHeader_eq_error_iff ..).2 fault
        simp only [store]
        exact .refused r cause first fault rfl
      | none =>
        obtain ⟨flit, store, shown, width⟩ :=
          storeHeader_blankFlit { e with random := random } known fault
        have stored : { e with random := random }.blankFlit.storeHeader
            (r.header { e with random := random }.params) = .ok flit := store
        obtain ⟨f, e', effects, sent, beat, header⟩ := mmioBeat_spec
          { e with random := random, lastMmioCycle := some e.cycle } r
          (some (r.header e.params)) flit HeaderWords.count (r.byteSize / 4) width
        simp only [stored]
        change e.Sends (mmioBeat { e with random := random, lastMmioCycle := some e.cycle } r
          (some (r.header e.params)) flit HeaderWords.count (r.byteSize / 4))
        rw [sent]
        exact .startsMmio r between first ((header (Nat.le_refl _)).trans shown)
          ⟨beat.state, beat.ends, beat.goesOn⟩

theorem continueMmio_sends (e : Engine) (left : Nat) (inside : e.toDevice = .mmio left)
    (waiting : e.mmioQueue ≠ []) : e.Sends (e.continueMmio left) := by
  unfold continueMmio
  cases queue : e.mmioQueue with
  | nil => exact absurd queue waiting
  | cons r rest =>
    obtain ⟨f, e', effects, sent, beat, -⟩ := mmioBeat_spec e r none e.blankFlit 0 left rfl
    simp only [sent]
    exact .continuesMmio left inside beat

/-- What the next beat needs: the packet that was started is still there, and the completion at
the head has its data and a header that can be encoded. -/
structure Sendable (e : Engine) : Prop where
  completion : ∀ left, e.toDevice = .completion left →
    ∃ c, e.completions.front? = some c ∧ left ≤ c.dwordSize
  mmio : ∀ left, e.toDevice = .mmio left → e.mmioQueue ≠ []
  data : ∀ c, e.completions.front? = some c → c.startDword + c.dwordSize ≤ c.data.length
  header : ∀ c, e.completions.front? = some c →
    ∃ request, e.slots.request? c.slot = some request ∧ (c.header request).fault? = none

theorem Sends.after {e : Engine} {s : EngineStep (Option Flit)} (sends : e.Sends s)
    (effects : List Effect) : e.Sends (s.after effects) := by
  cases sends with
  | nothing state => exact .nothing state
  | refused r cause first fault state => exact .refused r cause first fault state
  | startsMmio r between first header beat => exact .startsMmio r between first header beat
  | continuesMmio left inside beat => exact .continuesMmio left inside beat
  | startsCompletion c request random between first stored header beat =>
    exact .startsCompletion c request random between first stored header beat
  | continuesCompletion c random left inside first beat =>
    exact .continuesCompletion c random left inside first beat

/-- A draw before a beat makes no difference. -/
theorem Sends.of_draw {e : Engine} {random : DrawSource} {s : EngineStep (Option Flit)}
    (sends : { e with random := random }.Sends s) : e.Sends s := by
  cases sends with
  | nothing state => exact .nothing state
  | refused r cause first fault state => exact .refused r cause first fault state
  | startsMmio r between first header beat =>
    exact .startsMmio r between first header ⟨beat.state, beat.ends, beat.goesOn⟩
  | continuesMmio left inside beat =>
    exact .continuesMmio left inside ⟨beat.state, beat.ends, beat.goesOn⟩
  | startsCompletion c request random between first stored header beat =>
    exact .startsCompletion c request random between first stored header beat
  | continuesCompletion c random left inside first beat =>
    exact .continuesCompletion c random left inside first beat

theorem startPacket_sends (e : Engine) (between : e.toDevice = .start) (ready : e.Sendable) :
    e.Sends e.startPacket := by
  have completes (random : DrawSource) (effects : List Effect) :
      e.Sends (EngineStep.andThen (.ok { e with random := random } none effects)
        elseCompletion) := by
    apply Sends.after
    unfold elseCompletion
    cases first : e.completions.front? with
    | none =>
      simp only [EngineStep.ok, first]
      exact .nothing rfl
    | some c =>
      obtain ⟨request, stored, fault⟩ := ready.header c first
      simp only [EngineStep.ok, first]
      exact .of_draw (startCompletion_sends { e with random := random } c request between first
        stored fault (ready.data c first))
  unfold startPacket
  cases queue : e.mmioQueue with
  | nil => exact completes e.random []
  | cons r rest =>
    have sends := e.startMmio_sends r between (by rw [queue]; rfl)
    simp only
    generalize e.startMmio r = s at sends ⊢
    cases sends with
    | @nothing e' effects state =>
      generalize e'.random = random at state
      subst state
      exact completes random effects
    | refused r cause first fault state => exact .refused r cause first fault state
    | startsMmio r between first header beat =>
      exact (Sends.startsMmio r between first header beat).after _
    | continuesMmio left inside beat => exact (Sends.continuesMmio left inside beat).after _
    | startsCompletion c request random between first stored header beat =>
      exact (Sends.startsCompletion c request random between first stored header beat).after _
    | continuesCompletion c random left inside first beat =>
      exact (Sends.continuesCompletion c random left inside first beat).after _

/-- What the next beat of a ready engine is. -/
theorem sendBeat_sends (e : Engine) (ready : e.Sendable) : e.Sends e.sendBeat := by
  unfold sendBeat
  cases toDevice : e.toDevice with
  | start => exact e.startPacket_sends toDevice ready
  | completion left =>
    obtain ⟨c, first, within⟩ := ready.completion left toDevice
    exact e.continueCompletion_sends c left toDevice first (ready.data c first) within
  | mmio left => exact e.continueMmio_sends left toDevice (ready.mmio left toDevice)

end Engine

end TlpBridge
