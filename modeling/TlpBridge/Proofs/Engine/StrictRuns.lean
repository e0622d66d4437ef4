import TlpBridge.Proofs.Engine.StrictBeats

/-!
# No input breaks the engine

Host memory may answer with any tag, status and length: an answer is only counted off while one is
awaited, only a stored request that passed the checks of the device is cut into completions, and
no beat takes more of a packet than is left of it. So in every state that a run with resets
reaches, each strict call gives what the call gives.
-/
namespace TlpBridge.Strict

open Engine

/-! ## Byte counts -/

/-- A length and enables that no legal read has: the gaps are wider than the DWORD. -/
example : byteCount? 1 8 1 = none := by decide

theorem byteCount?_eq_of_fits {n : Nat} {first last : UInt8}
    (fits : ByteEnable.isEmpty first = false →
      let ending := if ByteEnable.isEmpty last then first else last
      ¬ ByteEnable.isEmpty last ∨ n = 1 →
        ByteEnable.leadingGap first + ByteEnable.trailingGap ending ≤ 4 * n) :
    byteCount? n first last = some (ByteEnable.byteCount? n first last) := by
  unfold byteCount?
  by_cases front : n ≠ 0 ∧ ¬ ByteEnable.isEmpty first
  · rw [if_pos front]
    have gaps := fits (by simpa using front.2)
    simp only at gaps ⊢
    by_cases counts : ¬ ByteEnable.isEmpty last ∨ n = 1
    · have both := gaps counts
      rw [if_pos counts, guard_eq (show ByteEnable.leadingGap first ≤ 4 * n by omega),
        guard_eq (Nat.le_sub_of_add_le' both)]
      rfl
    · rw [if_neg counts]
  · rw [if_neg front]

/-- The gaps of a request that counts at least a byte fit into it. -/
theorem byteCount?_eq {n count : Nat} {first last : UInt8}
    (counted : ByteEnable.byteCount? n first last = some count) (positive : 0 < count) :
    byteCount? n first last = some (some count) := by
  rw [← counted]
  apply byteCount?_eq_of_fits
  intro front ending counts
  unfold ByteEnable.byteCount? at counted
  cases back : ByteEnable.isEmpty last with
  | true =>
    have one : n = 1 := by simpa [back] using counts
    have gaps := ByteEnable.leadingGap_add_trailingGap_le front
    simp only [ending, back, if_true]
    omega
  | false =>
    simp only [ending, back, Bool.false_eq_true, if_false]
    by_cases zero : n = 0
    · simp [zero] at counted
    · simp only [zero, front, back, Bool.false_eq_true, if_false, Option.some.injEq] at counted
      omega

/-- So do the gaps of each part that is completed by itself. -/
theorem byteCount?_part (start : Nat) {n count k : Nat} {first last : UInt8}
    (counted : ByteEnable.byteCount? n first last = some count) (positive : 0 < count)
    (some_ : 0 < k) (within : start + k ≤ n) :
    byteCount? k (if start == 0 then first else 0xf) (if k == n - start then last else 0xf) =
      some (ByteEnable.byteCount? k (if start == 0 then first else 0xf)
        (if k == n - start then last else 0xf)) := by
  have full : ByteEnable.isEmpty 0xf = false ∧ ByteEnable.leadingGap 0xf = 0 ∧
      ByteEnable.trailingGap 0xf = 0 := by decide
  by_cases whole : start = 0 ∧ k = n
  · obtain ⟨rfl, rfl⟩ := whole
    simp only [beq_self_eq_true, if_true, Nat.sub_zero, counted]
    exact byteCount?_eq counted positive
  · obtain ⟨-, back, -⟩ := ByteEnable.enabled_of_byteCount? (by omega) counted
    have leading := ByteEnable.leadingGap_le first
    have trailing := ByteEnable.trailingGap_le back
    have ends : ByteEnable.isEmpty (if k == n - start then last else 0xf) = false := by
      split
      · exact back
      · exact full.1
    -- a part that is not the whole leaves a gap at one end at most
    have gaps : ByteEnable.leadingGap (if start == 0 then first else 0xf) +
        ByteEnable.trailingGap (if k == n - start then last else 0xf) ≤ 3 := by
      by_cases begins : start = 0
      · have more : (k == n - start) = false := beq_eq_false_iff_ne.2 (by omega)
        rw [more, if_neg Bool.false_ne_true, full.2.2, beq_iff_eq.2 begins, if_pos rfl]
        exact leading
      · rw [beq_eq_false_iff_ne.2 begins, if_neg Bool.false_ne_true, full.2.1, Nat.zero_add]
        split
        · exact trailing
        · exact full.2.2 ▸ Nat.zero_le 3
    apply byteCount?_eq_of_fits
    intro _ ending _
    have same : ending = if k == n - start then last else 0xf :=
      if_neg (by rw [ends]; exact Bool.false_ne_true)
    rw [same]
    omega

/-! ## Answers of host memory -/

theorem andThen_eq {α β : Type} {s : EngineStep α} {f : α → Engine → EngineStep β}
    {g : α → Engine → Option (EngineStep β)}
    (same : ∀ a, s.answer = .ok a → g a s.state = some (f a s.state)) :
    andThen s g = some (s.andThen f) := by
  unfold andThen EngineStep.andThen
  cases answer : s.answer with
  | error fault => rfl
  | ok a =>
    simp only [same a answer]
    rfl

theorem collectWrites_eq (n : Nat) (e : Engine) (few : n ≤ e.pendingWrites) :
    collectWrites n e = some (Engine.collectWrites n e) := by
  induction n generalizing e with
  | zero => rfl
  | succ n ih =>
    unfold collectWrites Engine.collectWrites
    have one : 1 ≤ e.pendingWrites := by omega
    rcases e.link.receiveWrite with ⟨_ | _ | _, link⟩
    · simp only [guard_eq one, Option.bind_eq_bind, Option.bind_some]
      split
      · exact ih _ (Nat.le_sub_one_of_lt few)
      · rfl
    · rfl
    · rfl

theorem packetLength_eq (e : Engine) (left : Nat) :
    packetLength e left = some (e.packetLength left) := by
  have boundary : e.params.completionBoundary ≠ 0 := by
    have four : 4 ≤ e.params.completionBoundary := e.config.legal.boundary
    omega
  have chunks : max 1 (e.params.maxReadBytes / e.params.completionBoundary) ≠ 0 := by omega
  unfold packetLength
  rw [guard_eq boundary, guard_eq chunks]
  rfl

/-- Cutting the data of a read comes to its end: each turn takes at least one of the DWORDs that are
left, and no more than these. -/
theorem queuePackets_eq {h : Header} {r : RequestBody} (completable : h.Completable r) (slot : Nat)
    (data : List UInt32) (fuel start byteCount : Nat) (e : Engine)
    (enough : h.dwordSize - start ≤ fuel) :
    queuePackets slot h r data fuel start byteCount e =
      some (Engine.queuePackets slot h r data fuel start byteCount e) := by
  induction fuel generalizing start byteCount e with
  | zero =>
    unfold queuePackets Engine.queuePackets
    rw [guard_eq (Nat.le_zero.1 enough)]
    rfl
  | succ fuel ih =>
    unfold queuePackets Engine.queuePackets
    by_cases done : h.dwordSize - start = 0
    · simp only [done, if_true]
    · obtain ⟨some_, most⟩ := e.packetLength_range (Nat.pos_of_ne_zero done)
      obtain ⟨count, counted, positive⟩ := completable.counted
      have part := byteCount?_part start counted positive some_ (by omega)
      simp only [done, if_false, packetLength_eq, Option.bind_eq_bind, Option.bind_some]
      simp only [part, guard_eq most, Option.bind_some]
      exact ih _ _ _ (by omega)

theorem queueRead_eq (e : Engine) (slot : Nat) {h : Header} (data : List UInt8)
    (known : ∃ r, h.Completable r) : queueRead e slot h data = some (e.queueRead slot h data) := by
  obtain ⟨r, completable⟩ := known
  have body : h.request?.getD {} = r := by rw [Header.request?, completable.body]; rfl
  obtain ⟨count, counted, positive⟩ := completable.counted
  have cut := queuePackets_eq completable slot (paddedDwords h.dwordSize data) h.dwordSize 0 count
    e (Nat.le_refl _)
  unfold queueRead Engine.queueRead
  simp only [body, byteCount?_eq counted positive, counted, cut, Option.bind_eq_bind,
    Option.bind_some]
  generalize (if h.isFence r then 0 else h.byteSize.toNat) = expected
  split
  · rfl
  · rfl

theorem release_eq {s : SlotPool} {slot : Nat} (inside : slot < s.states.size) :
    release s slot = some (s.release slot) := by
  unfold release
  rw [guard_eq inside]
  rfl

theorem receiveRead_eq {e : Engine} (stocked : e.Stocked) (a : ReadResponse) :
    receiveRead e a = some (e.receiveRead a) := by
  unfold receiveRead Engine.receiveRead
  simp only
  cases request : (e.slots.states[a.tag.toNat]?).bind
      fun s => if s.busy then s.request else none with
  | none => rfl
  | some h =>
    obtain ⟨st, found, busy⟩ := Option.bind_eq_some_iff.1 request
    have stored : e.slots.request? a.tag.toNat = some h :=
      Option.bind_eq_some_iff.2 ⟨st, found, (Option.ite_none_right_eq_some.1 busy).2⟩
    have inside := (Array.getElem?_eq_some_iff.1 found).1
    simp only [queueRead_eq e _ a.data (stocked.requests _ h stored), release_eq inside,
      Option.bind_eq_bind, Option.bind_some]
    split
    · rfl
    · rfl

theorem collectReads_eq (n : Nat) (e : Engine) (stocked : e.Stocked) (few : n ≤ e.pendingReads) :
    collectReads n e = some (Engine.collectReads n e) := by
  induction n generalizing e with
  | zero => rfl
  | succ n ih =>
    unfold collectReads Engine.collectReads MemoryLink.receiveRead
    have one : 1 ≤ e.pendingReads := by omega
    cases e.link.readResponses with
    | nil =>
      cases e.link.serviceAttached with
      | true => rfl
      | false => rfl
    | cons a rest =>
      let e' := e.withoutAnswer rest
      have stocked' : e'.Stocked := ⟨stocked.mmio, stocked.completions, stocked.requests⟩
      have received := receiveRead_eq stocked' a
      have pending : (e'.receiveRead a).state.pendingReads = e.pendingReads - 1 :=
        (e'.frees_receiveRead a).pendingReads
      simp only [MemoryLink.receive, guard_eq one, Option.bind_eq_bind, Option.bind_some]
      change (receiveRead e' a).bind _ = some ((e'.receiveRead a).andThen _)
      rw [received, Option.bind_some]
      apply andThen_eq
      intro _ _
      exact ih _ ((e'.undisturbed_receiveRead a).stocked stocked') (by omega)

/-! ## Beats to the device -/

section Send

variable {e : Engine}

theorem store_eq (f : Flit) (start n : Nat) : store f start n = some () := by
  unfold store
  rw [bits_eq, bits_eq]
  rfl

theorem completionBeat_eq {c : CompletionPacket} (header : Option Header) (f : Flit)
    {start left : Nat} (inside : start ≤ e.config.dwordWidth) (within : left ≤ c.dwordSize) :
    completionBeat e c header f start left = some (e.completionBeat c header f start left) := by
  have part : min left (e.config.dwordWidth - start) ≤ left := Nat.min_le_left ..
  unfold completionBeat
  simp only [guard_eq inside, guard_eq within, store_eq, guard_eq part, Option.bind_eq_bind,
    Option.bind_some]

theorem mmioBeat_eq {r : MmioRequest} (header : Option Header) (f : Flit) {start left : Nat}
    (inside : start ≤ e.config.dwordWidth) (within : left ≤ r.byteSize / 4) :
    mmioBeat e r header f start left = some (e.mmioBeat r header f start left) := by
  have part : min left (e.config.dwordWidth - start) ≤ left := Nat.min_le_left ..
  unfold mmioBeat
  simp only [guard_eq inside, guard_eq within, store_eq, guard_eq part, Option.bind_eq_bind,
    Option.bind_some]
  split
  · rfl
  · rfl

theorem withHeader_eq {h : Header} {send : Flit → EngineStep (Option Flit)}
    {strict : Flit → Option (EngineStep (Option Flit))}
    (same : ∀ f, strict f = some (send f)) :
    withHeader e h strict = some (e.withHeader h send) := by
  unfold withHeader Engine.withHeader
  cases e.blankFlit.storeHeader h with
  | error cause => rfl
  | ok f => simp only [bits_eq, store_eq, same, Option.bind_eq_bind, Option.bind_some]

theorem startCompletion_eq (e : Engine) (c : CompletionPacket) :
    startCompletion e c = some (e.startCompletion c) := by
  obtain ⟨stalled, random, drawn⟩ := e.drawStall_eq
  unfold startCompletion Engine.startCompletion
  simp only [drawn]
  split
  · rfl
  · cases found : e.slots.states[c.slot]? with
    | none => rfl
    | some slot =>
      have inside := (Array.getElem?_eq_some_iff.1 found).1
      simp only [Option.getD_some]
      cases slot.request with
      | none => rfl
      | some request =>
        simp only
        split
        · rfl
        · have sent (e : Engine) : withHeader e (c.header request) (fun flit =>
              completionBeat e c (some (c.header request)) flit HeaderWords.count c.dwordSize) =
              some (e.withHeader (c.header request) fun flit =>
                e.completionBeat c (some (c.header request)) flit HeaderWords.count c.dwordSize) :=
            withHeader_eq fun f =>
              completionBeat_eq _ f e.config.wide_dwordWidth (Nat.le_refl _)
          cases c.isLast with
          | true =>
            simp only [if_true, release_eq inside, Option.bind_eq_bind, Option.bind_some]
            exact sent _
          | false =>
            simp only [Bool.false_eq_true, if_false, Option.bind_eq_bind, Option.bind_some]
            exact sent _

theorem continueCompletion_eq {left : Nat} (within : ∀ c, e.completions.front? = some c →
    left ≤ c.dwordSize) : continueCompletion e left = some (e.continueCompletion left) := by
  obtain ⟨stalled, random, drawn⟩ := e.drawStall_eq
  unfold continueCompletion Engine.continueCompletion
  simp only [drawn]
  split
  · rfl
  · cases first : e.completions.front? with
    | none => rfl
    | some c =>
      exact completionBeat_eq none e.blankFlit (Nat.zero_le _) (within c first)

theorem startMmio_eq (e : Engine) (r : MmioRequest) :
    startMmio e r = some (e.startMmio r) := by
  obtain ⟨stalled, random, drawn⟩ := e.drawStall_eq
  unfold startMmio Engine.startMmio
  simp only [drawn]
  split
  · rfl
  · split
    · rfl
    · exact withHeader_eq fun f => mmioBeat_eq _ f e.config.wide_dwordWidth (Nat.le_refl _)

theorem continueMmio_eq {left : Nat} (within : ∀ r, e.mmioQueue.head? = some r →
    left ≤ r.byteSize / 4) : continueMmio e left = some (e.continueMmio left) := by
  unfold continueMmio Engine.continueMmio
  cases queue : e.mmioQueue with
  | nil => rfl
  | cons r rest =>
    exact mmioBeat_eq none e.blankFlit (Nat.zero_le _) (within r (by rw [queue]; rfl))

theorem startPacket_eq (e : Engine) : startPacket e = some e.startPacket := by
  have completes (f : Option Flit) (e : Engine) :
      elseCompletion f e = some (Engine.elseCompletion f e) := by
    unfold elseCompletion Engine.elseCompletion
    cases f with
    | some f => rfl
    | none =>
      cases e.completions.front? with
      | none => rfl
      | some c => exact startCompletion_eq e c
  unfold startPacket Engine.startPacket
  cases e.mmioQueue with
  | nil =>
    simp only [Option.bind_eq_bind, Option.bind_some]
    exact andThen_eq fun f _ => completes f _
  | cons r rest =>
    simp only [startMmio_eq, Option.bind_eq_bind, Option.bind_some]
    exact andThen_eq fun f _ => completes f _

/-- What is left of the packet that the engine is in is no more than the packet has. -/
theorem sendBeat_eq (place : e.toDevice = .start ∨ e.InPacket) :
    sendBeat e = some e.sendBeat := by
  unfold sendBeat Engine.sendBeat
  rcases place with between | ⟨src, left, inside, first, -, within⟩
  · rw [between]
    exact startPacket_eq e
  · rw [inside]
    cases src with
    | mmio r =>
      apply continueMmio_eq
      intro r' head
      obtain rfl : r = r' := Option.some.inj (first.symm.trans head)
      refine within.trans ?_
      unfold Source.payload
      simp only
      split
      · exact List.length_take_le ..
      · exact Nat.zero_le _
    | completion c =>
      apply continueCompletion_eq
      intro c' head
      obtain rfl : c = c' := Option.some.inj (first.symm.trans head)
      exact within.trans (List.length_take_le ..)

end Send

/-- No cycle breaks an orderly engine, whatever host memory has answered. -/
theorem emit_eq {e : Engine} (orderly : e.Orderly) (cycle : Nat) (ready : Bool) :
    emit e cycle ready = some (e.emit cycle ready) := by
  have tick : Undisturbed e { e with cycle := cycle } := .of_same ⟨rfl, rfl, rfl, rfl, fun _ => rfl⟩
  unfold emit Engine.emit
  by_cases halted : e.halted
  · rw [if_pos halted, if_pos halted]
  · rw [if_neg halted, if_neg halted]
    simp only [collectWrites_eq _ { e with cycle := cycle } (Nat.le_refl _), Option.bind_eq_bind,
      Option.bind_some]
    apply andThen_eq
    intro _ _
    have written := tick.trans
      (undisturbed_collectWrites e.pendingWrites { e with cycle := cycle })
    generalize (Engine.collectWrites e.pendingWrites { e with cycle := cycle }).state = e₁
      at written ⊢
    rw [collectReads_eq _ e₁ (written.stocked orderly.stocked) (Nat.le_refl _), Option.bind_some]
    apply andThen_eq
    intro _ _
    have read := written.trans (undisturbed_collectReads e₁.pendingReads e₁)
    cases ready with
    | false => rfl
    | true => exact sendBeat_eq (read.place orderly.place)

end TlpBridge.Strict
