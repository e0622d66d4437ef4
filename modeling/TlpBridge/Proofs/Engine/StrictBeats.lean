import TlpBridge.Proofs.Stream.FlitDwords
import TlpBridge.Proofs.Engine.OrderlyRuns
import TlpBridge.Proofs.Engine.StrictCalls

/-!
# Beats of the device do not break the engine

A flit of any width is only read as far as its bytes reach, and a slot is only looked up if it
exists. So the strict calls for the beats of the device and for the requests of the host give what
the calls give.
-/
namespace TlpBridge

/-! ## The bytes of a flit -/

namespace Flit

theorem takeDwords_drop (f : Flit) {start n : Nat}
    (reaches : 4 * (start + n) ≤ f.data.bytes.length) :
    ∃ rest, takeDwords n (f.data.bytes.drop (4 * start)) = .ok (f.dwordsAt start n, rest) :=
  ⟨_, f.data.takeDwords_drop_bytes reaches⟩

/-- The bytes of a flit hold its whole DWORDs. -/
theorem dwordWidth_le (f : Flit) : 4 * f.dwordWidth ≤ f.data.bytes.length := by
  rw [Lane.length_bytes]
  change 4 * (f.data.width / 32) ≤ (f.data.width + 7) / 8
  omega

end Flit

namespace Strict

theorem guard_eq {p : Prop} [Decidable p] (h : p) : (guard p : Option Unit) = some () :=
  if_pos h

/-- Every bit below the width is in a byte of the lane. -/
theorem bits_eq (l : Lane) (lsb n : Nat) : bits l lsb n = some () := by
  apply guard_eq
  intro k _ inside
  rw [Lane.length_bytes]
  change _ < (l.width + 7) / 8
  omega

theorem header_eq (f : Flit) : header f = some f.header := by
  unfold header
  cases parsed : HeaderWords.ofBytes f.data.bytes with
  | error rest => rfl
  | ok found =>
    obtain ⟨w, rest⟩ := found
    have long : 3 < f.data.bytes.length := by
      rw [HeaderWords.length_of_ofBytes parsed]
      exact Nat.lt_of_lt_of_le (by decide) (Nat.le_add_left ..)
    simp only [guard_eq long, bits_eq, ite_self]
    rfl

theorem dwordsAt_eq (f : Flit) {start n : Nat}
    (reaches : 4 * (start + n) ≤ f.data.bytes.length) :
    dwordsAt f start n = some (.ok (f.dwordsAt start n)) := by
  obtain ⟨rest, taken⟩ := f.takeDwords_drop reaches
  have inside : 4 * start ≤ f.data.bytes.length := by omega
  unfold dwordsAt
  rw [guard_eq inside, taken]
  rfl

/-- The payload of a beat is parsed from bytes that are there if its first DWORD is not beyond
them. -/
theorem extend_eq (p : OpenPacket) {f : Flit} {start : Nat} (total : Nat) (kind : DevicePacket)
    (inside : 4 * start ≤ f.data.bytes.length) :
    extend p f start total kind = some (p.extend f start total kind) := by
  have width := f.dwordWidth_le
  unfold extend OpenPacket.extend
  simp only
  split
  · split
    · rfl
    · rw [dwordsAt_eq f (by omega)]
      rfl
  · split
    · rw [dwordsAt_eq f (by omega)]
      rfl
    · rfl

/-! ## Beats of the device -/

section Accept

variable {e : Engine} {f : Flit}

theorem acceptCompletionBeat_eq {p : OpenPacket} {start : Nat}
    (inside : 4 * start ≤ f.data.bytes.length) (slot : p.header.tag.toNat < e.mmioReads.size) :
    acceptCompletionBeat e p f start = some (e.acceptCompletionBeat p f start) := by
  unfold acceptCompletionBeat Engine.acceptCompletionBeat
  rw [extend_eq p _ _ inside]
  cases extended : p.extend f start (p.header.byteSize.toNat / 4) .mmioCompletion with
  | error v => rfl
  | ok p' =>
    have same : p'.header.tag.toNat < e.mmioReads.size := by
      rw [OpenPacket.header_extend extended]
      exact slot
    by_cases last : f.last
    · simp only [last, if_true, Option.bind_eq_bind, Option.bind_some, completeMmioRead,
        guard_eq same]
    · simp [last]

theorem acceptCompletion_eq (slots : e.mmioReads.size = e.params.maxMmioReads) (h : Header)
    (c : CompletionBody) (inside : 4 * HeaderWords.count ≤ f.data.bytes.length) :
    acceptCompletion e h c f = some (e.acceptCompletion h c f) := by
  have looked : completionFault? e h c = some (e.completionFault? h c) := by
    unfold completionFault?
    by_cases inRange : h.tag.toNat < e.params.maxMmioReads
    · rw [if_pos inRange, guard_eq (slots ▸ inRange)]
      rfl
    · rw [if_neg inRange]
  unfold acceptCompletion Engine.acceptCompletion
  split
  · rfl
  · rw [looked]
    cases kept : e.completionFault? h c with
    | some v => rfl
    | none =>
      have slot : h.tag.toNat < e.mmioReads.size := by
        rw [slots]
        by_contra outside
        unfold Engine.completionFault? at kept
        rw [if_pos (Nat.le_of_not_lt outside)] at kept
        cases kept
      exact acceptCompletionBeat_eq inside slot

theorem acceptWriteBeat_eq (p : OpenPacket) {start : Nat}
    (inside : 4 * start ≤ f.data.bytes.length) :
    acceptWriteBeat e p f start = some (e.acceptWriteBeat p f start) := by
  unfold acceptWriteBeat Engine.acceptWriteBeat
  rw [extend_eq p _ _ inside]
  cases p.extend f start p.header.dwordSize .dmaWrite with
  | error v => rfl
  | ok p' =>
    simp only [Option.bind_eq_bind, Option.bind_some]
    split
    · rfl
    · rfl

theorem acceptWrite_eq (h : Header) (r : RequestBody)
    (inside : 4 * HeaderWords.count ≤ f.data.bytes.length) :
    acceptWrite e h r f = some (e.acceptWrite h r f) := by
  unfold acceptWrite Engine.acceptWrite
  cases e.params.writeFault? h r with
  | some v => rfl
  | none => exact acceptWriteBeat_eq _ inside

theorem chooseSlot_eq {s : SlotPool} {tag : Nat} (free : s.FreeExist)
    (inside : tag < s.states.size) : chooseSlot s tag = some (Engine.chooseSlot s tag) := by
  unfold chooseSlot
  by_cases mapped : s.mapped
  · rw [if_pos mapped]
    cases top : s.free with
    | nil => rfl
    | cons slot rest =>
      simp only [guard_eq (free slot (by rw [top]; exact List.mem_cons_self))]
      rfl
  · rw [if_neg mapped, guard_eq inside]
    rfl

theorem acceptRead_eq (states : e.slots.states.size = e.params.maxDmaReads)
    (free : e.slots.FreeExist) (h : Header) (r : RequestBody) :
    acceptRead e h r f = some (e.acceptRead h r f) := by
  unfold acceptRead Engine.acceptRead
  cases e.params.readExtentFault? f.last h r with
  | some v => rfl
  | none =>
    cases rules : e.params.readFault? { h with body := .request (h.effectiveRequest r) }
        (h.effectiveRequest r) with
    | some v => simp only [rules]
    | none =>
      -- the tag of a read that breaks no rule is that of a slot, with a mapper and without one
      have tag : h.tag.toNat < e.slots.states.size := by
        rw [states]
        exact (Parameters.rules_of_legal rules).2.2.2.2
      simp only [rules, chooseSlot_eq free tag, Option.bind_eq_bind, Option.bind_some]
      cases chosen : Engine.chooseSlot e.slots h.tag.toNat with
      | error v => rfl
      | ok choice =>
        obtain ⟨slot, slots⟩ := choice
        obtain ⟨-, inside, same, -⟩ := Engine.chooseSlot_spec free tag chosen
        have there : slot < slots.states.size := same ▸ inside
        simp only [submitRead, bits_eq, guard_eq there, Option.bind_eq_bind, Option.bind_some]

theorem dispatch_eq (mmioReads : e.mmioReads.size = e.params.maxMmioReads)
    (states : e.slots.states.size = e.params.maxDmaReads) (free : e.slots.FreeExist) (h : Header)
    (inside : 4 * HeaderWords.count ≤ f.data.bytes.length) :
    dispatch e h f = some (e.dispatch h f) := by
  unfold dispatch Engine.dispatch
  cases h.body with
  | interrupt vector => rfl
  | completion c => exact acceptCompletion_eq mmioReads h c inside
  | other => rfl
  | request r =>
    simp only
    split
    · exact acceptWrite_eq h r inside
    · exact acceptRead_eq states free h r

theorem acceptStart_eq (mmioReads : e.mmioReads.size = e.params.maxMmioReads)
    (states : e.slots.states.size = e.params.maxDmaReads) (free : e.slots.FreeExist) :
    acceptStart e f = some (e.acceptStart f) := by
  unfold acceptStart Engine.acceptStart
  rw [header_eq]
  cases shown : f.header with
  | error cause => rfl
  | ok h =>
    have inside := Flit.count_le_of_header shown
    simp only [Option.bind_eq_bind, Option.bind_some, dispatch_eq mmioReads states free h inside,
      Option.map_some]

/-- No beat of the device breaks an orderly engine. -/
theorem accept_eq (orderly : e.Orderly) (cycle : Nat) (f : Flit) :
    accept e cycle f = some (e.accept cycle f) := by
  unfold accept Engine.accept
  split
  · rfl
  · have start : 4 * 0 ≤ f.data.bytes.length := Nat.zero_le _
    cases fromDevice : e.fromDevice with
    | start =>
      exact acceptStart_eq (e := e.idleAt cycle) orderly.mmioReads orderly.states orderly.free
    | completion p =>
      have slot : p.header.tag.toNat < (e.idleAt cycle).mmioReads.size :=
        orderly.mmioReads.symm ▸ orderly.answering p fromDevice
      exact congrArg (Option.map _) (acceptCompletionBeat_eq (e := e.idleAt cycle) start slot)
    | write p =>
      exact congrArg (Option.map _) (acceptWriteBeat_eq (e := e.idleAt cycle) p start)

end Accept

/-! ## Requests of the host -/

end Strict

end TlpBridge
