import Mathlib.Data.List.SplitBy
import TlpBridge.Proofs.Reads.SoundRuns
import TlpBridge.Proofs.ToDevice.StockedQueues

/-!
# The stream to the device

Unless there is a reset, the beats to the device are a sequence of packets, of which at most
the last one is unfinished, whatever the device, the host and host memory do meanwhile.
-/
namespace TlpBridge

theorem isChain_of_dropLast {α : Type} {R : α → α → Prop} {l : List α}
    (related : ∀ a ∈ l.dropLast, ∀ b ∈ l, R a b) : l.IsChain R := by
  induction l with
  | nil => exact .nil
  | cons a rest ih =>
    cases rest with
    | nil => exact .singleton a
    | cons b rest =>
      refine .cons_cons (related a List.mem_cons_self b (by simp)) (ih fun x inside y member => ?_)
      exact related x (List.mem_cons_of_mem _ inside) y (List.mem_cons_of_mem _ member)

/-- A beat that the device got, and the packet that the engine sent it of. -/
structure SentBeat where
  source : Option Source
  flit : Flit

/-- The packet of a beat: the one that the engine is in, or else the next one of the queue that the
header of the beat tells. -/
def Engine.sourceOf (e : Engine) (f : Flit) : Option Source :=
  match e.toDevice, f.header with
  | .mmio _, _ => e.mmioQueue.head?.map .mmio
  | .completion _, _ => e.completions.front?.map .completion
  | .start, .ok h =>
    if h.fmtType.isCompletion then e.completions.front?.map .completion
    else e.mmioQueue.head?.map .mmio
  | .start, .error _ => none

/-- The header is one of the packet, of a read without payload, or of a write or a completion of as
many bytes as the payload has. -/
structure Source.Announces (src : Source) (p : Parameters) (h : Header) : Prop where
  header : src.HasHeader p h
  kind : h.fmtType.kind? = some .memoryRead ∧ src.payload = [] ∨
    (h.fmtType.kind? = some .memoryWrite ∨ h.fmtType.kind? = some .completionData) ∧
      4 * src.payload.length = h.byteSize.toNat

/-- The beats of one packet from its first one on: all are sent of that packet, and each holds what
its place in the packet asks for. -/
structure BeatsOf (c : ValidParameters) (src : Source) (h : Header) (beats : List SentBeat) :
    Prop where
  announces : src.Announces c.params h
  beat : ∀ (j : Nat) (b : SentBeat), beats[j]? = some b →
    b.source = some src ∧ b.flit.IsBeat c.dwordWidth j h src.payload

/-- A packet, or a part of one from its start. -/
structure IsPacket (c : ValidParameters) (beats : List SentBeat) : Prop where
  nonempty : beats ≠ []
  goesOn : ∀ b ∈ beats.dropLast, b.flit.last = false
  /-- A read has one beat only. -/
  beats : ∃ src h, BeatsOf c src h beats ∧
    (h.fmtType.kind? = some .memoryRead → beats.length = 1)

/-- The packet is whole. -/
def Ended (beats : List SentBeat) : Prop := ∃ b, beats.getLast? = some b ∧ b.flit.last

/-- The beats are cut into packets, of which at most the last one is unfinished. -/
structure IsCut (c : ValidParameters) (beats : List SentBeat) (packets : List (List SentBeat)) :
    Prop where
  flat : packets.flatten = beats
  each : ∀ p ∈ packets, IsPacket c p
  ended : ∀ p ∈ packets.dropLast, Ended p

namespace Source

theorem announces_mmio {r : MmioRequest} (legal : r.Legal) (p : Parameters) :
    (Source.mmio r).Announces p (r.header p) := by
  have kind := Engine.kind?_mmioHeader r p
  have size : (r.header p).byteSize.toNat = r.byteSize := by
    have short := legal.short
    change (UInt32.ofNat (r.widthBits / 8)).toNat = r.widthBits / 8
    change r.widthBits ≤ 512 at short
    rw [UInt32.toNat_ofNat']
    omega
  refine ⟨rfl, ?_⟩
  have length := length_payload_mmio legal
  cases write : r.write with
  | false =>
    rw [write] at kind length
    exact .inl ⟨kind, List.eq_nil_of_length_eq_zero length⟩
  | true =>
    rw [write] at kind length
    refine .inr ⟨.inl kind, ?_⟩
    have aligned := legal.aligned
    rw [length, size, if_pos rfl]
    change 4 * (r.widthBits / 8 / 4) = r.widthBits / 8
    omega

theorem announces_completion {c : CompletionPacket} (filled : c.Filled) (p : Parameters)
    (request : Header) : (Source.completion c).Announces p (c.header request) := by
  refine ⟨⟨request, rfl⟩, .inr ⟨.inr ?_, ?_⟩⟩
  · change FmtType.completionData.kind? = some .completionData
    decide
  · have aligned := filled.encodable.aligned
    have short := filled.encodable.short
    rw [length_payload_completion filled]
    change 4 * ((c.byteSize + 3) / 4) = (UInt32.ofNat c.byteSize).toNat
    rw [UInt32.toNat_ofNat']
    omega

theorem announces_of_hasHeader {src : Source} (legal : src.Legal) {p : Parameters} {h : Header}
    (header : src.HasHeader p h) : src.Announces p h := by
  cases src with
  | mmio r =>
    rw [show h = r.header p from header]
    exact announces_mmio legal p
  | completion c =>
    obtain ⟨request, rfl⟩ := header
    exact announces_completion legal p request

theorem sourceOf_first {src : Source} {e : Engine} (between : e.toDevice = .start)
    (first : src.IsFirst e) {p : Parameters} {h : Header} (header : src.HasHeader p h) {f : Flit}
    (shown : f.header = .ok h) : e.sourceOf f = some src := by
  unfold Engine.sourceOf
  simp only [between, shown]
  cases src with
  | mmio r =>
    rw [show h = r.header p from header, Engine.isCompletion_mmioHeader,
      if_neg Bool.false_ne_true, show e.mmioQueue.head? = some r from first]
    rfl
  | completion c =>
    obtain ⟨request, rfl⟩ := header
    rw [if_pos (c.isCompletion_header request), show e.completions.front? = some c from first]
    rfl

theorem eq_of_inside {src src' : Source} {e : Engine} {left left' : Nat}
    (same : src.inside left = src'.inside left') (first : src.IsFirst e)
    (first' : src'.IsFirst e) : src = src' ∧ left = left' := by
  cases src with
  | mmio r =>
    cases src' with
    | mmio r' =>
      exact ⟨congrArg Source.mmio (Option.some.inj (first.symm.trans first')),
        ToDeviceState.mmio.inj same⟩
    | completion c' => cases same
  | completion c =>
    cases src' with
    | mmio r' => cases same
    | completion c' =>
      exact ⟨congrArg Source.completion (Option.some.inj (first.symm.trans first')),
        ToDeviceState.completion.inj same⟩

theorem sourceOf_inside {src : Source} {e : Engine} {left : Nat}
    (inside : e.toDevice = src.inside left) (first : src.IsFirst e) (f : Flit) :
    e.sourceOf f = some src := by
  unfold Engine.sourceOf
  rw [inside]
  cases src with
  | mmio r => exact congrArg (Option.map Source.mmio) first
  | completion c => exact congrArg (Option.map Source.completion) first

end Source

theorem BeatsOf.nil {c : ValidParameters} {src : Source} {h : Header}
    (announces : src.Announces c.params h) : BeatsOf c src h [] where
  announces := announces
  beat j b found := by simp at found

theorem BeatsOf.snoc {c : ValidParameters} {src : Source} {h : Header} {beats : List SentBeat}
    {b : SentBeat} (before : BeatsOf c src h beats) (source : b.source = some src)
    (beat : b.flit.IsBeat c.dwordWidth beats.length h src.payload) :
    BeatsOf c src h (beats ++ [b]) := by
  refine ⟨before.announces, fun j x found => ?_⟩
  rcases Nat.lt_trichotomy j beats.length with earlier | rfl | later
  · rw [List.getElem?_append_left earlier] at found
    exact before.beat j x found
  · rw [List.getElem?_concat_length] at found
    rw [← Option.some.inj found]
    exact ⟨source, beat⟩
  · rw [List.getElem?_eq_none (by rw [List.length_append]; exact later)] at found
    cases found

theorem BeatsOf.length_eq_one {c : ValidParameters} {src : Source} {h : Header}
    {beats : List SentBeat} (beatsOf : BeatsOf c src h beats) (nonempty : beats ≠ [])
    (goesOn : ∀ b ∈ beats.dropLast, b.flit.last = false)
    (read : h.fmtType.kind? = some .memoryRead) : beats.length = 1 := by
  have empty : src.payload = [] := by
    rcases beatsOf.announces.kind with ⟨-, empty⟩ | ⟨write | completion, -⟩
    · exact empty
    · rw [read] at write
      cases write
    · rw [read] at completion
      cases completion
  obtain ⟨b, rest, rfl⟩ := List.exists_cons_of_ne_nil nonempty
  cases rest with
  | nil => rfl
  | cons b' rest =>
    have wide : HeaderWords.count ≤ c.dwordWidth := c.wide_dwordWidth
    have last := (beatsOf.beat 0 b rfl).2.last
    rw [goesOn b List.mem_cons_self, empty, decide_eq_true (by simpa using wide)] at last
    cases last

theorem BeatsOf.isPacket {c : ValidParameters} {src : Source} {h : Header} {beats : List SentBeat}
    (beatsOf : BeatsOf c src h beats) (nonempty : beats ≠ [])
    (goesOn : ∀ b ∈ beats.dropLast, b.flit.last = false) : IsPacket c beats :=
  ⟨nonempty, goesOn, src, h, beatsOf, beatsOf.length_eq_one nonempty goesOn⟩

theorem IsCut.eq_splitBy {c : ValidParameters} {beats : List SentBeat}
    {packets : List (List SentBeat)} (cut : IsCut c beats packets) :
    beats.splitBy (fun b _ => !b.flit.last) = packets := by
  rw [List.splitBy_eq_iff]
  refine ⟨cut.flat.symm, fun empty => (cut.each [] empty).nonempty rfl, fun p member => ?_, ?_⟩
  · apply isChain_of_dropLast
    intro b inside _ _
    rw [(cut.each p member).goesOn b inside]
    rfl
  · apply isChain_of_dropLast
    intro p inside p' member
    obtain ⟨b, ends, last⟩ := cut.ended p inside
    obtain ⟨before, rfl⟩ := List.getLast?_eq_some_iff.1 ends
    refine ⟨by simp, (cut.each p' member).nonempty, ?_⟩
    rw [List.getLast_concat, last]
    rfl

end TlpBridge
