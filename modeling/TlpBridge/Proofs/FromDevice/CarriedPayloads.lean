import TlpBridge.Proofs.ToDevice.PacketBeats
import TlpBridge.Stream.Packet

/-!
# Payloads in beats

The beats into which a packet is packed hold its header in front and its payload behind it without
gaps, and only the one in which the payload ends is marked as the last.
-/
namespace TlpBridge

theorem Flit.dwordWidth_setDwords (f : Flit) (start : Nat) (vs : List UInt32) :
    (f.setDwords start vs).dwordWidth = f.dwordWidth :=
  congrArg (· / 32) (f.width_data_setDwords start vs)

namespace Packet

/-- Beats of `w` DWORDs that carry a payload, the first of them from DWORD `start` on. Only the beat
in which the payload ends is marked as the last. -/
inductive Carries (w : Nat) : (start : Nat) → (payload : List UInt32) → List Flit → Prop where
  | final {f : Flit} {start : Nat} {payload : List UInt32} (width : f.dwordWidth = w)
    (fits : payload.length ≤ w - start) (dwords : f.dwordsAt start payload.length = payload)
    (last : f.last = true) : Carries w start payload [f]
  | more {f : Flit} {start : Nat} {payload : List UInt32} {beats : List Flit}
    (width : f.dwordWidth = w) (long : w - start < payload.length)
    (dwords : f.dwordsAt start (w - start) = payload.take (w - start)) (goesOn : f.last = false)
    (rest : Carries w 0 (payload.drop (w - start)) beats) : Carries w start payload (f :: beats)

variable {blank : Flit} {w : Nat}

theorem Carries.ne_nil {start : Nat} {payload : List UInt32} {beats : List Flit}
    (carries : Carries w start payload beats) : beats ≠ [] := by
  cases carries <;> exact List.cons_ne_nil _ _

theorem payloadBeats_nil (blank : Flit) : payloadBeats blank [] = [] := by
  rw [payloadBeats, if_neg (fun h => h.2 rfl)]

theorem payloadBeats_of_ne_nil {payload : List UInt32} (wide : 0 < blank.dwordWidth)
    (some_ : payload ≠ []) : payloadBeats blank payload =
      blank.setDwords 0 (payload.take blank.dwordWidth) ::
        payloadBeats blank (payload.drop blank.dwordWidth) := by
  rw [payloadBeats, if_pos ⟨wide, some_⟩]

/-- A beat that takes what it has room for, before those that carry the rest. -/
theorem carries_cons (width : blank.dwordWidth = w) (wide : 0 < w) {f : Flit} {start : Nat}
    (same : f.dwordWidth = w) (unmarked : f.last = false) (inside : start ≤ w)
    (payload : List UInt32) (rest : w - start < payload.length → Carries w 0
      (payload.drop (w - start)) (markLast (payloadBeats blank (payload.drop (w - start))))) :
    Carries w start payload (markLast (f.setDwords start (payload.take (w - start)) ::
      payloadBeats blank (payload.drop (w - start)))) := by
  have count : (payload.take (w - start)).length = min (w - start) payload.length :=
    List.length_take
  have lane : f.data.width / 32 = w := same
  have found := f.dwordsAt_setDwords start (payload.take (w - start)) (by omega)
  have wide' := (f.dwordWidth_setDwords start (payload.take (w - start))).trans same
  by_cases fits : payload.length ≤ w - start
  · rw [List.take_of_length_le fits] at found wide' ⊢
    rw [List.drop_of_length_le fits, payloadBeats_nil]
    exact .final wide' fits found rfl
  · have long := Nat.lt_of_not_le fits
    rw [count, Nat.min_eq_left (Nat.le_of_lt long)] at found
    have left : payload.drop (w - start) ≠ [] := by
      rw [Ne, List.drop_eq_nil_iff]
      exact fits
    have goesOn : (f.setDwords start (payload.take (w - start))).last = false := by
      rw [Flit.last_setDwords, unmarked]
    have carried := rest long
    rw [payloadBeats_of_ne_nil (width ▸ wide) left] at carried ⊢
    exact .more wide' long found goesOn carried

theorem carries_payloadBeats (width : blank.dwordWidth = w) (wide : 0 < w)
    (unmarked : blank.last = false) {payload : List UInt32} (some_ : payload ≠ []) :
    Carries w 0 payload (markLast (payloadBeats blank payload)) := by
  induction payload using payloadBeats.induct blank with
  | case1 payload goesOn ih =>
    rw [payloadBeats_of_ne_nil goesOn.1 some_, width]
    refine carries_cons width wide width unmarked (Nat.zero_le w) payload fun long => ?_
    rw [Nat.sub_zero] at long ⊢
    rw [width] at ih
    exact ih (by rw [Ne, List.drop_eq_nil_iff]; omega)
  | case2 payload stops => exact absurd ⟨width ▸ wide, some_⟩ stops

theorem beats_eq_ok_iff {dataWidth userWidth : Nat} {h : Header} {payload : List UInt32}
    {beats : List Flit} : Packet.beats dataWidth userWidth h payload = .ok beats ↔
      h.fault? = none ∧ markLast
        (((Flit.blank dataWidth userWidth).storing h).setDwords HeaderWords.count
            (payload.take (dataWidth / 32 - HeaderWords.count)) ::
          payloadBeats (Flit.blank dataWidth userWidth)
            (payload.drop (dataWidth / 32 - HeaderWords.count))) = beats := by
  unfold Packet.beats
  cases fault : h.fault? with
  | some cause =>
    simp [(Flit.storeHeader_eq_error_iff ..).2 fault]
  | none =>
    simp only [Flit.storeHeader_eq_storing fault, Except.ok.injEq, true_and]
    rfl

/-- The beats of a packet carry its payload behind its header, which the first of them shows. -/
theorem carries_beats {dataWidth userWidth : Nat} {h : Header} {payload : List UInt32}
    {beats : List Flit} (known : h.fmtType.kind?.isSome) (wide : 256 ≤ dataWidth)
    (marked : 1 ≤ userWidth) (packed : Packet.beats dataWidth userWidth h payload = .ok beats) :
    h.fault? = none ∧ (∀ f, beats.head? = some f → f.header = .ok h) ∧
      Carries (dataWidth / 32) HeaderWords.count payload beats := by
  obtain ⟨noFault, rfl⟩ := beats_eq_ok_iff.1 packed
  have stored := Flit.storeHeader_eq_storing noFault (Flit.blank dataWidth userWidth)
  have shown := Flit.header_of_storeHeader known wide marked stored
  have lane : ((Flit.blank dataWidth userWidth).storing h).data.width = dataWidth := by
    rw [((Flit.storeHeader_eq_ok_iff ..).1 stored).2, Flit.width_data_setDwords]
    rfl
  have room : 8 ≤ dataWidth / 32 := by omega
  have width : (Flit.blank dataWidth userWidth).dwordWidth = dataWidth / 32 := rfl
  refine ⟨noFault, fun g first => ?_, ?_⟩
  · have front : (((Flit.blank dataWidth userWidth).storing h).setDwords HeaderWords.count
        (payload.take (dataWidth / 32 - HeaderWords.count))).header = .ok h := by
      have count : (payload.take (dataWidth / 32 - HeaderWords.count)).length ≤
          ((Flit.blank dataWidth userWidth).storing h).dwordWidth - HeaderWords.count := by
        rw [Flit.dwordWidth, Lane.dwordWidth, lane]
        exact List.length_take_le ..
      rw [Flit.header_setDwords_of_le _ _ (wide.trans_eq lane.symm) (Nat.le_refl _) count, shown]
    -- The mark does not touch the header.
    cases later : payloadBeats (Flit.blank dataWidth userWidth)
        (payload.drop (dataWidth / 32 - HeaderWords.count)) with
    | nil =>
      rw [later] at first
      rw [← Option.some.inj first, ← front]
      exact Flit.header_congr rfl rfl
    | cons second rest =>
      rw [later] at first
      rw [← Option.some.inj first, front]
  · refine carries_cons width (by omega) (congrArg (· / 32) lane)
      (Flit.last_of_storeHeader stored) room payload fun long => ?_
    refine carries_payloadBeats width (by omega) rfl ?_
    rw [Ne, List.drop_eq_nil_iff]
    omega

end Packet

end TlpBridge
