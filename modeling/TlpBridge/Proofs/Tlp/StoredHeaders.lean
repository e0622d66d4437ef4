import TlpBridge.Proofs.Stream.FlitDwords
import TlpBridge.Proofs.Tlp.HeaderEncoding

/-!
# Headers stored in flits

A header is stored exactly or refused. What was in the flit before does not matter, and a
refusal depends on the header alone.
-/
namespace TlpBridge.Flit

/-- Either the header has a fault, and nothing is done to the flit, or the flit is written anew. -/
theorem run_pack (f : Flit) (h : Header) : (pack h).run f =
    match h.fault? with
    | some e => .error e f
    | none => .ok () ((f.reset.setDataMover h.dataMover).setDwords 0 h.words.toList) := by
  unfold pack Header.encode
  cases h.fault? <;> rfl

theorem storeHeader_eq_ok_iff (f f' : Flit) (h : Header) :
    f.storeHeader h = .ok f' ↔
      h.fault? = none ∧ f' = (f.reset.setDataMover h.dataMover).setDwords 0 h.words.toList := by
  rw [storeHeader, run_pack]
  cases h.fault? with
  | none => simp [eq_comm]
  | some e => simp

theorem storeHeader_eq_error_iff (f : Flit) (h : Header) (e : EncodingError) :
    f.storeHeader h = .error e ↔ h.fault? = some e := by
  rw [storeHeader, run_pack]
  cases h.fault? with
  | none => simp
  | some e' => simp

theorem dataMover_setDataMover (f : Flit) (v : Bool) (marked : 1 ≤ f.user.width) :
    (f.setDataMover v).dataMover = v := by
  change (f.user.setBit 0 v).testBit 0 = v
  rw [Lane.testBit_setBit, if_pos ⟨rfl, marked⟩]

@[simp] theorem dataMover_setDwords (f : Flit) (i : Nat) (vs : List UInt32) :
    (f.setDwords i vs).dataMover = f.dataMover := by
  rw [dataMover, user_setDwords, dataMover]

theorem header_of_storeHeader {f f' : Flit} {h : Header} (known : h.fmtType.kind?.isSome)
    (wide : 256 ≤ f.data.width) (marked : 1 ≤ f.user.width) (stored : f.storeHeader h = .ok f') :
    f'.header = .ok h := by
  obtain ⟨noFault, rfl⟩ := (storeHeader_eq_ok_iff ..).1 stored
  have cleared : 256 ≤ (f.reset.setDataMover h.dataMover).data.width := wide
  have mode : (f.reset.setDataMover h.dataMover).dataMover = h.dataMover :=
    dataMover_setDataMover _ _ marked
  rw [header_eq_decode _ (by rw [width_data_setDwords]; exact cleared),
    headerWords_setDwords _ _ cleared, dataMover_setDwords, mode]
  exact Header.decode_words known noFault

theorem testBit_keep_of_storeHeader {f f' : Flit} {h : Header} (stored : f.storeHeader h = .ok f')
    (i : Nat) : f'.keep.testBit i = decide (i < 32 ∧ i < f.keep.width) := by
  obtain ⟨-, rfl⟩ := (storeHeader_eq_ok_iff ..).1 stored
  have fits : 4 * (0 + h.words.toList.length) ≤
      (f.reset.setDataMover h.dataMover).keep.positions := by
    rw [HeaderWords.length_toList, HeaderWords.count]
    exact le_trans (by decide) (Lane.le_positions _)
  rw [testBit_keep_setDwords _ _ _ _ fits, HeaderWords.length_toList]
  change (if 4 * 0 ≤ i ∧ i < 4 * (0 + 8) ∧ i < f.keep.width then true
    else f.keep.clear.testBit i) = _
  rw [Lane.testBit_clear]
  by_cases kept : i < 32 ∧ i < f.keep.width
  · rw [if_pos ⟨by omega, kept.1, kept.2⟩, decide_eq_true kept]
  · rw [if_neg (fun h => kept ⟨h.2.1, h.2.2⟩), decide_eq_false kept]

theorem last_of_storeHeader {f f' : Flit} {h : Header} (stored : f.storeHeader h = .ok f') :
    f'.last = false := by
  obtain ⟨-, rfl⟩ := (storeHeader_eq_ok_iff ..).1 stored
  rw [last_setDwords]
  rfl

/-- The flit as an attempt to store a header leaves it, whatever its outcome. -/
def storing (f : Flit) (h : Header) : Flit :=
  match (pack h).run f with
  | .ok _ f' | .error _ f' => f'

theorem storing_of_storeHeader {f f' : Flit} {h : Header} (stored : f.storeHeader h = .ok f') :
    f.storing h = f' := by
  unfold storing
  unfold storeHeader at stored
  cases packed : (pack h).run f with
  | ok _ kept =>
    simp only [packed] at stored ⊢
    exact Except.ok.inj stored
  | error e kept =>
    simp only [packed] at stored
    cases stored

/-- A refused header leaves the flit as it was. -/
theorem storing_of_refused {f : Flit} {h : Header} {e : EncodingError}
    (refused : f.storeHeader h = .error e) : f.storing h = f := by
  rw [storing, run_pack, (storeHeader_eq_error_iff ..).1 refused]

theorem storeHeader_eq_storing {h : Header} (noFault : h.fault? = none) (f : Flit) :
    f.storeHeader h = .ok (f.storing h) := by
  have stored := (storeHeader_eq_ok_iff f _ h).2 ⟨noFault, rfl⟩
  rw [stored, storing_of_storeHeader stored]

/-- A header of a known kind is stored so that the flit shows it again with exactly its 32 bytes
kept, or it is refused for the fault it has and the flit stays as it was. -/
theorem storeHeader_exact_or_refused (h : Header) (f : Flit) (format : PacketFormat)
    (known : h.fmtType.packetFormat = .ok format) (wide : 256 ≤ f.data.width)
    (marked : 1 ≤ f.user.width) :
    (∀ f', f.storeHeader h = .ok f' →
      f.storing h = f' ∧ f'.header = .ok h ∧
      (∀ i, f'.keep.testBit i = decide (i < 32 ∧ i < f.keep.width)) ∧
      f'.keep.width = f.keep.width ∧ f'.last = false) ∧
    (∀ e, f.storeHeader h = .error e → f.storing h = f ∧ h.fault? = some e) := by
  have named : h.fmtType.kind?.isSome := by
    unfold FmtType.packetFormat at known
    cases kind : h.fmtType.kind? with
    | none => simp [kind] at known
    | some k => rfl
  constructor
  · intro f' stored
    have width : f'.keep.width = f.keep.width := by
      obtain ⟨-, rfl⟩ := (storeHeader_eq_ok_iff ..).1 stored
      rw [width_keep_setDwords]
      rfl
    exact ⟨storing_of_storeHeader stored, header_of_storeHeader named wide marked stored,
      testBit_keep_of_storeHeader stored, width, last_of_storeHeader stored⟩
  · intro e refused
    exact ⟨storing_of_refused refused, (storeHeader_eq_error_iff ..).1 refused⟩

/-- A completion whose byte count wraps, stored over an interrupt. -/
theorem header_storing_completion :
    let old := (blank 512 10).storing
      { fmtType := .interrupt, dataMover := true, metadata := 7, body := .interrupt 5 }
    let h : Header :=
      { fmtType := .completionData, byteSize := 1024, requesterId := 0x1234, tag := 0x3ff,
        body := .completion { byteCount := 4096, lowerAddr := 64 } }
    (old.storing h).header = .ok h ∧ old.header ≠ .ok h := by
  intro old h
  have noFault : h.fault? = none := by decide
  have stored : old.storeHeader h = .ok ((old.reset.setDataMover false).setDwords 0
      h.words.toList) := (storeHeader_eq_ok_iff ..).2 ⟨noFault, rfl⟩
  have known : h.fmtType.packetFormat = .ok ⟨.completionData, false⟩ := by decide
  have outcome := storeHeader_exact_or_refused h old _ known (by decide) (by decide)
  obtain ⟨shown, header, -⟩ := outcome.1 _ stored
  constructor
  · rw [shown, header]
  · decide +kernel

end TlpBridge.Flit
