import Mathlib.Tactic
import TlpBridge.Tlp.Encoding

/-!
# DWORDs in lanes and flits

What a flit holds after DWORDs were stored in it: each stored DWORD that lies inside the
data lane, and everything else as before. The byte image of a lane starts with its DWORDs.
-/
namespace TlpBridge

namespace Lane

theorem getLsbD_dwordAt (l : Lane) {i : Nat} (fits : 32 * (i + 1) ≤ l.positions) (k : Nat) :
    (l.dwordAt i).toBitVec.getLsbD k = (decide (k < 32) && l.testBit (32 * i + k)) :=
  l.getLsbD_slice_of_fits fits k

theorem testBit_setDword (l : Lane) {i : Nat} (v : UInt32) (fits : 32 * (i + 1) ≤ l.positions)
    (b : Nat) : (l.setDword i v).testBit b =
      if 32 * i ≤ b ∧ b < 32 * i + 32 ∧ b < l.width then v.toBitVec.getLsbD (b - 32 * i)
      else l.testBit b :=
  l.testBit_setSlice v.toBitVec fits b

/-- The lane has a place for every set bit of a DWORD at index `i`. -/
def Holds (l : Lane) (i : Nat) (v : UInt32) : Prop :=
  ∀ k < 32, l.width ≤ 32 * i + k → v.toBitVec.getLsbD k = false

theorem holds_of_inside {l : Lane} {i : Nat} (inside : 32 * (i + 1) ≤ l.width) (v : UInt32) :
    l.Holds i v := by
  intro k hk beyond
  omega

theorem holds_dwordAt {l l' : Lane} (same : l'.width = l.width) {i : Nat}
    (fits : 32 * (i + 1) ≤ l.positions) : l'.Holds i (l.dwordAt i) := by
  intro k _ beyond
  rw [l.getLsbD_dwordAt fits, l.testBit_of_le (same ▸ beyond), Bool.and_false]

theorem Holds.of_width {l l' : Lane} {i : Nat} {v : UInt32} (room : l.Holds i v)
    (same : l'.width = l.width) : l'.Holds i v :=
  fun k hk beyond => room k hk (same ▸ beyond)

theorem Holds.mono {l : Lane} {i : Nat} {v v' : UInt32} (room : l.Holds i v)
    (fewer : ∀ k, v'.toNat.testBit k = true → v.toNat.testBit k = true) : l.Holds i v' := by
  intro k hk beyond
  by_contra set
  exact absurd (fewer k (eq_true_of_ne_false set)) (ne_true_of_eq_false (room k hk beyond))

theorem dwordAt_setDword_of_holds {l : Lane} {i : Nat} {v : UInt32} (room : l.Holds i v)
    (fits : 32 * (i + 1) ≤ l.positions) : (l.setDword i v).dwordAt i = v := by
  apply UInt32.toBitVec_inj.1
  apply BitVec.eq_of_getLsbD_eq
  intro k hk
  rw [getLsbD_dwordAt _ (by rwa [positions_setDword]), testBit_setDword _ _ fits]
  by_cases written : 32 * i + k < l.width
  · rw [if_pos (by omega)]
    simp [hk]
  · rw [if_neg (by omega), l.testBit_of_le (by omega), Bool.and_false,
      room k hk (by omega)]

theorem dwordAt_setDword_of_ne (l : Lane) {i j : Nat} (v : UInt32) (other : j ≠ i)
    (fits : 32 * (i + 1) ≤ l.positions) (fits' : 32 * (j + 1) ≤ l.positions) :
    (l.setDword i v).dwordAt j = l.dwordAt j := by
  apply UInt32.toBitVec_inj.1
  apply BitVec.eq_of_getLsbD_eq
  intro k hk
  have outside : ¬ (32 * i ≤ 32 * j + k ∧ 32 * j + k < 32 * i + 32 ∧ 32 * j + k < l.width) := by
    omega
  rw [getLsbD_dwordAt _ (by rwa [positions_setDword]), getLsbD_dwordAt _ fits',
    testBit_setDword _ _ fits, if_neg outside]

theorem toNat_dwordAt (l : Lane) {i : Nat} (fits : 32 * (i + 1) ≤ l.positions) :
    (l.dwordAt i).toNat = l.bits.toNat / 2 ^ (32 * i) % 2 ^ 32 := by
  change (l.slice (32 * i) 32).toNat = _
  rw [slice, if_pos (by omega), BitVec.extractLsb'_toNat, Nat.shiftRight_eq_div_pow]

theorem testBit_clear (l : Lane) (i : Nat) : l.clear.testBit i = false :=
  testBit_zeros ..

end Lane

namespace Flit

theorem setDwords_cons (f : Flit) (i : Nat) (v : UInt32) (vs : List UInt32) :
    f.setDwords i (v :: vs) = (f.setDword i v).setDwords (i + 1) vs := rfl

theorem dwordAt_setDwords_of_lt (f : Flit) {i j : Nat} (vs : List UInt32) (before : j < i)
    (fits : 32 * (i + vs.length) ≤ f.data.positions) :
    (f.setDwords i vs).dwordAt j = f.dwordAt j := by
  induction vs generalizing f i with
  | nil => rfl
  | cons v vs ih =>
    rw [List.length_cons] at fits
    have later : 32 * (i + 1 + vs.length) ≤ (f.data.setDword i v).positions := by
      rw [Lane.positions_setDword]
      omega
    rw [setDwords_cons, ih _ (by omega) later]
    exact f.data.dwordAt_setDword_of_ne v (by omega) (by omega) (by omega)

/-- A stored DWORD that the data lane has a place for is found there. -/
theorem dwordAt_setDwords_of_holds (f : Flit) {i k : Nat} {vs : List UInt32}
    (stored : k < vs.length) (fits : 32 * (i + vs.length) ≤ f.data.positions)
    (room : f.data.Holds (i + k) vs[k]) : (f.setDwords i vs).dwordAt (i + k) = vs[k] := by
  induction vs generalizing f i k with
  | nil => simp at stored
  | cons v vs ih =>
    rw [List.length_cons] at fits
    have later : 32 * (i + 1 + vs.length) ≤ (f.data.setDword i v).positions := by
      rw [Lane.positions_setDword]
      omega
    rw [setDwords_cons]
    cases k with
    | zero =>
      change ((f.setDword i v).setDwords (i + 1) vs).dwordAt i = v
      rw [dwordAt_setDwords_of_lt _ _ (Nat.lt_succ_self i) later]
      exact Lane.dwordAt_setDword_of_holds room (by omega)
    | succ k =>
      have place : i + (k + 1) = i + 1 + k := by omega
      rw [place] at room ⊢
      exact ih _ (Nat.lt_of_succ_lt_succ stored) later
        (room.of_width (f.data.width_setDword i v))

theorem dwordAt_setDwords (f : Flit) {i k : Nat} {vs : List UInt32} (stored : k < vs.length)
    (inside : 32 * (i + vs.length) ≤ f.data.width) : (f.setDwords i vs).dwordAt (i + k) = vs[k] :=
  f.dwordAt_setDwords_of_holds stored (inside.trans f.data.width_le_positions)
    (Lane.holds_of_inside (by omega) _)

@[simp] theorem width_keep_setDwords (f : Flit) (i : Nat) (vs : List UInt32) :
    (f.setDwords i vs).keep.width = f.keep.width := by
  induction vs generalizing f i with
  | nil => rfl
  | cons v vs ih => simp [setDwords, ih, setDword]

@[simp] theorem last_setDwords (f : Flit) (i : Nat) (vs : List UInt32) :
    (f.setDwords i vs).last = f.last := by
  induction vs generalizing f i with
  | nil => rfl
  | cons v vs ih => simp [setDwords, ih, setDword]

/-- Storing DWORDs marks their bytes as kept and no other byte. -/
theorem testBit_keep_setDwords (f : Flit) (i b : Nat) (vs : List UInt32)
    (fits : 4 * (i + vs.length) ≤ f.keep.positions) :
    (f.setDwords i vs).keep.testBit b =
      if 4 * i ≤ b ∧ b < 4 * (i + vs.length) ∧ b < f.keep.width then true
      else f.keep.testBit b := by
  induction vs generalizing f i with
  | nil =>
    have outside : ¬ (4 * i ≤ b ∧ b < 4 * (i + 0) ∧ b < f.keep.width) := by omega
    rw [List.length_nil, if_neg outside]
    rfl
  | cons v vs ih =>
    have ones (k : Nat) (hk : k < 4) : (15#4).getLsbD k = true := by
      interval_cases k <;> rfl
    rw [List.length_cons] at fits
    have later : 4 * (i + 1 + vs.length) ≤ (f.setDword i v).keep.positions := by
      rw [setDword, Lane.positions_setSlice]
      omega
    have first : 4 * i + 4 ≤ f.keep.positions := by omega
    rw [setDwords_cons, ih _ _ later, List.length_cons]
    simp only [setDword, Lane.width_setSlice, Lane.testBit_setSlice _ _ first]
    by_cases own : 4 * i ≤ b ∧ b < 4 * i + 4 ∧ b < f.keep.width
    · have later : ¬ 4 * (i + 1) ≤ b := by omega
      have total : b < 4 * (i + (vs.length + 1)) := by omega
      simp [own, later, total, ones _ (Nat.sub_lt_left_of_lt_add own.1 own.2.1)]
    · by_cases rest : 4 * (i + 1) ≤ b ∧ b < 4 * (i + 1 + vs.length) ∧ b < f.keep.width
      · have total : 4 * i ≤ b ∧ b < 4 * (i + (vs.length + 1)) ∧ b < f.keep.width := by omega
        rw [if_pos rest, if_pos total]
      · have total : ¬ (4 * i ≤ b ∧ b < 4 * (i + (vs.length + 1)) ∧ b < f.keep.width) := by omega
        rw [if_neg rest, if_neg total, if_neg own]

/-- The first eight DWORDs of a flit. -/
def headerWords (f : Flit) : HeaderWords where
  dw0 := f.dwordAt 0
  dw1 := f.dwordAt 1
  dw2 := f.dwordAt 2
  dw3 := f.dwordAt 3
  dw4 := f.dwordAt 4
  dw5 := f.dwordAt 5
  dw6 := f.dwordAt 6
  dw7 := f.dwordAt 7

theorem headerWords_setDwords_of_holds (f : Flit) (w : HeaderWords)
    (room : ∀ k (hk : k < w.toList.length), f.data.Holds k w.toList[k]) :
    (f.setDwords 0 w.toList).headerWords = w := by
  have fits : 32 * (0 + w.toList.length) ≤ f.data.positions := by
    rw [HeaderWords.length_toList, HeaderWords.count]
    exact le_trans (by decide) f.data.le_positions
  have stored (k : Nat) (hk : k < w.toList.length) :
      (f.setDwords 0 w.toList).dwordAt k = w.toList[k] := by
    have place :=
      f.dwordAt_setDwords_of_holds (i := 0) hk fits (by rw [Nat.zero_add]; exact room k hk)
    rwa [Nat.zero_add] at place
  rcases w with ⟨⟩
  simp only [headerWords, HeaderWords.mk.injEq]
  exact ⟨stored 0 (by simp [HeaderWords.count]), stored 1 (by simp [HeaderWords.count]),
    stored 2 (by simp [HeaderWords.count]), stored 3 (by simp [HeaderWords.count]),
    stored 4 (by simp [HeaderWords.count]), stored 5 (by simp [HeaderWords.count]),
    stored 6 (by simp [HeaderWords.count]), stored 7 (by simp [HeaderWords.count])⟩

theorem headerWords_setDwords (f : Flit) (w : HeaderWords) (wide : 256 ≤ f.data.width) :
    (f.setDwords 0 w.toList).headerWords = w := by
  apply headerWords_setDwords_of_holds
  intro k hk
  rw [HeaderWords.length_toList, HeaderWords.count] at hk
  exact Lane.holds_of_inside (by omega) _

/-- DWORDs stored behind the header leave it alone. -/
theorem headerWords_setDwords_of_le (f : Flit) {i : Nat} (vs : List UInt32)
    (behind : HeaderWords.count ≤ i) (fits : 32 * (i + vs.length) ≤ f.data.positions) :
    (f.setDwords i vs).headerWords = f.headerWords := by
  have kept (k : Nat) (hk : k < 8) : (f.setDwords i vs).dwordAt k = f.dwordAt k :=
    f.dwordAt_setDwords_of_lt vs (Nat.lt_of_lt_of_le hk behind) fits
  simp only [headerWords, kept 0 (by decide), kept 1 (by decide), kept 2 (by decide),
    kept 3 (by decide), kept 4 (by decide), kept 5 (by decide), kept 6 (by decide),
    kept 7 (by decide)]

end Flit

theorem takeDword_littleEndian (n v : Nat) :
    takeDword (littleEndian (n + 4) v) =
      .ok (UInt32.ofNat (v % 2 ^ 32), littleEndian n (v / 2 ^ 32)) := by
  have value : ofLittleEndian [UInt8.ofNat v, UInt8.ofNat (v / 256), UInt8.ofNat (v / 256 / 256),
      UInt8.ofNat (v / 256 / 256 / 256)] = v % 2 ^ 32 := by
    simp only [ofLittleEndian, List.foldr_cons, List.foldr_nil, UInt8.toNat_ofNat']
    omega
  have rest : v / 256 / 256 / 256 / 256 = v / 2 ^ 32 := by omega
  simp only [littleEndian, takeDword, value, rest]

theorem drop_littleEndian (k n v : Nat) :
    (littleEndian (k + n) v).drop k = littleEndian n (v / 256 ^ k) := by
  induction k generalizing v with
  | zero => simp
  | succ k ih =>
    rw [Nat.succ_add, littleEndian, List.drop_succ_cons, ih, Nat.div_div_eq_div_mul,
      ← Nat.pow_succ']

/-- The first DWORDs of a long enough image, by division and remainder. -/
theorem takeDwords_littleEndian (n m v : Nat) : takeDwords n (littleEndian (4 * n + m) v) =
    .ok ((List.range n).map fun i => UInt32.ofNat (v / 2 ^ (32 * i) % 2 ^ 32),
      littleEndian m (v / 2 ^ (32 * n))) := by
  induction n generalizing v with
  | zero => simp [takeDwords]
  | succ n ih =>
    have size : 4 * (n + 1) + m = 4 * n + m + 4 := by omega
    have shift (i : Nat) : v / 2 ^ 32 / 2 ^ (32 * i) = v / 2 ^ (32 * (i + 1)) := by
      rw [Nat.div_div_eq_div_mul, ← pow_add, Nat.mul_succ, Nat.add_comm 32]
    rw [size, takeDwords, takeDword_littleEndian, List.range_succ_eq_map]
    simp only [bind, Except.bind, ih, shift, List.map_cons, List.map_map]
    simp [Function.comp_def]

/-- As far as the bytes of a lane reach, they are its DWORDs. -/
theorem Lane.takeDwords_drop_bytes (l : Lane) {start n : Nat}
    (reaches : 4 * (start + n) ≤ l.bytes.length) : takeDwords n (l.bytes.drop (4 * start)) =
      .ok ((List.range n).map fun i => l.dwordAt (start + i), l.bytes.drop (4 * (start + n))) := by
  rw [length_bytes] at reaches
  obtain ⟨m, size⟩ := Nat.exists_eq_add_of_le reaches
  have bytes (k : Nat) : 256 ^ (4 * k) = 2 ^ (32 * k) := by
    rw [show 256 = 2 ^ 8 from rfl, ← pow_mul]
    congr 1
    omega
  have dword (i : Nat) (inside : i < n) : UInt32.ofNat
      (l.bits.toNat / 2 ^ (32 * start) / 2 ^ (32 * i) % 2 ^ 32) = l.dwordAt (start + i) := by
    have fits : 32 * (start + i + 1) ≤ l.positions := le_trans (by omega) l.byteWidth_le_positions
    rw [Nat.div_div_eq_div_mul, ← pow_add, ← Nat.mul_add, ← l.toNat_dwordAt fits,
      UInt32.ofNat_toNat]
  have rest : l.bits.toNat / 2 ^ (32 * start) / 2 ^ (32 * n) =
      l.bits.toNat / 256 ^ (4 * (start + n)) := by
    rw [Nat.div_div_eq_div_mul, ← pow_add, ← Nat.mul_add, bytes]
  rw [Lane.bytes, size, drop_littleEndian (4 * (start + n)), ← rest]
  rw [Nat.mul_add, Nat.add_assoc, drop_littleEndian, bytes, takeDwords_littleEndian,
    List.map_congr_left fun i member => dword i (List.mem_range.1 member)]

/-- The header of an image is the run of its first eight DWORDs. -/
theorem HeaderWords.takeDwords_count (image : List UInt8) :
    takeDwords count image = (ofBytes image).map fun p => (p.1.toList, p.2) := by
  have ok {ε α : Type} (a : α) : (Except.ok a : Except ε α) = pure a := rfl
  change _ = (fun p => (HeaderWords.toList p.1, p.2)) <$> ofBytes image
  simp only [count, takeDwords, ofBytes, toList, ok, map_bind, map_pure, bind_assoc, pure_bind]

theorem HeaderWords.exists_ofBytes {image rest : List UInt8} {vs : List UInt32}
    (taken : takeDwords count image = .ok (vs, rest)) :
    ∃ w, ofBytes image = .ok (w, rest) ∧ w.toList = vs := by
  rw [takeDwords_count] at taken
  cases parsed : ofBytes image with
  | error short =>
    rw [parsed] at taken
    cases taken
  | ok found =>
    rw [parsed] at taken
    cases taken
    exact ⟨found.1, rfl, rfl⟩

theorem length_of_takeDword {image rest : List UInt8} {v : UInt32}
    (taken : takeDword image = .ok (v, rest)) : image.length = rest.length + 4 := by
  unfold takeDword at taken
  split at taken
  · cases taken
    rfl
  · cases taken

theorem exists_of_bind_eq_ok {ε α β : Type} {x : Except ε α} {f : α → Except ε β} {b : β}
    (done : x >>= f = .ok b) : ∃ a, x = .ok a ∧ f a = .ok b := by
  cases x with
  | error fault => cases done
  | ok a => exact ⟨a, rfl, done⟩

/-- The bytes that a header was read from are all there. -/
theorem HeaderWords.length_of_ofBytes {image rest : List UInt8} {w : HeaderWords}
    (parsed : ofBytes image = .ok (w, rest)) : image.length = rest.length + 4 * count := by
  unfold ofBytes at parsed
  obtain ⟨⟨_, i1⟩, t1, parsed⟩ := exists_of_bind_eq_ok parsed
  obtain ⟨⟨_, i2⟩, t2, parsed⟩ := exists_of_bind_eq_ok parsed
  obtain ⟨⟨_, i3⟩, t3, parsed⟩ := exists_of_bind_eq_ok parsed
  obtain ⟨⟨_, i4⟩, t4, parsed⟩ := exists_of_bind_eq_ok parsed
  obtain ⟨⟨_, i5⟩, t5, parsed⟩ := exists_of_bind_eq_ok parsed
  obtain ⟨⟨_, i6⟩, t6, parsed⟩ := exists_of_bind_eq_ok parsed
  obtain ⟨⟨_, i7⟩, t7, parsed⟩ := exists_of_bind_eq_ok parsed
  obtain ⟨⟨_, i8⟩, t8, parsed⟩ := exists_of_bind_eq_ok parsed
  cases parsed
  rw [length_of_takeDword t1, length_of_takeDword t2, length_of_takeDword t3,
    length_of_takeDword t4, length_of_takeDword t5, length_of_takeDword t6,
    length_of_takeDword t7, length_of_takeDword t8]
  rfl

/-- A flit with a header has the bytes of it. -/
theorem Flit.count_le_of_header {f : Flit} {h : Header} (shown : f.header = .ok h) :
    4 * HeaderWords.count ≤ f.data.bytes.length := by
  unfold Flit.header at shown
  split at shown
  · cases shown
  · next parsed =>
    rw [HeaderWords.length_of_ofBytes parsed]
    exact Nat.le_add_left ..

/-- The header of a flit whose byte image is long enough is what its first eight DWORDs decode
to. -/
theorem Flit.header_eq_decode_of_bytes (f : Flit) (long : 32 ≤ f.data.byteWidth) :
    f.header = f.headerWords.decode f.dataMover := by
  have reaches : 4 * (0 + HeaderWords.count) ≤ f.data.bytes.length := by
    rw [Lane.length_bytes]
    exact long
  obtain ⟨w, parsed, words⟩ :=
    HeaderWords.exists_ofBytes (f.data.takeDwords_drop_bytes reaches)
  have same : w.toList = f.headerWords.toList := by
    rw [words]
    simp only [Nat.zero_add]
    rfl
  have header : w = f.headerWords := by
    rw [← Option.some_inj, ← HeaderWords.ofList?_toList, ← HeaderWords.ofList?_toList, same]
  rw [List.drop_zero] at parsed
  rw [Flit.header, parsed, header]

theorem Flit.header_eq_decode (f : Flit) (wide : 256 ≤ f.data.width) :
    f.header = f.headerWords.decode f.dataMover :=
  f.header_eq_decode_of_bytes (by unfold Lane.byteWidth; omega)

end TlpBridge
