import TlpBridge.Text.Hex
import TlpBridge.Word.Bytes
import TlpBridge.Word.Power

/-!
# Stream lanes

A lane is a packed vector of bits, bit 0 being the least significant bit of byte 0.
Parts beyond the width read as zero and are dropped on write, as a hardware part
select behaves, so no operation can set a bit at or above the width. A position is a
word of 64 bits, and a sum or a product that names one wraps around.
-/
namespace TlpBridge

open scoped Power

/-- A vector of `width` bits whose width is known only at run time. -/
structure Lane where
  width : Nat
  bits : BitVec width
deriving DecidableEq

namespace Lane

/-- The lane of the given width with every bit clear. -/
def zeros (width : Nat) : Lane := ⟨width, 0⟩

/-- The lane with a given byte image; missing bytes are zero and excess bits are cut off. -/
def ofBytes (width : Nat) (image : List UInt8) : Lane :=
  ⟨width, BitVec.ofNat width (ofLittleEndian image)⟩

/-- The number of bytes in the image of a lane. -/
def byteWidth (l : Lane) : Nat := (l.width + 7) / 8

def clear (l : Lane) : Lane := zeros l.width

def isZero (l : Lane) : Bool := l.bits == 0

/-- Bit `i`, false at and beyond the width. -/
def testBit (l : Lane) (i : Nat) : Bool := l.bits.getLsbD i

/-- The number of positions that can be told apart. They are counted in 64 bits, and those in the
bytes of a lane are among them. -/
def positions (l : Lane) : Nat := max (8 * l.byteWidth) (2 ^ (64 : Nat))

/-- The position that a sum names. It wraps around. -/
def wrap (l : Lane) (p : Nat) : Nat := if p < l.positions then p else p % 2 ^ (64 : Nat)

/-- Replaces the `n` bits from `lsb` on, as far as the lane has them. -/
def setPart (l : Lane) (lsb : Nat) {n : Nat} (v : BitVec n) : Lane :=
  ⟨l.width,
    if lsb < l.width then
      l.bits &&& ~~~((BitVec.allOnes n).setWidth l.width <<< lsb) ||| v.setWidth l.width <<< lsb
    else l.bits⟩

def setBit (l : Lane) (i : Nat) (v : Bool) : Lane := l.setPart i (BitVec.ofBool v)

/-- The `n` bits from `lsb` on. Only a part that wraps around is read one bit after the other. -/
def slice (l : Lane) (lsb n : Nat) : BitVec n :=
  if lsb + n ≤ l.positions then l.bits.extractLsb' lsb n
  else
    (List.range n).foldl (fun part k =>
      part ||| (BitVec.ofBool (l.testBit (l.wrap (lsb + k)))).setWidth n <<< k) 0

/-- Replaces the `n` bits from `lsb` on, those of a part that wraps around one after the other. -/
def setSlice (l : Lane) (lsb : Nat) {n : Nat} (v : BitVec n) : Lane :=
  if lsb + n ≤ l.positions then l.setPart lsb v
  else (List.range n).foldl (fun m k => m.setBit (l.wrap (lsb + k)) (v.getLsbD k)) l

/-- The `i`-th DWORD. -/
def dwordAt (l : Lane) (i : Nat) : UInt32 := ⟨l.slice (32 * i) 32⟩

def setDword (l : Lane) (i : Nat) (v : UInt32) : Lane := l.setSlice (32 * i) v.toBitVec

/-- The little-endian byte image. -/
def bytes (l : Lane) : List UInt8 := littleEndian l.byteWidth l.bits.toNat

/-- The whole DWORDs that a lane holds. -/
def dwordWidth (l : Lane) : Nat := l.width / 32

/-- Hexadecimal text, the most significant DWORD first and an underscore every 64 bits. -/
def render (l : Lane) : String :=
  let n := max 1 ((l.width + 31) / 32)
  let dword (i : Nat) : String :=
    (if i % 2 = 1 ∧ i + 1 ≠ n then "_" else "") ++ Text.hexPadded 8 (l.dwordAt i).toNat
  "0x" ++ String.join ((List.range n).reverse.map dword)

theorem wrap_of_lt {l : Lane} {p : Nat} (small : p < l.positions) : l.wrap p = p :=
  if_pos small

theorem le_positions (l : Lane) : 2 ^ (64 : Nat) ≤ l.positions := Nat.le_max_right ..

theorem byteWidth_le_positions (l : Lane) : 8 * l.byteWidth ≤ l.positions := Nat.le_max_left ..

theorem width_le_positions (l : Lane) : l.width ≤ l.positions := by
  have covered := l.byteWidth_le_positions
  rw [byteWidth] at covered
  omega

/-- The bits that are written one after the other do not change the width. -/
theorem width_foldl_setBit {α : Type} (l : Lane) (ks : List α) (i : α → Nat) (v : α → Bool) :
    (ks.foldl (fun m k => m.setBit (i k) (v k)) l).width = l.width := by
  induction ks generalizing l with
  | nil => rfl
  | cons k ks ih => exact ih (l.setBit (i k) (v k))

@[simp] theorem width_setSlice (l : Lane) (lsb : Nat) {n : Nat} (v : BitVec n) :
    (l.setSlice lsb v).width = l.width := by
  unfold setSlice
  split
  · rfl
  · exact l.width_foldl_setBit _ _ _

@[simp] theorem width_setDword (l : Lane) (i : Nat) (v : UInt32) :
    (l.setDword i v).width = l.width := l.width_setSlice ..

theorem positions_congr {l l' : Lane} (same : l'.width = l.width) : l'.positions = l.positions := by
  rw [positions, positions, byteWidth, byteWidth, same]

@[simp] theorem positions_setSlice (l : Lane) (lsb : Nat) {n : Nat} (v : BitVec n) :
    (l.setSlice lsb v).positions = l.positions := positions_congr (l.width_setSlice lsb v)

@[simp] theorem positions_setDword (l : Lane) (i : Nat) (v : UInt32) :
    (l.setDword i v).positions = l.positions := l.positions_setSlice ..

@[simp] theorem length_bytes (l : Lane) : l.bytes.length = l.byteWidth :=
  length_littleEndian ..

@[simp] theorem testBit_zeros (w i : Nat) : (zeros w).testBit i = false := by
  simp [testBit, zeros]

theorem testBit_of_le (l : Lane) {i : Nat} (h : l.width ≤ i) : l.testBit i = false :=
  BitVec.getLsbD_of_ge _ _ h

/-- A part that is put together bit by bit has the bits that were put in. -/
theorem getLsbD_foldl_or (n m k : Nat) (bit : Nat → Bool) :
    ((List.range m).foldl (fun part j => part ||| (BitVec.ofBool (bit j)).setWidth n <<< j)
      (0 : BitVec n)).getLsbD k = (decide (k < n) && decide (k < m) && bit k) := by
  induction m with
  | zero => simp
  | succ m ih =>
    rw [List.range_succ, List.foldl_append, List.foldl_cons, List.foldl_nil, BitVec.getLsbD_or, ih]
    by_cases own : k = m
    · subst own
      by_cases inside : k < n <;> simp [inside]
    · have before : k < m + 1 ↔ k < m := by omega
      have other : k < m ∨ 0 < k - m := by omega
      rcases other with below | above
      · simp [before, below]
      · simp [before, Nat.ne_of_gt above]

/-- A part has the bits of the lane at its positions. -/
theorem getLsbD_slice (l : Lane) (lsb n k : Nat) : (l.slice lsb n).getLsbD k =
    (decide (k < n) && l.testBit (l.wrap (lsb + k))) := by
  unfold slice
  split
  · by_cases asked : k < n
    · rw [wrap_of_lt (by omega)]
      simp [testBit, asked]
    · simp [asked]
  · rw [getLsbD_foldl_or]
    by_cases asked : k < n <;> simp [asked]

theorem getLsbD_slice_of_fits (l : Lane) {lsb n : Nat} (fits : lsb + n ≤ l.positions)
    (k : Nat) :
    (l.slice lsb n).getLsbD k = (decide (k < n) && l.testBit (lsb + k)) := by
  rw [getLsbD_slice]
  by_cases asked : k < n
  · rw [wrap_of_lt (by omega)]
  · simp [asked]

/-- A part that is written in one go holds the new bits; every other bit stays. -/
theorem testBit_setPart (l : Lane) (lsb : Nat) {n : Nat} (v : BitVec n) (i : Nat) :
    (l.setPart lsb v).testBit i =
      if lsb ≤ i ∧ i < lsb + n ∧ i < l.width then v.getLsbD (i - lsb) else l.testBit i := by
  by_cases h : lsb < l.width
  · by_cases hw : i < l.width
    · by_cases hl : i < lsb
      · have : ¬ lsb ≤ i := by omega
        simp [setPart, testBit, h, hw, hl, this]
      · by_cases hn : i < lsb + n
        · have h2 : i - lsb < n := by omega
          have h3 : lsb ≤ i := by omega
          simp [setPart, testBit, h, hw, hl, hn, h2, h3]
        · have h2 : ¬ i - lsb < n := by omega
          have hv : v.getLsbD (i - lsb) = false := BitVec.getLsbD_of_ge _ _ (by omega)
          simp [setPart, testBit, h, hw, hl, hn, h2, hv]
    · have outside : ¬ (lsb ≤ i ∧ i < lsb + n ∧ i < l.width) := by omega
      have beyond : (l.setPart lsb v).width ≤ i := Nat.le_of_not_lt hw
      rw [if_neg outside, testBit_of_le _ beyond, testBit_of_le _ (Nat.le_of_not_lt hw)]
  · have outside : ¬ (lsb ≤ i ∧ i < lsb + n ∧ i < l.width) := by omega
    simp [setPart, testBit, h, outside]

theorem testBit_setBit (l : Lane) (i : Nat) (v : Bool) (j : Nat) :
    (l.setBit i v).testBit j = if j = i ∧ i < l.width then v else l.testBit j := by
  rw [setBit, testBit_setPart]
  by_cases own : j = i ∧ i < l.width
  · rw [if_pos (by omega), if_pos own, own.1, Nat.sub_self]
    cases v <;> rfl
  · rw [if_neg (by omega), if_neg own]

/-- A written part that does not wrap around holds the new bits; every other bit stays. -/
theorem testBit_setSlice (l : Lane) {lsb n : Nat} (v : BitVec n)
    (fits : lsb + n ≤ l.positions) (i : Nat) :
    (l.setSlice lsb v).testBit i =
      if lsb ≤ i ∧ i < lsb + n ∧ i < l.width then v.getLsbD (i - lsb) else l.testBit i := by
  rw [setSlice, if_pos fits, testBit_setPart]

end Lane

end TlpBridge
