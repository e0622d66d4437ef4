import TlpBridge.Proofs.ToDevice.Beats

/-!
# Beats of one packet

The header of a packet and its payload stand without gap in the beats of the packet. What a
beat holds is decided by its place among them.
-/
namespace TlpBridge

namespace Flit

/-- The beat of a packet that comes `j` beats behind its first one, in a stream of `w` DWORDs for
each beat. -/
structure IsBeat (f : Flit) (w j : Nat) (h : Header) (payload : List UInt32) : Prop where
  width : f.dwordWidth = w
  header : j = 0 → f.header = .ok h
  /-- The payload comes right behind the header. -/
  dwords : ∀ d k (inside : k < payload.length), d < w → w * j + d = HeaderWords.count + k →
    f.dwordAt d = payload[k]
  /-- The bytes of the header and of the payload are kept, and no other. -/
  keep : ∀ b, f.keep.testBit b = true ↔
    b < 4 * w ∧ 4 * (w * j) + b < 4 * (HeaderWords.count + payload.length)
  /-- The packet ends with the beat that holds its last DWORD. -/
  last : f.last = decide (HeaderWords.count + payload.length ≤ w * (j + 1))

/-- The flit with the last `left` DWORDs of a payload from DWORD `start` on, as far as they fit into
`w` DWORDs. -/
def fill (f : Flit) (w start : Nat) (payload : List UInt32) (left : Nat) : Flit :=
  { f.setDwords start ((payload.drop (payload.length - left)).take (w - start)) with
    last := decide (left ≤ w - start) }

theorem setPayload_eq_setDwords (f : Flit) (i : Nat) (vs : List UInt32) {bytes : Nat}
    (whole : 4 * vs.length ≤ bytes) : f.setPayload i vs bytes = f.setDwords i vs := by
  induction vs generalizing f i bytes with
  | nil => rfl
  | cons v vs ih =>
    rw [List.length_cons] at whole
    have four : min bytes 4 = 4 := by omega
    have all : keepBits bytes = 0xf := by
      rw [keepBits, four]
      rfl
    rw [setPayload, all, ih _ _ (by omega), setDwords_cons]

variable {f : Flit} {w j start left : Nat} {h : Header} {payload : List UInt32}

/-- A flit that keeps the bytes before `start` becomes the beat that goes on there: it is the first
one, behind its header, or a later one, of which nothing is filled yet. -/
theorem isBeat_fill (width : f.data.width = 32 * w) (lane : f.keep.width = 4 * w)
    (kept : ∀ b, f.keep.testBit b = decide (b < 4 * start)) (inside : start ≤ w)
    (place : HeaderWords.count + payload.length = w * j + start + left)
    (within : left ≤ payload.length) (fresh : start = 0 ∨ left = payload.length)
    (header : j = 0 → f.header = .ok h ∧ HeaderWords.count ≤ start) (wide : 8 ≤ w) :
    (f.fill w start payload left).IsBeat w j h payload := by
  have count : ((payload.drop (payload.length - left)).take (w - start)).length =
      min (w - start) left := by
    rw [List.length_take, List.length_drop]
    omega
  constructor
  case width =>
    change (f.setDwords start _).data.width / 32 = w
    rw [width_data_setDwords, width]
    omega
  case header =>
    intro first
    obtain ⟨shown, behind⟩ := header first
    have room : ((payload.drop (payload.length - left)).take (w - start)).length ≤
        f.dwordWidth - start := by
      rw [count, dwordWidth, Lane.dwordWidth, width]
      omega
    rw [← shown, ← f.header_setDwords_of_le _ (by omega) behind room]
    exact header_congr rfl rfl
  case dwords =>
    intro d k small narrow here
    have stored : d - start < ((payload.drop (payload.length - left)).take (w - start)).length := by
      omega
    have found := f.dwordAt_setDwords (i := start) stored (by omega)
    have index : start + (d - start) = d := by omega
    rw [index, List.getElem_take, List.getElem_drop] at found
    refine found.trans ?_
    congr 1
    omega
  case keep =>
    intro b
    change (f.setDwords start _).keep.testBit b = true ↔ _
    have fits : 4 * (start + min (w - start) left) ≤ f.keep.positions :=
      le_trans (by omega) f.keep.width_le_positions
    rw [← count] at fits
    rw [testBit_keep_setDwords _ _ _ _ fits, count, lane, kept]
    by_cases filled : 4 * start ≤ b ∧ b < 4 * (start + min (w - start) left) ∧ b < 4 * w
    · rw [if_pos filled]
      exact iff_of_true rfl (by omega)
    · rw [if_neg filled, decide_eq_true_eq]
      omega
  case last =>
    change decide (left ≤ w - start) = _
    rw [decide_eq_decide, Nat.mul_succ]
    omega

end Flit

theorem ValidParameters.dataWidth_eq (c : ValidParameters) :
    c.params.dataWidth = 32 * c.dwordWidth := by
  have dwords : c.params.dataWidth % 32 = 0 := c.legal.dwords
  change c.params.dataWidth = 32 * (c.params.dataWidth / 32)
  omega

theorem ValidParameters.wide_dwordWidth (c : ValidParameters) : 8 ≤ c.dwordWidth := by
  have wide : 256 ≤ c.params.dataWidth := c.legal.wide
  have width := c.dataWidth_eq
  omega

namespace Engine

variable (e : Engine)

theorem width_keep_blankFlit : e.blankFlit.keep.width = 4 * e.config.dwordWidth := by
  have width := e.config.dataWidth_eq
  change e.config.params.dataWidth / 8 = _
  omega

variable {e} {h : Header} {payload : List UInt32} {f : Flit}

/-- The first beat of a packet has the header in front. -/
theorem isBeat_first (payload : List UInt32) (known : h.fmtType.kind?.isSome)
    (stored : e.blankFlit.storeHeader h = .ok f) :
    (f.fill e.config.dwordWidth HeaderWords.count payload payload.length).IsBeat
      e.config.dwordWidth 0 h payload := by
  have shown := Flit.header_of_storeHeader known e.wide_blankFlit e.config.legal.marked stored
  have keep := Flit.testBit_keep_of_storeHeader stored
  have lane := e.width_keep_blankFlit
  have wide := e.config.wide_dwordWidth
  have same := (Flit.storeHeader_eq_ok_iff ..).1 stored
  apply Flit.isBeat_fill
  case width =>
    rw [same.2, Flit.width_data_setDwords]
    exact e.config.dataWidth_eq
  case lane =>
    rw [same.2, Flit.width_keep_setDwords]
    exact lane
  case kept =>
    intro b
    rw [keep, lane, decide_eq_decide]
    change _ ↔ b < 4 * 8
    omega
  case inside => exact wide
  case place => omega
  case within => exact Nat.le_refl _
  case fresh => exact .inr rfl
  case header => exact fun _ => ⟨shown, Nat.le_refl _⟩
  case wide => exact wide

theorem isBeat_later {j left : Nat} (later : 0 < j)
    (place : HeaderWords.count + payload.length = e.config.dwordWidth * j + left) :
    (e.blankFlit.fill e.config.dwordWidth 0 payload left).IsBeat e.config.dwordWidth j h
      payload := by
  have wide := e.config.wide_dwordWidth
  have first : e.config.dwordWidth ≤ e.config.dwordWidth * j := Nat.le_mul_of_pos_right _ later
  have count : HeaderWords.count = 8 := rfl
  apply Flit.isBeat_fill
  case width => exact e.config.dataWidth_eq
  case lane => exact e.width_keep_blankFlit
  case kept =>
    intro b
    exact Lane.testBit_zeros ..
  case inside => exact Nat.zero_le _
  case place => exact place
  case within => omega
  case fresh => exact .inl rfl
  case header => omega
  case wide => exact wide

end Engine

end TlpBridge
