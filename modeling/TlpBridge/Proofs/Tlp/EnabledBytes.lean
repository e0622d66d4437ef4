import TlpBridge.Proofs.Tlp.ByteCounts

/-!
# The bytes that enables ask for

Written out, the enables of a request are one flag for each of its bytes. The byte count of a
completion is the distance from the first flag that is set to the last, and it adds up where a
request is cut between two DWORDs.
-/
namespace TlpBridge.ByteEnable

variable {mask : UInt8} {n i j : Nat} {first last : UInt8}

/-- Whether a request of `n` DWORDs asks for its byte `i`. -/
def asksFor (n : Nat) (first last : UInt8) (i : Nat) : Bool := (expand n first last).getD i false

theorem asksFor_eq (inside : i < 4 * n) : asksFor n first last i =
    if i / 4 = 0 then enables first (i % 4)
    else if i / 4 + 1 = n then enables last (i % 4)
    else true := by
  simp [asksFor, expand, List.getD_eq_getElem?_getD, List.getElem?_range inside]

theorem lt_of_enables (on : enables mask j) : j < 4 := by
  unfold enables at on
  simp only [Bool.and_eq_true, decide_eq_true_eq] at on
  exact on.1

theorem not_enables_of_isEmpty (none_ : isEmpty mask) (i : Nat) : ¬ enables mask i := by
  intro on
  have inside := lt_of_enables on
  have zero : mask.toNat % 2 ^ 4 = 0 := by simpa [isEmpty] using none_
  have bit := congrArg (·.testBit i) zero
  simp only [Nat.testBit_mod_two_pow, Nat.zero_testBit, inside, decide_true, Bool.true_and] at bit
  rw [enables, bit, Bool.and_false] at on
  cases on

theorem leadingGap_of_isEmpty (none_ : isEmpty mask) : leadingGap mask = 0 := by
  simp [leadingGap, not_enables_of_isEmpty none_]

theorem enables_leadingGap (some_ : isEmpty mask = false) : enables mask (leadingGap mask) := by
  have bits := exists_enables some_
  unfold leadingGap
  cases b0 : enables mask 0 <;> cases b1 : enables mask 1 <;> cases b2 : enables mask 2 <;>
    cases b3 : enables mask 3 <;> simp_all

theorem leadingGap_le_of_enables (on : enables mask j) : leadingGap mask ≤ j := by
  have inside := lt_of_enables on
  unfold leadingGap
  interval_cases j <;> grind

theorem enables_trailingGap (some_ : isEmpty mask = false) :
    enables mask (3 - trailingGap mask) := by
  have bits := exists_enables some_
  unfold trailingGap
  cases b0 : enables mask 0 <;> cases b1 : enables mask 1 <;> cases b2 : enables mask 2 <;>
    cases b3 : enables mask 3 <;> simp_all

theorem add_trailingGap_le_of_enables (on : enables mask j) : j + trailingGap mask ≤ 3 := by
  have inside := lt_of_enables on
  unfold trailingGap
  interval_cases j <;> grind

/-! ## Counting flags -/

/-- The place of the first flag that is set. -/
def firstSet (flags : List Bool) : Nat := flags.findIdx id

/-- The place of the last flag that is set. -/
def lastSet (flags : List Bool) : Nat := flags.length - 1 - flags.reverse.findIdx id

/-- The number of flags from the first that is set to the last. -/
def span (flags : List Bool) : Nat := lastSet flags + 1 - firstSet flags

/-- The byte count of a completion, read off the flags of all bytes. -/
def flaggedCount? (n : Nat) (first last : UInt8) : Option Nat :=
  if n = 0 ∨ (isEmpty first ∧ ¬ (n = 1 ∧ isEmpty last)) ∨ (isEmpty last ∧ 1 < n) then none
  else if (expand n first last).any id then some (span (expand n first last))
  else some 1

theorem firstSet_eq {flags : List Bool} {i : Nat} (set_ : flags[i]? = some true)
    (before : ∀ j < i, flags[j]? = some false) : firstSet flags = i := by
  obtain ⟨inside, on⟩ := List.getElem?_eq_some_iff.1 set_
  rw [firstSet, List.findIdx_eq inside]
  refine ⟨on, fun j less => ?_⟩
  obtain ⟨_, off⟩ := List.getElem?_eq_some_iff.1 (before j less)
  exact off

theorem lastSet_eq {flags : List Bool} {i : Nat} (set_ : flags[i]? = some true)
    (behind : ∀ j, i < j → j < flags.length → flags[j]? = some false) : lastSet flags = i := by
  obtain ⟨inside, -⟩ := List.getElem?_eq_some_iff.1 set_
  have mirrored : firstSet flags.reverse = flags.length - 1 - i := by
    apply firstSet_eq
    · rw [List.getElem?_reverse (by omega), ← set_]
      congr 1
      omega
    · intro j less
      rw [List.getElem?_reverse (by omega)]
      exact behind _ (by omega) (by omega)
  rw [lastSet, ← firstSet, mirrored]
  omega

theorem getElem?_expand (inside : i < 4 * n) :
    (expand n first last)[i]? = some (asksFor n first last i) := by
  have counted : i < (expand n first last).length := by simpa [expand] using inside
  rw [asksFor, List.getD_eq_getElem?_getD, List.getElem?_eq_getElem counted, Option.getD_some]

theorem length_expand (n : Nat) (first last : UInt8) : (expand n first last).length = 4 * n := by
  simp [expand]

theorem firstSet_expand (positive : 0 < n) (front : isEmpty first = false) :
    firstSet (expand n first last) = leadingGap first := by
  have gap := leadingGap_le first
  apply firstSet_eq
  · rw [getElem?_expand (by omega), asksFor_eq (by omega), if_pos (by omega),
      Nat.mod_eq_of_lt (by omega), enables_leadingGap front]
  · intro j less
    rw [getElem?_expand (by omega), asksFor_eq (by omega), if_pos (by omega),
      Nat.mod_eq_of_lt (by omega), Option.some_inj, Bool.eq_false_iff]
    exact fun on => absurd (leadingGap_le_of_enables on) (Nat.not_le.2 less)

/-- The last byte that is asked for lies in the last DWORD, whose mask is the first one if there is
no other. -/
theorem lastSet_expand {mask : UInt8} (positive : 0 < n)
    (ends : mask = if n = 1 then first else last) (back : isEmpty mask = false) :
    lastSet (expand n first last) + 1 + trailingGap mask = 4 * n := by
  have gap := trailingGap_le back
  have flag {i : Nat} (lower : 4 * (n - 1) ≤ i) (upper : i < 4 * n) :
      (expand n first last)[i]? = some (enables mask (i - 4 * (n - 1))) := by
    have byte : i % 4 = i - 4 * (n - 1) := by omega
    rw [getElem?_expand upper, asksFor_eq upper, byte, ends]
    by_cases single : n = 1
    · rw [if_pos (by omega), if_pos single]
    · rw [if_neg (by omega), if_pos (by omega), if_neg single]
  have found : lastSet (expand n first last) = 4 * n - 1 - trailingGap mask := by
    apply lastSet_eq
    · have place : 4 * n - 1 - trailingGap mask - 4 * (n - 1) = 3 - trailingGap mask := by omega
      rw [flag (by omega) (by omega), place, enables_trailingGap back]
    · intro j less inside
      rw [length_expand] at inside
      rw [flag (by omega) inside, Option.some_inj, Bool.eq_false_iff]
      intro on
      have := add_trailingGap_le_of_enables on
      omega
  rw [found]
  omega

theorem span_expand {mask : UInt8} (positive : 0 < n)
    (ends : mask = if n = 1 then first else last) (front : isEmpty first = false)
    (back : isEmpty mask = false) :
    span (expand n first last) = n * 4 - leadingGap first - trailingGap mask := by
  have last_ := lastSet_expand positive ends back
  rw [span, firstSet_expand positive front]
  omega

theorem any_expand (positive : 0 < n) (front : isEmpty first = false) :
    (expand n first last).any id := by
  have gap := leadingGap_le first
  have on : (expand n first last)[leadingGap first]? = some true := by
    rw [getElem?_expand (by omega), asksFor_eq (by omega), if_pos (by omega),
      Nat.mod_eq_of_lt (by omega), enables_leadingGap front]
  exact List.any_eq_true.2 ⟨true, List.mem_of_getElem? on, rfl⟩

theorem any_expand_fence (front : isEmpty first) : (expand 1 first last).any id = false := by
  rw [List.any_eq_false]
  intro flag member
  obtain ⟨i, found⟩ := List.mem_iff_getElem?.1 member
  have inside := (List.getElem?_eq_some_iff.1 found).1
  rw [length_expand] at inside
  rw [getElem?_expand inside, asksFor_eq inside, if_pos (by omega), Option.some_inj] at found
  rw [← found]
  exact not_enables_of_isEmpty front _

/-! ## The law of byte counts -/

/-- No count is given to a request without DWORDs, to one that enables nothing in its first DWORD
and is not a fence, and to one of several DWORDs that enables nothing in the last. -/
theorem byteCount?_eq_none_iff : byteCount? n first last = none ↔
    n = 0 ∨ (isEmpty first ∧ ¬ (n = 1 ∧ isEmpty last)) ∨ (isEmpty last ∧ 1 < n) := by
  unfold byteCount?
  by_cases none_ : n = 0
  · simp [none_]
  · have several : n ≠ 1 ↔ 1 < n := by omega
    rw [if_neg none_]
    cases front : isEmpty first <;> cases back : isEmpty last <;> by_cases single : n = 1 <;>
      simp_all

theorem byteCount?_behind (positive : 0 < n) (back : isEmpty last = false) :
    byteCount? n 0xf last = some (n * 4 - trailingGap last) := by
  have whole : isEmpty 0xf = false ∧ leadingGap 0xf = 0 := by decide
  unfold byteCount?
  rw [if_neg (by omega)]
  simp [back, whole]

theorem byteCount?_eq_flaggedCount? (single : 1 < n ∨ isEmpty last) :
    byteCount? n first last = flaggedCount? n first last := by
  unfold flaggedCount?
  by_cases illegal :
      n = 0 ∨ (isEmpty first ∧ ¬ (n = 1 ∧ isEmpty last)) ∨ (isEmpty last ∧ 1 < n)
  · rw [if_pos illegal]
    exact byteCount?_eq_none_iff.2 illegal
  · rw [if_neg illegal]
    have positive : n ≠ 0 := fun none_ => illegal (.inl none_)
    have several : isEmpty last → ¬ 1 < n := fun back more => illegal (.inr (.inr ⟨back, more⟩))
    rw [byteCount?, if_neg positive]
    cases front : isEmpty first with
    | true =>
      obtain ⟨rfl, back⟩ : n = 1 ∧ isEmpty last :=
        by_contra fun fence => illegal (.inr (.inl ⟨front, fence⟩))
      rw [any_expand_fence front]
      simp [back]
    | false =>
      rw [if_pos (any_expand (Nat.pos_of_ne_zero positive) front)]
      cases back : isEmpty last with
      | true =>
        obtain rfl : n = 1 := by
          have := several back
          omega
        rw [span_expand Nat.one_pos rfl front front]
        simp
      | false =>
        have more : 1 < n := by simpa [back] using single
        rw [span_expand (by omega) (if_neg (by omega)).symm front back]
        simp

theorem byteCount?_add {k count : Nat} (counted : byteCount? n first last = some count)
    (some_ : 0 < k) (more : k < n) :
    ∃ front back, byteCount? k first 0xf = some front ∧ byteCount? (n - k) 0xf last = some back ∧
      count = front + back := by
  obtain ⟨front, back, total⟩ := enabled_of_byteCount? (by omega) counted
  have leading := leadingGap_le first
  have trailing := trailingGap_le back
  refine ⟨_, _, byteCount?_full some_ front, byteCount?_behind (by omega) back, ?_⟩
  rw [total]
  omega

/-- The byte count of a completion is the distance from the first byte that is asked for to the
last, and 1 for a fence; it adds up where the request is cut between two DWORDs. -/
theorem byteCount?_law (n : Nat) (first last : UInt8) (single : 1 < n ∨ isEmpty last) :
    byteCount? n first last = flaggedCount? n first last ∧
    (byteCount? n first last = none ↔
      n = 0 ∨ (isEmpty first ∧ ¬ (n = 1 ∧ isEmpty last)) ∨ (isEmpty last ∧ 1 < n)) ∧
    ∀ k count, 0 < k → k < n → byteCount? n first last = some count →
      ∃ front back, byteCount? k first 0xf = some front ∧
        byteCount? (n - k) 0xf last = some back ∧ count = front + back := by
  refine ⟨byteCount?_eq_flaggedCount? single, byteCount?_eq_none_iff, ?_⟩
  intro k count some_ more counted
  exact byteCount?_add counted some_ more

/-- Three DWORDs of which the first two bytes and the last one are not asked for. -/
theorem byteCount?_law_three_dwords :
    (1 < 3 ∨ isEmpty 0x7) ∧ span (expand 3 0xc 0x7) = 9 ∧ byteCount? 3 0xc 0x7 = some 9 ∧
      ∃ front back, byteCount? 1 0xc 0xf = some front ∧ byteCount? 2 0xf 0x7 = some back ∧
        9 = front + back := by
  obtain ⟨flagged, -, adds⟩ := byteCount?_law 3 0xc 0x7 (.inl (by decide))
  have counted : byteCount? 3 0xc 0x7 = some 9 := flagged.trans (by decide)
  exact ⟨.inl (by decide), by decide, counted, adds 1 9 (by decide) (by decide) counted⟩

end TlpBridge.ByteEnable
