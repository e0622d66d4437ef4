import Mathlib.Tactic
import TlpBridge.Tlp.ByteEnable

/-!
# Byte counts

The gaps that byte enables leave at both ends of a request, and how the count of bytes
that are still to come goes down while a request is completed in parts.
-/
namespace TlpBridge.ByteEnable

theorem exists_enables {mask : UInt8} (some_ : isEmpty mask = false) :
    enables mask 0 ∨ enables mask 1 ∨ enables mask 2 ∨ enables mask 3 := by
  by_contra none_
  simp only [not_or, Bool.not_eq_true] at none_
  obtain ⟨b0, b1, b2, b3⟩ := none_
  have zero : mask.toNat % 16 = 0 := by
    change mask.toNat % 2 ^ 4 = 0
    apply Nat.eq_of_testBit_eq
    intro i
    rw [Nat.testBit_mod_two_pow, Nat.zero_testBit]
    by_cases inside : i < 4
    · interval_cases i <;> simp_all [enables]
    · simp [inside]
  simp [isEmpty, zero] at some_

theorem leadingGap_add_trailingGap_le {mask : UInt8} (some_ : isEmpty mask = false) :
    leadingGap mask + trailingGap mask ≤ 3 := by
  have bits := exists_enables some_
  unfold leadingGap trailingGap
  cases b0 : enables mask 0 <;> cases b1 : enables mask 1 <;> cases b2 : enables mask 2 <;>
    cases b3 : enables mask 3 <;> simp_all

theorem leadingGap_le (mask : UInt8) : leadingGap mask ≤ 3 := by
  unfold leadingGap
  cases enables mask 0 <;> cases enables mask 1 <;> cases enables mask 2 <;>
    cases enables mask 3 <;> decide

theorem trailingGap_le {mask : UInt8} (some_ : isEmpty mask = false) : trailingGap mask ≤ 3 :=
  (Nat.le_add_left ..).trans (leadingGap_add_trailingGap_le some_)

theorem isEmpty_iff {mask : UInt8} (small : mask.toNat < 16) : isEmpty mask ↔ mask = 0 := by
  rw [isEmpty, Nat.mod_eq_of_lt small, beq_iff_eq, ← UInt8.toNat_inj]
  rfl

/-- A request of several DWORDs that has a byte count enables bytes at both ends. -/
theorem enabled_of_byteCount? {n count : Nat} {first last : UInt8} (several : 1 < n)
    (counted : byteCount? n first last = some count) :
    isEmpty first = false ∧ isEmpty last = false ∧
      count = n * 4 - leadingGap first - trailingGap last := by
  unfold byteCount? at counted
  rw [if_neg (by omega)] at counted
  cases front : isEmpty first with
  | true =>
    have not_one : ¬ (isEmpty last ∧ n = 1) := by omega
    simp [front, not_one] at counted
  | false =>
    cases back : isEmpty last with
    | true =>
      simp only [front, back, Bool.false_eq_true, if_false, if_true] at counted
      rw [if_neg (by omega)] at counted
      cases counted
    | false => exact ⟨rfl, rfl, by simpa [front, back, eq_comm] using counted⟩

theorem byteCount?_full {n : Nat} {first : UInt8} (positive : 0 < n)
    (some_ : isEmpty first = false) :
    byteCount? n first 0xf = some (n * 4 - leadingGap first) := by
  have whole : isEmpty 0xf = false ∧ trailingGap 0xf = 0 := by decide
  unfold byteCount?
  rw [if_neg (by omega)]
  simp [some_, whole]

/-- The bytes of a request that are still to come when its DWORDs before `start` have been sent. -/
def remaining (n : Nat) (first last : UInt8) (start : Nat) : Nat :=
  if start = 0 then (byteCount? n first last).getD 0 else 4 * (n - start) - trailingGap last

theorem byteCount?_le {n count : Nat} {first last : UInt8}
    (counted : byteCount? n first last = some count) : count ≤ 4 * n := by
  unfold byteCount? at counted
  by_cases zero : n = 0
  · simp [zero] at counted
  · rw [if_neg zero] at counted
    cases front : isEmpty first <;> cases back : isEmpty last <;> simp [front, back] at counted <;>
      omega

theorem remaining_bounds {n count start : Nat} {first last : UInt8}
    (counted : byteCount? n first last = some count) (positive : 0 < count) (inside : start < n) :
    0 < remaining n first last start ∧ remaining n first last start ≤ 4 * n := by
  unfold remaining
  by_cases begins : start = 0
  · rw [if_pos begins, counted]
    exact ⟨positive, byteCount?_le counted⟩
  · obtain ⟨-, back, -⟩ := enabled_of_byteCount? (by omega) counted
    have gap := trailingGap_le back
    rw [if_neg begins]
    omega

/-- What is still to come goes down by what a part counts. -/
theorem remaining_add {n count start k : Nat} {first last : UInt8}
    (counted : byteCount? n first last = some count) (some_ : 0 < k) (more : start + k < n) :
    remaining n first last start -
        (byteCount? k (if start == 0 then first else 0xf)
          (if k == n - start then last else 0xf)).getD (4 * k) =
      remaining n first last (start + k) := by
  obtain ⟨front, back, total⟩ := enabled_of_byteCount? (by omega) counted
  have gap := leadingGap_le first
  have full : isEmpty 0xf = false ∧ leadingGap 0xf = 0 := by decide
  have part : (k == n - start) = false := beq_eq_false_iff_ne.2 (by omega)
  have rest : ¬ start + k = 0 := by omega
  rw [part, if_neg Bool.false_ne_true]
  unfold remaining
  rw [if_neg rest]
  by_cases begins : start = 0
  · have first_ : (start == 0) = true := beq_iff_eq.2 begins
    rw [if_pos begins, if_pos first_, counted, byteCount?_full some_ front, Option.getD_some,
      Option.getD_some, total]
    omega
  · have later : ¬ (start == 0) = true := fun h => begins (beq_iff_eq.1 h)
    rw [if_neg begins, if_neg later, byteCount?_full some_ full.1, full.2, Option.getD_some]
    omega

end TlpBridge.ByteEnable
