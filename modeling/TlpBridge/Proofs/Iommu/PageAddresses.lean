import Mathlib.Tactic
import TlpBridge.Iommu.RadixTable

/-!
# Addresses of pages

An address selects a slot at each level of a radix table. Two addresses lie in one page if
they select the same slots from the level of the page up to the root.
-/
namespace TlpBridge

namespace PageSize

theorem bytesAt_succ (level : Nat) : bytesAt (level + 1) = 512 * bytesAt level := by
  unfold bytesAt offsetBits
  have shift : 12 + 9 * (level + 1) = 9 + (12 + 9 * level) := by omega
  rw [shift, pow_add]
  rfl

theorem bytesAt_dvd {low high : Nat} (h : low ≤ high) : bytesAt low ∣ bytesAt high :=
  Nat.pow_dvd_pow 2 (by unfold offsetBits; omega)

theorem bytesAt_le {low high : Nat} (h : low ≤ high) : bytesAt low ≤ bytesAt high :=
  Nat.le_of_dvd (bytesAt_pos high) (bytesAt_dvd h)

end PageSize

open PageSize

theorem val_slotIndex {a : Nat} (fits : a < 2 ^ 64) (level : Nat) :
    (slotIndex (UInt64.ofNat a) level : Nat) = a / bytesAt level % 512 := by
  change (UInt64.ofNat a).toNat / bytesAt level % 512 = _
  rw [UInt64.toNat_ofNat', Nat.mod_eq_of_lt fits]

/-- An address selects the slot in whose range it lies. -/
theorem slotIndex_eq_iff {base a level : Nat} (aligned : bytesAt (level + 1) ∣ base)
    (inside : base ≤ a ∧ a < base + bytesAt (level + 1)) (fits : a < 2 ^ 64) (i : Fin 512) :
    slotIndex (UInt64.ofNat a) level = i ↔
      base + i * bytesAt level ≤ a ∧ a < base + i * bytesAt level + bytesAt level := by
  have positive := bytesAt_pos level
  obtain ⟨q, rfl⟩ := aligned
  rw [bytesAt_succ] at inside ⊢
  have lower : 512 * q ≤ a / bytesAt level := (Nat.le_div_iff_mul_le positive).2 (by linarith)
  have upper : a / bytesAt level < 512 * q + 512 :=
    (Nat.div_lt_iff_lt_mul positive).2 (by linarith)
  have slot : a / bytesAt level % 512 = i ↔
      512 * q + i ≤ a / bytesAt level ∧ a / bytesAt level < 512 * q + i + 1 := by omega
  have start : (512 * q + i) * bytesAt level = 512 * bytesAt level * q + i * bytesAt level := by
    ring
  rw [← Fin.val_inj, val_slotIndex fits, slot, Nat.le_div_iff_mul_le positive,
    Nat.div_lt_iff_lt_mul positive, Nat.add_one_mul (512 * q + i), start]

/-- The addresses select the same slots from a level up to another. -/
def SamePage (a b : UInt64) (low high : Nat) : Prop :=
  ∀ k, low ≤ k → k ≤ high → slotIndex a k = slotIndex b k

instance (a b : UInt64) (low high : Nat) : Decidable (SamePage a b low high) :=
  inferInstanceAs (Decidable (∀ k, low ≤ k → k ≤ high → slotIndex a k = slotIndex b k))

namespace SamePage

variable {a b : UInt64} {low high : Nat}

theorem self_iff : SamePage a b low low ↔ slotIndex a low = slotIndex b low := by
  constructor
  · intro h
    exact h low (Nat.le_refl _) (Nat.le_refl _)
  · intro h k lower upper
    rwa [Nat.le_antisymm upper lower]

theorem succ_iff (le : low ≤ high) : SamePage a b low (high + 1) ↔
    slotIndex a (high + 1) = slotIndex b (high + 1) ∧ SamePage a b low high := by
  constructor
  · intro h
    refine ⟨h _ (by omega) (Nat.le_refl _), ?_⟩
    intro k lower upper
    exact h k lower (by omega)
  · rintro ⟨root, rest⟩ k lower upper
    rcases Nat.lt_or_eq_of_le upper with below | rfl
    · exact rest k lower (by omega)
    · exact root

end SamePage

open PageSize

/-- Two remainders are the same if their lower and upper parts are. -/
theorem mod_mul_eq_iff (x y m n : Nat) :
    x % (m * n) = y % (m * n) ↔ x / m % n = y / m % n ∧ x % m = y % m := by
  constructor
  · intro same
    constructor
    · rw [← Nat.mod_mul_right_div_self, same, Nat.mod_mul_right_div_self]
    · rw [← Nat.mod_mul_right_mod x m n, same, Nat.mod_mul_right_mod]
  · rintro ⟨upper, lower⟩
    rw [Nat.mod_mul, Nat.mod_mul, upper, lower]

theorem bytesAt_add (low k : Nat) : bytesAt (low + k) = bytesAt low * 512 ^ k := by
  induction k with
  | zero => simp
  | succ k ih => rw [← Nat.add_assoc, bytesAt_succ, ih, pow_succ]; ring

namespace SamePage

theorem symm {a b : UInt64} {low high : Nat} (h : SamePage a b low high) :
    SamePage b a low high :=
  fun k lower upper => (h k lower upper).symm

theorem trans {a b c : UInt64} {low high : Nat} (h : SamePage a b low high)
    (h' : SamePage b c low high) : SamePage a c low high :=
  fun k lower upper => (h k lower upper).trans (h' k lower upper)

theorem mono {a b : UInt64} {low mid high : Nat} (h : SamePage a b low high) (le : low ≤ mid) :
    SamePage a b mid high := by
  intro k lower upper
  exact h k (le.trans lower) upper

theorem of_div_eq {a b : UInt64} {low : Nat} (high : Nat)
    (same : a.toNat / bytesAt low = b.toNat / bytesAt low) : SamePage a b low high := by
  intro k lower _
  obtain ⟨j, rfl⟩ := Nat.exists_eq_add_of_le lower
  apply Fin.ext
  simp only [slotIndex, bytesAt_add, ← Nat.div_div_eq_div_mul, same]

/-- Counted in pages, the addresses agree up to the range that the levels span. -/
theorem iff_mod (a b : UInt64) (low k : Nat) : SamePage a b low (low + k) ↔
    a.toNat / bytesAt low % 512 ^ (k + 1) = b.toNat / bytesAt low % 512 ^ (k + 1) := by
  induction k with
  | zero =>
    rw [Nat.add_zero, self_iff, ← Fin.val_inj]
    rfl
  | succ k ih =>
    rw [← Nat.add_assoc, succ_iff (Nat.le_add_right low k), ih, pow_succ _ (k + 1),
      mod_mul_eq_iff, Nat.div_div_eq_div_mul, Nat.div_div_eq_div_mul, ← bytesAt_add, ← Fin.val_inj]
    rfl

/-- Below the root, addresses of 48 bits lie in one page if their quotients are the same. -/
theorem root_iff {a b : UInt64} {low : Nat} (inside : low ≤ rootLevel) :
    SamePage a b low rootLevel ↔
      a.toNat % 2 ^ 48 / bytesAt low = b.toNat % 2 ^ 48 / bytesAt low := by
  obtain ⟨k, hk⟩ := Nat.exists_eq_add_of_le inside
  have span : 2 ^ 48 = bytesAt low * 512 ^ (k + 1) := by
    rw [← bytesAt_add, ← Nat.add_assoc, ← hk]
    rfl
  rw [hk, iff_mod, span, Nat.mod_mul_right_div_self, Nat.mod_mul_right_div_self]

end SamePage

/-- An offset inside a page is added to its start. -/
theorem toNat_or_offset_of_dvd {va : UInt64} {level n : Nat} (aligned : bytesAt level ∣ va.toNat)
    (small : n < bytesAt level) (word : n < 2 ^ 64) :
    (va ||| UInt64.ofNat n).toNat = va.toNat + n := by
  obtain ⟨k, start⟩ := aligned
  rw [UInt64.toNat_or, UInt64.toNat_ofNat', Nat.mod_eq_of_lt word, start]
  exact (Nat.two_pow_add_eq_or_of_lt small k).symm

end TlpBridge
