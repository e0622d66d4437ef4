import Mathlib.Tactic
import TlpBridge.Word.Field

/-!
# Assembled DWORDs

A DWORD that is assembled from fields which do not overlap gives every value back, cut
off at the width of its field. Placing a value adds it to bits that were clear, so no
carry leaves the field.
-/
namespace TlpBridge

namespace Field

/-- Neither field has a bit of the other. -/
def Apart (f g : Field) : Prop := f.lsb + f.width ≤ g.lsb ∨ g.lsb + g.width ≤ f.lsb

instance (f g : Field) : Decidable (f.Apart g) := inferInstanceAs (Decidable (_ ∨ _))

/-- The bits of a number at the place of the field. -/
def window (f : Field) (n : Nat) : Nat := n / 2 ^ f.lsb % 2 ^ f.width

theorem read_eq_window (f : Field) (dword : UInt32) : f.read dword = f.window dword.toNat := rfl

theorem window_zero (f : Field) : f.window 0 = 0 := by
  simp [window]

theorem testBit_window (f : Field) (n i : Nat) :
    (f.window n).testBit i = (decide (i < f.width) && n.testBit (f.lsb + i)) := by
  rw [window, Nat.testBit_mod_two_pow, Nat.testBit_div_two_pow, Nat.add_comm]

theorem window_mod (f : Field) (n : Nat) {k : Nat} (h : f.lsb + f.width ≤ k) :
    f.window (n % 2 ^ k) = f.window n := by
  apply Nat.eq_of_testBit_eq
  intro i
  rw [testBit_window, testBit_window, Nat.testBit_mod_two_pow]
  by_cases hi : i < f.width
  · have : f.lsb + i < k := by omega
    simp [hi, this]
  · simp [hi]

theorem place_add_div (f : Field) (v n : Nat) :
    (f.place v + n) / 2 ^ f.lsb = v % 2 ^ f.width + n / 2 ^ f.lsb := by
  rw [place, Nat.add_comm, Nat.add_mul_div_right _ _ (Nat.two_pow_pos _), Nat.add_comm]

theorem window_place_add (f : Field) (v : Nat) {n : Nat} (clear : f.window n = 0) :
    f.window (f.place v + n) = v % 2 ^ f.width := by
  rw [window] at clear
  rw [window, place_add_div, Nat.add_mod, clear, Nat.add_zero, Nat.mod_mod, Nat.mod_mod]

theorem window_place_add_of_apart {f g : Field} (apart : f.Apart g) (v : Nat) {n : Nat}
    (clear : f.window n = 0) : g.window (f.place v + n) = g.window n := by
  rcases apart with above | below
  · -- above the field both numbers have the same quotient, as the field itself takes the sum
    have quotient : (f.place v + n) / 2 ^ (f.lsb + f.width) = n / 2 ^ (f.lsb + f.width) := by
      rw [window] at clear
      rw [pow_add, ← Nat.div_div_eq_div_mul, ← Nat.div_div_eq_div_mul, place_add_div]
      have small : v % 2 ^ f.width < 2 ^ f.width := Nat.mod_lt _ (Nat.two_pow_pos _)
      obtain ⟨h, hh⟩ := Nat.dvd_of_mod_eq_zero clear
      rw [hh, Nat.add_mul_div_left _ _ (Nat.two_pow_pos _), Nat.div_eq_of_lt small,
        Nat.mul_div_cancel_left _ (Nat.two_pow_pos _), Nat.zero_add]
    obtain ⟨d, hd⟩ := Nat.exists_eq_add_of_le above
    rw [window, window, hd, pow_add, ← Nat.div_div_eq_div_mul, ← Nat.div_div_eq_div_mul, quotient]
  · have remainder : (f.place v + n) % 2 ^ f.lsb = n % 2 ^ f.lsb := by
      rw [place, Nat.add_comm, Nat.add_mul_mod_self_right]
    rw [← window_mod g _ below, remainder, window_mod g _ below]

end Field

/-- The sum of the placed values, of which `assemble` makes a DWORD. -/
def placedSum (parts : List (Field × Nat)) : Nat :=
  parts.foldr (fun p n => p.1.place p.2 + n) 0

theorem placedSum_cons (p : Field × Nat) (parts : List (Field × Nat)) :
    placedSum (p :: parts) = p.1.place p.2 + placedSum parts := rfl

/-- A field apart from every part stays clear. -/
theorem window_placedSum_of_apart {parts : List (Field × Nat)}
    (apart : parts.Pairwise fun p q => p.1.Apart q.1) {g : Field}
    (outside : ∀ p ∈ parts, p.1.Apart g) : g.window (placedSum parts) = 0 := by
  induction parts generalizing g with
  | nil => exact g.window_zero
  | cons p parts ih =>
    have ⟨first, rest⟩ := List.pairwise_cons.1 apart
    have clear : p.1.window (placedSum parts) = 0 :=
      ih rest fun q hq => Or.symm (first q hq)
    rw [placedSum_cons, Field.window_place_add_of_apart (outside p (by simp)) _ clear]
    exact ih rest fun q hq => outside q (by simp [hq])

theorem window_placedSum {parts : List (Field × Nat)}
    (apart : parts.Pairwise fun p q => p.1.Apart q.1) {f : Field} {v : Nat}
    (member : (f, v) ∈ parts) : f.window (placedSum parts) = v % 2 ^ f.width := by
  induction parts with
  | nil => simp at member
  | cons p parts ih =>
    have ⟨first, rest⟩ := List.pairwise_cons.1 apart
    have clear : p.1.window (placedSum parts) = 0 :=
      window_placedSum_of_apart rest fun q hq => Or.symm (first q hq)
    rw [placedSum_cons]
    rcases List.mem_cons.1 member with rfl | later
    · exact Field.window_place_add _ _ clear
    · rw [Field.window_place_add_of_apart (first _ later) _ clear]
      exact ih rest later

/-- Fields that can stand side by side in one DWORD. -/
def FitTogether (fields : List Field) : Prop :=
  fields.Pairwise Field.Apart ∧ ∀ f ∈ fields, f.lsb + f.width ≤ 32

instance (fields : List Field) : Decidable (FitTogether fields) :=
  inferInstanceAs (Decidable (_ ∧ _))

theorem FitTogether.apart {fields : List Field} (fit : FitTogether fields)
    {parts : List (Field × Nat)} (named : parts.map Prod.fst = fields) :
    parts.Pairwise fun p q => p.1.Apart q.1 := by
  rw [← List.pairwise_map, named]
  exact fit.1

theorem read_assemble {fields : List Field} (fit : FitTogether fields)
    {parts : List (Field × Nat)} (named : parts.map Prod.fst = fields) {f : Field} {v : Nat}
    (member : (f, v) ∈ parts) : f.read (assemble parts) = v % 2 ^ f.width := by
  have reduced : (assemble parts).toNat = placedSum parts % 2 ^ 32 := UInt32.toNat_ofNat'
  have inside : f.lsb + f.width ≤ 32 :=
    fit.2 f (named ▸ List.mem_map.2 ⟨(f, v), member, rfl⟩)
  rw [Field.read_eq_window, reduced, Field.window_mod f _ inside,
    window_placedSum (fit.apart named) member]

/-- Bit `k` of a DWORD belongs to the field. -/
def Field.Covers (f : Field) (k : Nat) : Prop := f.lsb ≤ k ∧ k < f.lsb + f.width

instance (f : Field) (k : Nat) : Decidable (f.Covers k) := inferInstanceAs (Decidable (_ ∧ _))

theorem Field.testBit_of_covers {f : Field} {k : Nat} (covers : f.Covers k) (n : Nat) :
    n.testBit k = (f.window n).testBit (k - f.lsb) := by
  have inside : k - f.lsb < f.width := by
    unfold Field.Covers at covers
    omega
  rw [f.testBit_window, Nat.add_sub_cancel' covers.1, decide_eq_true inside, Bool.true_and]

/-- A DWORD without the bits outside the listed fields. -/
def onlyFields (fields : List Field) (dword : UInt32) : UInt32 :=
  assemble (fields.map fun f => (f, f.read dword))

/-- Parts that agree with a DWORD on their fields are put together to what it holds there. -/
theorem assemble_eq_onlyFields {parts : List (Field × Nat)} {dword : UInt32}
    (agree : ∀ p ∈ parts, p.2 % 2 ^ p.1.width = p.1.read dword) :
    assemble parts = onlyFields (parts.map Prod.fst) dword := by
  have sums : placedSum parts =
      placedSum ((parts.map Prod.fst).map fun f => (f, f.read dword)) := by
    induction parts with
    | nil => rfl
    | cons p parts ih =>
      have first : p.1.place p.2 = p.1.place (p.1.read dword) := by
        rw [Field.place, Field.place, agree p (by simp), Nat.mod_eq_of_lt (p.1.read_lt dword)]
      rw [List.map_cons, List.map_cons, placedSum_cons, placedSum_cons, first,
        ih fun q hq => agree q (by simp [hq])]
  exact congrArg UInt32.ofNat sums

theorem testBit_onlyFields {fields : List Field} (fit : FitTogether fields) (dword : UInt32)
    (k : Nat) : (onlyFields fields dword).toNat.testBit k =
      (decide (∃ f ∈ fields, f.Covers k) && dword.toNat.testBit k) := by
  have named : (fields.map fun f => (f, f.read dword)).map Prod.fst = fields := by
    simp [Function.comp_def]
  have reduced : (onlyFields fields dword).toNat =
      placedSum (fields.map fun f => (f, f.read dword)) % 2 ^ 32 := UInt32.toNat_ofNat'
  by_cases covered : ∃ f ∈ fields, f.Covers k
  · obtain ⟨f, member, covers⟩ := covered
    have same : f.read (onlyFields fields dword) = f.read dword := by
      rw [onlyFields, read_assemble fit named (List.mem_map.2 ⟨f, member, rfl⟩),
        Nat.mod_eq_of_lt (f.read_lt dword)]
    rw [decide_eq_true ⟨f, member, covers⟩, Bool.true_and, Field.testBit_of_covers covers,
      Field.testBit_of_covers covers, ← Field.read_eq_window, same, Field.read_eq_window]
  · -- the bit alone is a field apart from every listed one
    have apart : ∀ p ∈ fields.map fun f => (f, f.read dword), p.1.Apart ⟨k, 1⟩ := by
      intro p hp
      obtain ⟨f, member, rfl⟩ := List.mem_map.1 hp
      have outside : ¬ f.Covers k := fun covers => covered ⟨f, member, covers⟩
      unfold Field.Covers at outside
      unfold Field.Apart
      simp only
      omega
    have clear := window_placedSum_of_apart (fit.apart named) apart
    have bit : (placedSum (fields.map fun f => (f, f.read dword))).testBit k = false := by
      rw [Field.testBit_of_covers (f := ⟨k, 1⟩) ⟨Nat.le_refl k, Nat.lt_succ_self k⟩, clear]
      simp
    rw [decide_eq_false covered, Bool.false_and, reduced, Nat.testBit_mod_two_pow, bit,
      Bool.and_false]

@[simp] theorem onlyFields_nil (dword : UInt32) : onlyFields [] dword = 0 := rfl

@[simp] theorem onlyFields_whole (dword : UInt32) : onlyFields [⟨0, 32⟩] dword = dword := by
  have whole : (⟨0, 32⟩ : Field).place ((⟨0, 32⟩ : Field).read dword) + 0 = dword.toNat := by
    have bound := dword.toNat_lt
    simp only [Field.place, Field.read]
    omega
  rw [onlyFields, List.map_cons, List.map_nil, assemble, List.foldr_cons, List.foldr_nil, whole,
    UInt32.ofNat_toNat]

end TlpBridge
