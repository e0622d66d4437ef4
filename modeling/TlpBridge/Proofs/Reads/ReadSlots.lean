import Mathlib.Tactic
import TlpBridge.Engine.FromDevice

/-!
# Slots of reads

What a slot holds after each operation on the pool. A slot is taken only while it is
idle, and the request of its last read stays in it until another read takes it.
-/
namespace TlpBridge.SlotPool

/-- The request in a slot. -/
def request? (s : SlotPool) (slot : Nat) : Option Header := (s.states[slot]?).bind (·.request)

/-- Every free slot exists. -/
def FreeExist (s : SlotPool) : Prop := ∀ slot ∈ s.free, slot < s.states.size

theorem isBusy_congr {s s' : SlotPool} (same : s'.states = s.states) (slot : Nat) :
    s'.isBusy slot = s.isBusy slot := by
  rw [isBusy, isBusy, same]

theorem request?_congr {s s' : SlotPool} (same : s'.states = s.states) (slot : Nat) :
    s'.request? slot = s.request? slot := by
  rw [request?, request?, same]

theorem lt_size_of_isBusy {s : SlotPool} {slot : Nat} (busy : s.isBusy slot) :
    slot < s.states.size := by
  by_contra outside
  simp [isBusy, Array.getElem?_eq_none (Nat.le_of_not_lt outside)] at busy

theorem request?_setBusy (s : SlotPool) (slot : Nat) (busy : Bool) (other : Nat) :
    (s.setBusy slot busy).request? other = s.request? other := by
  simp only [setBusy, request?, Array.getElem?_modify]
  by_cases same : slot = other
  · subst same
    cases s.states[slot]? <;> simp
  · simp [same]

theorem request?_occupy (s : SlotPool) (slot cycle : Nat) (request : Header) (other : Nat)
    (inside : slot < s.states.size) :
    (s.occupy slot cycle request).request? other =
      if other = slot then some request else s.request? other := by
  simp only [occupy, request?, Array.getElem?_modify]
  by_cases same : slot = other
  · subst same
    simp [inside]
  · simp [same, Ne.symm same]

theorem release_eq (s : SlotPool) (slot : Nat) : (s.release slot).states =
    (s.setBusy slot false).states := by
  by_cases busy : s.isBusy slot
  · rw [release, if_pos busy]
  · rw [release, if_neg busy]
    apply Array.ext_getElem?
    intro i
    simp only [setBusy, Array.getElem?_modify]
    by_cases same : slot = i
    · subst same
      cases state : s.states[slot]? with
      | none => simp
      | some st =>
        have idle : st.busy = false := by simpa [isBusy, state] using busy
        rcases st with ⟨_, _, _⟩
        simp_all
    · simp [same]

theorem request?_release (s : SlotPool) (slot other : Nat) :
    (s.release slot).request? other = s.request? other := by
  rw [request?, release_eq]
  exact s.request?_setBusy slot false other

theorem isBusy_release (s : SlotPool) (slot other : Nat) :
    (s.release slot).isBusy other = (decide (other ≠ slot) && s.isBusy other) := by
  rw [isBusy, release_eq]
  change (s.setBusy slot false).isBusy other = _
  rw [isBusy_setBusy]
  by_cases same : other = slot <;> simp [same]

theorem freeExist_release {s : SlotPool} (h : s.FreeExist) (slot : Nat) :
    (s.release slot).FreeExist := by
  intro k member
  rw [size_release]
  by_cases busy : s.isBusy slot
  · rw [release, if_pos busy] at member
    by_cases mapped : s.mapped
    · simp only [mapped, if_true, List.mem_cons] at member
      rcases member with rfl | old
      · exact lt_size_of_isBusy busy
      · exact h k old
    · simp only [mapped] at member
      exact h k member
  · rw [release, if_neg busy] at member
    exact h k member

theorem request?_ofCount (n : Nat) (mapped : Bool) (slot : Nat) :
    (ofCount n mapped).request? slot = none := by
  rw [request?, ofCount, Array.getElem?_replicate]
  split <;> rfl

theorem freeExist_ofCount (n : Nat) (mapped : Bool) : (ofCount n mapped).FreeExist := by
  intro slot member
  simpa [ofCount] using member

end TlpBridge.SlotPool

namespace TlpBridge.Engine

/-- A slot is chosen only if it is idle. -/
theorem chooseSlot_spec {s s' : SlotPool} {tag slot : Nat} (free : s.FreeExist)
    (inside : tag < s.states.size) (chosen : chooseSlot s tag = .ok (slot, s')) :
    s.isBusy slot = false ∧ slot < s.states.size ∧ s'.states = s.states ∧ s'.FreeExist := by
  unfold chooseSlot at chosen
  by_cases mapped : s.mapped
  · rw [if_pos mapped, SlotPool.takeFree?] at chosen
    cases list : s.free with
    | nil =>
      rw [list] at chosen
      cases chosen
    | cons k rest =>
      rw [list] at chosen
      simp only at chosen
      have idle : SlotPool.isBusy { s with free := rest } k = s.isBusy k := rfl
      by_cases busy : s.isBusy k
      · rw [idle, if_pos busy] at chosen
        cases chosen
      · rw [idle, if_neg busy] at chosen
        obtain ⟨rfl, rfl⟩ := Prod.mk.injEq .. ▸ Except.ok.inj chosen
        refine ⟨by simpa using busy, free k (by simp [list]), rfl, ?_⟩
        intro j member
        exact free j (by simp [list, member])
  · rw [if_neg mapped] at chosen
    by_cases busy : s.isBusy tag
    · rw [if_pos busy] at chosen
      cases chosen
    · rw [if_neg busy] at chosen
      obtain ⟨rfl, rfl⟩ := Prod.mk.injEq .. ▸ Except.ok.inj chosen
      exact ⟨by simpa using busy, inside, rfl, free⟩

end TlpBridge.Engine
