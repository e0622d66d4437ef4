import TlpBridge.Proofs.Iommu.RadixPages

/-!
# The listing of a radix table

The pages that a table lists are those it has, each once, in ascending order and apart
from each other.
-/
namespace TlpBridge

open PageSize

/-- What a slot at an address adds to the listing, with that of its subtree. -/
def Slot.entries {α : Type} (level addr : Nat) (below : α → List Occupied) :
    Slot α → List Occupied
  | .empty => []
  | .leaf l => [⟨level, addr, some l⟩]
  | .table t => ⟨level, addr, none⟩ :: below t

theorem Slot.mem_entries_iff {α : Type} {level addr : Nat} {below : α → List Occupied}
    {slot : Slot α} {o : Occupied} {f : Leaf} (page : o.leaf? = some f) :
    o ∈ slot.entries level addr below ↔
      (o.level = level ∧ o.addr = addr ∧ slot.page? = some f) ∨
        ∃ t, slot = .table t ∧ o ∈ below t := by
  rcases o with ⟨l, a, leaf⟩
  obtain rfl : leaf = some f := page
  cases slot with
  | empty => simp [entries, page?]
  | leaf l => simp [entries, page?, eq_comm]
  | table t => simp [entries, page?]

namespace Node

variable {α : Type}

/-- The listing of a node, with those of its subtrees. -/
def entries (level base : Nat) (below : Nat → α → List Occupied) (n : Node α) : List Occupied :=
  n.toList.zipIdx.flatMap fun p =>
    p.1.entries level (base + p.2 * bytesAt level) (below (base + p.2 * bytesAt level))

theorem mem_entries_iff (level base : Nat) (below : Nat → α → List Occupied) (n : Node α)
    (o : Occupied) : o ∈ n.entries level base below ↔
      ∃ i : Fin 512, o ∈ (getElem n i i.isLt).entries level (base + i * bytesAt level)
        (below (base + i * bytesAt level)) := by
  simp only [entries, List.mem_flatMap, Prod.exists, List.mem_zipIdx_iff_getElem?]
  constructor
  · rintro ⟨slot, k, found, member⟩
    obtain ⟨hk, rfl⟩ := List.getElem?_eq_some_iff.1 found
    have hk : k < 512 := by simpa using hk
    exact ⟨⟨k, hk⟩, by simpa using member⟩
  · rintro ⟨i, member⟩
    exact ⟨n[i], i, by simp, member⟩

/-- The pages in the slots of a node, by the address where each starts. -/
theorem exists_page_iff {level base a : Nat} (n : Node α) {f : Leaf}
    (aligned : bytesAt (level + 1) ∣ base) (fits : base + bytesAt (level + 1) ≤ 2 ^ 64) :
    (∃ i : Fin 512, a = base + i * bytesAt level ∧ (getElem n i i.isLt).page? = some f) ↔
      bytesAt level ∣ a ∧ (base ≤ a ∧ a < base + bytesAt (level + 1)) ∧
        n.leaf? (slotIndex (UInt64.ofNat a) level) = some f := by
  have positive := bytesAt_pos level
  have slots := bytesAt_succ level
  constructor
  · rintro ⟨i, rfl, page⟩
    have room : i * bytesAt level + bytesAt level ≤ bytesAt (level + 1) := by
      rw [slots, ← Nat.succ_mul]
      exact Nat.mul_le_mul_right _ i.isLt
    have inside : base ≤ base + i * bytesAt level ∧
        base + i * bytesAt level < base + bytesAt (level + 1) := by omega
    have index := (slotIndex_eq_iff aligned inside (by omega) i).2 (by omega)
    refine ⟨?_, inside, ?_⟩
    · exact Nat.dvd_add ((bytesAt_dvd (Nat.le_succ level)).trans aligned) (Nat.dvd_mul_left ..)
    · rw [index, leaf?_eq_page?, page]
  · rintro ⟨start, inside, page⟩
    have range := (slotIndex_eq_iff aligned inside (by omega) _).1 rfl
    refine ⟨slotIndex (UInt64.ofNat a) level, ?_, by rw [← leaf?_eq_page?, page]⟩
    have slotStart : bytesAt level ∣ base + slotIndex (UInt64.ofNat a) level * bytesAt level :=
      Nat.dvd_add ((bytesAt_dvd (Nat.le_succ level)).trans aligned) (Nat.dvd_mul_left ..)
    obtain ⟨p, hp⟩ := start
    obtain ⟨q, hq⟩ := slotStart
    rw [hq] at range ⊢
    -- two multiples less than one page apart
    have upper : p < q + 1 := by
      apply Nat.lt_of_mul_lt_mul_left (a := bytesAt level)
      rw [Nat.mul_add_one, ← hp]
      exact range.2
    have lower : q < p + 1 := by
      apply Nat.lt_of_mul_lt_mul_left (a := bytesAt level)
      rw [Nat.mul_add_one, ← hp]
      omega
    rw [hp, show p = q by omega]

/-- Entries of a slot lie in the range of the slot, if those of its subtree do. -/
theorem range_of_mem_slot {level addr : Nat} {below : α → List Occupied} {slot : Slot α}
    {o : Occupied} (inside : ∀ t, o ∈ below t →
      addr ≤ o.addr ∧ o.addr + bytesAt o.level ≤ addr + bytesAt level)
    (listed : o ∈ slot.entries level addr below) :
    addr ≤ o.addr ∧ o.addr + bytesAt o.level ≤ addr + bytesAt level := by
  cases slot with
  | empty => simp [Slot.entries] at listed
  | leaf l =>
    obtain rfl : o = ⟨level, addr, some l⟩ := by simpa [Slot.entries] using listed
    exact ⟨Nat.le_refl _, Nat.le_refl _⟩
  | table t =>
    rcases List.mem_cons.1 listed with rfl | lower
    · exact ⟨Nat.le_refl _, Nat.le_refl _⟩
    · exact inside t lower

theorem range_of_mem_entries {level base : Nat} {below : Nat → α → List Occupied} {n : Node α}
    {o : Occupied} (inside : ∀ {addr} t, o ∈ below addr t →
      addr ≤ o.addr ∧ o.addr + bytesAt o.level ≤ addr + bytesAt level)
    (listed : o ∈ n.entries level base below) :
    base ≤ o.addr ∧ o.addr + bytesAt o.level ≤ base + bytesAt (level + 1) := by
  obtain ⟨i, member⟩ := (mem_entries_iff ..).1 listed
  have range := range_of_mem_slot (fun t => inside t) member
  have room : i * bytesAt level + bytesAt level ≤ bytesAt (level + 1) := by
    rw [bytesAt_succ, ← Nat.succ_mul]
    exact Nat.mul_le_mul_right _ i.isLt
  omega

theorem entries_ascending {level base : Nat} {below : Nat → α → List Occupied} {n : Node α}
    (inside : ∀ {addr o} t, o ∈ below addr t →
      addr ≤ o.addr ∧ o.addr + bytesAt o.level ≤ addr + bytesAt level)
    (ascending : ∀ {addr} t, ((below addr t).filter (·.leaf?.isSome)).Pairwise
      fun o p => o.addr + bytesAt o.level ≤ p.addr) :
    ((n.entries level base below).filter (·.leaf?.isSome)).Pairwise
      fun o p => o.addr + bytesAt o.level ≤ p.addr := by
  rw [entries, List.filter_flatMap, List.pairwise_flatMap]
  constructor
  · rintro ⟨slot, i⟩ -
    cases slot with
    | empty => exact List.Pairwise.nil
    | leaf l => exact List.pairwise_singleton _ _
    | table t => exact ascending t
  · have indices : n.toList.zipIdx.Pairwise fun p q => p.2 < q.2 := by
      rw [← List.pairwise_map, List.zipIdx_map_snd]
      exact List.pairwise_lt_range'
    refine indices.imp ?_
    rintro ⟨slot, i⟩ ⟨slot', j⟩ before o listed p later
    have upper := (range_of_mem_slot (fun t => inside t) (List.mem_filter.1 listed).1).2
    have lower := (range_of_mem_slot (fun t => inside t) (List.mem_filter.1 later).1).1
    have gap : i * bytesAt level + bytesAt level ≤ j * bytesAt level := by
      rw [← Nat.succ_mul]
      exact Nat.mul_le_mul_right _ before
    simp only at upper lower
    omega

end Node

namespace Tree

theorem occupied_zero (base : Nat) (n : Node Empty) :
    occupied base 0 n = n.entries 0 base fun _ e => e.elim := by
  change n.toList.zipIdx.flatMap _ = n.toList.zipIdx.flatMap _
  congr 1
  funext ⟨slot, i⟩
  cases slot with
  | empty => rfl
  | leaf l => rfl
  | table t => exact t.elim

theorem occupied_succ (base level : Nat) (n : Node (Tree level)) :
    occupied base (level + 1) n =
      n.entries (level + 1) base fun addr t => occupied addr level t := by
  unfold Node.entries
  rw [occupied]
  congr 1
  funext ⟨slot, i⟩
  cases slot with
  | empty => rfl
  | leaf l => rfl
  | table t => rfl

theorem mem_occupied_zero {base : Nat} {n : Node Empty} {o : Occupied} {f : Leaf}
    (page : o.leaf? = some f) : o ∈ occupied base 0 n ↔
      o.level = 0 ∧
        ∃ i : Fin 512, o.addr = base + i * bytesAt 0 ∧ (getElem n i i.isLt).page? = some f := by
  rw [occupied_zero, Node.mem_entries_iff]
  simp only [Slot.mem_entries_iff page, IsEmpty.exists_iff, or_false, exists_and_left]

theorem mem_occupied_succ {base level : Nat} {n : Node (Tree level)} {o : Occupied} {f : Leaf}
    (page : o.leaf? = some f) : o ∈ occupied base (level + 1) n ↔
      (o.level = level + 1 ∧
        ∃ i : Fin 512, o.addr = base + i * bytesAt (level + 1) ∧
          (getElem n i i.isLt).page? = some f) ∨
      ∃ (i : Fin 512) (t : Tree level), getElem n i i.isLt = .table t ∧
        o ∈ occupied (base + i * bytesAt (level + 1)) level t := by
  rw [occupied_succ, Node.mem_entries_iff]
  simp only [Slot.mem_entries_iff page, exists_or, exists_and_left]

theorem exists_table_of_leafAt? {b : UInt64} {s level : Nat} {slot : Slot (Tree level)} {f : Leaf}
    (page : leafAt? b s level (slot.subtree (blank level)) = some f) :
    ∃ t, slot = .table t ∧ leafAt? b s level t = some f := by
  cases slot with
  | empty => simp [Slot.subtree] at page
  | leaf l => simp [Slot.subtree] at page
  | table t => exact ⟨t, rfl, page⟩

/-- The pages in a listing are those that the tree has at the addresses where pages start. -/
theorem mem_occupied_iff {level base : Nat} {n : Tree level} {o : Occupied} {f : Leaf}
    (aligned : bytesAt (level + 1) ∣ base) (fits : base + bytesAt (level + 1) ≤ 2 ^ 64)
    (page : o.leaf? = some f) :
    o ∈ occupied base level n ↔
      o.level ≤ level ∧ bytesAt o.level ∣ o.addr ∧
        (base ≤ o.addr ∧ o.addr < base + bytesAt (level + 1)) ∧
        leafAt? (UInt64.ofNat o.addr) o.level level n = some f := by
  induction level generalizing base with
  | zero =>
    change Node Empty at n
    refine (mem_occupied_zero page).trans ?_
    rw [Node.exists_page_iff _ aligned fits, Nat.le_zero]
    constructor
    · rintro ⟨bottom, found⟩
      rw [bottom]
      exact ⟨rfl, found⟩
    · rintro ⟨bottom, found⟩
      rw [bottom] at found
      exact ⟨bottom, found⟩
  | succ level ih =>
    change Node (Tree level) at n
    refine (mem_occupied_succ page).trans ?_
    rw [Node.exists_page_iff _ aligned fits]
    have slots := bytesAt_succ (level + 1)
    have child (i : Fin 512) : bytesAt (level + 1) ∣ base + i * bytesAt (level + 1) ∧
        i * bytesAt (level + 1) + bytesAt (level + 1) ≤ bytesAt (level + 1 + 1) := by
      constructor
      · exact Nat.dvd_add ((bytesAt_dvd (Nat.le_succ _)).trans aligned) (Nat.dvd_mul_left ..)
      · rw [slots, ← Nat.succ_mul]
        exact Nat.mul_le_mul_right _ i.isLt
    constructor
    · rintro (⟨top, start, inside, found⟩ | ⟨i, t, table, listed⟩)
      · rw [top]
        exact ⟨Nat.le_refl _, start, inside, (leafAt?_root _ n).trans found⟩
      · obtain ⟨below, start, ⟨least, less⟩, found⟩ :=
          (ih (child i).1 (by have := (child i).2; omega)).1 listed
        have room := (child i).2
        have inside : base ≤ o.addr ∧ o.addr < base + bytesAt (level + 1 + 1) := by omega
        have index := (slotIndex_eq_iff aligned inside (by omega) i).2 ⟨least, less⟩
        refine ⟨Nat.le_succ_of_le below, start, inside, (leafAt?_below _ n below).trans ?_⟩
        rw [index, Node.descend_eq_subtree, table]
        exact found
    · rintro ⟨level_le, start, inside, found⟩
      rcases Nat.lt_or_eq_of_le level_le with deeper | top
      · right
        have below : o.level ≤ level := Nat.le_of_lt_succ deeper
        have range := (slotIndex_eq_iff aligned inside (by omega) _).1 rfl
        have found := (leafAt?_below _ n below).symm.trans found
        rw [Node.descend_eq_subtree] at found
        obtain ⟨t, table, found⟩ := exists_table_of_leafAt? found
        have room := (child (slotIndex (UInt64.ofNat o.addr) (level + 1))).2
        exact ⟨_, t, table, (ih (child _).1 (by omega)).2 ⟨below, start, range, found⟩⟩
      · left
        rw [top] at start found
        exact ⟨top, start, inside, (leafAt?_root _ n).symm.trans found⟩

theorem range_of_mem_occupied {level base : Nat} {n : Tree level} {o : Occupied}
    (listed : o ∈ occupied base level n) :
    base ≤ o.addr ∧ o.addr + bytesAt o.level ≤ base + bytesAt (level + 1) := by
  induction level generalizing base with
  | zero =>
    change Node Empty at n
    rw [occupied_zero] at listed
    exact Node.range_of_mem_entries (fun e => e.elim) listed
  | succ level ih =>
    change Node (Tree level) at n
    rw [occupied_succ] at listed
    exact Node.range_of_mem_entries (fun t member => ih member) listed

/-- The pages in a listing ascend and do not overlap. -/
theorem occupied_ascending (base level : Nat) (n : Tree level) :
    ((occupied base level n).filter (·.leaf?.isSome)).Pairwise
      fun o p => o.addr + bytesAt o.level ≤ p.addr := by
  induction level generalizing base with
  | zero =>
    change Node Empty at n
    rw [occupied_zero]
    exact Node.entries_ascending (fun e => e.elim) (fun e => e.elim)
  | succ level ih =>
    change Node (Tree level) at n
    rw [occupied_succ]
    exact Node.entries_ascending (fun t member => range_of_mem_occupied member) (fun t => ih _ t)

end Tree

namespace RadixTable

theorem mem_occupied_iff {n : RadixTable} {o : Occupied} {f : Leaf} (page : o.leaf? = some f) :
    o ∈ n.occupied ↔ o.level ≤ rootLevel ∧ bytesAt o.level ∣ o.addr ∧ o.addr < 2 ^ 48 ∧
      n.leafAt? (UInt64.ofNat o.addr) o.level = some f := by
  have span : bytesAt (rootLevel + 1) = 2 ^ 48 := rfl
  refine (Tree.mem_occupied_iff (Nat.dvd_zero _) (by rw [span]; decide) page).trans ?_
  rw [span, Nat.zero_add]
  simp only [Nat.zero_le, true_and]
  rfl

theorem occupied_ascending (n : RadixTable) :
    (n.occupied.filter (·.leaf?.isSome)).Pairwise fun o p => o.addr + bytesAt o.level ≤ p.addr :=
  Tree.occupied_ascending 0 rootLevel n.root

end RadixTable

end TlpBridge
