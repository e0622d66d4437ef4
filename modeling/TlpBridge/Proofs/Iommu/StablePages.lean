import TlpBridge.Proofs.Iommu.PhysicalPages
import TlpBridge.Proofs.Iommu.PinnedTables

/-!
# Stable physical addresses

Where the ranges of a memory map consist of whole pages and do not overlap, a virtual
address has one physical address for good, and no other has it. The PA table then only
holds pages of the map, each at the physical page of its own, so that mapping a page
never puts another aside; only invalidation and teardown take one away.
-/
namespace TlpBridge

open PageSize

variable {A : IovaAllocator}

/-- The ranges have no address in common. -/
def MappedRange.Apart (r s : MappedRange) : Prop := ∀ va, ¬ (r.contains va ∧ s.contains va)

instance : Std.Symm MappedRange.Apart := ⟨fun _ _ apart va both => apart va both.symm⟩

/-- Ranges of whole pages that do not overlap, below 48 bits. -/
structure MemoryMap.Paged (m : MemoryMap) : Prop where
  below : ∀ r ∈ m.ranges, r.stop.toNat ≤ 2 ^ 48
  aligned : ∀ r ∈ m.ranges, ∀ size, PageSize.ofPageKb r.pageKb = .ok size →
    size.bytes ∣ r.start.toNat ∧ size.bytes ∣ r.stop.toNat
  apart : m.ranges.Pairwise MappedRange.Apart

/-- The map has pages of this size at an address. -/
def MemoryMap.Backs (m : MemoryMap) (va : UInt64) (size : PageSize) : Prop :=
  ∃ r ∈ m.ranges, r.contains va ∧ PageSize.ofPageKb r.pageKb = .ok size

theorem MappedRange.contains_iff (r : MappedRange) (va : UInt64) :
    r.contains va ↔ r.start.toNat ≤ va.toNat ∧ va.toNat < r.stop.toNat := by
  simp [contains, UInt64.le_iff_toNat_le, UInt64.lt_iff_toNat_lt]

theorem MappedRange.contains_congr {r : MappedRange} {size : PageSize} {va va' : UInt64}
    (aligned : size.bytes ∣ r.start.toNat ∧ size.bytes ∣ r.stop.toNat)
    (same : va.toNat / size.bytes = va'.toNat / size.bytes) (holds : r.contains va) :
    r.contains va' := by
  obtain ⟨⟨first, start⟩, ⟨last, stop⟩⟩ := aligned
  have positive := size.bytes_pos
  rw [contains_iff, start, stop] at holds ⊢
  rw [Nat.mul_comm, Nat.mul_comm _ last, ← Nat.le_div_iff_mul_le positive,
    ← Nat.div_lt_iff_lt_mul positive] at holds ⊢
  rwa [← same]

namespace MemoryMap.Paged

variable {m : MemoryMap} {v w : UInt64} {s t : PageSize}

theorem lt (h : m.Paged) (backed : m.Backs v s) : v.toNat < 2 ^ 48 := by
  obtain ⟨r, member, holds, -⟩ := backed
  exact ((r.contains_iff v).1 holds).2.trans_le (h.below r member)

theorem backs_congr (h : m.Paged) (same : v.toNat / s.bytes = w.toNat / s.bytes)
    (backed : m.Backs v s) : m.Backs w s := by
  obtain ⟨r, member, holds, sized⟩ := backed
  exact ⟨r, member, r.contains_congr (h.aligned r member s sized) same holds, sized⟩

theorem size_unique (h : m.Paged) (backed : m.Backs v s) (backed' : m.Backs v t) : s = t := by
  obtain ⟨r, member, holds, sized⟩ := backed
  obtain ⟨r', member', holds', sized'⟩ := backed'
  have same : r = r' := by
    by_contra different
    exact h.apart.forall member member' different v ⟨holds, holds'⟩
  exact Except.ok.inj (sized.symm.trans (same ▸ sized'))

/-- Physical pages overlap only if they are those of one virtual page. -/
theorem page_unique (h : m.Paged) (backed : m.Backs v s) (backed' : m.Backs w t)
    (overlap : SamePage (physicalAddress v s) (physicalAddress w t) (max s.level t.level)
      rootLevel) : s = t ∧ v.toNat / t.bytes = w.toNat / t.bytes := by
  have inside := Nat.max_le.2 ⟨s.level_le_rootLevel, t.level_le_rootLevel⟩
  have virtual :=
    (samePage_physical_iff (Nat.le_max_left ..) (Nat.le_max_right ..) inside).1 overlap
  rw [SamePage.root_iff inside, Nat.mod_eq_of_lt (h.lt backed), Nat.mod_eq_of_lt (h.lt backed')]
    at virtual
  rcases Nat.le_total s.level t.level with smaller | larger
  · rw [Nat.max_eq_right smaller] at virtual
    exact ⟨h.size_unique backed (h.backs_congr virtual.symm backed'), virtual⟩
  · rw [Nat.max_eq_left larger] at virtual
    have same := h.size_unique (h.backs_congr virtual backed) backed'
    exact ⟨same, same ▸ virtual⟩

theorem physicalAddress_injective (h : m.Paged) (backed : m.Backs v s) (backed' : m.Backs w t)
    (same : physicalAddress v s = physicalAddress w t) : v = w := by
  have overlap : SamePage (physicalAddress v s) (physicalAddress w t) (max s.level t.level)
      rootLevel := fun _ _ _ => same ▸ rfl
  obtain ⟨rfl, -⟩ := h.page_unique backed backed' overlap
  exact (UInt64.xor_left_inj _).1 same

end MemoryMap.Paged

/-- The PA table holds pages of the map, each at its own physical page. -/
structure Iommu.Regular (t : Iommu A) (m : MemoryMap) : Prop where
  searched : ∀ r ∈ t.pageSizes.searched, r ∈ m.ranges
  pages : ∀ (a : UInt64) (s : Nat) (l : Leaf), s ≤ rootLevel → t.pa.leafAt? a s = some l →
    ∃ v size, m.Backs v size ∧ size.level = s ∧ l.va = size.startOf v ∧
      SamePage (physicalAddress v size) a s rootLevel

namespace Iommu.Regular

variable {m : MemoryMap} {t : Iommu A} {va : UInt64} {size : PageSize}

theorem start (options : Switches) (m : MemoryMap) :
    (ofMemoryMap options m : Iommu A).Regular m where
  searched r member := by simpa [PageSizes.searched, ofMemoryMap] using member
  pages a s l _ page := by
    have none_ : (ofMemoryMap options m : Iommu A).pa.leafAt? a s = none :=
      RadixTable.leafAt?_empty a s
    simp [none_] at page

theorem congr (h : t.Regular m) {t' : Iommu A} (pa : t'.pa = t.pa)
    (searched : ∀ r ∈ t'.pageSizes.searched, r ∈ t.pageSizes.searched) : t'.Regular m where
  searched r member := h.searched r (searched r member)
  pages := pa ▸ h.pages

theorem backs (h : t.Regular m) (sized : (t.pageSizes.sizeAt va).1 = .ok (some size)) :
    m.Backs va size := by
  rcases PageSizes.sizeAt_ok_cases sized with ⟨r, member, holds, s, supported, same⟩ | ⟨-, none_⟩
  · cases same
    exact ⟨r, h.searched r member, holds, supported⟩
  · cases none_

theorem page_unique (h : t.Regular m) (paged : m.Paged) (backed : m.Backs va size) {a : UInt64}
    {s : Nat} {l : Leaf} (inside : s ≤ rootLevel) (page : t.pa.leafAt? a s = some l)
    (overlap : SamePage a (physicalAddress va size) (max s size.level) rootLevel) :
    s = size.level ∧ l.va = size.startOf va := by
  obtain ⟨v, own, backed', rfl, leads, at_⟩ := h.pages a s l inside page
  have both := (at_.mono (Nat.le_max_left own.level size.level)).trans overlap
  obtain ⟨rfl, same⟩ := paged.page_unique backed' backed both
  refine ⟨rfl, leads.trans ?_⟩
  rw [startOf, pageOf, same]
  rfl

theorem free (h : t.Regular m) (paged : m.Paged) (backed : m.Backs va size)
    (fresh : ¬ t.Placed va size) {a : UInt64} {s : Nat} {l : Leaf} (inside : s ≤ rootLevel)
    (page : t.pa.leafAt? a s = some l) :
    ¬ SamePage a (physicalAddress va size) (max s size.level) rootLevel := by
  intro overlap
  obtain ⟨rfl, leads⟩ := h.page_unique paged backed inside page overlap
  rw [Nat.max_self] at overlap
  have found := (RadixTable.leafAt?_congr t.pa overlap inside).symm.trans page
  apply fresh
  rw [Placed, RadixTable.Leads, found, Option.map_some, leads]

theorem pin_ne_error (h : t.Regular m) (paged : m.Paged) (backed : m.Backs va size)
    (fresh : ¬ t.Placed va size) (e : IommuError) :
    t.pa.pin (size.startOf (physicalAddress va size)) (size.startOf va) size.level ≠ .error e := by
  have inside := size.level_le_rootLevel
  intro full
  obtain ⟨-, l, page, -⟩ := (RadixTable.pin_eq_error_iff _ _ inside).1 full
  apply h.free paged backed fresh inside page
  rw [Nat.max_self]
  exact size.samePage_startOf _

variable {r : Pinned RadixTable}

theorem leafAt?_pin (h : t.Regular m) (paged : m.Paged) (backed : m.Backs va size)
    (fresh : ¬ t.Placed va size)
    (pinned : t.pa.pin (size.startOf (physicalAddress va size)) (size.startOf va) size.level =
      .ok r) {a : UInt64} {s : Nat} {l : Leaf} (inside : s ≤ rootLevel)
    (page : t.pa.leafAt? a s = some l) : r.table.leafAt? a s = some l := by
  rw [RadixTable.leafAt?_pin a inside size.level_le_rootLevel pinned, if_neg]
  · exact page
  · intro overlap
    have start := (size.samePage_startOf (physicalAddress va size)).mono
      (Nat.le_max_right s size.level)
    exact h.free paged backed fresh inside page (overlap.symm.trans start)

theorem pinned (h : t.Regular m) (backed : m.Backs va size)
    (pinned : t.pa.pin (size.startOf (physicalAddress va size)) (size.startOf va) size.level =
      .ok r) {t' : Iommu A} (table : t'.pa = r.table)
    (searched : ∀ r ∈ t'.pageSizes.searched, r ∈ t.pageSizes.searched) : t'.Regular m where
  searched r member := h.searched r (searched r member)
  pages a s l inside page := by
    rw [table, RadixTable.leafAt?_pin a inside size.level_le_rootLevel pinned] at page
    split_ifs at page with overlap own
    · subst own
      cases page
      rw [Nat.max_self] at overlap
      exact ⟨va, size, backed, rfl, rfl, (size.samePage_startOf _).symm.trans overlap⟩
    · exact h.pages a s l inside page

theorem searched_physicalOf (t : Iommu A) (va : UInt64) :
    ∀ r ∈ (t.physicalOf va).state.pageSizes.searched, r ∈ t.pageSizes.searched := by
  intro r member
  rw [pageSizes_physicalOf] at member
  exact PageSizes.mem_searched_of_sizeAt member

theorem physicalOf (h : t.Regular m) (va : UInt64) :
    (t.physicalOf va).state.Regular m := by
  have searched := searched_physicalOf t va
  rcases t.pa_physicalOf va with same | ⟨size, r, sized, -, pinned, next⟩
  · exact h.congr same searched
  · exact h.pinned (h.backs sized) pinned next searched

theorem answer_of_sized (h : t.Regular m) (paged : m.Paged)
    (sized : (t.pageSizes.sizeAt va).1 = .ok (some size)) :
    (t.physicalOf va).answer = .ok (some (physicalAddress va size, size)) := by
  rcases t.physicalOf_cases va with ⟨e, failed, -⟩ | ⟨nothing, -⟩ | ⟨s, found, outcome⟩
  · cases sized.symm.trans failed
  · cases sized.symm.trans nothing
  · cases sized.symm.trans found
    rcases outcome with ⟨-, ok, -⟩ | ⟨-, r, -, ok, -⟩ | ⟨fresh, e, full, -, -⟩
    · exact ok
    · exact ok
    · exact absurd full (h.pin_ne_error paged (h.backs sized) fresh e)

theorem physicalOf_ne_refcountOverflow (h : t.Regular m) (paged : m.Paged) (va a : UInt64) :
    (t.physicalOf va).answer ≠ .error (.refcountOverflow a) := by
  intro answer
  rcases t.physicalOf_cases va with ⟨e, sized, error, -⟩ | ⟨-, nothing, -⟩ | ⟨size, sized, -⟩
  · cases error.symm.trans answer
    exact PageSizes.sizeAt_ne_refcountOverflow a sized
  · cases nothing.symm.trans answer
  · cases (h.answer_of_sized paged sized).symm.trans answer

variable {w : UInt64} {own : PageSize}

theorem placed_physicalOf (h : t.Regular m) (paged : m.Paged) (placed : t.Placed w own)
    (va : UInt64) : (t.physicalOf va).state.Placed w own := by
  rcases t.pa_physicalOf va with same | ⟨size, r, sized, fresh, pinned, next⟩
  · rwa [Placed, same]
  · obtain ⟨l, page, leads⟩ := Option.map_eq_some_iff.1 placed
    have kept := h.leafAt?_pin paged (h.backs sized) fresh pinned own.level_le_rootLevel page
    rw [Placed, next, RadixTable.Leads, kept, Option.map_some, leads]

theorem invalidate (h : t.Regular m) (va len : UInt64) : (t.invalidate va len).state.Regular m where
  searched r member := h.searched r (List.mem_append_right _ (by
    simpa [Iommu.invalidate, PageSizes.forget, PageSizes.searched] using member))
  pages a s l inside page := h.pages a s l inside (leafAt?_of_removeMapped inside page)

theorem terminate (h : t.Regular m) : t.terminate.state.Regular m := by
  rw [t.terminate_eq]
  constructor
  case searched =>
    intro r member
    exact h.searched r (List.mem_append_right _ (by
      simpa [PageSizes.forget, PageSizes.searched] using member))
  case pages =>
    intro a s l _ page
    have none_ : RadixTable.empty.leafAt? a s = none := RadixTable.leafAt?_empty a s
    rw [none_] at page
    cases page

end Iommu.Regular

/-- The ranges have an address in common. -/
def AddressRange.Meets (r s : AddressRange) : Prop := max r.start s.start < min r.stop s.stop

instance (r s : AddressRange) : Decidable (r.Meets s) := inferInstanceAs (Decidable (_ < _))

/-- What an invalidation covers: its range, taken from the start of a page of 4 KiB. -/
def invalidatedRange (va len : UInt64) : AddressRange :=
  ⟨size4K.pageOf va.toNat, va.toNat + len.toNat - size4K.pageOf va.toNat⟩

/-- The page of a size that holds an address. -/
def PageSize.rangeOf (s : PageSize) (va : UInt64) : AddressRange := ⟨s.pageOf va.toNat, s.bytes⟩

/-- A page that an invalidation does not reach stays placed. -/
theorem Iommu.Placed.invalidate {t : Iommu A} {w : UInt64} {size : PageSize}
    (placed : t.Placed w size) {va len : UInt64}
    (spared : ¬ (invalidatedRange va len).Meets (size.rangeOf w)) :
    (t.invalidate va len).state.Placed w size := by
  obtain ⟨l, page, leads⟩ := Option.map_eq_some_iff.1 placed
  have kept : (t.invalidate va len).state.pa.leafAt? (physicalAddress w size) size.level =
      some l := by
    apply leafAt?_removeMapped size.level_le_rootLevel page
    intro c lower upper s level same
    obtain rfl := level_injective level
    have word : c < 2 ^ 64 := by omega
    have start : s.pageOf c = s.pageOf w.toNat := by
      have starts := congrArg UInt64.toNat (same.trans leads)
      rw [toNat_startOf, UInt64.toNat_ofNat', Nat.mod_eq_of_lt] at starts
      · exact starts
      · exact Nat.lt_of_le_of_lt (Nat.div_mul_le_self ..) word
    have split := s.pageOf_add_mod c
    have small := Nat.mod_lt c s.bytes_pos
    apply spared
    simp only [AddressRange.Meets, AddressRange.stop, invalidatedRange, rangeOf]
    omega
  rw [Placed, RadixTable.Leads, kept, Option.map_some, leads]

namespace IommuCall

/-- The memory map stays, and no invalidation runs over the end of the address space. -/
def KeepsMap : IommuCall → Prop
  | .remap _ => False
  | .invalidate va len => va.toNat + len.toNat < 2 ^ 63
  | _ => True

instance : DecidablePred KeepsMap
  | .remap _ => inferInstanceAs (Decidable False)
  | .invalidate .. => inferInstanceAs (Decidable (_ < _))
  | .pin .. | .unpin .. | .translate _ | .physicalOf _ | .virtualOf _ | .terminate =>
    inferInstanceAs (Decidable True)

/-- The call leaves the translations of a virtual page alone. -/
def Spares (page : AddressRange) : IommuCall → Prop
  | .invalidate va len => ¬ (invalidatedRange va len).Meets page
  | .terminate => False
  | _ => True

instance (page : AddressRange) : DecidablePred (Spares page)
  | .invalidate .. => inferInstanceAs (Decidable (¬ _))
  | .terminate => inferInstanceAs (Decidable False)
  | .pin .. | .unpin .. | .translate _ | .physicalOf _ | .virtualOf _ | .remap _ =>
    inferInstanceAs (Decidable True)

end IommuCall

namespace Iommu

theorem pin_pa_side (t : Iommu A) (va len : UInt64) :
    (t.pin va len).state.pa = t.pa ∧ (t.pin va len).state.pageSizes = t.pageSizes := by
  rcases t.pin_cases va len with ⟨e, space, refused, -⟩ | ⟨_, _, _, _, pins⟩
  · simp only [refused, and_self]
  · simp only [pins.state, and_self]

theorem unpin_pa_side (t : Iommu A) (iova len : UInt64) :
    (t.unpin iova len).state.pa = t.pa ∧ (t.unpin iova len).state.pageSizes = t.pageSizes := by
  rcases t.unpin_cases iova len with ⟨e, refused, -⟩ | ⟨_, _, _, _, _, _, _, _, next⟩
  · simp only [refused, and_self]
  · simp only [next, and_self]

end Iommu

namespace PinnedTables

variable {s : PinnedTables A} {m : MemoryMap} {w : UInt64} {size : PageSize}

/-- The invariant of every run with a fixed memory map. -/
theorem regular_call (h : s.tables.Regular m) {c : IommuCall} (keeps : c.KeepsMap) :
    (s.call c).tables.Regular m := by
  cases c with
  | pin va len =>
    obtain ⟨pa, pageSizes⟩ := s.tables.pin_pa_side va len
    exact h.congr pa (fun r member => pageSizes ▸ member)
  | unpin iova len =>
    obtain ⟨pa, pageSizes⟩ := s.tables.unpin_pa_side iova len
    exact h.congr pa (fun r member => pageSizes ▸ member)
  | translate iova => exact h
  | physicalOf va => exact h.physicalOf va
  | virtualOf pa => exact h
  | invalidate va len => exact h.invalidate va len
  | terminate => exact h.terminate
  | remap source => exact keeps.elim

theorem regular_run (h : s.tables.Regular m) {calls : List IommuCall}
    (keeps : ∀ c ∈ calls, c.KeepsMap) : (s.run calls).tables.Regular m := by
  induction calls generalizing s with
  | nil => exact h
  | cons c calls ih =>
    obtain ⟨first, rest⟩ := List.forall_mem_cons.1 keeps
    exact ih (regular_call h first) rest

theorem placed_call (h : s.tables.Regular m) (paged : m.Paged) (placed : s.tables.Placed w size)
    {c : IommuCall} (keeps : c.KeepsMap) (spares : c.Spares (size.rangeOf w)) :
    (s.call c).tables.Placed w size := by
  cases c with
  | pin va len => rwa [Iommu.Placed, call, (s.tables.pin_pa_side va len).1]
  | unpin iova len => rwa [Iommu.Placed, call, (s.tables.unpin_pa_side iova len).1]
  | translate iova => exact placed
  | physicalOf va => exact h.placed_physicalOf paged placed va
  | virtualOf pa => exact placed
  | invalidate va len => exact placed.invalidate spares
  | terminate => exact spares.elim
  | remap source => exact keeps.elim

theorem placed_run (h : s.tables.Regular m) (paged : m.Paged) (placed : s.tables.Placed w size)
    {calls : List IommuCall} (keeps : ∀ c ∈ calls, c.KeepsMap)
    (spares : ∀ c ∈ calls, c.Spares (size.rangeOf w)) : (s.run calls).tables.Placed w size := by
  induction calls generalizing s with
  | nil => exact placed
  | cons c calls ih =>
    obtain ⟨keepsFirst, keepsRest⟩ := List.forall_mem_cons.1 keeps
    obtain ⟨sparesFirst, sparesRest⟩ := List.forall_mem_cons.1 spares
    exact ih (regular_call h keepsFirst) (placed_call h paged placed keepsFirst sparesFirst)
      keepsRest sparesRest

/-- Over a fixed memory map of whole pages, asking for a physical address never fails for a pin
too many, no two virtual addresses are ever given one physical address, and a physical page leads
back to its virtual page until an invalidation that reaches it, or until teardown. -/
theorem run_stable (options : Switches) (map : MemoryMap) (paged : map.Paged)
    (calls : List IommuCall) (keeps : ∀ c ∈ calls, c.KeepsMap) (va : UInt64) :
    let s : PinnedTables A := (start options map).run calls
    (∀ a, (s.tables.physicalOf va).answer ≠ .error (.refcountOverflow a)) ∧
    ∀ pa size, (s.tables.physicalOf va).answer = .ok (some (pa, size)) →
      (∀ others : List IommuCall, (∀ c ∈ others, c.KeepsMap) → ∀ va' size',
        (((start options map : PinnedTables A).run others).tables.physicalOf va').answer =
          .ok (some (pa, size')) → va' = va) ∧
      ∀ later : List IommuCall, (∀ c ∈ later, c.KeepsMap) →
        (∀ c ∈ later, c.Spares (size.rangeOf va)) →
        let t := ((s.call (.physicalOf va)).run later).tables
        t.virtualOf pa = some va ∧
        ∀ p : UInt64, size.pageOf p.toNat = size.pageOf pa.toNat →
          t.virtualOf p = some (UInt64.ofNat (size.pageOf va.toNat + p.toNat % size.bytes)) := by
  intro s
  have first : (start options map : PinnedTables A).tables.Regular map :=
    Iommu.Regular.start options map
  have h : s.tables.Regular map := regular_run first keeps
  refine ⟨h.physicalOf_ne_refcountOverflow paged va, ?_⟩
  intro pa size answer
  obtain ⟨rfl, sized, placed⟩ := Iommu.placed_of_physicalOf answer
  have backed := h.backs sized
  constructor
  · intro others keepsOthers va' size' answer'
    have h' := regular_run first keepsOthers
    obtain ⟨same, sized', -⟩ := Iommu.placed_of_physicalOf answer'
    exact paged.physicalAddress_injective (h'.backs sized') backed same.symm
  · intro later keepsLater spares t
    have kept : t.Placed va size := placed_run (h.physicalOf va) paged placed keepsLater spares
    exact ⟨kept.virtualOf_self, fun p inside => kept.virtualOf inside⟩

/-- A page of 4 KiB and one of 2 MiB are asked for; the first is invalidated, the second stays. -/
theorem run_stable_two_pages :
    let map : MemoryMap := { ranges := [⟨0x200000, 0x400000, 2048⟩, ⟨0x1000, 0x2000, 4⟩] }
    let later : List IommuCall := [.physicalOf 0x1234, .invalidate 0x1000 0x1000]
    let s : PinnedTables FirstFit.allocator := start {} map
    map.Paged ∧ (∀ c ∈ later, c.KeepsMap) ∧ (∀ c ∈ later, c.Spares (size2M.rangeOf 0x312345)) ∧
      (s.tables.physicalOf 0x312345).answer = .ok (some (0x7fffffd12345, .size2M)) ∧
      ((s.call (.physicalOf 0x312345)).run later).tables.virtualOf 0x7fffffd12345 =
        some 0x312345 := by
  intro map later s
  have paged : map.Paged := by
    constructor
    case below => decide
    case aligned =>
      simp only [map, List.forall_mem_cons]
      refine ⟨?_, ?_, by simp⟩
      · rintro size ⟨⟩
        decide
      · rintro size ⟨⟩
        decide
    case apart =>
      simp only [map, List.pairwise_pair]
      rintro va ⟨large, small⟩
      rw [MappedRange.contains_iff] at large small
      have lower : 0x200000 ≤ va.toNat := large.1
      have upper : va.toNat < 0x2000 := small.2
      omega
  have keeps : ∀ c ∈ later, c.KeepsMap := by decide
  have spares : ∀ c ∈ later, c.Spares (size2M.rangeOf 0x312345) := by decide
  have sized : (s.tables.pageSizes.sizeAt 0x312345).1 = .ok (some .size2M) := rfl
  have address : physicalAddress 0x312345 .size2M = 0x7fffffd12345 := by decide
  have answer : (s.tables.physicalOf 0x312345).answer = _ :=
    (Iommu.Regular.start {} map).answer_of_sized paged sized
  rw [address] at answer
  have stable := ((run_stable {} map paged [] (by simp) 0x312345).2 _ _ answer).2 later keeps
    spares
  exact ⟨paged, keeps, spares, answer, stable.1⟩

/-- It is not enough that no invalidation has an address in common with the page: one of no bytes
from the middle of the page on takes it away. -/
theorem not_stable_of_apart : ¬ ∀ (map : MemoryMap) (later : List IommuCall) (va pa : UInt64)
    (size : PageSize), map.Paged → (∀ c ∈ later, c.KeepsMap) → .terminate ∉ later →
    (∀ v len, .invalidate v len ∈ later →
      ¬ AddressRange.Meets ⟨v.toNat, len.toNat⟩ (size.rangeOf va)) →
    let s : PinnedTables FirstFit.allocator := start {} map
    (s.tables.physicalOf va).answer = .ok (some (pa, size)) →
    ((s.call (.physicalOf va)).run later).tables.virtualOf pa = some va := by
  intro stable
  have paged : ({ ranges := [⟨0x1000, 0x2000, 4⟩] } : MemoryMap).Paged := by
    constructor
    case below => decide
    case aligned =>
      rw [List.forall_mem_singleton]
      rintro size ⟨⟩
      decide
    case apart => exact List.pairwise_singleton ..
  have apart (v len : UInt64) (member : .invalidate v len ∈ [IommuCall.invalidate 0x1800 0]) :
      ¬ AddressRange.Meets ⟨v.toNat, len.toNat⟩ (size4K.rangeOf 0x1000) := by
    cases List.mem_singleton.1 member
    decide
  let s : PinnedTables FirstFit.allocator := start {} { ranges := [⟨0x1000, 0x2000, 4⟩] }
  have sized : (s.tables.pageSizes.sizeAt 0x1000).1 = .ok (some .size4K) := rfl
  have address : physicalAddress 0x1000 .size4K = 0x7fffffffe000 := by decide
  have answer : (s.tables.physicalOf 0x1000).answer = _ :=
    (Iommu.Regular.start {} _).answer_of_sized paged sized
  rw [address] at answer
  have kept := stable _ [.invalidate 0x1800 0] 0x1000 0x7fffffffe000 .size4K paged (by decide)
    (by simp) apart answer
  have lost : ((s.call (.physicalOf 0x1000)).run [.invalidate 0x1800 0]).tables.virtualOf
      0x7fffffffe000 = none := by decide +kernel
  cases lost.symm.trans kept

end PinnedTables

end TlpBridge
