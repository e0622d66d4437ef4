import Mathlib.Tactic
import TlpBridge.Iommu.FirstFit

/-!
# Ranges of the IOVA space

What the calls of an allocator promise, and what the space of device addresses comes to under them:
its ranges lie apart from one another inside of 48 bits, and the window of interrupts is among them
from the start. Allocation by first fit keeps these promises.
-/
namespace TlpBridge

/-- What there is to see of the spaces of an allocator. -/
structure RangeAllocator.View (A : RangeAllocator) where
  /-- Where the addresses of a space lie. -/
  extent : A.Space → AddressRange
  /-- The ranges that were handed out and not given back. -/
  taken : A.Space → List AddressRange

/-- A space hands out a range: one of the asked size at a multiple of the alignment that lies in
the space apart from all that are taken, and is taken itself from then on. -/
structure RangeAllocator.View.HandsOut {A : RangeAllocator} (v : A.View) (size alignment : Nat)
    (policy : AllocationPolicy) (s : A.Space) (r : AddressRange) (s' : A.Space) : Prop where
  size_eq : r.size = size
  aligned : alignment ∣ r.start
  exact : ∀ start, policy = .exactMatch start → r.start = start
  inside : (v.extent s).start ≤ r.start ∧ r.stop ≤ (v.extent s).stop
  apart : ∀ q ∈ v.taken s, r.Apart q
  extent_eq : v.extent s' = v.extent s
  added : (v.taken s').Perm (r :: v.taken s)

/-- What the calls of an allocator promise. -/
structure RangeAllocator.Laws (A : RangeAllocator) (v : A.View) : Prop where
  /-- Two addresses of which the first is the lower one have a range between them, -/
  range_ok : ∀ first last, first < last → last.toNat < 2 ^ 64 - 1 →
    A.range first last = .ok ⟨first.toNat, last.toNat - first.toNat + 1⟩
  /-- and a range is always that between its two addresses. -/
  range_eq : ∀ first last r, A.range first last = .ok r →
    first ≤ last ∧ r = ⟨first.toNat, last.toNat - first.toNat + 1⟩
  created : ∀ base size s, A.create base size = .ok s → v.extent s = ⟨base, size⟩ ∧ v.taken s = []
  allocated : ∀ s size alignment policy r s',
    A.allocate s size alignment policy = (.ok r, s') → v.HandsOut size alignment policy s r s'
  /-- Where nothing is handed out nothing changes. -/
  refused : ∀ s size alignment policy e s', A.allocate s size alignment policy = (.error e, s') →
    s' = s
  /-- A range is given back in exactly the form in which it was handed out. -/
  freed : ∀ s, ∀ r ∈ v.taken s, ∃ s', A.free s r = (.ok (), s') ∧ v.extent s' = v.extent s ∧
    (v.taken s').Perm ((v.taken s).erase r)
  /-- Anything else is refused and changes nothing. -/
  kept : ∀ s r, r ∉ v.taken s → ∃ e, A.free s r = (.error e, s)

namespace IovaSpace

variable {A : RangeAllocator} {v : A.View} {s s' : A.Space} {r : AddressRange}

/-- A space of device addresses whose ranges are apart. -/
structure Kept (v : A.View) (s : A.Space) : Prop where
  extent_eq : v.extent s = ⟨0, limit⟩
  apart : (v.taken s).Pairwise AddressRange.Apart
  inside : ∀ r ∈ v.taken s, r.stop ≤ limit

theorem Kept.handsOut (kept : Kept v s) {size alignment : Nat} {policy : AllocationPolicy}
    (new : v.HandsOut size alignment policy s r s') : Kept v s' where
  extent_eq := new.extent_eq.trans kept.extent_eq
  apart := (new.added.pairwise_iff AddressRange.Apart.symm).2
    (List.pairwise_cons.2 ⟨new.apart, kept.apart⟩)
  inside q member := by
    rcases List.mem_cons.1 (new.added.mem_iff.1 member) with rfl | old
    · have bound := new.inside.2
      rw [kept.extent_eq] at bound
      simpa [AddressRange.stop] using bound
    · exact kept.inside q old

theorem Kept.erase (kept : Kept v s) (extent : v.extent s' = v.extent s)
    (erased : (v.taken s').Perm ((v.taken s).erase r)) : Kept v s' where
  extent_eq := extent.trans kept.extent_eq
  apart := (erased.pairwise_iff AddressRange.Apart.symm).2
    (kept.apart.sublist List.erase_sublist)
  inside q member := kept.inside q (List.mem_of_mem_erase (erased.mem_iff.1 member))

theorem not_mem_of_handsOut {size alignment : Nat} {policy : AllocationPolicy}
    (new : v.HandsOut size alignment policy s r s') (positive : 0 < size) : r ∉ v.taken s := by
  intro member
  have self := new.apart r member
  have filled := new.size_eq
  simp only [AddressRange.Apart, AddressRange.stop] at self
  omega

end IovaSpace

namespace RangeAllocator.Laws

open IovaSpace

variable {A : RangeAllocator} {v : A.View} {s : A.Space}

/-- A new space is one of device addresses of which the window of interrupts is taken. -/
theorem create_spec (laws : A.Laws v) (created : IovaSpace.create A = .ok s) :
    Kept v s ∧ (v.taken s).Perm [interruptWindow] := by
  unfold IovaSpace.create at created
  cases made : A.create 0 limit with
  | error e => simp [made] at created
  | ok empty =>
    obtain ⟨extent, nothing⟩ := laws.created 0 limit empty made
    have none_ : Kept v empty := ⟨extent, by simp [nothing], by simp [nothing]⟩
    simp only [made] at created
    generalize window : A.allocate empty _ _ _ = answer at created
    obtain ⟨e | r, s'⟩ := answer
    · cases created
    · obtain rfl := Except.ok.inj created
      have new := laws.allocated _ _ _ _ _ _ window
      refine ⟨none_.handsOut new, ?_⟩
      have window : r = interruptWindow := by
        obtain ⟨start, size⟩ := r
        exact congrArg₂ AddressRange.mk (new.exact _ rfl) new.size_eq
      rw [← window, ← nothing]
      exact new.added

variable {iova : UInt64} {bytes : Nat}

theorem toNat_last (positive : 0 < bytes) (fits : iova.toNat + bytes ≤ 2 ^ 64) :
    (iova + UInt64.ofNat bytes - 1).toNat = iova.toNat + bytes - 1 := by
  rw [UInt64.toNat_sub, UInt64.toNat_add, UInt64.toNat_ofNat', UInt64.toNat_one]
  omega

theorem giveBack_of_mem (laws : A.Laws v) (kept : Kept v s) (several : 1 < bytes)
    (taken : ⟨iova.toNat, bytes⟩ ∈ v.taken s) : ∃ s', giveBack A s iova bytes = (.ok (), s') ∧
      Kept v s' ∧ (v.taken s').Perm ((v.taken s).erase ⟨iova.toNat, bytes⟩) := by
  have below : iova.toNat + bytes ≤ 2 ^ 48 := kept.inside _ taken
  have last : (iova + UInt64.ofNat bytes - 1).toNat = iova.toNat + bytes - 1 :=
    toNat_last (by omega) (by omega)
  have range : A.range iova (iova + UInt64.ofNat bytes - 1) = .ok ⟨iova.toNat, bytes⟩ := by
    rw [laws.range_ok _ _ (UInt64.lt_iff_toNat_lt.2 (by omega)) (by omega), last]
    congr 2
    omega
  obtain ⟨s', freed, extent, erased⟩ := laws.freed s _ taken
  exact ⟨s', by simp only [giveBack, range, freed], kept.erase extent erased, erased⟩

theorem giveBack_of_not_mem (laws : A.Laws v) (positive : 0 < bytes) (bound : bytes ≤ 2 ^ 48)
    (absent : ⟨iova.toNat, bytes⟩ ∉ v.taken s) : ∃ e, giveBack A s iova bytes = (.error e, s) := by
  unfold giveBack
  cases range : A.range iova (iova + UInt64.ofNat bytes - 1) with
  | error e => exact ⟨e, rfl⟩
  | ok r =>
    obtain ⟨order, rfl⟩ := laws.range_eq _ _ _ range
    -- a last address that wrapped around would lie below the first
    have fits : iova.toNat + bytes ≤ 2 ^ 64 := by
      rw [UInt64.le_iff_toNat_le, UInt64.toNat_sub, UInt64.toNat_add, UInt64.toNat_ofNat',
        UInt64.toNat_one] at order
      omega
    have size : (iova + UInt64.ofNat bytes - 1).toNat - iova.toNat + 1 = bytes := by
      rw [toNat_last positive fits]
      omega
    rw [size]
    exact laws.kept s _ absent

end RangeAllocator.Laws

namespace FirstFit

def view : allocator.View := ⟨FirstFit.extent, FirstFit.taken⟩

theorem handsOut_of_allocate {s s' : FirstFit} {size alignment : Nat} {policy : AllocationPolicy}
    {r : AddressRange} (allocated : s.allocate size alignment policy = (.ok r, s')) :
    view.HandsOut size alignment policy s r s' := by
  unfold allocate at allocated
  split at allocated
  · next positive =>
    split at allocated
    · next new taken found =>
      obtain ⟨same, rfl⟩ := Prod.mk.inj allocated
      obtain rfl := Except.ok.inj same
      have placed := ascending_of_place positive found
      have apart : (new :: s.taken).Pairwise AddressRange.Apart :=
        (placed.added.pairwise_iff AddressRange.Apart.symm).1
          (placed.ascending.ordered.imp fun before => .inl before)
      exact ⟨placed.size_eq, placed.aligned, placed.exact,
        placed.ascending.inside new (placed.added.mem_iff.2 List.mem_cons_self),
        (List.pairwise_cons.1 apart).1, rfl, placed.added⟩
    · cases allocated
  · cases allocated

theorem eq_of_allocate_eq_error {s s' : FirstFit} {size alignment : Nat}
    {policy : AllocationPolicy} {e : AllocatorError}
    (refused : s.allocate size alignment policy = (.error e, s')) : s' = s := by
  unfold allocate at refused
  split at refused
  · split at refused
    · cases refused
    · exact (Prod.mk.inj refused).2.symm
  · exact (Prod.mk.inj refused).2.symm

theorem laws : allocator.Laws view where
  range_ok first last order top := by
    have between : ¬ (last < first ∨ first = 0 ∧ last = 0xffffffffffffffff) := by
      rw [UInt64.lt_iff_toNat_lt] at order ⊢
      rintro (below | ⟨-, rfl⟩)
      · omega
      · exact absurd top (by decide)
    exact if_neg between
  range_eq first last r found := by
    simp only [allocator, ranges, range] at found
    split at found
    · cases found
    · next between =>
      obtain rfl := Except.ok.inj found
      exact ⟨UInt64.not_lt.1 fun below => between (.inl below), rfl⟩
  created base size s made := by
    obtain rfl := Except.ok.inj made
    exact ⟨rfl, rfl⟩
  allocated _ _ _ _ _ _ found := handsOut_of_allocate found
  refused _ _ _ _ _ _ found := eq_of_allocate_eq_error found
  freed s r member := ⟨_, if_pos member, rfl, List.Perm.refl _⟩
  kept s r absent := ⟨_, if_neg absent⟩

end FirstFit

end TlpBridge
