import TlpBridge.Proofs.Iommu.CountedPages
import TlpBridge.Proofs.Iommu.StablePages

/-!
# Invalidation

Whatever was done to the tables, a page of the PA table stands at the physical page of the virtual
page it leads to. So two pages that lead to a common address are one page, and an invalidation,
which looks for one page at a time and goes on behind it, takes away all that lead into its range
and no others.
-/
namespace TlpBridge

open PageSize

variable {A : IovaAllocator}

/-- The virtual addresses that a page leads to. -/
def CountedPage.target (p : CountedPage) : AddressRange := ⟨p.va.toNat, bytesAt p.level⟩

/-- Every page leads to a virtual page whose physical page it is. -/
def RadixTable.Traced (pa : RadixTable) : Prop :=
  ∀ (a : UInt64) (s : Nat) (l : Leaf), s ≤ rootLevel → pa.leafAt? a s = some l →
    ∃ size : PageSize, size.level = s ∧ size.bytes ∣ l.va.toNat ∧
      SamePage (physicalAddress l.va size) a s rootLevel

namespace RadixTable.Traced

variable {pa pa' : RadixTable}

theorem empty : RadixTable.empty.Traced := by
  intro a s l _ page
  simp [leafAt?_empty] at page

theorem of_leafAt? (h : pa.Traced) (kept : ∀ (a : UInt64) (s : Nat) (l : Leaf), s ≤ rootLevel →
    pa'.leafAt? a s = some l → pa.leafAt? a s = some l) : pa'.Traced :=
  fun a s l inside page => h a s l inside (kept a s l inside page)

theorem pin (h : pa.Traced) {va : UInt64} {size : PageSize} {r : Pinned RadixTable}
    (pinned : pa.pin (size.startOf (physicalAddress va size)) (size.startOf va) size.level =
      .ok r) : r.table.Traced := by
  intro a s l inside page
  have own := size.level_le_rootLevel
  rw [leafAt?_pin a inside own pinned] at page
  split_ifs at page with overlap same
  · subst same
    cases page
    rw [Nat.max_self] at overlap
    refine ⟨size, rfl, size.dvd_startOf va, ?_⟩
    have starts : SamePage (physicalAddress (size.startOf va) size) (physicalAddress va size)
        size.level rootLevel :=
      (samePage_physical_iff (Nat.le_refl _) (Nat.le_refl _) own).2 (size.samePage_startOf va)
    exact (starts.trans (size.samePage_startOf _).symm).trans overlap
  · exact h a s l inside page

end RadixTable.Traced

theorem div_eq_of_inside {m n c : Nat} (aligned : m ∣ n) (inside : n ≤ c ∧ c < n + m) :
    c / m = n / m := by
  obtain ⟨k, rfl⟩ := aligned
  have positive : 0 < m := by omega
  rw [Nat.mul_div_cancel_left k positive, Nat.div_eq_iff positive, Nat.mul_comm]
  omega

theorem samePage_of_inside {va : UInt64} {level c : Nat} (aligned : bytesAt level ∣ va.toNat)
    (fits : c < 2 ^ 64) (inside : va.toNat ≤ c ∧ c < va.toNat + bytesAt level) :
    SamePage va (UInt64.ofNat c) level rootLevel := by
  apply SamePage.of_div_eq
  rw [UInt64.toNat_ofNat', Nat.mod_eq_of_lt fits, div_eq_of_inside aligned inside]

namespace RadixTable

theorem level_unique {n : RadixTable} {a : UInt64} {s s' : Nat} {l l' : Leaf}
    (inside : s ≤ rootLevel) (page : n.leafAt? a s = some l) (inside' : s' ≤ rootLevel)
    (page' : n.leafAt? a s' = some l') : s = s' := by
  have found := (lookup_eq_some_iff n a ⟨l.va, s, l.count⟩).2 ⟨inside, page⟩
  have found' := (lookup_eq_some_iff n a ⟨l'.va, s', l'.count⟩).2 ⟨inside', page'⟩
  exact congrArg Mapping.level (Option.some_inj.1 (found.symm.trans found'))

variable {pa : RadixTable} {a b : UInt64} {s s' : Nat} {l l' : Leaf}

/-- Pages that lead to a common address are one page. -/
theorem Traced.unique (h : pa.Traced) (inside : s ≤ rootLevel) (page : pa.leafAt? a s = some l)
    (inside' : s' ≤ rootLevel) (page' : pa.leafAt? b s' = some l') {c : Nat} (fits : c < 2 ^ 64)
    (meets : l.va.toNat ≤ c ∧ c < l.va.toNat + bytesAt s)
    (meets' : l'.va.toNat ≤ c ∧ c < l'.va.toNat + bytesAt s') :
    s = s' ∧ SamePage a b s rootLevel := by
  have large := Nat.max_le.2 ⟨inside, inside'⟩
  obtain ⟨size, rfl, aligned, at_⟩ := h a s l inside page
  obtain ⟨size', rfl, aligned', at_'⟩ := h b s' l' inside' page'
  have virtual : SamePage l.va l'.va (max size.level size'.level) rootLevel :=
    ((samePage_of_inside aligned fits meets).mono (Nat.le_max_left ..)).trans
      ((samePage_of_inside aligned' fits meets').mono (Nat.le_max_right ..)).symm
  have physical : SamePage a b (max size.level size'.level) rootLevel :=
    (at_.mono (Nat.le_max_left ..)).symm.trans
      (((samePage_physical_iff (Nat.le_max_left ..) (Nat.le_max_right ..) large).2 virtual).trans
        (at_'.mono (Nat.le_max_right ..)))
  -- the larger of the two pages is found from either address
  rcases Nat.le_total size.level size'.level with smaller | larger
  · rw [Nat.max_eq_right smaller] at physical
    have same := level_unique inside page inside'
      ((leafAt?_congr pa physical inside').trans page')
    exact ⟨same, same ▸ physical⟩
  · rw [Nat.max_eq_left larger] at physical
    have same := level_unique inside ((leafAt?_congr pa physical inside).symm.trans page) inside'
      page'
    exact ⟨same, physical⟩

theorem Traced.exists_target (traced : pa.Traced) {w : UInt64}
    (leads : pa.translate a = some w) :
    ∃ p ∈ pa.pages, p.Holds a ∧ p.target.start ≤ w.toNat ∧ w.toNat < p.target.stop := by
  obtain ⟨s, inside, l, page, rfl⟩ := (translate_eq_some_iff pa a w).1 leads
  obtain ⟨size, rfl, aligned, -⟩ := traced a s l inside page
  have small : a.toNat % bytesAt size.level < bytesAt size.level := Nat.mod_lt _ (bytesAt_pos _)
  have word : a.toNat % bytesAt size.level < 2 ^ 64 :=
    Nat.lt_of_le_of_lt (Nat.mod_le ..) a.toNat_lt
  refine ⟨_, (leafAt?_eq_some_iff pa a inside l).1 page,
    (CountedPage.holds_iff _ a).2 rfl, ?_⟩
  rw [toNat_or_offset_of_dvd aligned small word]
  exact ⟨Nat.le_add_right .., Nat.add_lt_add_left small _⟩

end RadixTable

namespace Iommu

variable {pa : RadixTable} {b : UInt64} {s stop cursor : Nat} {l : Leaf}

theorem mappedSize?_ne_none (traced : pa.Traced) (inside : s ≤ rootLevel)
    (page : pa.leafAt? b s = some l)
    (meets : l.va.toNat ≤ cursor ∧ cursor < l.va.toNat + bytesAt s) :
    mappedSize? pa cursor ≠ none := by
  obtain ⟨size, rfl, aligned, at_⟩ := traced b s l inside page
  have start : size.pageOf cursor = l.va.toNat := by
    rw [pageOf, div_eq_of_inside aligned meets]
    exact Nat.div_mul_cancel aligned
  have own : pa.Leads (physicalPage l.va.toNat size) l.va size.level := by
    rw [physicalPage, UInt64.ofNat_toNat]
    have found := (RadixTable.leafAt?_congr pa at_ inside).trans page
    rw [RadixTable.Leads, ← physicalAddress, found, Option.map_some]
  intro unmapped
  have missed := List.find?_eq_none.1 unmapped size (by cases size <;> decide)
  simp only [and_comm (a := _ = size.level)] at missed
  apply missed
  rwa [RadixTable.lookup_any_iff inside, start, UInt64.ofNat_toNat]

theorem apart_of_remove (traced : pa.Traced) {size : PageSize} (inside : s ≤ rootLevel) {c : Nat}
    (mapped : mappedSize? pa cursor = some size) (lower : cursor ≤ c) (fits : c < 2 ^ 64)
    (near : c < size.pageOf cursor + size.bytes)
    (left :
      (pa.remove (physicalPage (size.pageOf cursor) size) size.level).2.leafAt? b s = some l) :
    ¬ (l.va.toNat ≤ c ∧ c < l.va.toNat + bytesAt s) := by
  intro meets
  rw [RadixTable.leafAt?_remove pa b inside size.level_le_rootLevel,
    Option.ite_none_left_eq_some] at left
  obtain ⟨l', found, leads⟩ := Option.map_eq_some_iff.1 (leads_of_mappedSize? mapped)
  have below : size.pageOf cursor ≤ cursor := Nat.div_mul_le_self ..
  have target : l'.va.toNat = size.pageOf cursor := by
    rw [leads, UInt64.toNat_ofNat', Nat.mod_eq_of_lt (by omega)]
  have near' : l'.va.toNat ≤ c ∧ c < l'.va.toNat + bytesAt size.level := by
    rw [target]
    exact ⟨below.trans lower, near⟩
  obtain ⟨rfl, same⟩ :=
    traced.unique size.level_le_rootLevel found inside left.2 fits near' meets
  exact left.1 ⟨rfl, same⟩

/-- What is left by a removal leads to no address of the range. -/
theorem apart_of_removeMapped (traced : pa.Traced) (start : size4K.bytes ∣ cursor)
    (inside : s ≤ rootLevel) (left : (removeMapped stop cursor pa).1.leafAt? b s = some l) {c : Nat}
    (fits : c < 2 ^ 64) (lower : cursor ≤ c) (upper : c < stop) :
    ¬ (l.va.toNat ≤ c ∧ c < l.va.toNat + bytesAt s) := by
  induction cursor, pa using removeMapped.induct stop with
  | case1 cursor pa below unmapped ih =>
    rw [removeMapped, if_pos below, unmapped] at left
    rcases Nat.lt_or_ge c (cursor + size4K.bytes) with near | far
    · -- a page of any size that leads here leads to the cursor too
      intro meets
      have page := leafAt?_of_removeMapped inside left
      obtain ⟨size, rfl, aligned, -⟩ := traced b s l inside page
      have whole : size4K.bytes ∣ l.va.toNat := (bytesAt_dvd (Nat.zero_le _)).trans aligned
      have reaches : l.va.toNat ≤ cursor := by
        have unit : size4K.bytes = 4096 := rfl
        rw [unit] at start whole near
        omega
      exact mappedSize?_ne_none traced inside page ⟨reaches, lower.trans_lt meets.2⟩ unmapped
    · exact ih traced (Nat.dvd_add start (Nat.dvd_refl _)) left far
  | case2 cursor pa below size mapped vaPage paPage ih =>
    rw [removeMapped, if_pos below, mapped] at left
    rcases Nat.lt_or_ge c (vaPage + size.bytes) with near | far
    · exact apart_of_remove traced inside mapped lower fits near
        (leafAt?_of_removeMapped inside left)
    · have shrunk : (pa.remove paPage size.level).2.Traced := by
        refine traced.of_leafAt? fun a s l inside page => ?_
        rw [RadixTable.leafAt?_remove pa a inside size.level_le_rootLevel] at page
        exact (Option.ite_none_left_eq_some.1 page).2
      have next : size4K.bytes ∣ vaPage + size.bytes := by
        have unit : size4K.bytes ∣ size.bytes := bytesAt_dvd (Nat.zero_le _)
        exact Nat.dvd_add (unit.trans (Nat.dvd_mul_left ..)) unit
      exact ih shrunk next left far
  | case3 cursor pa above => omega

theorem leafAt?_removeMapped_iff (traced : pa.Traced) (start : size4K.bytes ∣ cursor)
    (fits : stop ≤ 2 ^ 64) (inside : s ≤ rootLevel) :
    (removeMapped stop cursor pa).1.leafAt? b s = some l ↔
      pa.leafAt? b s = some l ∧
        ¬ AddressRange.Meets ⟨cursor, stop - cursor⟩ ⟨l.va.toNat, bytesAt s⟩ := by
  simp only [AddressRange.Meets, AddressRange.stop]
  constructor
  · intro left
    refine ⟨leafAt?_of_removeMapped inside left, fun meets => ?_⟩
    have apart := apart_of_removeMapped traced start inside left
      (c := max cursor l.va.toNat)
    omega
  · rintro ⟨page, apart⟩
    apply leafAt?_removeMapped inside page
    intro c lower upper size level same
    subst level
    have below : size.pageOf c ≤ c := Nat.div_mul_le_self ..
    have split := size.pageOf_add_mod c
    have small := Nat.mod_lt c size.bytes_pos
    have target : l.va.toNat = size.pageOf c := by
      rw [← same, UInt64.toNat_ofNat', Nat.mod_eq_of_lt (by omega)]
    rw [bytes] at small split
    omega

end Iommu

namespace PinnedTables

variable {s : PinnedTables A}

theorem traced_call (traced : s.tables.pa.Traced) (c : IommuCall) :
    (s.call c).tables.pa.Traced := by
  cases c with
  | pin va len => rwa [call, (s.tables.pin_pa_side va len).1]
  | unpin iova len => rwa [call, (s.tables.unpin_pa_side iova len).1]
  | translate iova => exact traced
  | physicalOf va =>
    rw [call]
    rcases s.tables.pa_physicalOf va with same | ⟨size, r, -, -, pinned, next⟩
    · rwa [same]
    · rw [next]
      exact traced.pin pinned
  | virtualOf pa => exact traced
  | invalidate va len => exact traced.of_leafAt? fun _ _ _ => Iommu.leafAt?_of_removeMapped
  | terminate =>
    rw [call, s.tables.terminate_eq]
    exact RadixTable.Traced.empty
  | remap source => exact traced

theorem traced_run (traced : s.tables.pa.Traced) (calls : List IommuCall) :
    (s.run calls).tables.pa.Traced := by
  induction calls generalizing s with
  | nil => exact traced
  | cons c calls ih => exact ih (traced_call traced c)

end PinnedTables

namespace Iommu

variable {t : Iommu A} {va len : UInt64}

theorem leafAt?_invalidate_iff (traced : t.pa.Traced) (bound : va.toNat + len.toNat < 2 ^ 63)
    {b : UInt64} {s : Nat} {l : Leaf} (inside : s ≤ rootLevel) :
    (t.invalidate va len).state.pa.leafAt? b s = some l ↔ t.pa.leafAt? b s = some l ∧
      ¬ (invalidatedRange va len).Meets ⟨l.va.toNat, bytesAt s⟩ := by
  have stop : min (va.toNat + len.toNat) (2 ^ (64 : Nat) - 1) = va.toNat + len.toNat :=
    Nat.min_eq_left (by omega)
  rw [Iommu.invalidate, stop]
  exact leafAt?_removeMapped_iff traced (Nat.dvd_mul_left ..) (by omega) inside

theorem pages_invalidate (traced : t.pa.Traced) (bound : va.toNat + len.toNat < 2 ^ 63) :
    (t.invalidate va len).state.pa.pages =
      t.pa.pages.filter fun p => ¬ (invalidatedRange va len).Meets p.target := by
  ext p
  rw [Finset.mem_filter, RadixTable.mem_pages_iff, RadixTable.mem_pages_iff]
  constructor
  · rintro ⟨inside, fits, page⟩
    obtain ⟨before, apart⟩ := (leafAt?_invalidate_iff traced bound inside).1 page
    exact ⟨⟨inside, fits, before⟩, apart⟩
  · rintro ⟨⟨inside, fits, before⟩, apart⟩
    exact ⟨inside, fits, (leafAt?_invalidate_iff traced bound inside).2 ⟨before, apart⟩⟩

end Iommu

namespace PinnedTables

/-- Invalidation removes exactly the pages of the PA table that lead into its range. So no address
is led into the range any more, those that were led elsewhere still are, and the device addresses
are as before. -/
theorem run_invalidate (options : Switches) (map : MemoryMap) (calls : List IommuCall)
    (va len : UInt64) (bound : va.toNat + len.toNat < 2 ^ 63) :
    let s : PinnedTables A := (start options map).run calls
    let t := s.call (.invalidate va len)
    t.tables.pa.pages =
        s.tables.pa.pages.filter (fun p => ¬ (invalidatedRange va len).Meets p.target) ∧
      (∀ pa w, t.tables.virtualOf pa = some w →
        ¬ (va.toNat ≤ w.toNat ∧ w.toNat < va.toNat + len.toNat)) ∧
      (∀ pa, (∀ p ∈ s.tables.pa.pages, p.Holds pa → ¬ (invalidatedRange va len).Meets p.target) →
        t.tables.virtualOf pa = s.tables.virtualOf pa) ∧
      t.tables.iova = s.tables.iova ∧
      ∀ iova, t.tables.translate iova = s.tables.translate iova := by
  intro s t
  have traced : s.tables.pa.Traced := traced_run RadixTable.Traced.empty calls
  have pages : t.tables.pa.pages =
      s.tables.pa.pages.filter (fun p => ¬ (invalidatedRange va len).Meets p.target) :=
    Iommu.pages_invalidate traced bound
  refine ⟨pages, ?_, ?_, rfl, fun _ => rfl⟩
  · intro pa w leads within
    obtain ⟨p, member, -, target⟩ := (traced_call traced _).exists_target leads
    have kept : p ∈ t.tables.pa.pages := member
    rw [pages, Finset.mem_filter] at kept
    have whole : size4K.pageOf va.toNat ≤ va.toNat := Nat.div_mul_le_self ..
    apply kept.2
    simp only [AddressRange.Meets, AddressRange.stop, invalidatedRange] at target ⊢
    omega
  · intro pa spared
    refine RadixTable.translate_congr_pages fun p holds => ?_
    rw [pages, Finset.mem_filter]
    exact ⟨And.left, fun member => ⟨member, spared p member holds⟩⟩

/-- A page of 2 MiB and one of 4 KiB are mapped; an invalidation inside the small one takes it away
and leaves the other. -/
theorem run_invalidate_two_pages :
    let map : MemoryMap := { ranges := [⟨0x200000, 0x400000, 2048⟩, ⟨0x1000, 0x2000, 4⟩] }
    let s : PinnedTables FirstFit.allocator :=
      (start {} map).run [.physicalOf 0x312345, .physicalOf 0x1234]
    let t := s.call (.invalidate 0x1800 0x100)
    (0x1800 : UInt64).toNat + (0x100 : UInt64).toNat < 2 ^ 63 ∧
      s.tables.virtualOf 0x7fffffffe834 = some 0x1834 ∧
      t.tables.virtualOf 0x7fffffffe834 ≠ some 0x1834 ∧
      t.tables.virtualOf 0x7fffffd12345 = some 0x312345 := by
  intro map s t
  have bound : (0x1800 : UInt64).toNat + (0x100 : UInt64).toNat < 2 ^ 63 := by decide
  have small : s.tables.virtualOf 0x7fffffffe834 = some 0x1834 := by decide +kernel
  have large : s.tables.virtualOf 0x7fffffd12345 = some 0x312345 := by decide +kernel
  have apart : ∀ p ∈ s.tables.pa.pages, p.Holds 0x7fffffd12345 →
      ¬ (invalidatedRange 0x1800 0x100).Meets p.target := by decide +kernel
  obtain ⟨-, gone, kept, -⟩ :=
    run_invalidate {} map [.physicalOf 0x312345, .physicalOf 0x1234] 0x1800 0x100 bound
  refine ⟨bound, small, ?_, (kept _ apart).trans large⟩
  intro leads
  exact gone _ _ leads (by decide)

end PinnedTables

end TlpBridge
