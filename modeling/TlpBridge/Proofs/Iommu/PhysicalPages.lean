import Mathlib.Data.Nat.Bitwise
import TlpBridge.Proofs.Iommu.LivePins

/-!
# Physical pages

The physical address of a virtual address is found by flipping address bits above the
page offset. The mask depends on the size of the page, but masks of different sizes agree
above both offsets, so that pages overlap as physical pages only if they overlap as
virtual pages.
-/
namespace TlpBridge

open PageSize

variable {A : IovaAllocator}

theorem toNat_physicalMask (level : Nat) :
    (physicalMask level).toNat = (2 ^ 47 - 1) / bytesAt level * bytesAt level := by
  have small : (2 ^ 47 - 1) / bytesAt level * bytesAt level ≤ 2 ^ 47 - 1 := Nat.div_mul_le_self ..
  rw [physicalMask, UInt64.toNat_ofNat']
  exact Nat.mod_eq_of_lt (by omega)

/-- The physical address of a virtual address in a page of a size. -/
def physicalAddress (va : UInt64) (size : PageSize) : UInt64 := va ^^^ physicalMask size.level

namespace PageSize

/-- The start of the page of this size that holds an address, as an address. -/
def startOf (s : PageSize) (x : UInt64) : UInt64 := UInt64.ofNat (s.pageOf x.toNat)

theorem level_le_rootLevel (s : PageSize) : s.level ≤ rootLevel := Nat.le_of_lt s.level_lt_rootLevel

theorem toNat_startOf (s : PageSize) (x : UInt64) : (s.startOf x).toNat = s.pageOf x.toNat := by
  have small : s.pageOf x.toNat ≤ x.toNat := Nat.div_mul_le_self ..
  rw [startOf, UInt64.toNat_ofNat']
  exact Nat.mod_eq_of_lt (Nat.lt_of_le_of_lt small x.toNat_lt)

theorem dvd_startOf (s : PageSize) (x : UInt64) : s.bytes ∣ (s.startOf x).toNat := by
  rw [toNat_startOf]
  exact Nat.dvd_mul_left ..

theorem pageOf_add_mod (s : PageSize) (n : Nat) : s.pageOf n + n % s.bytes = n :=
  Nat.div_add_mod' n s.bytes

theorem samePage_startOf (s : PageSize) (x : UInt64) :
    SamePage (s.startOf x) x s.level rootLevel := by
  apply SamePage.of_div_eq
  rw [toNat_startOf]
  exact Nat.mul_div_cancel _ s.bytes_pos

end PageSize

theorem physicalAddress_div (x : UInt64) {size : PageSize} {high : Nat} (le : size.level ≤ high) :
    (physicalAddress x size).toNat / bytesAt high =
      x.toNat / bytesAt high ^^^ (2 ^ 47 - 1) / bytesAt high := by
  obtain ⟨k, rfl⟩ := Nat.exists_eq_add_of_le le
  have mask : (physicalMask size.level).toNat / bytesAt (size.level + k) =
      (2 ^ 47 - 1) / bytesAt (size.level + k) := by
    rw [toNat_physicalMask, bytesAt_add, ← Nat.div_div_eq_div_mul,
      Nat.mul_div_cancel _ (bytesAt_pos size.level), Nat.div_div_eq_div_mul]
  rw [physicalAddress, UInt64.toNat_xor, ← mask]
  exact Nat.xor_div_two_pow

theorem physicalAddress_mod (x : UInt64) (size : PageSize) :
    (physicalAddress x size).toNat % size.bytes = x.toNat % size.bytes := by
  have mask : (physicalMask size.level).toNat % size.bytes = 0 := by
    rw [toNat_physicalMask, bytes, Nat.mul_mod_left]
  rw [bytes, bytesAt] at mask ⊢
  rw [physicalAddress, UInt64.toNat_xor, Nat.xor_mod_two_pow, mask, Nat.xor_zero]

theorem samePage_physical_iff {x y : UInt64} {s t : PageSize} {k : Nat} (lower : s.level ≤ k)
    (lower' : t.level ≤ k) (inside : k ≤ rootLevel) :
    SamePage (physicalAddress x s) (physicalAddress y t) k rootLevel ↔
      SamePage x y k rootLevel := by
  obtain ⟨j, root⟩ := Nat.exists_eq_add_of_le inside
  have slots : 512 ^ (j + 1) = 2 ^ (9 * (j + 1)) := by
    rw [Nat.pow_mul]
  rw [root, SamePage.iff_mod, SamePage.iff_mod, physicalAddress_div x lower,
    physicalAddress_div y lower', slots, Nat.xor_mod_two_pow, Nat.xor_mod_two_pow]
  exact Nat.xor_left_inj

namespace PageSizes

variable {p : PageSizes} {va : UInt64} {size : PageSize}

/-- The ranges that an address is looked for in, first those that were read last. -/
def searched (p : PageSizes) : List MappedRange := p.known.getD [] ++ p.source.ranges

/-- Some range holds the address. -/
def Maps (p : PageSizes) (va : UInt64) : Prop := ∃ r ∈ p.searched, r.contains va

/-- An address is found in a known range, or else the source is read; it is found there, or
nowhere. -/
theorem sizeAt_cases (p : PageSizes) (va : UInt64) :
    (∃ r ∈ p.known.getD [], r.contains va ∧
      p.sizeAt va = ((PageSize.ofPageKb r.pageKb).map some, p)) ∨
    p.sizeAt va = (.error .memoryMap, { p with source := p.source.scan.2 }) ∨
    (∃ r ∈ p.source.ranges, r.contains va ∧ p.sizeAt va =
      ((PageSize.ofPageKb r.pageKb).map some, ⟨p.source.scan.2, some p.source.ranges⟩)) ∨
    (¬ p.Maps va ∧ p.sizeAt va = (.ok none, ⟨p.source.scan.2, some p.source.ranges⟩)) := by
  unfold sizeAt locate
  cases known : p.find? va with
  | some r =>
    obtain ⟨ranges, read, hit⟩ := Option.bind_eq_some_iff.1 known
    refine .inl ⟨r, ?_, by simpa using List.find?_some hit, rfl⟩
    rw [read]
    exact List.mem_of_find?_eq_some hit
  | none =>
    have absent : ∀ r ∈ p.known.getD [], ¬ r.contains va := by
      cases read : p.known with
      | none => simp
      | some ranges => simpa [find?, read] using known
    right
    cases readable : p.source.readable with
    | false =>
      left
      simp only [MemoryMap.scan, readable, Bool.false_eq_true, if_false]
    | true =>
      simp only [MemoryMap.scan, readable, if_true, find?, Option.bind_some]
      cases found : p.source.ranges.find? (·.contains va) with
      | some r =>
        exact .inr (.inl ⟨r, List.mem_of_find?_eq_some found, by
          simpa using List.find?_some found, rfl⟩)
      | none =>
        refine .inr (.inr ⟨?_, rfl⟩)
        rintro ⟨r, member, holds⟩
        rcases List.mem_append.1 member with old | new
        · exact absent r old holds
        · exact List.find?_eq_none.1 found r new holds

/-- A size is that of a range which holds the address, and nothing is answered where no range
does. -/
theorem sizeAt_ok_cases {found : Option PageSize} (answer : (p.sizeAt va).1 = .ok found) :
    (∃ r ∈ p.searched, r.contains va ∧
      ∃ size, PageSize.ofPageKb r.pageKb = .ok size ∧ found = some size) ∨
    ¬ p.Maps va ∧ found = none := by
  have sized (r : MappedRange) (map : (PageSize.ofPageKb r.pageKb).map some = .ok found) :
      ∃ size, PageSize.ofPageKb r.pageKb = .ok size ∧ found = some size := by
    cases outcome : PageSize.ofPageKb r.pageKb with
    | error e => simp [outcome, Except.map] at map
    | ok size => exact ⟨size, rfl, by simpa [outcome, Except.map, eq_comm] using map⟩
  rcases p.sizeAt_cases va with ⟨r, member, holds, same⟩ | failed | ⟨r, member, holds, same⟩ |
    ⟨unmapped, nothing⟩
  · rw [same] at answer
    exact .inl ⟨r, List.mem_append_left _ member, holds, sized r answer⟩
  · simp [failed] at answer
  · rw [same] at answer
    exact .inl ⟨r, List.mem_append_right _ member, holds, sized r answer⟩
  · rw [nothing] at answer
    exact .inr ⟨unmapped, (Except.ok.inj answer).symm⟩

theorem maps_iff_isSome {found : Option PageSize} (answer : (p.sizeAt va).1 = .ok found) :
    p.Maps va ↔ found.isSome := by
  rcases sizeAt_ok_cases answer with ⟨r, member, holds, size, -, rfl⟩ | ⟨unmapped, rfl⟩
  · simpa using ⟨r, member, holds⟩
  · simpa using unmapped

theorem mem_searched_of_sizeAt {r : MappedRange} (member : r ∈ (p.sizeAt va).2.searched) :
    r ∈ p.searched := by
  rcases p.sizeAt_cases va with ⟨_, -, -, same⟩ | same | ⟨_, -, -, same⟩ | ⟨-, same⟩
  · rwa [same] at member
  · rwa [same] at member
  · rw [same] at member
    exact List.mem_append_right _ ((List.mem_append.1 member).elim id id)
  · rw [same] at member
    exact List.mem_append_right _ ((List.mem_append.1 member).elim id id)

theorem sizeAt_ne_refcountOverflow (a : UInt64) :
    (p.sizeAt va).1 ≠ .error (.refcountOverflow a) := by
  have supported (r : MappedRange) :
      (PageSize.ofPageKb r.pageKb).map some ≠ .error (.refcountOverflow a) := by
    unfold PageSize.ofPageKb
    split_ifs <;> simp [Except.map]
  rcases p.sizeAt_cases va with ⟨r, -, -, same⟩ | same | ⟨r, -, -, same⟩ | ⟨-, same⟩
  · rw [same]
    exact supported r
  · simp [same]
  · rw [same]
    exact supported r
  · simp [same]

end PageSizes

/-- The table has a page of a level that holds `addr` and leads to `va`. -/
def RadixTable.Leads (n : RadixTable) (addr va : UInt64) (level : Nat) : Prop :=
  (n.leafAt? addr level).map Leaf.va = some va

namespace RadixTable

variable {n : RadixTable} {a b va : UInt64} {level : Nat}

theorem leads_congr (same : SamePage a b level rootLevel) (inside : level ≤ rootLevel) :
    n.Leads a va level ↔ n.Leads b va level := by
  rw [Leads, Leads, leafAt?_congr n same inside]

theorem lookup_any_iff (inside : level ≤ rootLevel) :
    ((n.lookup a).any fun m => m.va = va ∧ m.level = level) ↔ n.Leads a va level := by
  rw [Option.any_eq_true, Leads]
  simp only [lookup_eq_some_iff, decide_eq_true_eq, Option.map_eq_some_iff]
  constructor
  · rintro ⟨m, ⟨-, page⟩, rfl, rfl⟩
    exact ⟨_, page, rfl⟩
  · rintro ⟨l, page, rfl⟩
    exact ⟨⟨l.va, level, l.count⟩, ⟨inside, page⟩, rfl, rfl⟩

theorem Leads.translate (h : n.Leads a va level) (inside : level ≤ rootLevel)
    (aligned : bytesAt level ∣ va.toNat) :
    n.translate a = some (UInt64.ofNat (va.toNat + a.toNat % bytesAt level)) := by
  rw [Leads, Option.map_eq_some_iff] at h
  obtain ⟨l, page, rfl⟩ := h
  rw [translate_eq_some_iff]
  refine ⟨level, inside, l, page, ?_⟩
  have small : a.toNat % bytesAt level < bytesAt level := Nat.mod_lt _ (bytesAt_pos level)
  have word : a.toNat % bytesAt level < 2 ^ 64 := Nat.lt_of_le_of_lt (Nat.mod_le ..) a.toNat_lt
  rw [← toNat_or_offset_of_dvd aligned small word, UInt64.ofNat_toNat]

end RadixTable

namespace Iommu

variable {t : Iommu A} {va : UInt64} {size : PageSize}

/-- The physical page of the page of a size that holds `va` leads back to it. -/
def Placed (t : Iommu A) (va : UInt64) (size : PageSize) : Prop :=
  t.pa.Leads (physicalAddress va size) (size.startOf va) size.level

theorem placed_iff_startOf : t.Placed va size ↔
    t.pa.Leads (size.startOf (physicalAddress va size)) (size.startOf va) size.level :=
  (RadixTable.leads_congr (size.samePage_startOf _) size.level_le_rootLevel).symm

theorem Placed.virtualOf (h : t.Placed va size) {p : UInt64}
    (inside : size.pageOf p.toNat = size.pageOf (physicalAddress va size).toNat) :
    t.virtualOf p = some (UInt64.ofNat (size.pageOf va.toNat + p.toNat % size.bytes)) := by
  have same : SamePage (physicalAddress va size) p size.level rootLevel :=
    SamePage.of_div_eq rootLevel (Nat.eq_of_mul_eq_mul_right size.bytes_pos inside.symm)
  have leads := (RadixTable.leads_congr same size.level_le_rootLevel).1 h
  have found := leads.translate size.level_le_rootLevel (size.dvd_startOf va)
  rwa [toNat_startOf] at found

theorem Placed.virtualOf_self (h : t.Placed va size) :
    t.virtualOf (physicalAddress va size) = some va := by
  rw [h.virtualOf rfl, physicalAddress_mod, pageOf_add_mod, UInt64.ofNat_toNat]

/-- Mapping a physical page leaves the table alone if the page is there, and pins it otherwise. -/
theorem mapPhysical_cases (t : Iommu A) (paPage vaPage : UInt64) {level : Nat}
    (inside : level ≤ rootLevel) :
    (t.pa.Leads paPage vaPage level ∧ (t.mapPhysical paPage vaPage level).answer = .ok () ∧
      (t.mapPhysical paPage vaPage level).state = t) ∨
    (¬ t.pa.Leads paPage vaPage level ∧ ∃ r, t.pa.pin paPage vaPage level = .ok r ∧
      (t.mapPhysical paPage vaPage level).answer = .ok () ∧
      (t.mapPhysical paPage vaPage level).state = { t with pa := r.table }) ∨
    (¬ t.pa.Leads paPage vaPage level ∧ ∃ e, t.pa.pin paPage vaPage level = .error e ∧
      (t.mapPhysical paPage vaPage level).answer = .error e ∧
      (t.mapPhysical paPage vaPage level).state = t) := by
  unfold mapPhysical
  by_cases leads : t.pa.Leads paPage vaPage level
  · rw [if_pos ((RadixTable.lookup_any_iff inside).2 leads)]
    exact .inl ⟨leads, rfl, rfl⟩
  · rw [if_neg (mt (RadixTable.lookup_any_iff inside).1 leads)]
    cases pinned : t.pa.pin paPage vaPage level with
    | ok r => exact .inr (.inl ⟨leads, r, rfl, rfl, rfl⟩)
    | error e => exact .inr (.inr ⟨leads, e, rfl, rfl, rfl⟩)

theorem physicalOf_of_sized {pageSizes : PageSizes}
    (sized : t.pageSizes.sizeAt va = (.ok (some size), pageSizes)) :
    let step := { t with pageSizes := pageSizes }.mapPhysical
      (size.startOf (physicalAddress va size)) (size.startOf va) size.level
    (t.physicalOf va).answer = step.answer.map (fun _ => some (physicalAddress va size, size)) ∧
      (t.physicalOf va).state = step.state := by
  unfold physicalOf
  rw [sized]
  exact ⟨rfl, rfl⟩

/-- All that asking for a physical address can answer and do to the table. -/
theorem physicalOf_cases (t : Iommu A) (va : UInt64) :
    (∃ e, (t.pageSizes.sizeAt va).1 = .error e ∧
      (t.physicalOf va).answer = .error e ∧ (t.physicalOf va).state.pa = t.pa) ∨
    ((t.pageSizes.sizeAt va).1 = .ok none ∧
      (t.physicalOf va).answer = .ok none ∧ (t.physicalOf va).state.pa = t.pa) ∨
    ∃ size, (t.pageSizes.sizeAt va).1 = .ok (some size) ∧
      ((t.Placed va size ∧ (t.physicalOf va).answer = .ok (some (physicalAddress va size, size)) ∧
        (t.physicalOf va).state.pa = t.pa) ∨
      (¬ t.Placed va size ∧ ∃ r,
        t.pa.pin (size.startOf (physicalAddress va size)) (size.startOf va) size.level = .ok r ∧
        (t.physicalOf va).answer = .ok (some (physicalAddress va size, size)) ∧
        (t.physicalOf va).state.pa = r.table) ∨
      (¬ t.Placed va size ∧ ∃ e,
        t.pa.pin (size.startOf (physicalAddress va size)) (size.startOf va) size.level = .error e ∧
        (t.physicalOf va).answer = .error e ∧ (t.physicalOf va).state.pa = t.pa)) := by
  rcases sized : t.pageSizes.sizeAt va with ⟨e | none | size, pageSizes⟩
  · refine .inl ⟨e, rfl, ?_⟩
    unfold physicalOf
    rw [sized]
    exact ⟨rfl, rfl⟩
  · refine .inr (.inl ⟨rfl, ?_⟩)
    unfold physicalOf
    rw [sized]
    exact ⟨rfl, rfl⟩
  · refine .inr (.inr ⟨size, rfl, ?_⟩)
    obtain ⟨answer, state⟩ := physicalOf_of_sized sized
    rw [answer, state, placed_iff_startOf]
    rcases { t with pageSizes := pageSizes }.mapPhysical_cases
      (size.startOf (physicalAddress va size)) (size.startOf va) size.level_le_rootLevel with
      ⟨leads, ok, same⟩ | ⟨fresh, r, pinned, ok, next⟩ | ⟨fresh, e, full, error, same⟩
    · rw [ok, same]
      exact .inl ⟨leads, rfl, rfl⟩
    · rw [ok, next]
      exact .inr (.inl ⟨fresh, r, pinned, rfl, rfl⟩)
    · rw [error, same]
      exact .inr (.inr ⟨fresh, e, full, rfl, rfl⟩)

theorem pa_physicalOf (t : Iommu A) (va : UInt64) :
    (t.physicalOf va).state.pa = t.pa ∨
    ∃ size r, (t.pageSizes.sizeAt va).1 = .ok (some size) ∧ ¬ t.Placed va size ∧
      t.pa.pin (size.startOf (physicalAddress va size)) (size.startOf va) size.level = .ok r ∧
      (t.physicalOf va).state.pa = r.table := by
  rcases t.physicalOf_cases va with ⟨e, -, -, same⟩ | ⟨-, -, same⟩ | ⟨size, sized, outcome⟩
  · exact .inl same
  · exact .inl same
  · rcases outcome with ⟨-, -, same⟩ | ⟨fresh, r, pinned, -, next⟩ | ⟨-, e, -, -, same⟩
    · exact .inl same
    · exact .inr ⟨size, r, sized, fresh, pinned, next⟩
    · exact .inl same

theorem pageSizes_physicalOf (t : Iommu A) (va : UInt64) :
    (t.physicalOf va).state.pageSizes = (t.pageSizes.sizeAt va).2 := by
  rcases sized : t.pageSizes.sizeAt va with ⟨e | none | size, pageSizes⟩
  · unfold physicalOf
    rw [sized]
    rfl
  · unfold physicalOf
    rw [sized]
  · rw [(physicalOf_of_sized sized).2]
    rcases { t with pageSizes := pageSizes }.mapPhysical_cases
      (size.startOf (physicalAddress va size)) (size.startOf va) size.level_le_rootLevel with
      ⟨-, -, same⟩ | ⟨-, r, -, -, next⟩ | ⟨-, e, -, -, same⟩
    · rw [same]
    · rw [next]
    · rw [same]

theorem placed_of_pin {r : Pinned RadixTable}
    (pinned : t.pa.pin (size.startOf (physicalAddress va size)) (size.startOf va) size.level =
      .ok r) {t' : Iommu A} (table : t'.pa = r.table) : t'.Placed va size := by
  have inside := size.level_le_rootLevel
  have own := size.samePage_startOf (physicalAddress va size)
  have page := RadixTable.leafAt?_pin (physicalAddress va size) inside inside pinned
  rw [Nat.max_self, if_pos own, if_pos rfl] at page
  rw [Placed, RadixTable.Leads, table, page]
  rfl

/-- An answer is the physical address for the size of the page, and the page leads back. -/
theorem placed_of_physicalOf {pa : UInt64}
    (answer : (t.physicalOf va).answer = .ok (some (pa, size))) :
    pa = physicalAddress va size ∧ (t.pageSizes.sizeAt va).1 = .ok (some size) ∧
      (t.physicalOf va).state.Placed va size := by
  rcases t.physicalOf_cases va with ⟨e, -, error, -⟩ | ⟨-, nothing, -⟩ | ⟨s, sized, outcome⟩
  · rw [error] at answer
    cases answer
  · rw [nothing] at answer
    cases answer
  · rcases outcome with ⟨placed, ok, same⟩ | ⟨-, r, pinned, ok, next⟩ | ⟨-, e, -, error, -⟩
    · rw [ok] at answer
      cases answer
      exact ⟨rfl, sized, by rwa [Placed, same]⟩
    · rw [ok] at answer
      cases answer
      exact ⟨rfl, sized, placed_of_pin pinned next⟩
    · rw [error] at answer
      cases answer

theorem leads_of_mappedSize? {pa : RadixTable} {c : Nat} (found : mappedSize? pa c = some size) :
    pa.Leads (physicalPage (size.pageOf c) size) (UInt64.ofNat (size.pageOf c)) size.level := by
  have hit := List.find?_some found
  simp only [and_comm (a := _ = size.level)] at hit
  exact (RadixTable.lookup_any_iff size.level_le_rootLevel).1 hit

theorem leafAt?_of_removeMapped {stop cursor s : Nat} {pa : RadixTable} {b : UInt64} {l : Leaf}
    (inside : s ≤ rootLevel) (page : (removeMapped stop cursor pa).1.leafAt? b s = some l) :
    pa.leafAt? b s = some l := by
  induction cursor, pa using removeMapped.induct stop with
  | case1 cursor pa below unmapped ih =>
    rw [removeMapped, if_pos below, unmapped] at page
    exact ih page
  | case2 cursor pa below size mapped vaPage paPage ih =>
    rw [removeMapped, if_pos below, mapped] at page
    have kept := ih page
    rw [RadixTable.leafAt?_remove pa b inside size.level_le_rootLevel] at kept
    exact (Option.ite_none_left_eq_some.1 kept).2
  | case3 cursor pa above =>
    rwa [removeMapped, if_neg above] at page

/-- A page stays if no address that removal comes to is in the page it leads to. -/
theorem leafAt?_removeMapped {stop cursor s : Nat} {pa : RadixTable} {b : UInt64} {l : Leaf}
    (inside : s ≤ rootLevel) (page : pa.leafAt? b s = some l)
    (spared : ∀ c, cursor ≤ c → c < stop → ∀ size : PageSize, size.level = s →
      UInt64.ofNat (size.pageOf c) ≠ l.va) :
    (removeMapped stop cursor pa).1.leafAt? b s = some l := by
  induction cursor, pa using removeMapped.induct stop with
  | case1 cursor pa below unmapped ih =>
    rw [removeMapped, if_pos below, unmapped]
    apply ih page
    intro c lower upper
    exact spared c (by omega) upper
  | case2 cursor pa below size mapped vaPage paPage ih =>
    rw [removeMapped, if_pos below, mapped]
    apply ih
    · rw [RadixTable.leafAt?_remove pa b inside size.level_le_rootLevel, if_neg]
      · exact page
      · rintro ⟨rfl, same⟩
        have leads := (RadixTable.leads_congr same inside).1 (leads_of_mappedSize? mapped)
        rw [RadixTable.Leads, page] at leads
        exact spared cursor (Nat.le_refl _) below size rfl (Option.some_inj.1 leads).symm
    · intro c lower upper
      have next : cursor < vaPage + size.bytes := by
        have split := size.pageOf_add_mod cursor
        have small := Nat.mod_lt cursor size.bytes_pos
        omega
      exact spared c (by omega) upper
  | case3 cursor pa above =>
    rwa [removeMapped, if_neg above]

end Iommu

end TlpBridge
