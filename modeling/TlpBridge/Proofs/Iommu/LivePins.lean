import TlpBridge.Iommu.Tables
import TlpBridge.Proofs.Iommu.IovaRanges
import TlpBridge.Proofs.Iommu.RadixListing

/-!
# Live pins

A pin is live from the call that made it until it is taken back. The IOVA table and the
space of taken ranges are determined by the live pins: one page with one pin, and one
range, for each.
-/
namespace TlpBridge

open PageSize

variable {A : IovaAllocator}

namespace PageSize

theorem level_lt_rootLevel (s : PageSize) : s.level < rootLevel := by
  cases s <;> decide

theorem one_lt_bytes (s : PageSize) : 1 < s.bytes := by
  cases s <;> decide

theorem bytes_le_limit (s : PageSize) : s.bytes ≤ 2 ^ 48 := by
  cases s <;> decide

theorem level_injective {s t : PageSize} (h : s.level = t.level) : s = t := by
  cases s <;> cases t <;> first | rfl | simp [level] at h

end PageSize

/-- A page that was pinned and not taken back. -/
structure LivePin where
  iova : Nat
  va : UInt64
  size : PageSize
deriving DecidableEq

namespace LivePin

def range (p : LivePin) : AddressRange := ⟨p.iova, p.size.bytes⟩

/-- The device address lies in the page. -/
def Covers (p : LivePin) (a : Nat) : Prop := p.iova ≤ a ∧ a < p.iova + p.size.bytes

instance (p : LivePin) (a : Nat) : Decidable (p.Covers a) := inferInstanceAs (Decidable (_ ∧ _))

/-- The page of the IOVA table that stands for the pin. -/
def entry (p : LivePin) : Occupied := ⟨p.size.level, p.iova, some ⟨p.va, 1⟩⟩

/-- The virtual page can be pinned and the IOVA is one that its size allows. -/
structure Aligned (p : LivePin) : Prop where
  iova : p.size.bytes ∣ p.iova
  va : p.size.bytes ∣ p.va.toNat

theorem covers_start (p : LivePin) : p.Covers p.iova :=
  ⟨Nat.le_refl _, Nat.lt_add_of_pos_right p.size.bytes_pos⟩

theorem not_apart_of_covers {p q : LivePin} {a : Nat} (hp : p.Covers a) (hq : q.Covers a) :
    ¬ p.range.Apart q.range := by
  rcases hp with ⟨pl, pu⟩
  rcases hq with ⟨ql, qu⟩
  simp only [AddressRange.Apart, AddressRange.stop, range]
  omega

theorem covers_iff {p : LivePin} (aligned : p.size.bytes ∣ p.iova) (a : Nat) :
    p.Covers a ↔ p.iova / p.size.bytes = a / p.size.bytes := by
  obtain ⟨k, hk⟩ := aligned
  have positive := p.size.bytes_pos
  rw [Covers, hk, Nat.mul_div_cancel_left _ positive, eq_comm, Nat.div_eq_iff positive,
    Nat.mul_comm k]
  omega

theorem not_apart_of_div_eq {p q : LivePin} {a : Nat} (alignedP : p.size.bytes ∣ p.iova)
    (alignedQ : q.size.bytes ∣ q.iova) (covered : q.Covers a)
    (same : p.iova / bytesAt (max q.size.level p.size.level) =
      a / bytesAt (max q.size.level p.size.level)) : ¬ p.range.Apart q.range := by
  rcases Nat.le_total q.size.level p.size.level with smaller | larger
  · rw [Nat.max_eq_right smaller] at same
    exact not_apart_of_covers ((covers_iff alignedP a).2 same) covered
  · rw [Nat.max_eq_left larger] at same
    have start : q.Covers p.iova := by
      rw [covers_iff alignedQ] at covered ⊢
      exact covered.trans same.symm
    exact not_apart_of_covers p.covers_start start

end LivePin

/-- Tables that hold exactly what the live pins call for. -/
structure Iommu.Consistent (t : Iommu A) (v : A.View) (pins : List LivePin) : Prop where
  aligned : ∀ p ∈ pins, p.Aligned
  kept : IovaSpace.Kept v t.space
  ranges : (v.taken t.space).Perm (IovaSpace.interruptWindow :: pins.map LivePin.range)
  pages : ∀ (a : UInt64) (s : Nat) (f : Leaf), s ≤ rootLevel →
    (t.iova.leafAt? a s = some f ↔
      ∃ p ∈ pins, p.size.level = s ∧ p.Covers (a.toNat % 2 ^ 48) ∧ f = ⟨p.va, 1⟩)

/-- A pin gets through: a range is handed out for it and the table has room for its page. -/
structure Iommu.Pins (t : Iommu A) (va len : UInt64) (size : PageSize) (range : AddressRange)
    (space : A.Space) (r : Pinned RadixTable) : Prop where
  sized : PageSize.ofLength len = .ok size
  aligned : size.bytes ∣ va.toNat
  allocated : A.allocate t.space size.bytes size.bytes .firstMatch = (.ok range, space)
  pinned : t.iova.pin (UInt64.ofNat range.start) va size.level = .ok r
  answer : (t.pin va len).answer = .ok (UInt64.ofNat range.start)
  state : (t.pin va len).state = { t with iova := r.table, space := space }

namespace Iommu.Consistent

variable {t : Iommu A} {v : A.View} {pins : List LivePin}

theorem pairwise_apart (h : t.Consistent v pins) :
    (IovaSpace.interruptWindow :: pins.map LivePin.range).Pairwise AddressRange.Apart :=
  (h.ranges.pairwise_iff AddressRange.Apart.symm).1 h.kept.apart

theorem pins_apart (h : t.Consistent v pins) :
    pins.Pairwise fun p q => p.range.Apart q.range :=
  List.pairwise_map.1 (List.pairwise_cons.1 h.pairwise_apart).2

theorem beside_interrupts (h : t.Consistent v pins) {p : LivePin} (member : p ∈ pins) :
    p.range.Apart IovaSpace.interruptWindow :=
  ((List.pairwise_cons.1 h.pairwise_apart).1 _ (List.mem_map_of_mem member)).symm

theorem inside (h : t.Consistent v pins) {p : LivePin} (member : p ∈ pins) :
    p.range.stop ≤ 2 ^ 48 :=
  h.kept.inside _ (h.ranges.mem_iff.2 (List.mem_cons_of_mem _ (List.mem_map_of_mem member)))

end Iommu.Consistent

namespace Iommu

variable {t : Iommu A} {v : A.View} {pins : List LivePin}

/-- All that a pin can answer. Where it is refused only the space can have changed: if that refuses
a range, or if the table refuses a page for the range. -/
theorem pin_cases (t : Iommu A) (va len : UInt64) :
    (∃ e space, t.pin va len = ⟨.error e, { t with space := space }, []⟩ ∧
      (space = t.space ∨
        (∃ bytes cause, A.allocate t.space bytes bytes .firstMatch = (.error cause, space)) ∨
        ∃ size range given e', PageSize.ofLength len = .ok size ∧
          A.allocate t.space size.bytes size.bytes .firstMatch = (.ok range, given) ∧
          t.iova.pin (UInt64.ofNat range.start) va size.level = .error e')) ∨
    ∃ size range space r, t.Pins va len size range space r := by
  cases sized : PageSize.ofLength len with
  | error e =>
    have refused : t.pin va len = ⟨.error e, t, []⟩ := by
      simp only [pin, sized]
      rfl
    exact .inl ⟨e, t.space, refused, .inl rfl⟩
  | ok size =>
    by_cases aligned : size.bytes ∣ va.toNat
    · have even : ¬ va.toNat % size.bytes ≠ 0 := not_not.2 (Nat.mod_eq_zero_of_dvd aligned)
      cases allocated : A.allocate t.space size.bytes size.bytes .firstMatch with
      | mk answer space =>
        cases answer with
        | error cause =>
          refine .inl ⟨.allocationExhausted size.bytes, space, ?_, .inr (.inl ⟨_, _, allocated⟩)⟩
          simp only [pin, sized, if_neg even, allocated]
          rfl
        | ok range =>
          cases pinned : t.iova.pin (UInt64.ofNat range.start) va size.level with
          | error e =>
            have refused : ∃ e' space',
                t.pin va len = ⟨.error e', { t with space := space' }, []⟩ := by
              simp only [pin, sized, if_neg even, allocated, pinned]
              obtain ⟨cause | u, space'⟩ := A.free space range
              · exact ⟨.allocator cause, space', rfl⟩
              · exact ⟨e, space', rfl⟩
            obtain ⟨e', space', refused⟩ := refused
            exact .inl ⟨e', space', refused,
              .inr (.inr ⟨size, range, space, e, rfl, allocated, pinned⟩)⟩
          | ok r =>
            refine .inr ⟨size, range, space, r, sized, aligned, allocated, pinned, ?_, ?_⟩
            · simp only [pin, sized, if_neg even, allocated, pinned]
            · simp only [pin, sized, if_neg even, allocated, pinned]
    · have uneven : va.toNat % size.bytes ≠ 0 := fun h => aligned (Nat.dvd_of_mod_eq_zero h)
      have refused : t.pin va len = ⟨.error (.misaligned va size.bytes), t, []⟩ := by
        simp only [pin, sized, if_pos uneven]
        rfl
      exact .inl ⟨_, t.space, refused, .inl rfl⟩

/-- If the table has room for whatever range is handed out, then a pin that is refused changes
nothing. -/
theorem pin_cases_of_room (laws : A.Laws v) {va len : UInt64}
    (room : ∀ (size : PageSize) (range : AddressRange) (space : A.Space) (e : IommuError),
      A.allocate t.space size.bytes size.bytes .firstMatch = (.ok range, space) →
        t.iova.pin (UInt64.ofNat range.start) va size.level ≠ .error e) :
    (∃ e, t.pin va len = ⟨.error e, t, []⟩) ∨
      ∃ size range space r, t.Pins va len size range space r := by
  rcases t.pin_cases va len with ⟨e, space, refused, cause⟩ | pins
  · left
    have same : space = t.space := by
      rcases cause with same | ⟨_, _, exhausted⟩ | ⟨size, range, given, e', -, allocated, full⟩
      · exact same
      · exact laws.refused _ _ _ _ _ _ exhausted
      · exact absurd full (room size range given e' allocated)
    exact ⟨e, by rw [refused, same]⟩
  · exact .inr pins

/-- All that taking back a pin can answer. -/
theorem unpin_cases (t : Iommu A) (iova len : UInt64) :
    (∃ e, t.unpin iova len = ⟨.error e, t, []⟩ ∧
      (PageSize.ofLength len = .error e ∨
        ∃ size, PageSize.ofLength len = .ok size ∧ t.iova.leafAt? iova size.level = none)) ∨
    ∃ size left table given, PageSize.ofLength len = .ok size ∧
      t.iova.unpin iova size.level = .ok (left, table) ∧
      given = (if left = 0 then IovaSpace.giveBack A.toRangeAllocator t.space iova size.bytes
        else (.ok (), t.space)) ∧
      (t.unpin iova len).answer = given.1.mapError .allocator ∧
      (t.unpin iova len).state = { t with iova := table, space := given.2 } := by
  cases sized : PageSize.ofLength len with
  | error e =>
    refine .inl ⟨e, ?_, .inl rfl⟩
    simp only [unpin, sized]
    rfl
  | ok size =>
    cases unpinned : t.iova.unpin iova size.level with
    | error e =>
      have absent := ((RadixTable.unpin_eq_error_iff _ e).1 unpinned).1
      refine .inl ⟨e, ?_, .inr ⟨size, rfl, absent⟩⟩
      simp only [unpin, sized, unpinned]
      rfl
    | ok found =>
      obtain ⟨left, table⟩ := found
      refine .inr ⟨size, left, table, _, rfl, unpinned, rfl, ?_⟩
      simp only [unpin, sized, unpinned]
      generalize (if left = 0 then _ else _ : Except AllocatorError Unit × A.Space) = given
      obtain ⟨cause | u, space⟩ := given
      · exact ⟨rfl, rfl⟩
      · exact ⟨rfl, rfl⟩

/-- The range of a page that is pinned anew. -/
structure Fresh (v : A.View) (pins : List LivePin) (size : PageSize) (range : AddressRange)
    (space : A.Space) : Prop where
  size_eq : range.size = size.bytes
  aligned : size.bytes ∣ range.start
  inside : range.start + size.bytes ≤ 2 ^ 48
  kept : IovaSpace.Kept v space
  ranges : (v.taken space).Perm (IovaSpace.interruptWindow :: range :: pins.map LivePin.range)
  apart : ∀ p ∈ pins, range.Apart p.range

theorem Fresh.range_eq {size : PageSize} {range : AddressRange} {space : A.Space}
    (fresh : Fresh v pins size range space) (va : UInt64) :
    range = (⟨range.start, va, size⟩ : LivePin).range :=
  congrArg (AddressRange.mk range.start) fresh.size_eq

theorem Consistent.fresh (h : t.Consistent v pins) (laws : A.Laws v) {size : PageSize}
    {range : AddressRange} {space : A.Space}
    (allocated : A.allocate t.space size.bytes size.bytes .firstMatch = (.ok range, space)) :
    Fresh v pins size range space := by
  have new := laws.allocated _ _ _ _ _ _ allocated
  have kept := h.kept.handsOut new
  have inside := kept.inside range (new.added.mem_iff.2 List.mem_cons_self)
  rw [AddressRange.stop, new.size_eq] at inside
  refine ⟨new.size_eq, new.aligned, inside, kept, ?_, ?_⟩
  · exact (new.added.trans (h.ranges.cons _)).trans (List.Perm.swap ..)
  · exact fun p member =>
      new.apart _ (h.ranges.mem_iff.2 (List.mem_cons_of_mem _ (List.mem_map_of_mem member)))

theorem samePage_ofNat_iff {start s : Nat} (fits : start < 2 ^ 48) (inside : s ≤ rootLevel)
    (b : UInt64) : SamePage (UInt64.ofNat start) b s rootLevel ↔
      start / bytesAt s = b.toNat % 2 ^ 48 / bytesAt s := by
  rw [SamePage.root_iff inside, UInt64.toNat_ofNat', Nat.mod_eq_of_lt (a := start) (by omega),
    Nat.mod_eq_of_lt fits]

theorem Consistent.leafAt?_fresh (h : t.Consistent v pins) {new : LivePin}
    (fits : new.iova < 2 ^ 48) (apart : ∀ p ∈ pins, new.range.Apart p.range) :
    t.iova.leafAt? (UInt64.ofNat new.iova) new.size.level = none := by
  have number : (UInt64.ofNat new.iova).toNat % 2 ^ 48 = new.iova := by
    rw [UInt64.toNat_ofNat']
    omega
  rw [Option.eq_none_iff_forall_ne_some]
  intro f found
  obtain ⟨p, member, -, covers, -⟩ :=
    (h.pages _ _ f (Nat.le_of_lt new.size.level_lt_rootLevel)).1 found
  rw [number] at covers
  exact LivePin.not_apart_of_covers new.covers_start covers (apart p member)

/-- The pages of the table after a pin whose range is apart from those of all live pins. -/
theorem Consistent.pages_pin (h : t.Consistent v pins) {new : LivePin} (aligned : new.Aligned)
    (fits : new.iova < 2 ^ 48) (apart : ∀ p ∈ pins, new.range.Apart p.range)
    {r : Pinned RadixTable}
    (pinned : t.iova.pin (UInt64.ofNat new.iova) new.va new.size.level = .ok r) (a : UInt64)
    (s : Nat) (f : Leaf) (inside : s ≤ rootLevel) :
    r.table.leafAt? a s = some f ↔ ∃ p ∈ new :: pins, p.size.level = s ∧
      p.Covers (a.toNat % 2 ^ 48) ∧ f = ⟨p.va, 1⟩ := by
  have level : new.size.level ≤ rootLevel := Nat.le_of_lt new.size.level_lt_rootLevel
  have count : r.count = 1 := by
    rw [RadixTable.count_pin level pinned, h.leafAt?_fresh fits apart]
    rfl
  rw [RadixTable.leafAt?_pin a inside level pinned, count]
  simp only [samePage_ofNat_iff fits (Nat.max_le.2 ⟨inside, level⟩), List.exists_mem_cons_iff]
  by_cases page : new.iova / bytesAt (max s new.size.level) =
      a.toNat % 2 ^ 48 / bytesAt (max s new.size.level)
  · -- whatever else held the address would overlap the new page
    have alone : ¬ ∃ p ∈ pins, p.size.level = s ∧ p.Covers (a.toNat % 2 ^ 48) ∧
        f = ⟨p.va, 1⟩ := by
      rintro ⟨p, member, rfl, covers, -⟩
      exact LivePin.not_apart_of_div_eq aligned.iova (h.aligned p member).iova covers page
        (apart p member)
    rw [if_pos page, or_iff_left alone]
    by_cases own : s = new.size.level
    · subst own
      rw [Nat.max_self] at page
      have covers := (LivePin.covers_iff aligned.iova _).2 page
      rw [if_pos rfl, Option.some_inj]
      constructor
      · rintro rfl
        exact ⟨rfl, covers, rfl⟩
      · rintro ⟨-, -, rfl⟩
        rfl
    · simp [own, eq_comm (a := new.size.level)]
  · have elsewhere : ¬ (new.size.level = s ∧ new.Covers (a.toNat % 2 ^ 48) ∧
        f = ⟨new.va, 1⟩) := by
      rintro ⟨rfl, covers, -⟩
      rw [Nat.max_self] at page
      exact page ((LivePin.covers_iff aligned.iova _).1 covers)
    rw [if_neg page, or_iff_right elsewhere]
    exact h.pages a s f inside

theorem Consistent.room (h : t.Consistent v pins) (laws : A.Laws v) {va : UInt64}
    (size : PageSize) (range : AddressRange) (space : A.Space) (e : IommuError)
    (allocated : A.allocate t.space size.bytes size.bytes .firstMatch = (.ok range, space)) :
    t.iova.pin (UInt64.ofNat range.start) va size.level ≠ .error e := by
  intro full
  have fresh := h.fresh laws allocated
  have level : size.level ≤ rootLevel := Nat.le_of_lt size.level_lt_rootLevel
  obtain ⟨-, l, page, -⟩ := (RadixTable.pin_eq_error_iff _ _ level).1 full
  have positive := size.bytes_pos
  have inside := fresh.inside
  let new : LivePin := ⟨range.start, va, size⟩
  have fits : new.iova < 2 ^ 48 := by
    simp only [new]
    omega
  rw [h.leafAt?_fresh fits (fresh.range_eq va ▸ fresh.apart)] at page
  cases page

theorem Consistent.pin (h : t.Consistent v pins) (laws : A.Laws v) {va len : UInt64}
    {size : PageSize} {range : AddressRange} {space : A.Space} {r : Pinned RadixTable}
    (pin : t.Pins va len size range space r) :
    (t.pin va len).state.Consistent v (⟨(UInt64.ofNat range.start).toNat, va, size⟩ :: pins) := by
  have fresh := h.fresh laws pin.allocated
  have inside := fresh.inside
  have positive := size.bytes_pos
  have number : (UInt64.ofNat range.start).toNat = range.start := by
    rw [UInt64.toNat_ofNat', Nat.mod_eq_of_lt (by omega)]
  rw [number, pin.state]
  have aligned : LivePin.Aligned ⟨range.start, va, size⟩ := ⟨fresh.aligned, pin.aligned⟩
  refine ⟨List.forall_mem_cons.2 ⟨aligned, h.aligned⟩, fresh.kept, ?_, ?_⟩
  · rw [List.map_cons, ← fresh.range_eq va]
    exact fresh.ranges
  · exact h.pages_pin aligned (by simp only; omega) (fresh.range_eq va ▸ fresh.apart) pin.pinned

theorem Consistent.exists_pin (h : t.Consistent v pins) {size : PageSize} {iova : UInt64} {l : Leaf}
    (fits : iova.toNat < 2 ^ 48) (aligned : size.bytes ∣ iova.toNat)
    (page : t.iova.leafAt? iova size.level = some l) :
    l.count = 1 ∧ ∃ p ∈ pins, p.iova = iova.toNat ∧ p.size = size := by
  obtain ⟨p, member, level, covers, rfl⟩ :=
    (h.pages iova _ l (Nat.le_of_lt size.level_lt_rootLevel)).1 page
  obtain rfl := level_injective level
  have start := (h.aligned p member).iova
  rw [Nat.mod_eq_of_lt fits, LivePin.covers_iff start] at covers
  refine ⟨rfl, p, member, ?_, rfl⟩
  rw [← Nat.div_mul_cancel start, covers, Nat.div_mul_cancel aligned]

theorem Consistent.leafAt?_pin (h : t.Consistent v pins) {p : LivePin} (member : p ∈ pins)
    {iova : UInt64} (same : p.iova = iova.toNat) :
    t.iova.leafAt? iova p.size.level = some ⟨p.va, 1⟩ := by
  have below := h.inside member
  have positive := p.size.bytes_pos
  have fits : iova.toNat % 2 ^ 48 = p.iova := by
    rw [← same]
    exact Nat.mod_eq_of_lt (Nat.lt_of_lt_of_le (Nat.lt_add_of_pos_right positive) below)
  refine (h.pages iova _ _ (Nat.le_of_lt p.size.level_lt_rootLevel)).2 ⟨p, member, rfl, ?_, rfl⟩
  rw [fits]
  exact p.covers_start

theorem Consistent.perm (h : t.Consistent v pins) {pins' : List LivePin} (same : pins.Perm pins') :
    t.Consistent v pins' where
  aligned p member := h.aligned p (same.mem_iff.2 member)
  kept := h.kept
  ranges := h.ranges.trans ((same.map _).cons _)
  pages a s f inside := by
    rw [h.pages a s f inside]
    simp only [same.mem_iff]

/-- A pin that is taken back is a live pin less. -/
theorem Consistent.unpin {p : LivePin} (h : t.Consistent v (p :: pins)) (laws : A.Laws v)
    {iova len : UInt64} (same : p.iova = iova.toNat)
    (sized : PageSize.ofLength len = .ok p.size) :
    (t.unpin iova len).answer = .ok () ∧ (t.unpin iova len).state.Consistent v pins := by
  have level : p.size.level ≤ rootLevel := Nat.le_of_lt p.size.level_lt_rootLevel
  have page := h.leafAt?_pin List.mem_cons_self same
  have below : p.iova < 2 ^ 48 :=
    Nat.lt_of_lt_of_le (Nat.lt_add_of_pos_right p.size.bytes_pos) (h.inside List.mem_cons_self)
  have first := List.pairwise_cons.1 h.pins_apart
  have taken : (⟨iova.toNat, p.size.bytes⟩ : AddressRange) ∈ v.taken t.space :=
    h.ranges.mem_iff.2 (by simp [LivePin.range, same])
  rcases t.unpin_cases iova len with ⟨e, -, bad | ⟨size, sized', absent⟩⟩ |
    ⟨size, left, table, given, sized', unpinned, given_eq, answer, state⟩
  · rw [sized] at bad
    cases bad
  · obtain rfl := Except.ok.inj (sized.symm.trans sized')
    rw [page] at absent
    cases absent
  · obtain rfl := Except.ok.inj (sized.symm.trans sized')
    obtain ⟨l, found, left_eq, -⟩ := (RadixTable.unpin_eq_ok_iff ..).1 unpinned
    obtain rfl : left = 0 := by
      rw [page] at found
      obtain rfl := Option.some_inj.1 found
      exact left_eq
    obtain ⟨space, freed, kept, erased⟩ := laws.giveBack_of_mem h.kept p.size.one_lt_bytes taken
    rw [if_pos rfl, freed] at given_eq
    subst given_eq
    refine ⟨answer, ?_⟩
    rw [state]
    refine ⟨fun q member => h.aligned q (List.mem_cons_of_mem _ member), kept, ?_, ?_⟩
    · have members := (h.ranges.trans (List.Perm.swap ..)).erase p.range
      rw [List.erase_cons_head, LivePin.range, same] at members
      exact erased.trans members
    · intro a s f inside
      have covers_iff : SamePage iova a p.size.level rootLevel ↔ p.Covers (a.toNat % 2 ^ 48) := by
        rw [SamePage.root_iff level, ← same, Nat.mod_eq_of_lt below,
          LivePin.covers_iff (h.aligned p List.mem_cons_self).iova]
        rfl
      rw [RadixTable.leafAt?_unpin a inside level unpinned, if_pos rfl]
      simp only [covers_iff]
      by_cases own : s = p.size.level ∧ p.Covers (a.toNat % 2 ^ 48)
      · have alone : ¬ ∃ q ∈ pins, q.size.level = s ∧ q.Covers (a.toNat % 2 ^ 48) ∧
            f = ⟨q.va, 1⟩ := by
          rintro ⟨q, member, -, covers, -⟩
          exact LivePin.not_apart_of_covers own.2 covers (first.1 q member)
        rw [if_pos own, iff_false_right alone]
        exact Option.some_ne_none f ∘ Eq.symm
      · have other : ¬ (p.size.level = s ∧ p.Covers (a.toNat % 2 ^ 48) ∧ f = ⟨p.va, 1⟩) :=
          fun found => own ⟨found.1.symm, found.2.1⟩
        rw [if_neg own, h.pages a s f inside, List.exists_mem_cons_iff, or_iff_right other]

end Iommu

end TlpBridge
