import TlpBridge.Proofs.Iommu.LivePins

/-!
# Translation follows the live pins

Whatever the calls on the translation tables, the IOVA side is that of the pins that
were made and not taken back: their pages, their ranges, and the translation of every
address in them.
-/
namespace TlpBridge

open PageSize

/-- A call on the translation tables, or a change of the memory map behind them. -/
inductive IommuCall where
  | pin (va len : UInt64)
  | unpin (iova len : UInt64)
  | translate (iova : UInt64)
  | physicalOf (va : UInt64)
  | virtualOf (pa : UInt64)
  | invalidate (va len : UInt64)
  | terminate
  | remap (source : MemoryMap)

/-- A pin is taken back at an address of 48 bits where a page of its length can start. -/
def IommuCall.Allowed : IommuCall → Prop
  | .unpin iova len => ∀ size, PageSize.ofLength len = .ok size →
      iova.toNat < 2 ^ 48 ∧ size.bytes ∣ iova.toNat
  | _ => True

/-- The live pins after a pin with this answer. -/
def notePin (pins : List LivePin) (va len : UInt64) (answer : Except IommuError UInt64) :
    List LivePin :=
  match answer, PageSize.ofLength len with
  | .ok iova, .ok size => ⟨iova.toNat, va, size⟩ :: pins
  | _, _ => pins

/-- The live pins after one was taken back with this answer. -/
def noteUnpin (pins : List LivePin) (iova len : UInt64) (answer : Except IommuError Unit) :
    List LivePin :=
  match answer, PageSize.ofLength len with
  | .ok (), .ok size => pins.eraseP fun p => p.iova = iova.toNat ∧ p.size = size
  | _, _ => pins

/-- Translation tables and the pins that their users hold. -/
structure PinnedTables (A : IovaAllocator) where
  tables : Iommu A
  pins : List LivePin

variable {A : IovaAllocator}

namespace PinnedTables

def start (options : Switches) (map : MemoryMap) : PinnedTables A := ⟨.ofMemoryMap options map, []⟩

def call (s : PinnedTables A) : IommuCall → PinnedTables A
  | .pin va len =>
    ⟨(s.tables.pin va len).state, notePin s.pins va len (s.tables.pin va len).answer⟩
  | .unpin iova len =>
    ⟨(s.tables.unpin iova len).state, noteUnpin s.pins iova len (s.tables.unpin iova len).answer⟩
  | .translate _ => s
  | .physicalOf va => ⟨(s.tables.physicalOf va).state, s.pins⟩
  | .virtualOf _ => s
  | .invalidate va len => ⟨(s.tables.invalidate va len).state, s.pins⟩
  | .terminate => ⟨s.tables.terminate.state, []⟩
  | .remap source =>
    ⟨{ s.tables with pageSizes := { s.tables.pageSizes with source := source } }, s.pins⟩

def run (s : PinnedTables A) (calls : List IommuCall) : PinnedTables A := calls.foldl call s

/-- The IOVA side of the tables is that of the live pins. -/
structure Refined (v : A.View) (s : PinnedTables A) : Prop where
  apart : s.pins.Pairwise fun p q => p.range.Apart q.range
  aligned : ∀ p ∈ s.pins, p.size.bytes ∣ p.iova
  inside : ∀ p ∈ s.pins, p.range.stop ≤ 2 ^ 48
  besideInterrupts : ∀ p ∈ s.pins, p.range.Apart IovaSpace.interruptWindow
  ranges : (v.taken s.tables.space).Perm (IovaSpace.interruptWindow :: s.pins.map LivePin.range)
  /-- Each page of the table has one pin, and is that of a live pin. -/
  pages : (s.tables.iova.occupied.filter (·.leaf?.isSome)).Perm (s.pins.map LivePin.entry)
  counted : s.tables.livePages = s.pins.length
  translated : ∀ a : UInt64, a.toNat < 2 ^ 48 → ∀ v, s.tables.translate a = some v ↔
    ∃ p ∈ s.pins, p.Covers a.toNat ∧ v.toNat = p.va.toNat + (a.toNat - p.iova)

end PinnedTables

namespace Iommu.Consistent

variable {t : Iommu A} {v : A.View} {pins : List LivePin}

theorem empty (laws : A.Laws v) (options : Switches) (map : MemoryMap) :
    (ofMemoryMap options map : Iommu A).Consistent v [] where
  aligned := by simp
  kept := (laws.create_spec A.created).1
  ranges := (laws.create_spec A.created).2
  pages a s f _ := by
    have none_ : (ofMemoryMap options map : Iommu A).iova.leafAt? a s = none :=
      RadixTable.leafAt?_empty a s
    simp [none_]

theorem congr (h : t.Consistent v pins) {t' : Iommu A} (iova : t'.iova = t.iova)
    (space : t'.space = t.space) : t'.Consistent v pins where
  aligned := h.aligned
  kept := space ▸ h.kept
  ranges := space ▸ h.ranges
  pages := iova ▸ h.pages

theorem toNat_or_offset {p : LivePin} (aligned : p.Aligned) {a : Nat} (covers : p.Covers a) :
    (p.va ||| UInt64.ofNat (a % bytesAt p.size.level)).toNat = p.va.toNat + (a - p.iova) := by
  obtain ⟨⟨k, start⟩, page⟩ := aligned
  obtain ⟨lower, upper⟩ := covers
  obtain ⟨r, rfl⟩ := Nat.exists_eq_add_of_le lower
  have small : r < bytesAt p.size.level := Nat.lt_of_add_lt_add_left upper
  have offset : (p.iova + r) % bytesAt p.size.level = r := by
    rw [start, bytes, Nat.mul_add_mod, Nat.mod_eq_of_lt small]
  have word : r < 2 ^ 64 := by
    have limit : bytesAt p.size.level ≤ bytesAt rootLevel :=
      bytesAt_le (Nat.le_of_lt p.size.level_lt_rootLevel)
    exact Nat.lt_of_lt_of_le small (limit.trans (by decide))
  rw [offset, toNat_or_offset_of_dvd page small word, Nat.add_sub_cancel_left]

theorem translate_eq_some_iff (h : t.Consistent v pins) {a : UInt64} (fits : a.toNat < 2 ^ 48)
    (b : UInt64) : t.translate a = some b ↔
      ∃ p ∈ pins, p.Covers a.toNat ∧ b.toNat = p.va.toNat + (a.toNat - p.iova) := by
  rw [translate, RadixTable.translate_eq_some_iff]
  constructor
  · rintro ⟨s, inside, l, page, rfl⟩
    obtain ⟨p, member, rfl, covers, rfl⟩ := (h.pages a s l inside).1 page
    rw [Nat.mod_eq_of_lt fits] at covers
    exact ⟨p, member, covers, toNat_or_offset (h.aligned p member) covers⟩
  · rintro ⟨p, member, covers, value⟩
    have level : p.size.level ≤ rootLevel := Nat.le_of_lt p.size.level_lt_rootLevel
    have page := (h.pages a p.size.level ⟨p.va, 1⟩ level).2
      ⟨p, member, rfl, by rwa [Nat.mod_eq_of_lt fits], rfl⟩
    refine ⟨p.size.level, level, _, page, ?_⟩
    rw [← UInt64.toNat_inj, toNat_or_offset (h.aligned p member) covers, value]

theorem translate_congr (h : t.Consistent v pins) {t' : Iommu A} {pins' : List LivePin}
    (h' : t'.Consistent v pins') {a : UInt64} (fits : a.toNat < 2 ^ 48)
    (same : ∀ p : LivePin, p.Covers a.toNat → (p ∈ pins' ↔ p ∈ pins)) :
    t'.translate a = t.translate a := by
  ext b
  rw [h.translate_eq_some_iff fits, h'.translate_eq_some_iff fits]
  constructor
  · rintro ⟨p, member, covers, value⟩
    exact ⟨p, (same p covers).1 member, covers, value⟩
  · rintro ⟨p, member, covers, value⟩
    exact ⟨p, (same p covers).2 member, covers, value⟩

theorem occupied_perm (h : t.Consistent v pins) :
    (t.iova.occupied.filter (·.leaf?.isSome)).Perm (pins.map LivePin.entry) := by
  have listedOnce : (t.iova.occupied.filter (·.leaf?.isSome)).Nodup := by
    refine t.iova.occupied_ascending.imp ?_
    rintro o p before rfl
    have := bytesAt_pos o.level
    omega
  have entryOnce : (pins.map LivePin.entry).Nodup := by
    refine List.pairwise_map.2 (h.pins_apart.imp ?_)
    intro p q apart same
    obtain ⟨-, addr, -⟩ := Occupied.mk.injEq .. ▸ same
    exact LivePin.not_apart_of_covers p.covers_start (addr ▸ q.covers_start) apart
  rw [List.perm_ext_iff_of_nodup listedOnce entryOnce]
  intro o
  rw [List.mem_filter, List.mem_map, Option.isSome_iff_exists]
  constructor
  · rintro ⟨listed, f, page⟩
    obtain ⟨level, aligned, fits, found⟩ := (RadixTable.mem_occupied_iff page).1 listed
    have number : (UInt64.ofNat o.addr).toNat % 2 ^ 48 = o.addr := by
      rw [UInt64.toNat_ofNat']
      omega
    obtain ⟨p, member, same, covers, rfl⟩ := (h.pages _ _ f level).1 found
    refine ⟨p, member, ?_⟩
    have start := (h.aligned p member).iova
    rw [number, LivePin.covers_iff start] at covers
    have addr : p.iova = o.addr := by
      have aligned : p.size.bytes ∣ o.addr := by
        rw [← same] at aligned
        exact aligned
      rw [← Nat.div_mul_cancel start, covers, Nat.div_mul_cancel aligned]
    rcases o with ⟨_, _, _⟩
    simp only at page same addr
    rw [LivePin.entry, same, addr, page]
  · rintro ⟨p, member, rfl⟩
    have below := h.inside member
    have positive := p.size.bytes_pos
    have fits : p.iova < 2 ^ 48 := Nat.lt_of_lt_of_le (Nat.lt_add_of_pos_right positive) below
    have number : p.iova = (UInt64.ofNat p.iova).toNat := by
      rw [UInt64.toNat_ofNat']
      omega
    refine ⟨?_, _, rfl⟩
    exact (RadixTable.mem_occupied_iff rfl).2 ⟨Nat.le_of_lt p.size.level_lt_rootLevel,
      (h.aligned p member).iova, fits, h.leafAt?_pin member number⟩

end Iommu.Consistent

namespace Iommu

variable {t : Iommu A}

theorem physicalOf_iova_side (t : Iommu A) (va : UInt64) :
    (t.physicalOf va).state.iova = t.iova ∧ (t.physicalOf va).state.space = t.space := by
  unfold physicalOf mapPhysical
  rcases t.pageSizes.sizeAt va with ⟨e | none | size, pageSizes⟩
  · exact ⟨rfl, rfl⟩
  · exact ⟨rfl, rfl⟩
  · simp only
    split
    · exact ⟨rfl, rfl⟩
    · split
      · exact ⟨rfl, rfl⟩
      · exact ⟨rfl, rfl⟩

end Iommu

namespace PinnedTables

variable {s : PinnedTables A} {v : A.View}

/-- The invariant of every run: tables that are consistent with the live pins. -/
def Consistent (s : PinnedTables A) (v : A.View) : Prop := s.tables.Consistent v s.pins

theorem Consistent.refined (h : s.Consistent v) : s.Refined v where
  apart := h.pins_apart
  aligned p member := (h.aligned p member).iova
  inside _ member := h.inside member
  besideInterrupts _ member := h.beside_interrupts member
  ranges := h.ranges
  pages := h.occupied_perm
  counted := by
    rw [Iommu.livePages, RadixTable.pageCount, List.countP_eq_length_filter,
      h.occupied_perm.length_eq, List.length_map]
  translated _ fits b := h.translate_eq_some_iff fits b

theorem notePin_ok (pins : List LivePin) (va iova : UInt64) {len : UInt64} {size : PageSize}
    (sized : PageSize.ofLength len = .ok size) :
    notePin pins va len (.ok iova) = ⟨iova.toNat, va, size⟩ :: pins := by
  simp only [notePin, sized]

theorem noteUnpin_ok (pins : List LivePin) (iova : UInt64) {len : UInt64} {size : PageSize}
    (sized : PageSize.ofLength len = .ok size) : noteUnpin pins iova len (.ok ()) =
      pins.eraseP fun p => p.iova = iova.toNat ∧ p.size = size := by
  simp only [noteUnpin, sized]

theorem notePin_error (pins : List LivePin) (va len : UInt64) (e : IommuError) :
    notePin pins va len (.error e) = pins := rfl

theorem noteUnpin_error (pins : List LivePin) (iova len : UInt64) (e : IommuError) :
    noteUnpin pins iova len (.error e) = pins := rfl

theorem Consistent.pin (h : s.Consistent v) (laws : A.Laws v) (va len : UInt64) :
    (s.call (.pin va len)).Consistent v := by
  rcases Iommu.pin_cases_of_room laws (Iommu.Consistent.room h laws) with
    ⟨e, refused⟩ | ⟨size, range, space, r, pins⟩
  · rw [PinnedTables.call, refused, notePin_error]
    exact h
  · rw [PinnedTables.call, pins.answer, notePin_ok _ _ _ pins.sized]
    exact Iommu.Consistent.pin h laws pins

theorem Consistent.unpin_live (h : s.Consistent v) (laws : A.Laws v) {iova len : UInt64}
    {p : LivePin} (member : p ∈ s.pins) (same : p.iova = iova.toNat)
    (sized : PageSize.ofLength len = .ok p.size) :
    (s.tables.unpin iova len).answer = .ok () ∧ (s.call (.unpin iova len)).Consistent v := by
  obtain ⟨q, before, after, -, found, pins, erased⟩ := List.exists_of_eraseP
    (p := fun q : LivePin => decide (q.iova = iova.toNat ∧ q.size = p.size)) member
    (decide_eq_true ⟨same, rfl⟩)
  obtain ⟨sameQ, size⟩ := of_decide_eq_true found
  have order : s.pins.Perm (q :: (before ++ after)) := pins ▸ List.perm_middle
  have step := (Iommu.Consistent.perm h order).unpin laws sameQ (size ▸ sized)
  rw [PinnedTables.call, step.1, noteUnpin_ok _ _ sized, erased]
  exact ⟨rfl, step.2⟩

theorem Consistent.unpin_absent (h : s.Consistent v) {iova len : UInt64}
    (allowed : (IommuCall.unpin iova len).Allowed)
    (absent : ¬ ∃ p ∈ s.pins, p.iova = iova.toNat ∧ PageSize.ofLength len = .ok p.size) :
    ∃ e, s.tables.unpin iova len = ⟨.error e, s.tables, []⟩ := by
  rcases s.tables.unpin_cases iova len with
    ⟨e, refused, -⟩ | ⟨size, left, table, given, sized, unpinned, -⟩
  · exact ⟨e, refused⟩
  · obtain ⟨l, page, -⟩ := (RadixTable.unpin_eq_ok_iff ..).1 unpinned
    obtain ⟨fits, aligned⟩ := allowed size sized
    obtain ⟨-, p, member, same, rfl⟩ := Iommu.Consistent.exists_pin h fits aligned page
    exact absurd ⟨p, member, same, sized⟩ absent

theorem Consistent.unpin_ok_iff (h : s.Consistent v) (laws : A.Laws v) {iova len : UInt64}
    (allowed : (IommuCall.unpin iova len).Allowed) :
    (s.tables.unpin iova len).answer = .ok () ↔
      ∃ p ∈ s.pins, p.iova = iova.toNat ∧ PageSize.ofLength len = .ok p.size := by
  constructor
  · intro answer
    by_contra absent
    obtain ⟨e, refused⟩ := h.unpin_absent allowed absent
    rw [refused] at answer
    cases answer
  · rintro ⟨p, member, same, sized⟩
    exact (h.unpin_live laws member same sized).1

theorem Consistent.unpin (h : s.Consistent v) (laws : A.Laws v) {iova len : UInt64}
    (allowed : (IommuCall.unpin iova len).Allowed) :
    (s.call (.unpin iova len)).Consistent v := by
  by_cases live : ∃ p ∈ s.pins, p.iova = iova.toNat ∧ PageSize.ofLength len = .ok p.size
  · obtain ⟨p, member, same, sized⟩ := live
    exact (h.unpin_live laws member same sized).2
  · obtain ⟨e, refused⟩ := h.unpin_absent allowed live
    rw [PinnedTables.call, refused, noteUnpin_error]
    exact h

/-- A pin leaves every address outside its page as it was. -/
theorem Consistent.translate_pin (h : s.Consistent v) (laws : A.Laws v) {va len iova : UInt64}
    {size : PageSize} (sized : PageSize.ofLength len = .ok size)
    (answer : (s.tables.pin va len).answer = .ok iova) {a : UInt64} (fits : a.toNat < 2 ^ 48)
    (outside : ¬ (iova.toNat ≤ a.toNat ∧ a.toNat < iova.toNat + size.bytes)) :
    (s.tables.pin va len).state.translate a = s.tables.translate a := by
  rcases Iommu.pin_cases_of_room laws (Iommu.Consistent.room h laws) with
    ⟨e, refused⟩ | ⟨size', range, space, r, pins⟩
  · rw [refused] at answer
    cases answer
  · obtain rfl := Except.ok.inj (pins.sized.symm.trans sized)
    obtain rfl := Except.ok.inj (pins.answer.symm.trans answer)
    refine Iommu.Consistent.translate_congr h (Iommu.Consistent.pin h laws pins) fits ?_
    intro p covers
    have other : p ≠ ⟨(UInt64.ofNat range.start).toNat, va, size'⟩ := by
      rintro rfl
      exact outside covers
    rw [List.mem_cons, or_iff_right other]

/-- A pin that is taken back leaves every address outside its page as it was. -/
theorem Consistent.translate_unpin (h : s.Consistent v) (laws : A.Laws v) {iova len : UInt64}
    {size : PageSize} (allowed : (IommuCall.unpin iova len).Allowed)
    (sized : PageSize.ofLength len = .ok size)
    (answer : (s.tables.unpin iova len).answer = .ok ()) {a : UInt64} (fits : a.toNat < 2 ^ 48)
    (outside : ¬ (iova.toNat ≤ a.toNat ∧ a.toNat < iova.toNat + size.bytes)) :
    (s.tables.unpin iova len).state.translate a = s.tables.translate a := by
  obtain ⟨p, member, same, sizedP⟩ := (h.unpin_ok_iff laws allowed).1 answer
  obtain rfl := Except.ok.inj (sizedP.symm.trans sized)
  have order := List.perm_cons_erase member
  have step := (Iommu.Consistent.perm h order).unpin laws same sized
  refine Iommu.Consistent.translate_congr h step.2 fits ?_
  intro q covers
  have other : q ≠ p := by
    rintro rfl
    exact outside (same ▸ covers)
  rw [List.mem_erase_of_ne other]

theorem Consistent.call (h : s.Consistent v) (laws : A.Laws v) {c : IommuCall}
    (allowed : c.Allowed) : (s.call c).Consistent v := by
  cases c with
  | pin va len => exact h.pin laws va len
  | unpin iova len => exact h.unpin laws allowed
  | translate iova => exact h
  | physicalOf va =>
    obtain ⟨iova, space⟩ := s.tables.physicalOf_iova_side va
    exact Iommu.Consistent.congr h iova space
  | virtualOf pa => exact h
  | invalidate va len => exact Iommu.Consistent.congr h rfl rfl
  | terminate =>
    rw [PinnedTables.call, s.tables.terminate_eq]
    exact (Iommu.Consistent.empty laws {} s.tables.pageSizes.source).congr rfl rfl
  | remap source => exact Iommu.Consistent.congr h rfl rfl

theorem Consistent.run (h : s.Consistent v) (laws : A.Laws v) {calls : List IommuCall}
    (allowed : ∀ c ∈ calls, c.Allowed) : (s.run calls).Consistent v := by
  induction calls generalizing s with
  | nil => exact h
  | cons c calls ih =>
    obtain ⟨first, rest⟩ := List.forall_mem_cons.1 allowed
    exact ih (h.call laws first) rest

/-- In every run the IOVA side is that of the live pins, whatever allocator hands out the ranges. A
pin changes the translation of its own page alone, taking back succeeds for the live pins alone, and
then ends the translation of that page alone. -/
theorem run_refined {A : IovaAllocator} {v : A.View} (laws : A.Laws v) (options : Switches)
    (map : MemoryMap) (calls : List IommuCall) (allowed : ∀ c ∈ calls, c.Allowed) :
    let s : PinnedTables A := (start options map).run calls
    s.Refined v ∧
    (∀ va len iova size, PageSize.ofLength len = .ok size →
      (s.tables.pin va len).answer = .ok iova → ∀ a : UInt64, a.toNat < 2 ^ 48 →
      ¬ (iova.toNat ≤ a.toNat ∧ a.toNat < iova.toNat + size.bytes) →
      (s.tables.pin va len).state.translate a = s.tables.translate a) ∧
    ∀ iova len, (IommuCall.unpin iova len).Allowed →
      ((s.tables.unpin iova len).answer = .ok () ↔
        ∃ p ∈ s.pins, p.iova = iova.toNat ∧ PageSize.ofLength len = .ok p.size) ∧
      ∀ size, PageSize.ofLength len = .ok size → (s.tables.unpin iova len).answer = .ok () →
        ∀ a : UInt64, a.toNat < 2 ^ 48 →
        ¬ (iova.toNat ≤ a.toNat ∧ a.toNat < iova.toNat + size.bytes) →
        (s.tables.unpin iova len).state.translate a = s.tables.translate a := by
  intro s
  have first : (start options map).Consistent v := Iommu.Consistent.empty laws options map
  have h : s.Consistent v := first.run laws allowed
  refine ⟨h.refined, ?_, ?_⟩
  · intro va len iova size sized answer a fits outside
    exact h.translate_pin laws sized answer fits outside
  · intro iova len allowedUnpin
    refine ⟨h.unpin_ok_iff laws allowedUnpin, ?_⟩
    intro size sized answer a fits outside
    exact h.translate_unpin laws allowedUnpin sized answer fits outside

/-- A page of 4 KiB and one of 2 MiB at ranges that are handed out by first fit, the first of them
taken back. -/
theorem run_refined_two_pins :
    let calls : List IommuCall := [.pin 0x7000 0x1000, .pin 0x200000 0x200000, .unpin 0 0x1000]
    let s : PinnedTables FirstFit.allocator := (start {} { ranges := [] }).run calls
    (∀ c ∈ calls, c.Allowed) ∧ s.Refined FirstFit.view ∧
      s.pins = [⟨0x200000, 0x200000, .size2M⟩] ∧ s.tables.livePages = 1 := by
  intro calls s
  have allowed : ∀ c ∈ calls, c.Allowed := by
    simp only [calls, List.forall_mem_cons, List.not_mem_nil, false_imp_iff, implies_true,
      and_true, IommuCall.Allowed, true_and]
    intro size sized
    obtain rfl : PageSize.size4K = size := Except.ok.inj sized
    decide
  have refined := (run_refined FirstFit.laws {} { ranges := [] } calls allowed).1
  have pins : s.pins = [⟨0x200000, 0x200000, .size2M⟩] := by decide +kernel
  exact ⟨allowed, refined, pins, by rw [refined.counted, pins]; rfl⟩

end PinnedTables

end TlpBridge
