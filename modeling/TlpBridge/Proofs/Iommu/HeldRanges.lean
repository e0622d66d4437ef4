import TlpBridge.Proofs.Iommu.PinnedTables
import TlpBridge.Proofs.Iommu.RadixCalls

/-!
# Held ranges

Whatever is asked of the translation tables, each page of the IOVA table is pinned once and its
range of the IOVA space is taken. A page can be taken back at any address in it, of which 48 bits
count, but its range is given back at its start alone: elsewhere the call is refused after the page
is gone, and its range stays taken.
-/
namespace TlpBridge

open PageSize

variable {A : IovaAllocator}

/-- The page is the one that an address names among those of a length. -/
def CountedPage.IsNamed (p : CountedPage) (a len : UInt64) : Prop :=
  ∃ size, PageSize.ofLength len = .ok size ∧ p.IsAt a size.level

/-- Tables in which every page holds a range of the IOVA space. -/
structure Iommu.Held (t : Iommu A) (v : A.View) : Prop where
  kept : IovaSpace.Kept v t.space
  /-- A taken range of the size of a page is where a page can be. -/
  sized : ∀ (start : Nat) (size : PageSize), ⟨start, size.bytes⟩ ∈ v.taken t.space →
    size.bytes ∣ start
  single : ∀ p ∈ t.iova.pages, p.count = 1
  held : ∀ p ∈ t.iova.pages, p.range ∈ v.taken t.space

/-- A page is gone, from whichever address it is looked at, and nothing else has changed. -/
structure Iommu.Loses (t : Iommu A) (v : A.View) (p : CountedPage) (t' : Iommu A) : Prop where
  gone : ∀ a, p.Holds a → (t.translate a).isSome ∧ t'.translate a = none
  others : ∀ a, ¬ p.Holds a → t'.translate a = t.translate a
  livePages : t'.livePages + 1 = t.livePages
  /-- The physical side is the same, and the ranges that can be handed out. -/
  rest : t' = { t with iova := t'.iova }
  stillTaken : p.range ∈ v.taken t'.space

theorem numberedRange_of_dvd {a : UInt64} {size : PageSize} (aligned : size.bytes ∣ a.toNat)
    (fits : a.toNat < 2 ^ 48) :
    numberedRange size.level (pageNumber a size.level) = ⟨a.toNat, size.bytes⟩ := by
  rw [numberedRange, pageNumber, Nat.mod_eq_of_lt fits]
  exact congrArg (AddressRange.mk · size.bytes) (Nat.div_mul_cancel aligned)

theorem CountedPage.IsAt.range_eq {p : CountedPage} {a : UInt64} {level : Nat}
    (names : p.IsAt a level) : p.range = numberedRange level (pageNumber a level) := by
  rw [range, names.1, names.2]

theorem IovaSpace.size_interruptWindow (size : PageSize) : interruptWindow.size ≠ size.bytes := by
  cases size <;> decide

namespace Iommu

variable {t : Iommu A} {v : A.View} {iova len : UInt64}

theorem Held.empty (laws : A.Laws v) (options : Switches) (map : MemoryMap) :
    (ofMemoryMap options map : Iommu A).Held v where
  kept := (laws.create_spec A.created).1
  sized start size member := by
    have window := List.mem_singleton.1 ((laws.create_spec A.created).2.mem_iff.1 member)
    exact absurd (congrArg AddressRange.size window).symm (IovaSpace.size_interruptWindow size)
  single p member := by simp [ofMemoryMap, RadixTable.pages_empty] at member
  held p member := by simp [ofMemoryMap, RadixTable.pages_empty] at member

theorem Held.congr (h : t.Held v) {t' : Iommu A} (iova : t'.iova = t.iova)
    (space : t'.space = t.space) : t'.Held v where
  kept := space ▸ h.kept
  sized := space ▸ h.sized
  single := iova ▸ h.single
  held := iova ▸ space ▸ h.held

section

variable {size : PageSize} {range : AddressRange} {space : A.Space}

theorem Held.numberedRange_eq (h : t.Held v) (laws : A.Laws v)
    (allocated : A.allocate t.space size.bytes size.bytes .firstMatch = (.ok range, space)) :
    numberedRange size.level (pageNumber (UInt64.ofNat range.start) size.level) = range := by
  have new := laws.allocated _ _ _ _ _ _ allocated
  have below := (h.kept.handsOut new).inside range (new.added.mem_iff.2 List.mem_cons_self)
  have positive := size.bytes_pos
  have filled := new.size_eq
  rw [AddressRange.stop, filled, IovaSpace.limit] at below
  have number : (UInt64.ofNat range.start).toNat = range.start := by
    rw [UInt64.toNat_ofNat', Nat.mod_eq_of_lt (by omega)]
  rw [numberedRange_of_dvd (number.symm ▸ new.aligned) (by omega), number, ← filled]

theorem Held.not_isAt (h : t.Held v) (laws : A.Laws v)
    (allocated : A.allocate t.space size.bytes size.bytes .firstMatch = (.ok range, space))
    {p : CountedPage} (member : p ∈ t.iova.pages) :
    ¬ p.IsAt (UInt64.ofNat range.start) size.level := by
  intro names
  have taken := h.held p member
  rw [names.range_eq, h.numberedRange_eq laws allocated] at taken
  exact IovaSpace.not_mem_of_handsOut (laws.allocated _ _ _ _ _ _ allocated) size.bytes_pos taken

end

theorem Held.room (h : t.Held v) (laws : A.Laws v) {va : UInt64} (size : PageSize)
    (range : AddressRange) (space : A.Space) (e : IommuError)
    (allocated : A.allocate t.space size.bytes size.bytes .firstMatch = (.ok range, space)) :
    t.iova.pin (UInt64.ofNat range.start) va size.level ≠ .error e := by
  intro full
  have inside := size.level_lt_rootLevel.le
  obtain ⟨-, l, page, -⟩ := (RadixTable.pin_eq_error_iff _ _ inside).1 full
  obtain ⟨p, member, names, -⟩ := (RadixTable.exists_isAt_iff t.iova _ inside
    fun l' => l' = l).1 ⟨l, page, rfl⟩
  exact h.not_isAt laws allocated member names

theorem Held.pin (h : t.Held v) (laws : A.Laws v) (va len : UInt64) :
    (t.pin va len).state.Held v := by
  rcases pin_cases_of_room laws (h.room laws) with ⟨e, refused⟩ | ⟨size, range, space, r, pin⟩
  · rw [refused]
    exact h
  · have inside := size.level_lt_rootLevel.le
    have new := laws.allocated _ _ _ _ _ _ pin.allocated
    have once : r.count = 1 := by
      rcases RadixTable.count_pin_cases inside pin.pinned with ⟨p, member, names, -⟩ | ⟨-, once⟩
      · exact absurd names (h.not_isAt laws pin.allocated member)
      · exact once
    have taken {q : AddressRange} (old : q ∈ v.taken t.space) : q ∈ v.taken space :=
      new.added.mem_iff.2 (List.mem_cons_of_mem _ old)
    rw [pin.state]
    refine ⟨h.kept.handsOut new, ?_, ?_, ?_⟩
    · intro start size' member
      rcases List.mem_cons.1 (new.added.mem_iff.1 member) with same | old
      · have sizes : size'.bytes = size.bytes := (congrArg AddressRange.size same).trans new.size_eq
        have aligned := new.aligned
        rwa [← same, ← sizes] at aligned
      · exact h.sized start size' old
    · simp only [RadixTable.pages_pin inside pin.pinned, Finset.mem_insert, Finset.mem_filter]
      rintro p (rfl | ⟨old, -⟩)
      · exact once
      · exact h.single p old
    · simp only [RadixTable.pages_pin inside pin.pinned, Finset.mem_insert, Finset.mem_filter]
      rintro p (rfl | ⟨old, -⟩)
      · change numberedRange .. ∈ _
        rw [h.numberedRange_eq laws pin.allocated]
        exact new.added.mem_iff.2 List.mem_cons_self
      · exact taken (h.held p old)

theorem Held.giveBack_cases (h : t.Held v) (laws : A.Laws v) {p : CountedPage} {size : PageSize}
    (member : p ∈ t.iova.pages) (names : p.IsAt iova size.level) :
    iova.toNat ≠ p.range.start ∧ (∃ e, IovaSpace.giveBack A.toRangeAllocator t.space iova
        size.bytes = (.error e, t.space)) ∨
    iova.toNat = p.range.start ∧ ∃ space, IovaSpace.giveBack A.toRangeAllocator t.space iova
        size.bytes = (.ok (), space) ∧ IovaSpace.Kept v space ∧
      (v.taken space).Perm ((v.taken t.space).erase p.range) := by
  by_cases start : iova.toNat = p.range.start
  · have range : p.range = ⟨iova.toNat, size.bytes⟩ := by
      rw [start, names.range_eq]
      rfl
    have taken := h.held p member
    rw [range] at taken ⊢
    exact .inr ⟨rfl, laws.giveBack_of_mem h.kept size.one_lt_bytes taken⟩
  · refine .inl ⟨start, laws.giveBack_of_not_mem size.bytes_pos size.bytes_le_limit ?_⟩
    intro taken
    have below : iova.toNat + size.bytes ≤ 2 ^ 48 := h.kept.inside _ taken
    have positive := size.bytes_pos
    have range : p.range = ⟨iova.toNat, size.bytes⟩ :=
      names.range_eq.trans (numberedRange_of_dvd (h.sized _ _ taken) (by omega))
    rw [range] at start
    exact start rfl

/-- All that taking back a pin comes to. -/
theorem Held.unpin_cases (h : t.Held v) (laws : A.Laws v) (iova len : UInt64) :
    (∀ p ∈ t.iova.pages, ¬ p.IsNamed iova len) ∧ (∃ e, t.unpin iova len = ⟨.error e, t, []⟩) ∨
    ∃ p ∈ t.iova.pages, p.IsNamed iova len ∧ ∃ table : RadixTable,
      table.pages = t.iova.pages.erase p ∧
      (iova.toNat ≠ p.range.start ∧ (∃ e, (t.unpin iova len).answer = .error (.allocator e)) ∧
          (t.unpin iova len).state = { t with iova := table } ∨
        iova.toNat = p.range.start ∧ (t.unpin iova len).answer = .ok () ∧
          ∃ space, (t.unpin iova len).state = { t with iova := table, space := space } ∧
            IovaSpace.Kept v space ∧
            (v.taken space).Perm ((v.taken t.space).erase p.range)) := by
  rcases t.unpin_cases iova len with ⟨e, refused, absent⟩ |
    ⟨size, left, table, given, sized, unpinned, given_eq, answer, state⟩
  · refine .inl ⟨?_, e, refused⟩
    rintro p member ⟨size, sized, names⟩
    rcases absent with bad | ⟨size', sized', none_⟩
    · rw [sized] at bad
      cases bad
    · obtain rfl := Except.ok.inj (sized.symm.trans sized')
      exact (RadixTable.leafAt?_eq_none_iff _ _ size.level_lt_rootLevel.le).1 none_ p member names
  · have inside := size.level_lt_rootLevel.le
    obtain ⟨l, page, left_eq, -⟩ := (RadixTable.unpin_eq_ok_iff ..).1 unpinned
    obtain ⟨p, member, names, left_eq⟩ := (RadixTable.exists_isAt_iff t.iova iova inside
      fun l => left = l.count - 1).1 ⟨l, page, left_eq⟩
    obtain rfl : left = 0 := by simp [left_eq, h.single p member]
    have gone := RadixTable.pages_unpin inside member names unpinned
    rw [if_pos rfl] at gone given_eq
    subst given_eq
    refine .inr ⟨p, member, ⟨size, sized, names⟩, table, gone, ?_⟩
    rcases h.giveBack_cases laws member names with ⟨start, e, refused⟩ |
      ⟨start, space, freed, kept, erased⟩
    · rw [refused] at answer state
      exact .inl ⟨start, ⟨e, answer⟩, state⟩
    · rw [freed] at answer state
      exact .inr ⟨start, answer, space, state, kept, erased⟩

theorem Held.unpin (h : t.Held v) (laws : A.Laws v) (iova len : UInt64) :
    (t.unpin iova len).state.Held v := by
  rcases h.unpin_cases laws iova len with ⟨-, e, refused⟩ | ⟨p, member, -, table, gone, outcome⟩
  · rw [refused]
    exact h
  · have single : ∀ q ∈ table.pages, q.count = 1 := by
      rw [gone]
      exact fun q kept => h.single q (Finset.mem_of_mem_erase kept)
    rcases outcome with ⟨-, -, state⟩ | ⟨-, -, space, state, kept, erased⟩
    · rw [state]
      refine ⟨h.kept, h.sized, single, ?_⟩
      simp only [gone]
      exact fun q kept => h.held q (Finset.mem_of_mem_erase kept)
    · rw [state]
      refine ⟨kept, ?_, single, ?_⟩
      · exact fun start size taken =>
          h.sized start size (List.mem_of_mem_erase (erased.mem_iff.1 taken))
      · simp only [gone]
        intro q kept
        obtain ⟨other, old⟩ := Finset.mem_erase.1 kept
        have apart := RadixTable.apart_of_mem_pages old member other
        have positive := bytesAt_pos p.level
        refine erased.mem_iff.2 ((List.mem_erase_of_ne fun same => ?_).2 (h.held q old))
        rw [same] at apart
        simp only [AddressRange.Apart, AddressRange.stop, CountedPage.range, numberedRange] at apart
        omega

theorem Held.loses (h : t.Held v) {p : CountedPage} (member : p ∈ t.iova.pages) {table : RadixTable}
    (gone : table.pages = t.iova.pages.erase p) : t.Loses v p { t with iova := table } where
  gone a holds := by
    constructor
    · rw [translate, RadixTable.translate, RadixTable.lookup_eq_some_of_holds member holds]
      rfl
    · have nowhere : table.lookup a = none := by
        rw [RadixTable.lookup_eq_none_iff, gone]
        intro q kept holds'
        obtain ⟨other, old⟩ := Finset.mem_erase.1 kept
        exact other (RadixTable.eq_of_holds member holds old holds')
      rw [translate, RadixTable.translate, nowhere]
      rfl
  others a outside := by
    refine RadixTable.translate_congr_pages fun q holds => ?_
    have other : q ≠ p := by
      rintro rfl
      exact outside holds
    rw [gone, Finset.mem_erase, and_iff_right other]
  livePages := by
    simp only [livePages, ← RadixTable.card_pages, gone]
    exact Finset.card_erase_add_one member
  rest := rfl
  stillTaken := h.held p member

/-- A call that is refused leaves the tables as they were where no page is named, and otherwise
loses that page, of which the address is not the start. -/
theorem Held.unpin_refused (h : t.Held v) (laws : A.Laws v) {e : IommuError}
    (refused : (t.unpin iova len).answer = .error e) :
    ((t.unpin iova len).state = t ↔ ∀ p ∈ t.iova.pages, ¬ p.IsNamed iova len) ∧
    ∀ p ∈ t.iova.pages, p.IsNamed iova len →
      iova.toNat ≠ p.range.start ∧ t.Loses v p (t.unpin iova len).state := by
  rcases h.unpin_cases laws iova len with
    ⟨unnamed, e, step⟩ | ⟨p, member, named, table, gone, outcome⟩
  · rw [step]
    exact ⟨iff_of_true rfl unnamed, fun p member named => absurd named (unnamed p member)⟩
  · rcases outcome with ⟨inside, -, step⟩ | ⟨-, answer, -⟩
    · have loses := h.loses member gone
      have only (q : CountedPage) (member' : q ∈ t.iova.pages) (named' : q.IsNamed iova len) :
          q = p := by
        obtain ⟨size, sized, names⟩ := named
        obtain ⟨size', sized', names'⟩ := named'
        obtain rfl := Except.ok.inj (sized.symm.trans sized')
        have holds {q : CountedPage} (names : q.IsAt iova size.level) : q.Holds iova := by
          rw [CountedPage.holds_iff, names.2, names.1]
        exact RadixTable.eq_of_holds member (holds names) member' (holds names')
      rw [step]
      refine ⟨iff_of_false (fun same => ?_) (fun unnamed => unnamed p member named), ?_⟩
      · have fewer := loses.livePages
        rw [same] at fewer
        omega
      · intro q member' named'
        rw [only q member' named']
        exact ⟨inside, loses⟩
    · rw [answer] at refused
      cases refused

end Iommu

namespace PinnedTables

variable {s : PinnedTables A} {v : A.View}

theorem held_call (laws : A.Laws v) (held : s.tables.Held v) (c : IommuCall) :
    (s.call c).tables.Held v := by
  cases c with
  | pin va len => exact held.pin laws va len
  | unpin iova len => exact held.unpin laws iova len
  | translate iova => exact held
  | physicalOf va =>
    obtain ⟨iova, space⟩ := s.tables.physicalOf_iova_side va
    exact held.congr iova space
  | virtualOf pa => exact held
  | invalidate va len => exact held.congr rfl rfl
  | terminate =>
    rw [call, s.tables.terminate_eq]
    exact (Iommu.Held.empty laws {} s.tables.pageSizes.source).congr rfl rfl
  | remap source => exact held.congr rfl rfl

theorem held_run (laws : A.Laws v) (options : Switches) (map : MemoryMap)
    (calls : List IommuCall) : ((start options map).run calls).tables.Held v := by
  have held_from (s : PinnedTables A) (held : s.tables.Held v) :
      (s.run calls).tables.Held v := by
    induction calls generalizing s with
    | nil => exact held
    | cons c calls ih => exact ih _ (held_call laws held c)
  exact held_from _ (.empty laws options map)

/-- In every run, whatever allocator hands out the ranges, taking back a pin where the call is
refused leaves the tables as they were if and only if no page of that length is named. If one is,
the address is not its start, and that page alone is lost while its range stays taken. -/
theorem run_unpin_refused {A : IovaAllocator} {v : A.View} (laws : A.Laws v) (options : Switches)
    (map : MemoryMap) (calls : List IommuCall) (iova len : UInt64) (e : IommuError) :
    let t : Iommu A := ((start options map).run calls).tables
    (t.unpin iova len).answer = .error e →
      ((t.unpin iova len).state = t ↔ ∀ p ∈ t.iova.pages, ¬ p.IsNamed iova len) ∧
      ∀ p ∈ t.iova.pages, p.IsNamed iova len →
        iova.toNat ≠ p.range.start ∧ t.Loses v p (t.unpin iova len).state :=
  fun refused => (held_run laws options map calls).unpin_refused laws refused

/-- A pin is taken back in the middle of its page: the call is refused and the page is gone. -/
theorem run_unpin_refused_inside_page :
    let t : Iommu FirstFit.allocator :=
      ((start {} { ranges := [] }).run [.pin 0x7000 0x1000]).tables
    (t.unpin 0x800 0x1000).answer = .error (.allocator FirstFit.unavailable) ∧
      t.translate 0 = some 0x7000 ∧ (t.unpin 0x800 0x1000).state.translate 0 = none ∧
      ∃ p ∈ t.iova.pages, t.Loses FirstFit.view p (t.unpin 0x800 0x1000).state := by
  intro t
  have refused : (t.unpin 0x800 0x1000).answer = .error (.allocator FirstFit.unavailable) := by
    decide +kernel
  have before : t.translate 0 = some 0x7000 := by decide +kernel
  have after : (t.unpin 0x800 0x1000).state.translate 0 = none := by decide +kernel
  obtain ⟨same, loses⟩ := run_unpin_refused FirstFit.laws _ _ _ _ _ _ refused
  have changed : (t.unpin 0x800 0x1000).state ≠ t := by
    intro same
    rw [same, before] at after
    cases after
  have named := same.not.1 changed
  push Not at named
  obtain ⟨p, member, named⟩ := named
  exact ⟨refused, before, after, p, member, (loses p member named).2⟩

end PinnedTables

end TlpBridge
