import TlpBridge.Proofs.Iommu.Invalidation

/-!
# Known ranges

What was read of a memory map is kept and may be out of date. As long as the map only gains ranges
away from those it had, or what was read is forgotten before an address is asked for again, nobody
can tell: every answer is that of the map as it is then.
-/
namespace TlpBridge

open PageSize

variable {A : IovaAllocator}

/-! ## Maps that gain ranges -/

/-- The ranges of a map that has gained ranges, away from those it had, which keep their order. -/
structure Gains (old new : List MappedRange) : Prop where
  kept : old.Sublist new
  apart : ∃ gained, new.Perm (old ++ gained) ∧ ∀ r ∈ gained, ∀ s ∈ old, r.Apart s

namespace Gains

variable {old mid new : List MappedRange} {va : UInt64}

theorem refl (ranges : List MappedRange) : Gains ranges ranges where
  kept := List.Sublist.refl _
  apart := ⟨[], by rw [List.append_nil], by simp⟩

theorem trans (h : Gains old mid) (h' : Gains mid new) : Gains old new where
  kept := h.kept.trans h'.kept
  apart := by
    obtain ⟨first, shape, apart⟩ := h.apart
    obtain ⟨second, shape', apart'⟩ := h'.apart
    refine ⟨first ++ second, ?_, ?_⟩
    · rw [← List.append_assoc]
      exact shape'.trans (shape.append_right second)
    · intro r member s own
      rcases List.mem_append.1 member with gained | gained
      · exact apart r gained s own
      · exact apart' r gained s (h.kept.subset own)

theorem filter_contains_eq (h : Gains old new) {s : MappedRange} (own : s ∈ old)
    (holds : s.contains va) : old.filter (·.contains va) = new.filter (·.contains va) := by
  obtain ⟨gained, shape, apart⟩ := h.apart
  have none_ : gained.filter (·.contains va) = [] := by
    rw [List.filter_eq_nil_iff]
    exact fun r member holds' => apart r member s own va ⟨holds', holds⟩
  have sameLength := (shape.filter (·.contains va)).length_eq
  rw [List.filter_append, none_, List.append_nil] at sameLength
  exact (h.kept.filter _).eq_of_length sameLength.symm

theorem find?_eq (h : Gains old new) {r : MappedRange}
    (found : old.find? (·.contains va) = some r) : new.find? (·.contains va) = some r := by
  have holds : r.contains va := by simpa using List.find?_some found
  have same := h.filter_contains_eq (List.mem_of_find?_eq_some found) holds
  rw [← List.head?_filter] at found ⊢
  rw [← same, found]

end Gains

/-! ## Answers of the map itself -/

/-- The size of the page that holds an address, as the map has it. -/
def MemoryMap.sizeAt (m : MemoryMap) (va : UInt64) : Except IommuError (Option PageSize) :=
  match m.ranges.find? (·.contains va) with
  | none => .ok none
  | some r => (PageSize.ofPageKb r.pageKb).map some

/-- The physical address of an address and the size of its page, as the map has it. -/
def MemoryMap.physicalOf (m : MemoryMap) (va : UInt64) :
    Except IommuError (Option (UInt64 × PageSize)) :=
  (m.sizeAt va).map (Option.map fun size => (physicalAddress va size, size))

namespace PageSizes

variable {p : PageSizes}

/-- The size at an address is that of the known range that holds it, or else that of the source,
if it can be read. -/
theorem sizeAt_eq (p : PageSizes) (va : UInt64) : p.sizeAt va =
    match p.find? va with
    | some r => ((PageSize.ofPageKb r.pageKb).map some, p)
    | none =>
      if p.source.readable then (p.source.sizeAt va, ⟨p.source.scan.2, some p.source.ranges⟩)
      else (.error .memoryMap, { p with source := p.source.scan.2 }) := by
  unfold sizeAt locate MemoryMap.sizeAt
  cases p.find? va with
  | some r => rfl
  | none =>
    cases readable : p.source.readable with
    | false => simp only [MemoryMap.scan, readable, Bool.false_eq_true, if_false]
    | true =>
      simp only [MemoryMap.scan, readable, if_true, find?, Option.bind_some]
      cases p.source.ranges.find? (·.contains va) <;> rfl

/-- Whatever is known, the source has only gained ranges since. -/
def Current (p : PageSizes) : Prop := ∀ ranges ∈ p.known, Gains ranges p.source.ranges

theorem Current.sizeAt (h : p.Current) (va : UInt64) :
    (p.find? va = none ∧ p.source.readable = false ∧
      p.sizeAt va = (.error .memoryMap, { p with source := p.source.scan.2 })) ∨
    ((p.find? va).isSome ∨ p.source.readable) ∧ (p.sizeAt va).1 = p.source.sizeAt va := by
  rw [sizeAt_eq]
  cases found : p.find? va with
  | some r =>
    obtain ⟨ranges, known, first⟩ := Option.bind_eq_some_iff.1 found
    refine .inr ⟨.inl rfl, ?_⟩
    rw [MemoryMap.sizeAt, (h ranges known).find?_eq first]
  | none =>
    cases readable : p.source.readable with
    | false => exact .inl ⟨rfl, rfl, rfl⟩
    | true => exact .inr ⟨.inr rfl, rfl⟩

theorem known_sizeAt (p : PageSizes) (va : UInt64) :
    (p.sizeAt va).2.known = p.known ∨ (p.sizeAt va).2.known = some p.source.ranges := by
  rw [sizeAt_eq]
  cases p.find? va with
  | some r => exact .inl rfl
  | none =>
    cases p.source.readable with
    | false => exact .inl rfl
    | true => exact .inr rfl

theorem source_sizeAt (p : PageSizes) (va : UInt64) :
    (p.sizeAt va).2.source.ranges = p.source.ranges ∧
      (p.sizeAt va).2.source.readable = p.source.readable := by
  rw [sizeAt_eq]
  cases p.find? va with
  | some r => exact ⟨rfl, rfl⟩
  | none =>
    simp only
    split_ifs
    · exact ⟨rfl, rfl⟩
    · exact ⟨rfl, rfl⟩

end PageSizes

/-! ## Pages of addresses that were asked for -/

namespace Iommu

variable {t : Iommu A} {va : UInt64} {size : PageSize}

theorem physicalOf_of_error {e : IommuError} {pageSizes : PageSizes}
    (failed : t.pageSizes.sizeAt va = (.error e, pageSizes)) :
    (t.physicalOf va).answer = .error e ∧
      (t.physicalOf va).state = { t with pageSizes := pageSizes } := by
  unfold physicalOf
  rw [failed]
  exact ⟨rfl, rfl⟩

/-- The page that the table has at the physical page of an address is that of the address, if it
leads to an address of 48 bits. -/
theorem placed_of_leafAt? (traced : t.pa.Traced) (low : va.toNat < 2 ^ 48) {l : Leaf}
    (page : t.pa.leafAt? (size.startOf (physicalAddress va size)) size.level = some l)
    (leads : l.va.toNat < 2 ^ 48) : t.Placed va size := by
  have inside := size.level_le_rootLevel
  obtain ⟨own, level, aligned, at_⟩ := traced _ _ l inside page
  obtain rfl := level_injective level
  have virtual : SamePage l.va va own.level rootLevel :=
    (samePage_physical_iff (Nat.le_refl _) (Nat.le_refl _) inside).1
      (at_.trans (own.samePage_startOf _))
  rw [SamePage.root_iff inside, Nat.mod_eq_of_lt leads, Nat.mod_eq_of_lt low] at virtual
  have start : l.va = own.startOf va := by
    rw [← UInt64.toNat_inj, toNat_startOf, pageOf, bytes, ← virtual]
    exact (Nat.div_mul_cancel aligned).symm
  rw [placed_iff_startOf, RadixTable.Leads, page, Option.map_some, start]

end Iommu

namespace PinnedTables

variable {s : PinnedTables A} {a va : UInt64} {k : Nat} {l : Leaf}

theorem leafAt?_call {c : IommuCall} (inside : k ≤ rootLevel)
    (page : (s.call c).tables.pa.leafAt? a k = some l) :
    s.tables.pa.leafAt? a k = some l ∨
      ∃ va, ∃ size : PageSize, c = .physicalOf va ∧ l.va = size.startOf va := by
  cases c with
  | pin va len => exact .inl (by rwa [call, (s.tables.pin_pa_side va len).1] at page)
  | unpin iova len => exact .inl (by rwa [call, (s.tables.unpin_pa_side iova len).1] at page)
  | translate iova => exact .inl page
  | physicalOf va =>
    rw [call] at page
    rcases s.tables.pa_physicalOf va with same | ⟨size, r, -, -, pinned, next⟩
    · exact .inl (same ▸ page)
    · rw [next, RadixTable.leafAt?_pin a inside size.level_le_rootLevel pinned] at page
      split_ifs at page with overlap own
      · cases page
        exact .inr ⟨va, size, rfl, rfl⟩
      · exact .inl page
  | virtualOf pa => exact .inl page
  | invalidate va len => exact .inl (Iommu.leafAt?_of_removeMapped inside page)
  | terminate => exact absurd page (by simp [call, Iommu.terminate_eq, RadixTable.leafAt?_empty])
  | remap source => exact .inl page

theorem exists_physicalOf_of_leafAt? {options : Switches} {map : MemoryMap}
    {calls : List IommuCall} (inside : k ≤ rootLevel)
    (page : ((start options map : PinnedTables A).run calls).tables.pa.leafAt? a k = some l) :
    ∃ va, ∃ size : PageSize, .physicalOf va ∈ calls ∧ l.va = size.startOf va := by
  induction calls using List.reverseRecOn with
  | nil => exact absurd page (by simp [run, start, Iommu.ofMemoryMap, RadixTable.leafAt?_empty])
  | append_singleton calls c ih =>
    rw [run, List.foldl_append] at page
    rcases leafAt?_call inside page with before | ⟨va, size, rfl, leads⟩
    · obtain ⟨va, size, member, leads⟩ := ih before
      exact ⟨va, size, List.mem_append_left _ member, leads⟩
    · exact ⟨va, size, List.mem_append_right _ List.mem_cons_self, leads⟩

/-- Where addresses of 48 bits are asked for, the answer is read off the page size. -/
theorem answer_physicalOf {options : Switches} {map : MemoryMap} {calls : List IommuCall}
    (low : ∀ v, .physicalOf v ∈ calls → v.toNat < 2 ^ 48) (lowVa : va.toNat < 2 ^ 48) :
    let t : Iommu A := ((start options map).run calls).tables
    (t.physicalOf va).answer = (t.pageSizes.sizeAt va).1.map
      (Option.map fun size => (physicalAddress va size, size)) := by
  intro t
  rcases t.physicalOf_cases va with ⟨e, sized, error, -⟩ | ⟨sized, nothing, -⟩ |
    ⟨size, sized, outcome⟩
  · rw [sized, error]
    rfl
  · rw [sized, nothing]
    rfl
  · rw [sized]
    rcases outcome with ⟨-, ok, -⟩ | ⟨-, r, -, ok, -⟩ | ⟨fresh, e, full, -, -⟩
    · exact ok
    · exact ok
    · -- a page that is in the way would be that of the address
      have inside := size.level_le_rootLevel
      obtain ⟨-, l, page, -⟩ := (RadixTable.pin_eq_error_iff _ _ inside).1 full
      obtain ⟨v, own, member, leads⟩ := exists_physicalOf_of_leafAt? inside page
      have below : l.va.toNat ≤ v.toNat := by
        rw [leads, toNat_startOf]
        exact Nat.div_mul_le_self ..
      exact absurd (Iommu.placed_of_leafAt? (traced_run RadixTable.Traced.empty calls) lowVa page
        (below.trans_lt (low v member))) fresh

end PinnedTables

/-! ## Runs -/

/-- The memory map in the course of a run: as it is now, and as it was when an address was asked
for last, unless there was an invalidation or a teardown since. -/
structure MapWatch where
  now : MemoryMap
  asked : Option (List MappedRange) := none

namespace MapWatch

def call (w : MapWatch) : IommuCall → MapWatch
  | .physicalOf _ => { w with asked := some w.now.ranges }
  | .invalidate .. | .terminate => { w with asked := none }
  | .remap source => { w with now := source }
  | .pin .. | .unpin .. | .translate _ | .virtualOf _ => w

def run (w : MapWatch) (calls : List IommuCall) : MapWatch := calls.foldl call w

/-- An address is asked for only if the map has gained ranges at most, since one was asked for last,
or if there was an invalidation or a teardown since. -/
def Allows (w : MapWatch) : IommuCall → Prop
  | .physicalOf _ => ∀ ranges ∈ w.asked, Gains ranges w.now.ranges
  | _ => True

/-- No change of the map goes unannounced. -/
def Announced (w : MapWatch) : List IommuCall → Prop
  | [] => True
  | c :: calls => w.Allows c ∧ (w.call c).Announced calls

/-- The page sizes have this source, and what they know they have from the map as it was when an
address was asked for last, or from one that had only gained ranges by then. -/
structure Informs (w : MapWatch) (p : PageSizes) : Prop where
  ranges : p.source.ranges = w.now.ranges
  readable : p.source.readable = w.now.readable
  known : ∀ ranges ∈ p.known, ∃ asked ∈ w.asked, Gains ranges asked

namespace Informs

variable {w : MapWatch} {p : PageSizes} {s : PinnedTables A}

theorem start (map : MemoryMap) : (⟨map, none⟩ : MapWatch).Informs ⟨map, none⟩ where
  ranges := rfl
  readable := rfl
  known := by simp

theorem current (h : w.Informs p) {va : UInt64} (allowed : w.Allows (.physicalOf va)) :
    p.Current := by
  intro ranges known
  obtain ⟨asked, member, gains⟩ := h.known ranges known
  exact h.ranges ▸ gains.trans (allowed asked member)

theorem physicalOf (h : w.Informs p) {va : UInt64} (allowed : w.Allows (.physicalOf va)) :
    (w.call (.physicalOf va)).Informs (p.sizeAt va).2 where
  ranges := (p.source_sizeAt va).1.trans h.ranges
  readable := (p.source_sizeAt va).2.trans h.readable
  known ranges member := by
    refine ⟨_, rfl, ?_⟩
    rw [← h.ranges]
    rcases p.known_sizeAt va with same | read
    · exact h.current allowed ranges (same ▸ member)
    · rw [read] at member
      cases member
      exact Gains.refl _

theorem forget (h : w.Informs p) : ({ w with asked := none } : MapWatch).Informs p.forget where
  ranges := h.ranges
  readable := h.readable
  known := by simp [PageSizes.forget]

theorem call (h : w.Informs s.tables.pageSizes) {c : IommuCall} (allowed : w.Allows c) :
    (w.call c).Informs (s.call c).tables.pageSizes := by
  cases c with
  | pin va len => rwa [PinnedTables.call, (s.tables.pin_pa_side va len).2]
  | unpin iova len => rwa [PinnedTables.call, (s.tables.unpin_pa_side iova len).2]
  | translate iova => exact h
  | physicalOf va =>
    rw [PinnedTables.call, Iommu.pageSizes_physicalOf]
    exact h.physicalOf allowed
  | virtualOf pa => exact h
  | invalidate va len => exact h.forget
  | terminate =>
    rw [PinnedTables.call, s.tables.terminate_eq]
    exact h.forget
  | remap source => exact ⟨rfl, rfl, h.known⟩

theorem run (h : w.Informs s.tables.pageSizes) {before rest : List IommuCall}
    (announced : w.Announced (before ++ rest)) :
    (w.run before).Informs (s.run before).tables.pageSizes ∧ (w.run before).Announced rest := by
  induction before generalizing w s with
  | nil => exact ⟨h, announced⟩
  | cons c before ih =>
    obtain ⟨allowed, announced⟩ := announced
    exact ih (h.call allowed) announced

end Informs

end MapWatch

namespace PinnedTables

/-- If no change of the memory map goes unannounced, what is known of it cannot be told from the
answers: each is that of the map at the time of the call, unless the map has to be read and cannot
be, which leaves what is known and both tables as they are. -/
theorem run_physicalOf_eq (options : Switches) (map : MemoryMap) (calls : List IommuCall)
    (low : ∀ va, .physicalOf va ∈ calls → va.toNat < 2 ^ 48)
    (announced : (⟨map, none⟩ : MapWatch).Announced calls) (before after : List IommuCall)
    (va : UInt64) (split : calls = before ++ .physicalOf va :: after) :
    let t : Iommu A := ((start options map).run before).tables
    let source := ((⟨map, none⟩ : MapWatch).run before).now
    let step := t.physicalOf va
    (t.pageSizes.find? va = none ∧ source.readable = false ∧ step.answer = .error .memoryMap ∧
      step.state.pageSizes.known = t.pageSizes.known ∧ step.state.iova = t.iova ∧
      step.state.pa = t.pa) ∨
    ((t.pageSizes.find? va).isSome ∨ source.readable) ∧ step.answer = source.physicalOf va := by
  intro t source step
  subst split
  obtain ⟨informed, allowed, -⟩ :=
    (MapWatch.Informs.start map).run (s := (start options map : PinnedTables A)) announced
  rcases (informed.current allowed).sizeAt va with ⟨unknown, unreadable, failed⟩ | ⟨told, sized⟩
  · obtain ⟨answer, state⟩ := Iommu.physicalOf_of_error failed
    exact .inl ⟨unknown, informed.readable ▸ unreadable, answer, by rw [state], by rw [state],
      by rw [state]⟩
  · refine .inr ⟨informed.readable ▸ told, ?_⟩
    have answer : step.answer = _ := answer_physicalOf
      (fun v member => low v (List.mem_append_left _ member))
      (low va (List.mem_append_right _ List.mem_cons_self))
    rw [answer, sized, MemoryMap.physicalOf, MemoryMap.sizeAt, MemoryMap.sizeAt, informed.ranges]

/-- The map gains a range in front of the one that is known; then it is replaced, and an
invalidation of another page announces this. -/
theorem run_physicalOf_eq_after_changes :
    let map : MemoryMap := { ranges := [⟨0x1000, 0x3000, 4⟩] }
    let grown : MemoryMap := { ranges := [⟨0x200000, 0x400000, 2048⟩, ⟨0x1000, 0x3000, 4⟩] }
    let replaced : MemoryMap := { ranges := [⟨0, 0x200000, 2048⟩] }
    let before : List IommuCall := [.physicalOf 0x1234, .remap grown, .physicalOf 0x2345,
      .remap replaced, .invalidate 0x200000 0x1000]
    let calls := before ++ [.physicalOf 0x1234]
    (∀ va, .physicalOf va ∈ calls → va.toNat < 2 ^ 48) ∧
      (⟨map, none⟩ : MapWatch).Announced calls ∧
      (((start {} map : PinnedTables FirstFit.allocator).run before).tables.physicalOf
          0x1234).answer =
        .ok (some (0x7fffffe01234, .size2M)) := by
  intro map grown replaced before calls
  have low (va : UInt64) (member : .physicalOf va ∈ calls) : va.toNat < 2 ^ 48 := by
    simp only [calls, before, List.cons_append, List.nil_append, List.mem_cons,
      IommuCall.physicalOf.injEq, reduceCtorEq, false_or, List.not_mem_nil, or_false] at member
    rcases member with rfl | rfl | rfl <;> decide
  have gains : Gains map.ranges grown.ranges := by
    refine ⟨by decide, [⟨0x200000, 0x400000, 2048⟩], by decide, ?_⟩
    simp only [map, List.forall_mem_singleton]
    rintro va ⟨large, small⟩
    rw [MappedRange.contains_iff] at large small
    have lower : 0x200000 ≤ va.toNat := large.1
    have upper : va.toNat < 0x3000 := small.2
    omega
  have announced : (⟨map, none⟩ : MapWatch).Announced calls :=
    ⟨nofun, trivial, fun _ same => Option.some_inj.1 same ▸ gains, trivial, trivial, nofun, trivial⟩
  refine ⟨low, announced, ?_⟩
  rcases run_physicalOf_eq {} map calls low announced before [] 0x1234 rfl with
    ⟨-, unreadable, -⟩ | ⟨-, answer⟩
  · cases unreadable
  · rw [answer]
    decide

end PinnedTables

end TlpBridge
