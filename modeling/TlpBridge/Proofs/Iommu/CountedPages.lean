import TlpBridge.Iommu.Tables
import TlpBridge.Proofs.Iommu.RadixListing

/-!
# Counted pages

A radix table is a set of pages with pin counts, no two of which overlap. Every operation is
described by what it does to that set.
-/
namespace TlpBridge

open PageSize

/-- The range lies in another one and is not all of it. -/
def AddressRange.Inside (r s : AddressRange) : Prop :=
  (s.start ≤ r.start ∧ r.stop ≤ s.stop) ∧ r ≠ s

instance (r s : AddressRange) : Decidable (r.Inside s) := inferInstanceAs (Decidable (_ ∧ _))

/-- The number of the page of a level that holds an address, of which 48 bits count. -/
def pageNumber (a : UInt64) (level : Nat) : Nat := a.toNat % 2 ^ 48 / bytesAt level

/-- A page of a level by its number, the address it leads to and how often it is pinned. -/
structure CountedPage where
  level : Nat
  number : Nat
  va : UInt64
  count : Nat
deriving DecidableEq

/-- The addresses of the page of a level with a number. -/
def numberedRange (level number : Nat) : AddressRange := ⟨number * bytesAt level, bytesAt level⟩

namespace CountedPage

def range (p : CountedPage) : AddressRange := numberedRange p.level p.number

/-- The page holds an address, of which 48 bits count. -/
def Holds (p : CountedPage) (a : UInt64) : Prop :=
  p.range.start ≤ a.toNat % 2 ^ 48 ∧ a.toNat % 2 ^ 48 < p.range.stop

instance (p : CountedPage) (a : UInt64) : Decidable (p.Holds a) :=
  inferInstanceAs (Decidable (_ ∧ _))

/-- The page is the one of a level that an address names. -/
def IsAt (p : CountedPage) (a : UInt64) (level : Nat) : Prop :=
  p.level = level ∧ p.number = pageNumber a level

instance (p : CountedPage) (a : UInt64) (level : Nat) : Decidable (p.IsAt a level) :=
  inferInstanceAs (Decidable (_ ∧ _))

/-- The page overlaps the one of a level that an address names, which is larger or smaller. -/
def Yields (p : CountedPage) (a : UInt64) (level : Nat) : Prop :=
  p.range.Inside (numberedRange level (pageNumber a level)) ∨
    (numberedRange level (pageNumber a level)).Inside p.range

instance (p : CountedPage) (a : UInt64) (level : Nat) : Decidable (p.Yields a level) :=
  inferInstanceAs (Decidable (_ ∨ _))

theorem IsAt.eq {p : CountedPage} {a : UInt64} {level : Nat} (names : p.IsAt a level) :
    p = ⟨level, pageNumber a level, p.va, p.count⟩ := by
  rcases p with ⟨s, number, va, count⟩
  obtain ⟨rfl : s = level, rfl : number = pageNumber a s⟩ := names
  rfl

theorem holds_iff (p : CountedPage) (a : UInt64) : p.Holds a ↔ p.number = pageNumber a p.level := by
  have positive := bytesAt_pos p.level
  have quotient : pageNumber a p.level = p.number ↔ _ := Nat.div_eq_iff positive
  rw [eq_comm, quotient]
  simp only [Holds, range, numberedRange, AddressRange.stop]
  omega

end CountedPage

/-- The page that a slot in use holds. -/
def Occupied.page? (o : Occupied) : Option CountedPage :=
  o.leaf?.map fun l => ⟨o.level, o.addr / bytesAt o.level, l.va, l.count⟩

/-- The pages of a table. -/
def RadixTable.pages (t : RadixTable) : Finset CountedPage :=
  (t.occupied.filterMap Occupied.page?).toFinset

theorem pageNumber_start {level number : Nat} (fits : number * bytesAt level < 2 ^ 48) :
    pageNumber (UInt64.ofNat (number * bytesAt level)) level = number := by
  have word : number * bytesAt level < 2 ^ 64 := by omega
  rw [pageNumber, UInt64.toNat_ofNat', Nat.mod_eq_of_lt word, Nat.mod_eq_of_lt fits,
    Nat.mul_div_cancel _ (bytesAt_pos level)]

theorem pageNumber_mul_lt (a : UInt64) (level : Nat) :
    pageNumber a level * bytesAt level < 2 ^ 48 :=
  Nat.lt_of_le_of_lt (Nat.div_mul_le_self ..) (Nat.mod_lt _ (by decide))

theorem samePage_iff_pageNumber {a b : UInt64} {level : Nat} (inside : level ≤ rootLevel) :
    SamePage a b level rootLevel ↔ pageNumber a level = pageNumber b level :=
  SamePage.root_iff inside

/-- A page lies in a page of a higher level if its addresses name that page. -/
theorem inside_numberedRange_iff (a b : UInt64) {low high : Nat} (below : low < high) :
    (numberedRange low (pageNumber b low)).Inside (numberedRange high (pageNumber a high)) ↔
      pageNumber a high = pageNumber b high := by
  obtain ⟨k, rfl⟩ := Nat.exists_eq_add_of_le (Nat.le_of_lt below)
  have positive := bytesAt_pos low
  have many : 0 < 512 ^ k := by positivity
  have larger : bytesAt low < bytesAt low * 512 ^ k :=
    lt_mul_of_one_lt_right positive (Nat.one_lt_pow (by omega) (by decide))
  have parts : pageNumber b (low + k) = pageNumber b low / 512 ^ k := by
    rw [pageNumber, pageNumber, bytesAt_add, Nat.div_div_eq_div_mul]
  have start : pageNumber a (low + k) * bytesAt (low + k) =
      pageNumber a (low + k) * 512 ^ k * bytesAt low := by
    rw [bytesAt_add]; ring
  have stop : pageNumber a (low + k) * bytesAt (low + k) + bytesAt (low + k) =
      (pageNumber a (low + k) + 1) * 512 ^ k * bytesAt low := by
    rw [bytesAt_add]; ring
  have distinct : numberedRange low (pageNumber b low) ≠
      numberedRange (low + k) (pageNumber a (low + k)) := by
    intro same
    have sizes := congrArg AddressRange.size same
    simp only [numberedRange, bytesAt_add] at sizes
    omega
  simp only [AddressRange.Inside, distinct, ne_eq, not_false_eq_true, and_true]
  rw [parts, eq_comm, Nat.div_eq_iff many]
  simp only [numberedRange, AddressRange.stop, stop]
  rw [start, Nat.mul_le_mul_right_iff positive, ← Nat.succ_mul,
    Nat.mul_le_mul_right_iff positive, Nat.succ_mul]
  omega

namespace RadixTable

theorem mem_pages_iff (t : RadixTable) (p : CountedPage) : p ∈ t.pages ↔
    p.level ≤ rootLevel ∧ p.range.start < 2 ^ 48 ∧
      t.leafAt? (UInt64.ofNat p.range.start) p.level = some ⟨p.va, p.count⟩ := by
  simp only [pages, List.mem_toFinset, List.mem_filterMap, Occupied.page?, Option.map_eq_some_iff]
  constructor
  · rintro ⟨o, listed, l, page, rfl⟩
    obtain ⟨inside, aligned, fits, found⟩ := (mem_occupied_iff page).1 listed
    simp only [CountedPage.range, numberedRange, Nat.div_mul_cancel aligned]
    exact ⟨inside, fits, found⟩
  · rintro ⟨inside, fits, found⟩
    refine ⟨⟨p.level, p.range.start, some ⟨p.va, p.count⟩⟩, ?_, _, rfl, ?_⟩
    · exact (mem_occupied_iff rfl).2 ⟨inside, Nat.dvd_mul_left .., fits, found⟩
    · simp only [CountedPage.range, numberedRange, Nat.mul_div_cancel _ (bytesAt_pos p.level)]

theorem stop_le_of_mem_pages {t : RadixTable} {p : CountedPage} (member : p ∈ t.pages) :
    p.range.stop ≤ 2 ^ 48 := by
  obtain ⟨inside, fits, -⟩ := (mem_pages_iff t p).1 member
  obtain ⟨k, span⟩ : bytesAt p.level ∣ bytesAt (rootLevel + 1) := bytesAt_dvd (by omega)
  have span : 2 ^ 48 = k * bytesAt p.level := by rw [Nat.mul_comm, ← span]; rfl
  simp only [CountedPage.range, numberedRange, AddressRange.stop] at fits ⊢
  rw [span] at fits ⊢
  rw [← Nat.succ_mul]
  exact Nat.mul_le_mul_right _ (Nat.lt_of_mul_lt_mul_right fits)

theorem pages_empty : empty.pages = ∅ := by
  apply Finset.eq_empty_of_forall_notMem
  intro p member
  simp [mem_pages_iff, leafAt?_empty] at member

theorem leafAt?_eq_some_iff (t : RadixTable) (a : UInt64) {level : Nat} (inside : level ≤ rootLevel)
    (l : Leaf) : t.leafAt? a level = some l ↔
      (⟨level, pageNumber a level, l.va, l.count⟩ : CountedPage) ∈ t.pages := by
  have same : SamePage a (UInt64.ofNat (pageNumber a level * bytesAt level)) level rootLevel := by
    rw [samePage_iff_pageNumber inside, pageNumber_start (pageNumber_mul_lt a level)]
  rw [mem_pages_iff, leafAt?_congr t same inside]
  simp only [CountedPage.range, numberedRange, inside, pageNumber_mul_lt, true_and]

theorem leafAt?_of_isAt {t : RadixTable} {p : CountedPage} {a : UInt64} {level : Nat}
    (inside : level ≤ rootLevel) (member : p ∈ t.pages) (names : p.IsAt a level) :
    t.leafAt? a level = some ⟨p.va, p.count⟩ := by
  rw [leafAt?_eq_some_iff t a inside, ← names.eq]
  exact member

theorem exists_isAt_iff (t : RadixTable) (a : UInt64) {level : Nat} (inside : level ≤ rootLevel)
    (P : Leaf → Prop) : (∃ l, t.leafAt? a level = some l ∧ P l) ↔
      ∃ p ∈ t.pages, p.IsAt a level ∧ P ⟨p.va, p.count⟩ := by
  constructor
  · rintro ⟨l, found, holds⟩
    exact ⟨_, (leafAt?_eq_some_iff t a inside l).1 found, ⟨rfl, rfl⟩, holds⟩
  · rintro ⟨p, member, names, holds⟩
    exact ⟨_, leafAt?_of_isAt inside member names, holds⟩

theorem leafAt?_eq_none_iff (t : RadixTable) (a : UInt64) {level : Nat}
    (inside : level ≤ rootLevel) : t.leafAt? a level = none ↔ ∀ p ∈ t.pages, ¬ p.IsAt a level := by
  have found := exists_isAt_iff t a inside fun _ => True
  simp only [and_true] at found
  rw [Option.eq_none_iff_forall_ne_some, ← not_exists, found]
  simp only [not_exists, not_and]

end RadixTable

namespace CountedPage

theorem lt_of_inside {low high i j : Nat}
    (within : (numberedRange low i).Inside (numberedRange high j)) : low < high := by
  obtain ⟨⟨start, stop⟩, distinct⟩ := within
  by_contra above
  have larger := bytesAt_le (Nat.le_of_not_lt above)
  apply distinct
  simp only [numberedRange, AddressRange.stop, AddressRange.mk.injEq] at start stop ⊢
  omega

/-- The pages that a pin replaces or puts aside are those that share slots with its page. -/
theorem samePage_iff {p : CountedPage} {a b : UInt64} {level : Nat} (own : p.level ≤ rootLevel)
    (inside : level ≤ rootLevel) (named : p.number = pageNumber b p.level) :
    SamePage a b (max p.level level) rootLevel ↔ p.IsAt a level ∨ p.Yields a level := by
  rw [samePage_iff_pageNumber (Nat.max_le.2 ⟨own, inside⟩), IsAt, Yields, range, named]
  rcases Nat.lt_trichotomy p.level level with smaller | same | larger
  · have around (i j : Nat) : ¬ (numberedRange level i).Inside (numberedRange p.level j) :=
      fun within => Nat.lt_asymm smaller (lt_of_inside within)
    rw [inside_numberedRange_iff a b smaller, Nat.max_eq_right (Nat.le_of_lt smaller)]
    simp only [around, smaller.ne, false_and, or_false, false_or]
  · subst same
    have neither (i j : Nat) : ¬ (numberedRange p.level i).Inside (numberedRange p.level j) :=
      fun within => Nat.lt_irrefl _ (lt_of_inside within)
    simp only [neither, Nat.max_self, true_and, or_false, eq_comm]
  · have within (i j : Nat) : ¬ (numberedRange p.level i).Inside (numberedRange level j) :=
      fun within => Nat.lt_asymm larger (lt_of_inside within)
    rw [inside_numberedRange_iff b a larger, Nat.max_eq_left (Nat.le_of_lt larger)]
    simp only [within, larger.ne', false_and, false_or, eq_comm]

theorem isAt_iff_samePage {p : CountedPage} {a : UInt64} {level : Nat} (inside : level ≤ rootLevel)
    (fits : p.range.start < 2 ^ 48) : p.IsAt a level ↔
      p.level = level ∧ SamePage a (UInt64.ofNat p.range.start) level rootLevel := by
  constructor
  · rintro ⟨rfl, number⟩
    refine ⟨rfl, (samePage_iff_pageNumber inside).2 ?_⟩
    exact number.symm.trans (pageNumber_start fits).symm
  · rintro ⟨rfl, same⟩
    refine ⟨rfl, (pageNumber_start fits).symm.trans ?_⟩
    exact ((samePage_iff_pageNumber inside).1 same).symm

end CountedPage

namespace RadixTable

variable {t t' : RadixTable} {a : UInt64} {level : Nat}

/-- If one page was replaced by a page or nothing and others were cleared, so it is in the set. -/
theorem pages_of_leafAt? (t : RadixTable) (a : UInt64) (leaf : Option Leaf)
    (cleared : CountedPage → Prop) [DecidablePred cleared] (inside : level ≤ rootLevel)
    (changed : ∀ p : CountedPage, p.level ≤ rootLevel → p.range.start < 2 ^ 48 →
      t'.leafAt? (UInt64.ofNat p.range.start) p.level =
        if p.IsAt a level then leaf
        else if cleared p then none else t.leafAt? (UInt64.ofNat p.range.start) p.level) :
    t'.pages = (leaf.map fun l => ⟨level, pageNumber a level, l.va, l.count⟩).toFinset ∪
      t.pages.filter fun p => ¬ p.IsAt a level ∧ ¬ cleared p := by
  ext p
  simp only [Finset.mem_union, Option.mem_toFinset, Option.mem_def, Option.map_eq_some_iff,
    Finset.mem_filter, mem_pages_iff]
  by_cases names : p.IsAt a level
  · have fits : p.range.start < 2 ^ 48 := by
      rw [names.eq]
      exact pageNumber_mul_lt a level
    have own : p.level ≤ rootLevel := names.1.trans_le inside
    rw [changed p own fits, if_pos names]
    simp only [own, fits, names, not_true_eq_false, false_and, and_false, or_false, true_and]
    constructor
    · intro found
      exact ⟨_, found, names.eq.symm⟩
    · rintro ⟨l, found, rfl⟩
      exact found
  · have other : ¬ ∃ l, leaf = some l ∧ ⟨level, pageNumber a level, l.va, l.count⟩ = p := by
      rintro ⟨l, -, rfl⟩
      exact names ⟨rfl, rfl⟩
    simp only [other, names, not_false_eq_true, true_and, false_or]
    by_cases bounds : p.level ≤ rootLevel ∧ p.range.start < 2 ^ 48
    · rw [changed p bounds.1 bounds.2, if_neg names]
      by_cases gone : cleared p <;> simp [gone]
    · tauto

/-- A pin puts its page in, in place of the page it counts on and of those that overlap it. -/
theorem pages_pin {r : Pinned RadixTable} {va : UInt64} (inside : level ≤ rootLevel)
    (pinned : t.pin a va level = .ok r) :
    r.table.pages = insert ⟨level, pageNumber a level, va, r.count⟩
      (t.pages.filter fun p => ¬ p.IsAt a level ∧ ¬ p.Yields a level) := by
  refine (pages_of_leafAt? t a (some ⟨va, r.count⟩) (CountedPage.Yields · a level) inside ?_).trans
    (Finset.insert_eq ..).symm
  intro p own fits
  have shared := CountedPage.samePage_iff (b := UInt64.ofNat p.range.start) (a := a) own inside
    (pageNumber_start fits).symm
  rw [leafAt?_pin _ own inside pinned]
  by_cases names : p.IsAt a level
  · rw [if_pos (shared.2 (Or.inl names)), if_pos names.1, if_pos names]
  · by_cases yields : p.Yields a level
    · have resized : p.level ≠ level := by
        rcases yields with within | within
        · exact (CountedPage.lt_of_inside within).ne
        · exact (CountedPage.lt_of_inside within).ne'
      rw [if_pos (shared.2 (Or.inr yields)), if_neg resized, if_neg names, if_pos yields]
    · have unshared := mt shared.1 (not_or.2 ⟨names, yields⟩)
      rw [if_neg unshared, if_neg names, if_neg yields]

theorem filter_not_isAt {p : CountedPage} (inside : level ≤ rootLevel) (member : p ∈ t.pages)
    (names : p.IsAt a level) : (t.pages.filter fun q => ¬ q.IsAt a level) = t.pages.erase p := by
  ext q
  rw [Finset.mem_filter, Finset.mem_erase, and_comm]
  refine and_congr_left fun listed => not_congr ⟨fun other => ?_, fun same => same ▸ names⟩
  have found := leafAt?_of_isAt inside member names
  rw [leafAt?_of_isAt inside listed other, Option.some_inj, Leaf.mk.injEq] at found
  rw [other.eq, names.eq, found.1, found.2]

theorem pages_remove {p : CountedPage} (inside : level ≤ rootLevel) (member : p ∈ t.pages)
    (names : p.IsAt a level) : (t.remove a level).2.pages = t.pages.erase p := by
  rw [← filter_not_isAt inside member names]
  refine (pages_of_leafAt? t a none (fun _ => False) inside ?_).trans ?_
  · intro q own fits
    simp only [leafAt?_remove t _ own inside, CountedPage.isAt_iff_samePage inside fits, if_false]
  · simp

/-- Taking back a pin leaves the page with one pin less, or without it if that was the last. -/
theorem pages_unpin {left : Nat} {p : CountedPage} (inside : level ≤ rootLevel)
    (member : p ∈ t.pages) (names : p.IsAt a level) (unpinned : t.unpin a level = .ok (left, t')) :
    t'.pages = if left = 0 then t.pages.erase p
      else insert { p with count := left } (t.pages.erase p) := by
  rw [← filter_not_isAt inside member names]
  have found := leafAt?_of_isAt inside member names
  refine (pages_of_leafAt? t a (if left = 0 then none else some ⟨p.va, left⟩) (fun _ => False)
    inside ?_).trans ?_
  · intro q own fits
    simp only [leafAt?_unpin _ own inside unpinned, CountedPage.isAt_iff_samePage inside fits,
      if_false]
    by_cases names : q.level = level ∧ SamePage a (UInt64.ofNat q.range.start) level rootLevel
    · rw [if_pos names, if_pos names, names.1, ← leafAt?_congr t names.2 inside, found]
      rfl
    · rw [if_neg names, if_neg names]
  · by_cases last : left = 0
    · simp [last]
    · rw [if_neg last, if_neg last, names.eq]
      simp

theorem range_of_page? {o : Occupied} {p : CountedPage} (listed : o ∈ t.occupied)
    (page : o.page? = some p) : p.range = ⟨o.addr, bytesAt o.level⟩ := by
  obtain ⟨l, leaf, rfl⟩ := Option.map_eq_some_iff.1 page
  have aligned := ((mem_occupied_iff leaf).1 listed).2.1
  simp only [CountedPage.range, numberedRange, Nat.div_mul_cancel aligned]

theorem pages_ascending (t : RadixTable) : (t.occupied.filterMap Occupied.page?).Pairwise
    fun p q => p.range.stop ≤ q.range.start := by
  rw [List.pairwise_filterMap]
  refine (List.pairwise_filter.1 t.occupied_ascending).imp_of_mem ?_
  intro o o' listed listed' before p page q page'
  rw [range_of_page? listed page, range_of_page? listed' page']
  apply before
  · obtain ⟨l, leaf, -⟩ := Option.map_eq_some_iff.1 page
    rw [leaf, Option.isSome_some]
  · obtain ⟨l, leaf, -⟩ := Option.map_eq_some_iff.1 page'
    rw [leaf, Option.isSome_some]

theorem apart_of_mem_pages {p q : CountedPage} (member : p ∈ t.pages) (member' : q ∈ t.pages)
    (distinct : p ≠ q) : p.range.Apart q.range := by
  have symmetric : Std.Symm fun p q : CountedPage => p.range.Apart q.range :=
    ⟨fun _ _ => AddressRange.Apart.symm⟩
  have either : (t.occupied.filterMap Occupied.page?).Pairwise fun p q => p.range.Apart q.range :=
    t.pages_ascending.imp Or.inl
  exact either.forall (List.mem_toFinset.1 member) (List.mem_toFinset.1 member') distinct

theorem card_pages (t : RadixTable) : t.pages.card = t.pageCount := by
  have nodup : (t.occupied.filterMap Occupied.page?).Nodup := by
    refine t.pages_ascending.imp ?_
    rintro p _ before rfl
    have positive := bytesAt_pos p.level
    simp only [CountedPage.range, numberedRange, AddressRange.stop] at before
    omega
  rw [pages, List.toFinset_card_of_nodup nodup, List.length_filterMap_eq_countP, pageCount]
  simp only [Occupied.page?, Option.isSome_map]

theorem lookup_eq_some_of_holds {p : CountedPage} (member : p ∈ t.pages) (holds : p.Holds a) :
    t.lookup a = some ⟨p.va, p.level, p.count⟩ := by
  have inside := ((mem_pages_iff t p).1 member).1
  exact (lookup_eq_some_iff t a _).2
    ⟨inside, leafAt?_of_isAt inside member ⟨rfl, (p.holds_iff a).1 holds⟩⟩

theorem eq_of_holds {p q : CountedPage} (member : p ∈ t.pages) (holds : p.Holds a)
    (member' : q ∈ t.pages) (holds' : q.Holds a) : q = p := by
  by_contra distinct
  obtain ⟨lower, upper⟩ := holds
  obtain ⟨lower', upper'⟩ := holds'
  rcases apart_of_mem_pages member' member distinct with before | after
  all_goals omega

theorem lookup_eq_none_iff (t : RadixTable) (a : UInt64) :
    t.lookup a = none ↔ ∀ p ∈ t.pages, ¬ p.Holds a := by
  constructor
  · intro nothing p member holds
    simp [lookup_eq_some_of_holds member holds] at nothing
  · intro nowhere
    rw [Option.eq_none_iff_forall_ne_some]
    intro m found
    obtain ⟨inside, page⟩ := (lookup_eq_some_iff t a m).1 found
    have member := (leafAt?_eq_some_iff t a inside _).1 page
    exact nowhere _ member ((CountedPage.holds_iff _ a).2 rfl)

theorem translate_congr_pages (same : ∀ p : CountedPage, p.Holds a → (p ∈ t'.pages ↔ p ∈ t.pages)) :
    t'.translate a = t.translate a := by
  rw [translate, translate]
  congr 1
  by_cases nowhere : ∀ p ∈ t.pages, ¬ p.Holds a
  · rw [(lookup_eq_none_iff t a).2 nowhere, lookup_eq_none_iff]
    exact fun p member holds => nowhere p ((same p holds).1 member) holds
  · push Not at nowhere
    obtain ⟨p, member, holds⟩ := nowhere
    rw [lookup_eq_some_of_holds member holds,
      lookup_eq_some_of_holds ((same p holds).2 member) holds]

end RadixTable

end TlpBridge
