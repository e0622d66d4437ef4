import TlpBridge.Proofs.Iommu.CountedPages

/-!
# Calls of a radix table

A table works in place: a pin puts nodes in on the way to its page before it looks at the count of
the page. A pin that is refused has nevertheless changed nothing. Whatever calls are made, the table
stays a set of counted pages.
-/
namespace TlpBridge

open PageSize

/-- What a pin comes to for something that is changed in place: the new count, or nothing if the pin
is refused, and what is left. -/
def Pinned.settle {α : Type} (before : α) (r : Option (Pinned α)) : Option Nat × α :=
  (r.map Pinned.count, (r.map Pinned.table).getD before)

/-- A pin as it works on a tree in place. Every slot on the way to the page leads to a node before
the count of the page is looked at. -/
def Tree.pinInPlace (a va : UInt64) (target : Nat) :
    (level : Nat) → Tree level → Option Nat × Tree level
  | 0, (n : Node Empty) => Pinned.settle n (n.pin (slotIndex a target) target va)
  | level + 1, (n : Node (Tree level)) =>
    if target ≤ level then
      let i := slotIndex a (level + 1)
      let (count, child) :=
        pinInPlace a va target level (n.descend i (level + 1) (blank level)).1
      (count, (n.set i (.table child) : Node (Tree level)))
    else Pinned.settle n (n.pin (slotIndex a target) target va)

/-- A pin in place does what `pin` does. Where it is refused the tree is as before: the page that is
pinned as often as can be is there, and with it the nodes on the way. -/
theorem Tree.pinInPlace_eq {a va : UInt64} {target level : Nat} (n : Tree level)
    (inside : target ≤ level) :
    pinInPlace a va target level n = Pinned.settle n (pin a va target level n) := by
  induction level with
  | zero => rfl
  | succ level ih =>
    change Node (Tree level) at n
    rcases Nat.lt_or_eq_of_le inside with below | rfl
    · have below : target ≤ level := Nat.le_of_lt_succ below
      refine (if_pos below).trans ?_
      rw [pin_below a va n below]
      simp only [ih _ below]
      cases outcome : pin a va target level
          (n.descend (slotIndex a (level + 1)) (level + 1) (blank level)).1 with
      | some r => rfl
      | none =>
        have refused := (pin_isSome_iff _ below).not.1 (Option.not_isSome_iff_eq_none.2 outcome)
        push Not at refused
        obtain ⟨l, page, -⟩ := refused
        rw [Node.descend_eq_subtree] at page ⊢
        obtain ⟨child, table, -⟩ := exists_table_of_leafAt? page
        have kept : Vector.set n (slotIndex a (level + 1)) (.table child)
            (slotIndex a (level + 1)).isLt = n := by
          rw [← table]
          exact Vector.set_getElem_self _
        rw [table]
        exact congrArg (Prod.mk none) kept
    · refine (if_neg (Nat.not_succ_le_self level)).trans ?_
      rw [pin_root a va n]

/-- An operation that changes a table; there are pages of four levels. -/
inductive RadixCall where
  | pin (a va : UInt64) (level : Fin (rootLevel + 1))
  | unpin (a : UInt64) (level : Fin (rootLevel + 1))
  | remove (a : UInt64) (level : Fin (rootLevel + 1))
  | clear

namespace RadixTable

/-- A pin as it works on a table in place. -/
def pinInPlace (t : RadixTable) (a va : UInt64) (level : Nat) :
    Except IommuError Nat × RadixTable :=
  let (count, root) := t.root.pinInPlace a va level rootLevel
  (count.elim (.error (.refcountOverflow a)) .ok, ⟨root⟩)

/-- The table after a call. -/
def call (t : RadixTable) : RadixCall → RadixTable
  | .pin a va level => (t.pinInPlace a va level).2
  | .unpin a level =>
    match t.unpin a level with
    | .ok (_, t) => t
    | .error _ => t
  | .remove a level => (t.remove a level).2
  | .clear => .empty

def run (t : RadixTable) (calls : List RadixCall) : RadixTable := calls.foldl call t

theorem run_append (t : RadixTable) (calls more : List RadixCall) :
    t.run (calls ++ more) = (t.run calls).run more := List.foldl_append ..

variable {t : RadixTable} {a va : UInt64} {level : Nat}

theorem pinInPlace_of_ok {r : Pinned RadixTable} (inside : level ≤ rootLevel)
    (pinned : t.pin a va level = .ok r) : t.pinInPlace a va level = (.ok r.count, r.table) := by
  obtain ⟨r, outcome, rfl⟩ := (pin_eq_ok_iff t r).1 pinned
  simp only [pinInPlace, Tree.pinInPlace_eq t.root inside, outcome, Pinned.settle, Option.map_some,
    Option.getD_some, Option.elim_some]

theorem pinInPlace_of_error {e : IommuError} (inside : level ≤ rootLevel)
    (refused : t.pin a va level = .error e) : t.pinInPlace a va level = (.error e, t) := by
  have outcome : t.root.pin a va level rootLevel = none := by
    unfold pin at refused
    cases outcome : t.root.pin a va level rootLevel with
    | none => rfl
    | some r => simp [outcome] at refused
  obtain ⟨rfl, -⟩ := (pin_eq_error_iff t e inside).1 refused
  simp only [pinInPlace, Tree.pinInPlace_eq t.root inside, outcome, Pinned.settle, Option.map_none,
    Option.getD_none, Option.elim_none]

theorem pinInPlace_eq_ok_iff {count : Nat} (inside : level ≤ rootLevel) :
    (t.pinInPlace a va level).1 = .ok count ↔
      ∃ r, t.pin a va level = .ok r ∧ r.count = count := by
  cases outcome : t.pin a va level with
  | ok r => simp [pinInPlace_of_ok inside outcome]
  | error e => simp [pinInPlace_of_error inside outcome]

theorem pinInPlace_eq_error_iff {e : IommuError} (inside : level ≤ rootLevel) :
    (t.pinInPlace a va level).1 = .error e ↔ t.pin a va level = .error e := by
  cases outcome : t.pin a va level with
  | ok r => simp [pinInPlace_of_ok inside outcome]
  | error e => simp [pinInPlace_of_error inside outcome]

/-- Every page is pinned, and not more often than can be. -/
def Counted (t : RadixTable) : Prop := ∀ p ∈ t.pages, 1 ≤ p.count ∧ p.count ≤ maxPinCount

theorem count_pin_cases {r : Pinned RadixTable} (inside : level ≤ rootLevel)
    (pinned : t.pin a va level = .ok r) :
    (∃ p ∈ t.pages, p.IsAt a level ∧ r.count = p.count + 1) ∨
      (∀ p ∈ t.pages, ¬ p.IsAt a level) ∧ r.count = 1 := by
  have count := count_pin inside pinned
  cases found : t.leafAt? a level with
  | none =>
    rw [found] at count
    exact Or.inr ⟨(leafAt?_eq_none_iff t a inside).1 found, count⟩
  | some l =>
    rw [found] at count
    exact Or.inl ((exists_isAt_iff t a inside fun l => r.count = l.count + 1).1 ⟨l, found, count⟩)

theorem Counted.count_le {r : Pinned RadixTable} (counted : t.Counted) (inside : level ≤ rootLevel)
    (pinned : t.pin a va level = .ok r) : 1 ≤ r.count ∧ r.count ≤ maxPinCount := by
  rcases count_pin_cases inside pinned with ⟨p, member, names, count⟩ | ⟨-, count⟩
  · have room : p.count ≠ maxPinCount := by
      intro full
      have error : t.pin a va level = .error (.refcountOverflow a) :=
        (pin_eq_error_iff t _ inside).2
          ⟨rfl, _, leafAt?_of_isAt inside member names, full.ge⟩
      simp [pinned] at error
    have := counted p member
    omega
  · rw [count]
    decide

theorem unpin_of_isAt {p : CountedPage} (inside : level ≤ rootLevel) (member : p ∈ t.pages)
    (names : p.IsAt a level) : ∃ t', t.unpin a level = .ok (p.count - 1, t') :=
  ⟨_, (unpin_eq_ok_iff t _ _).2 ⟨_, leafAt?_of_isAt inside member names, rfl, rfl⟩⟩

theorem unpin_of_absent (inside : level ≤ rootLevel) (absent : ∀ p ∈ t.pages, ¬ p.IsAt a level) :
    t.unpin a level = .error (.notPinned a) :=
  (unpin_eq_error_iff t _).2 ⟨(leafAt?_eq_none_iff t a inside).2 absent, rfl⟩

theorem remove_of_isAt {p : CountedPage} (inside : level ≤ rootLevel) (member : p ∈ t.pages)
    (names : p.IsAt a level) : (t.remove a level).1 = true := by
  rw [remove, leafAt?_of_isAt inside member names]

theorem remove_of_absent (inside : level ≤ rootLevel) (absent : ∀ p ∈ t.pages, ¬ p.IsAt a level) :
    t.remove a level = (false, t) := by
  rw [remove, (leafAt?_eq_none_iff t a inside).2 absent]

theorem Counted.call (counted : t.Counted) (c : RadixCall) : (t.call c).Counted := by
  cases c with
  | pin a va level =>
    have inside := Nat.le_of_lt_succ level.isLt
    cases outcome : t.pin a va level with
    | error e =>
      rw [RadixTable.call, pinInPlace_of_error inside outcome]
      exact counted
    | ok r =>
      rw [RadixTable.call, pinInPlace_of_ok inside outcome, Counted, pages_pin inside outcome]
      intro p member
      rcases Finset.mem_insert.1 member with rfl | kept
      · exact counted.count_le inside outcome
      · exact counted p (Finset.mem_filter.1 kept).1
  | unpin a level =>
    have inside := Nat.le_of_lt_succ level.isLt
    by_cases absent : ∀ p ∈ t.pages, ¬ p.IsAt a level
    · rw [RadixTable.call, unpin_of_absent inside absent]
      exact counted
    · push Not at absent
      obtain ⟨p, member, names⟩ := absent
      obtain ⟨t', unpinned⟩ := unpin_of_isAt inside member names
      rw [RadixTable.call, unpinned, Counted, pages_unpin inside member names unpinned]
      have own := counted p member
      intro q listed
      split at listed
      case isTrue => exact counted q (Finset.mem_of_mem_erase listed)
      case isFalse more =>
        rcases Finset.mem_insert.1 listed with rfl | kept
        · exact ⟨Nat.one_le_iff_ne_zero.2 more, (Nat.sub_le ..).trans own.2⟩
        · exact counted q (Finset.mem_of_mem_erase kept)
  | remove a level =>
    have inside := Nat.le_of_lt_succ level.isLt
    by_cases absent : ∀ p ∈ t.pages, ¬ p.IsAt a level
    · rw [RadixTable.call, remove_of_absent inside absent]
      exact counted
    · push Not at absent
      obtain ⟨p, member, names⟩ := absent
      rw [RadixTable.call, Counted, pages_remove inside member names]
      intro q listed
      exact counted q (Finset.mem_of_mem_erase listed)
  | clear =>
    rw [RadixTable.call, Counted, pages_empty]
    simp

theorem counted_run (calls : List RadixCall) : (empty.run calls).Counted := by
  induction calls using List.reverseRecOn with
  | nil =>
    rw [run, List.foldl_nil, Counted, pages_empty]
    simp
  | append_singleton calls c ih =>
    rw [run_append]
    exact ih.call c

/-- A table is a set of counted pages, and every operation does to the set what its name says. -/
structure CountsPages (t : RadixTable) : Prop where
  placed : ∀ p ∈ t.pages, p.level ≤ rootLevel ∧ p.range.stop ≤ 2 ^ 48
  apart : ∀ p ∈ t.pages, ∀ q ∈ t.pages, p ≠ q → p.range.Apart q.range
  counted : ∀ p ∈ t.pages, 1 ≤ p.count ∧ p.count ≤ maxPinCount
  pageCount : t.pageCount = t.pages.card
  /-- A pin is refused where the very same page is pinned as often as can be. -/
  refused : ∀ (a va : UInt64) (level : Fin (rootLevel + 1)) (e : IommuError),
    (t.pinInPlace a va level).1 = .error e ↔
      e = .refcountOverflow a ∧ ∃ p ∈ t.pages, p.IsAt a level ∧ p.count = maxPinCount
  untouched : ∀ (a va : UInt64) (level : Fin (rootLevel + 1)) (e : IommuError),
    (t.pinInPlace a va level).1 = .error e → t.call (.pin a va level) = t
  /-- A pin answers with one more than before. -/
  pinned : ∀ (a va : UInt64) (level : Fin (rootLevel + 1)) (count : Nat),
    (t.pinInPlace a va level).1 = .ok count →
      (∃ p ∈ t.pages, p.IsAt a level ∧ count = p.count + 1) ∨
        (∀ p ∈ t.pages, ¬ p.IsAt a level) ∧ count = 1
  /-- A pin drops the larger page around its own and the smaller ones in it. -/
  pages_pinned : ∀ (a va : UInt64) (level : Fin (rootLevel + 1)) (count : Nat),
    (t.pinInPlace a va level).1 = .ok count →
      (t.call (.pin a va level)).pages = insert ⟨level, pageNumber a level, va, count⟩
        (t.pages.filter fun p => ¬ p.IsAt a level ∧ ¬ p.Yields a level)
  unpinned : ∀ (a : UInt64) (level : Fin (rootLevel + 1)), ∀ p ∈ t.pages, p.IsAt a level →
    ∃ t', t.unpin a level = .ok (p.count - 1, t') ∧ t.call (.unpin a level) = t' ∧
      t'.pages = if p.count - 1 = 0 then t.pages.erase p
        else insert { p with count := p.count - 1 } (t.pages.erase p)
  notPinned : ∀ (a : UInt64) (level : Fin (rootLevel + 1)), (∀ p ∈ t.pages, ¬ p.IsAt a level) →
    t.unpin a level = .error (.notPinned a) ∧ t.call (.unpin a level) = t
  removed : ∀ (a : UInt64) (level : Fin (rootLevel + 1)), ∀ p ∈ t.pages, p.IsAt a level →
    (t.remove a level).1 = true ∧ (t.call (.remove a level)).pages = t.pages.erase p
  notRemoved : ∀ (a : UInt64) (level : Fin (rootLevel + 1)), (∀ p ∈ t.pages, ¬ p.IsAt a level) →
    (t.remove a level).1 = false ∧ t.call (.remove a level) = t
  cleared : (t.call .clear).pages = ∅
  /-- A lookup finds the only page that holds the address. -/
  found : ∀ (a : UInt64), ∀ p ∈ t.pages, p.Holds a →
    t.lookup a = some ⟨p.va, p.level, p.count⟩ ∧ ∀ q ∈ t.pages, q.Holds a → q = p
  notFound : ∀ a : UInt64, (∀ p ∈ t.pages, ¬ p.Holds a) → t.lookup a = none

theorem Counted.countsPages (counted : t.Counted) : t.CountsPages where
  placed p member := ⟨((mem_pages_iff t p).1 member).1, stop_le_of_mem_pages member⟩
  apart _ member _ member' distinct := apart_of_mem_pages member member' distinct
  counted := counted
  pageCount := t.card_pages.symm
  refused a va level e := by
    have inside := Nat.le_of_lt_succ level.isLt
    have full : (∃ p ∈ t.pages, p.IsAt a level ∧ maxPinCount ≤ p.count) ↔
        ∃ p ∈ t.pages, p.IsAt a level ∧ p.count = maxPinCount := by
      refine exists_congr fun p => and_congr_right fun member => and_congr_right fun _ => ?_
      exact ⟨fun le => le_antisymm (counted p member).2 le, fun same => same.ge⟩
    rw [← full, ← exists_isAt_iff t a inside fun l => maxPinCount ≤ l.count]
    exact (pinInPlace_eq_error_iff inside).trans (pin_eq_error_iff t e inside)
  untouched a va level e refused := by
    have inside := Nat.le_of_lt_succ level.isLt
    have outcome := (pinInPlace_eq_error_iff inside).1 refused
    exact congrArg Prod.snd (pinInPlace_of_error inside outcome)
  pinned a va level count pinned := by
    have inside := Nat.le_of_lt_succ level.isLt
    obtain ⟨r, outcome, rfl⟩ := (pinInPlace_eq_ok_iff inside).1 pinned
    exact count_pin_cases inside outcome
  pages_pinned a va level count pinned := by
    have inside := Nat.le_of_lt_succ level.isLt
    obtain ⟨r, outcome, rfl⟩ := (pinInPlace_eq_ok_iff inside).1 pinned
    rw [← pages_pin inside outcome]
    exact congrArg (pages ∘ Prod.snd) (pinInPlace_of_ok inside outcome)
  unpinned a level p member names := by
    have inside := Nat.le_of_lt_succ level.isLt
    obtain ⟨t', unpinned⟩ := unpin_of_isAt inside member names
    refine ⟨t', unpinned, ?_, pages_unpin inside member names unpinned⟩
    rw [RadixTable.call, unpinned]
  notPinned a level absent := by
    have refused := unpin_of_absent (Nat.le_of_lt_succ level.isLt) absent
    refine ⟨refused, ?_⟩
    rw [RadixTable.call, refused]
  removed a level p member names := by
    have inside := Nat.le_of_lt_succ level.isLt
    exact ⟨remove_of_isAt inside member names, pages_remove inside member names⟩
  notRemoved a level absent := by
    have refused := remove_of_absent (Nat.le_of_lt_succ level.isLt) absent
    rw [RadixTable.call, refused]
    exact ⟨rfl, rfl⟩
  cleared := pages_empty
  found _ _ member holds := ⟨lookup_eq_some_of_holds member holds,
    fun _ member' holds' => eq_of_holds member holds member' holds'⟩
  notFound a nowhere := (lookup_eq_none_iff t a).2 nowhere

/-- Whatever is done to an empty table, it is a set of counted pages without overlap. -/
theorem run_countsPages (calls : List RadixCall) : (empty.run calls).CountsPages :=
  (counted_run calls).countsPages

end RadixTable

end TlpBridge
