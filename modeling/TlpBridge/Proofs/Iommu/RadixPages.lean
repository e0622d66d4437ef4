import TlpBridge.Proofs.Iommu.PageAddresses

/-!
# Pages of a radix table

A radix table is seen through the page of each size that holds an address. A pin sets one
page, puts aside the pages that overlap it and leaves every other page alone; a cleared
slot only loses its own page.
-/
namespace TlpBridge

/-- The page that a slot holds. -/
def Slot.page? {α : Type} : Slot α → Option Leaf
  | .leaf l => some l
  | _ => none

/-- The subtree that a slot leads to. -/
def Slot.subtree {α : Type} (fresh : α) : Slot α → α
  | .table t => t
  | _ => fresh

namespace Node

variable {α : Type}

theorem leaf?_eq_page? (n : Node α) (i : Fin 512) : n.leaf? i = (getElem n i i.isLt).page? := by
  unfold leaf? Slot.page?
  cases n[i] <;> rfl

theorem leaf?_set (n : Node α) (i j : Fin 512) (slot : Slot α) :
    leaf? (Vector.set n i slot i.isLt) j = if i = j then slot.page? else n.leaf? j := by
  rw [leaf?_eq_page?, leaf?_eq_page?]
  simp only [Fin.getElem_fin, Vector.getElem_set, Fin.val_inj]
  by_cases same : i = j <;> simp [same]

theorem descend_eq_subtree (n : Node α) (i : Fin 512) (level : Nat) (fresh : α) :
    (n.descend i level fresh).1 = (getElem n i i.isLt).subtree fresh := by
  unfold descend Slot.subtree
  cases n[i] <;> rfl

theorem descend_set (n : Node α) (i j : Fin 512) (slot : Slot α) (level : Nat) (fresh : α) :
    (descend (Vector.set n i slot i.isLt) j level fresh).1 =
      if i = j then slot.subtree fresh else (n.descend j level fresh).1 := by
  rw [descend_eq_subtree, descend_eq_subtree]
  simp only [Fin.getElem_fin, Vector.getElem_set, Fin.val_inj]
  by_cases same : i = j <;> simp [same]

theorem descend_of_leaf (n : Node α) {i : Fin 512} {l : Leaf} (level : Nat) (fresh : α)
    (page : n.leaf? i = some l) : (n.descend i level fresh).1 = fresh := by
  unfold leaf? at page
  unfold descend
  cases slot : n[i] with
  | empty => rfl
  | leaf l => rfl
  | table t => simp [slot] at page

theorem pin_isSome_iff (n : Node α) (i : Fin 512) (level : Nat) (va : UInt64) :
    (n.pin i level va).isSome ↔ ∀ l, n.leaf? i = some l → l.count < maxPinCount := by
  unfold pin leaf?
  cases n[i] with
  | empty => simp
  | table t => simp
  | leaf l => by_cases room : l.count < maxPinCount <;> simp [room]

theorem pin_eq_some {n : Node α} {i : Fin 512} {level : Nat} {va : UInt64}
    {r : Pinned (Node α)} (pinned : n.pin i level va = some r) :
    r.count = (n.leaf? i).elim 0 Leaf.count + 1 ∧
      r.table = Vector.set n i (.leaf ⟨va, r.count⟩) i.isLt ∧
      r.displaced = (match getElem n i i.isLt with
        | .table _ => some (.dropped level)
        | _ => none) := by
  unfold pin at pinned
  unfold leaf?
  cases slot : n[i] with
  | empty =>
    rw [slot] at pinned
    obtain rfl := Option.some_inj.1 pinned
    exact ⟨rfl, rfl, rfl⟩
  | table t =>
    rw [slot] at pinned
    obtain rfl := Option.some_inj.1 pinned
    exact ⟨rfl, rfl, rfl⟩
  | leaf l =>
    simp only [slot, Option.ite_none_right_eq_some, Option.some_inj] at pinned
    obtain ⟨-, rfl⟩ := pinned
    exact ⟨rfl, rfl, rfl⟩

end Node

namespace Tree

variable {level s t : Nat}

theorem leafAt?_zero (b : UInt64) (s : Nat) (n : Node Empty) :
    leafAt? b s 0 n = n.leaf? (slotIndex b s) := rfl

theorem leafAt?_root (b : UInt64) (n : Node (Tree level)) :
    leafAt? b (level + 1) (level + 1) n = n.leaf? (slotIndex b (level + 1)) :=
  if_neg (Nat.not_succ_le_self level)

@[simp] theorem leafAt?_blank (b : UInt64) (s level : Nat) :
    leafAt? b s level (blank level) = none := by
  cases level with
  | zero => simp [leafAt?, blank, Node.leaf?, Node.blank]
  | succ level =>
    by_cases below : s ≤ level
    · exact (if_pos below).trans (by simp [blank, Node.blank])
    · exact (if_neg below).trans (by simp [blank, Node.blank, Node.leaf?])

/-- Below the root a page is looked for in the subtree, or in a blank tree if there is none. -/
theorem leafAt?_below (b : UInt64) (n : Node (Tree level)) (below : s ≤ level) :
    leafAt? b s (level + 1) n =
      leafAt? b s level (n.descend (slotIndex b (level + 1)) (level + 1) (blank level)).1 := by
  rw [leafAt?, if_pos below, Node.descend]
  cases n[slotIndex b (level + 1)] with
  | empty => exact (leafAt?_blank b s level).symm
  | leaf l => exact (leafAt?_blank b s level).symm
  | table t => rfl

/-- A page is found from every address in it. -/
theorem leafAt?_congr {a b : UInt64} (same : SamePage a b s level) (inside : s ≤ level)
    (n : Tree level) : leafAt? a s level n = leafAt? b s level n := by
  induction level with
  | zero =>
    obtain rfl : s = 0 := Nat.le_zero.1 inside
    rw [leafAt?_zero a 0 n, leafAt?_zero b 0 n, SamePage.self_iff.1 same]
  | succ level ih =>
    rcases Nat.lt_or_eq_of_le inside with below | rfl
    · have below : s ≤ level := Nat.le_of_lt_succ below
      obtain ⟨root, rest⟩ := (SamePage.succ_iff below).1 same
      rw [leafAt?_below a n below,
        leafAt?_below b n below, root]
      exact ih rest below _
    · rw [leafAt?_root a n, leafAt?_root b n, SamePage.self_iff.1 same]

/-- A page at a level leaves no room for another page of the same addresses. -/
theorem leafAt?_eq_none_of_page {a : UInt64} {l : Leaf} {n : Tree level} (lower : s < t)
    (inside : t ≤ level) (page : leafAt? a t level n = some l) : leafAt? a s level n = none := by
  induction level with
  | zero => omega
  | succ level ih =>
    rw [leafAt?_below a n (by omega)]
    rcases Nat.lt_or_eq_of_le inside with below | rfl
    · have below : t ≤ level := Nat.le_of_lt_succ below
      rw [leafAt?_below a n below] at page
      exact ih below page
    · rw [leafAt?_root a n] at page
      rw [Node.descend_of_leaf n _ _ page, leafAt?_blank]

theorem lookup_blank (a : UInt64) (level : Nat) : lookup a level (blank level) = none := by
  cases level with
  | zero => simp [lookup, blank, Node.leaf?, Node.blank]
  | succ level => simp [lookup, blank, Node.blank]

theorem lookup_of_leaf {a : UInt64} {n : Node (Tree level)} {f : Leaf}
    (page : n.leaf? (slotIndex a (level + 1)) = some f) :
    lookup a (level + 1) n = some ⟨f.va, level + 1, f.count⟩ := by
  unfold Node.leaf? at page
  cases slot : n[slotIndex a (level + 1)] with
  | empty => simp [slot] at page
  | leaf l =>
    obtain rfl : l = f := by simpa [slot] using page
    simp only [lookup, slot]
  | table t => simp [slot] at page

theorem lookup_of_no_leaf {a : UInt64} {n : Node (Tree level)}
    (page : n.leaf? (slotIndex a (level + 1)) = none) : lookup a (level + 1) n =
      lookup a level (n.descend (slotIndex a (level + 1)) (level + 1) (blank level)).1 := by
  unfold Node.leaf? at page
  unfold Node.descend
  cases slot : n[slotIndex a (level + 1)] with
  | empty => simp only [lookup, slot, lookup_blank]
  | leaf l => simp [slot] at page
  | table t => simp only [lookup, slot]

/-- The page that holds an address is the only one of any size. -/
theorem lookup_eq_some_iff (a : UInt64) (n : Tree level) (m : Mapping) :
    lookup a level n = some m ↔
      m.level ≤ level ∧ leafAt? a m.level level n = some ⟨m.va, m.count⟩ := by
  rcases m with ⟨va, l, count⟩
  induction level with
  | zero =>
    simp only [lookup, Option.map_eq_some_iff, Mapping.mk.injEq, Nat.le_zero]
    constructor
    · rintro ⟨f, page, rfl, rfl, rfl⟩
      exact ⟨rfl, page⟩
    · rintro ⟨rfl, page⟩
      exact ⟨_, page, rfl, rfl, rfl⟩
  | succ level ih =>
    have root := leafAt?_root a n
    cases page : Node.leaf? (α := Tree level) n (slotIndex a (level + 1)) with
    | some f =>
      rw [lookup_of_leaf page, Option.some_inj, Mapping.mk.injEq]
      rw [page] at root
      constructor
      · rintro ⟨rfl, rfl, rfl⟩
        exact ⟨Nat.le_refl _, root⟩
      · rintro ⟨inside, found⟩
        rcases Nat.lt_or_eq_of_le inside with below | rfl
        · rw [leafAt?_eq_none_of_page below (Nat.le_refl _) root] at found
          simp at found
        · obtain rfl : f = ⟨va, count⟩ := Option.some_inj.1 (root.symm.trans found)
          exact ⟨rfl, rfl, rfl⟩
    | none =>
      rw [lookup_of_no_leaf page, ih]
      rw [page] at root
      constructor
      · rintro ⟨below, found⟩
        exact ⟨Nat.le_succ_of_le below,
          (leafAt?_below a n below).trans found⟩
      · rintro ⟨inside, found⟩
        rcases Nat.lt_or_eq_of_le inside with below | rfl
        · have below : l ≤ level := Nat.le_of_lt_succ below
          exact ⟨below, (leafAt?_below a n below).symm.trans found⟩
        · simp [root] at found

theorem leafAt?_zero_set (b : UInt64) (s : Nat) (n : Node Empty) (i : Fin 512)
    (slot : Slot Empty) : leafAt? b s 0 (Vector.set n i slot i.isLt : Node Empty) =
      if i = slotIndex b s then slot.page? else leafAt? b s 0 n :=
  Node.leaf?_set ..

theorem leafAt?_root_set (b : UInt64) (n : Node (Tree level)) (i : Fin 512)
    (slot : Slot (Tree level)) :
    leafAt? b (level + 1) (level + 1) (Vector.set n i slot i.isLt : Node (Tree level)) =
      if i = slotIndex b (level + 1) then slot.page?
      else leafAt? b (level + 1) (level + 1) n := by
  rw [leafAt?_root, leafAt?_root, Node.leaf?_set]

theorem leafAt?_below_set (b : UInt64) (n : Node (Tree level)) (below : s ≤ level) (i : Fin 512)
    (slot : Slot (Tree level)) :
    leafAt? b s (level + 1) (Vector.set n i slot i.isLt : Node (Tree level)) =
      if i = slotIndex b (level + 1) then leafAt? b s level (slot.subtree (blank level))
      else leafAt? b s (level + 1) n := by
  rw [leafAt?_below b _ below, leafAt?_below b n below, Node.descend_set]
  split
  · rfl
  · rfl

variable {a va : UInt64}

theorem pin_root (a va : UInt64) (n : Node (Tree level)) :
    pin a va (level + 1) (level + 1) n =
      n.pin (slotIndex a (level + 1)) (level + 1) va :=
  if_neg (Nat.not_succ_le_self level)

theorem pin_self_isSome_iff (n : Tree level) : (pin a va level level n).isSome ↔
    ∀ l, leafAt? a level level n = some l → l.count < maxPinCount := by
  cases level with
  | zero => exact Node.pin_isSome_iff ..
  | succ level =>
    rw [pin_root a va n, leafAt?_root a n]
    exact Node.pin_isSome_iff ..

/-- A pin of a page in the tree's own root. -/
theorem pin_self_eq_some {n : Tree level} {r : Pinned (Tree level)}
    (pinned : pin a va level level n = some r) :
    r.count = (leafAt? a level level n).elim 0 Leaf.count + 1 ∧
    ∀ s ≤ level, ∀ b, leafAt? b s level r.table =
      if slotIndex a level = slotIndex b level then
        if s = level then some ⟨va, r.count⟩ else none
      else leafAt? b s level n := by
  cases level with
  | zero =>
    obtain ⟨count, table, -⟩ := Node.pin_eq_some pinned
    refine ⟨count, ?_⟩
    intro s lower b
    obtain rfl : s = 0 := Nat.le_zero.1 lower
    exact (congrArg (leafAt? b 0 0) table).trans (leafAt?_zero_set b 0 n _ _)
  | succ level =>
    rw [pin_root a va n] at pinned
    obtain ⟨count, table, -⟩ := Node.pin_eq_some pinned
    rw [leafAt?_root a n]
    refine ⟨count, ?_⟩
    intro s lower b
    refine (congrArg (leafAt? b s (level + 1)) table).trans ?_
    rcases Nat.lt_or_eq_of_le lower with deeper | rfl
    · rw [if_neg (Nat.ne_of_lt deeper), leafAt?_below_set b n (Nat.le_of_lt_succ deeper)]
      simp only [Slot.subtree, leafAt?_blank]
    · rw [if_pos rfl, leafAt?_root_set b n]
      rfl

theorem pin_below (a va : UInt64) (n : Node (Tree level)) (below : t ≤ level) :
    pin a va t (level + 1) n =
      (pin a va t level
        (n.descend (slotIndex a (level + 1)) (level + 1) (blank level)).1).map fun r =>
          (⟨(n.set (slotIndex a (level + 1)) (.table r.table) : Node (Tree level)), r.count,
            (n.descend (slotIndex a (level + 1)) (level + 1) (blank level)).2 <|> r.displaced⟩ :
              Pinned (Tree (level + 1))) :=
  if_pos below

/-- A page can be pinned unless it is pinned as often as can be. -/
theorem pin_isSome_iff (n : Tree level) (inside : t ≤ level) : (pin a va t level n).isSome ↔
    ∀ l, leafAt? a t level n = some l → l.count < maxPinCount := by
  induction level with
  | zero =>
    obtain rfl : t = 0 := Nat.le_zero.1 inside
    exact pin_self_isSome_iff n
  | succ level ih =>
    rcases Nat.lt_or_eq_of_le inside with below | rfl
    · have below : t ≤ level := Nat.le_of_lt_succ below
      rw [pin_below a va n below, Option.isSome_map, leafAt?_below a n below]
      exact ih _ below
    · exact pin_self_isSome_iff n

theorem count_pin {n : Tree level} {r : Pinned (Tree level)} (inside : t ≤ level)
    (pinned : pin a va t level n = some r) :
    r.count = (leafAt? a t level n).elim 0 Leaf.count + 1 := by
  induction level with
  | zero =>
    obtain rfl : t = 0 := Nat.le_zero.1 inside
    exact (pin_self_eq_some pinned).1
  | succ level ih =>
    rcases Nat.lt_or_eq_of_le inside with below | rfl
    · have below : t ≤ level := Nat.le_of_lt_succ below
      rw [pin_below a va n below, Option.map_eq_some_iff] at pinned
      obtain ⟨r', lower, rfl⟩ := pinned
      rw [leafAt?_below a n below]
      exact ih below lower
    · exact (pin_self_eq_some pinned).1

/-- A pin sets its page, clears the pages that overlap it and keeps the others. -/
theorem leafAt?_pin {n : Tree level} {r : Pinned (Tree level)} (b : UInt64) (lower : s ≤ level)
    (inside : t ≤ level) (pinned : pin a va t level n = some r) :
    leafAt? b s level r.table =
      if SamePage a b (max s t) level then if s = t then some ⟨va, r.count⟩ else none
      else leafAt? b s level n := by
  induction level with
  | zero =>
    obtain rfl : t = 0 := Nat.le_zero.1 inside
    obtain rfl : s = 0 := Nat.le_zero.1 lower
    rw [Nat.max_self]
    simp only [SamePage.self_iff]
    exact (pin_self_eq_some pinned).2 0 lower b
  | succ level ih =>
    rcases Nat.lt_or_eq_of_le inside with below | rfl
    · have below : t ≤ level := Nat.le_of_lt_succ below
      rw [pin_below a va n below, Option.map_eq_some_iff] at pinned
      obtain ⟨r', lowerPin, rfl⟩ := pinned
      rcases Nat.lt_or_eq_of_le lower with deeper | rfl
      · have deeper : s ≤ level := Nat.le_of_lt_succ deeper
        rw [leafAt?_below_set b n deeper]
        simp only [SamePage.succ_iff (Nat.max_le.2 ⟨deeper, below⟩)]
        by_cases same : slotIndex a (level + 1) = slotIndex b (level + 1)
        · rw [if_pos same, leafAt?_below b n deeper, ← same]
          simp only [true_and]
          exact ih deeper below lowerPin
        · simp only [same, if_false, false_and]
      · have different : level + 1 ≠ t := by omega
        rw [leafAt?_root_set b n, Nat.max_eq_left (Nat.le_succ_of_le below), if_neg different]
        simp only [SamePage.self_iff]
        rfl
    · rw [Nat.max_eq_right lower]
      simp only [SamePage.self_iff]
      exact (pin_self_eq_some pinned).2 s lower b

/-- Where a page is found below the root, its slot is replaced in the subtree. -/
theorem setSlot_below {n : Node (Tree level)} {l : Leaf} (leaf : Option Leaf) (below : t ≤ level)
    (page : leafAt? a t (level + 1) n = some l) :
    n.leaf? (slotIndex a (level + 1)) = none ∧ setSlot a t leaf (level + 1) n =
      (n.set (slotIndex a (level + 1)) (.table (setSlot a t leaf level
        (n.descend (slotIndex a (level + 1)) (level + 1) (blank level)).1)) :
          Node (Tree level)) := by
  rw [leafAt?_below a n below, Node.descend_eq_subtree] at page
  rw [Node.leaf?_eq_page?, Node.descend_eq_subtree]
  cases slot : n[slotIndex a (level + 1)] with
  | empty => simp [slot, Slot.subtree] at page
  | leaf f => simp [slot, Slot.subtree] at page
  | table child =>
    refine ⟨rfl, (if_pos below).trans ?_⟩
    simp only [slot, Slot.subtree]
    rfl

/-- Clearing or replacing a page in the tree's own root. -/
theorem leafAt?_setSlot_self {n : Tree level} {l : Leaf} (leaf : Option Leaf) (b : UInt64)
    (lower : s ≤ level) (page : leafAt? a level level n = some l) :
    leafAt? b s level (setSlot a level leaf level n) =
      if s = level ∧ slotIndex a level = slotIndex b level then leaf
      else leafAt? b s level n := by
  cases level with
  | zero =>
    obtain rfl : s = 0 := Nat.le_zero.1 lower
    refine (leafAt?_zero_set b 0 n _ _).trans ?_
    cases leaf <;> simp [Slot.page?]
  | succ level =>
    have step : setSlot a (level + 1) leaf (level + 1) n = _ :=
      if_neg (Nat.not_succ_le_self level)
    rw [step]
    rcases Nat.lt_or_eq_of_le lower with deeper | rfl
    · have deeper : s ≤ level := Nat.le_of_lt_succ deeper
      have other : ¬ (s = level + 1 ∧ slotIndex a (level + 1) = slotIndex b (level + 1)) := by
        omega
      rw [if_neg other]
      refine (leafAt?_below_set b n deeper _ _).trans ?_
      by_cases same : slotIndex a (level + 1) = slotIndex b (level + 1)
      · have page : Node.leaf? (α := Tree level) n (slotIndex b (level + 1)) = some l :=
          same ▸ (leafAt?_root a n).symm.trans page
        rw [if_pos same, leafAt?_below b n deeper, Node.descend_of_leaf n _ _ page]
        cases leaf <;> rfl
      · rw [if_neg same]
    · refine (leafAt?_root_set b n _ _).trans ?_
      cases leaf <;> simp [Slot.page?]

/-- A page whose slot is replaced is the only one that changes. -/
theorem leafAt?_setSlot {n : Tree level} {l : Leaf} (leaf : Option Leaf) (b : UInt64)
    (lower : s ≤ level) (inside : t ≤ level) (page : leafAt? a t level n = some l) :
    leafAt? b s level (setSlot a t leaf level n) =
      if s = t ∧ SamePage a b t level then leaf else leafAt? b s level n := by
  induction level with
  | zero =>
    obtain rfl : t = 0 := Nat.le_zero.1 inside
    simp only [SamePage.self_iff]
    exact leafAt?_setSlot_self leaf b lower page
  | succ level ih =>
    rcases Nat.lt_or_eq_of_le inside with below | rfl
    · have below : t ≤ level := Nat.le_of_lt_succ below
      obtain ⟨noLeaf, step⟩ := setSlot_below leaf below page
      rw [leafAt?_below a n below] at page
      rw [step]
      rcases Nat.lt_or_eq_of_le lower with deeper | rfl
      · have deeper : s ≤ level := Nat.le_of_lt_succ deeper
        rw [leafAt?_below_set b n deeper]
        simp only [SamePage.succ_iff below]
        by_cases same : slotIndex a (level + 1) = slotIndex b (level + 1)
        · rw [if_pos same, leafAt?_below b n deeper, ← same]
          simp only [true_and]
          exact ih deeper below page
        · simp only [same, if_false, false_and, and_false]
      · have different : level + 1 ≠ t := by omega
        have other : ¬ (level + 1 = t ∧ SamePage a b t (level + 1)) := fun h => different h.1
        rw [if_neg other, leafAt?_root_set b n, leafAt?_root b n]
        by_cases same : slotIndex a (level + 1) = slotIndex b (level + 1)
        · rw [if_pos same, ← same, noLeaf]
          rfl
        · rw [if_neg same]
    · simp only [SamePage.self_iff]
      exact leafAt?_setSlot_self leaf b lower page

end Tree

namespace RadixTable

variable {s t : Nat} {a va : UInt64}

theorem leafAt?_empty (b : UInt64) (s : Nat) : empty.leafAt? b s = none :=
  Tree.leafAt?_blank ..

theorem pin_eq_ok_iff (n : RadixTable) (r : Pinned RadixTable) : n.pin a va t = .ok r ↔
    ∃ r', n.root.pin a va t rootLevel = some r' ∧ r = ⟨⟨r'.table⟩, r'.count, r'.displaced⟩ := by
  unfold pin
  cases n.root.pin a va t rootLevel with
  | none => simp
  | some r' => simp [eq_comm]

theorem pin_eq_error_iff (n : RadixTable) (e : IommuError) (inside : t ≤ rootLevel) :
    n.pin a va t = .error e ↔
      e = .refcountOverflow a ∧ ∃ l, n.leafAt? a t = some l ∧ maxPinCount ≤ l.count := by
  have room : (n.root.pin a va t rootLevel).isSome ↔
      ∀ l, n.root.leafAt? a t rootLevel = some l → l.count < maxPinCount :=
    Tree.pin_isSome_iff n.root inside
  unfold pin leafAt?
  cases outcome : n.root.pin a va t rootLevel with
  | none =>
    simp only [outcome, Option.isSome_none, Bool.false_eq_true, false_iff, not_forall,
      not_lt, exists_prop] at room
    simp only [Except.error.injEq, eq_comm (a := IommuError.refcountOverflow a)]
    exact (and_iff_left room).symm
  | some r =>
    simp only [outcome, Option.isSome_some, true_iff] at room
    simp only [reduceCtorEq, false_iff, not_and, not_exists, not_le]
    exact fun _ => room

theorem count_pin {n : RadixTable} {r : Pinned RadixTable} (inside : t ≤ rootLevel)
    (pinned : n.pin a va t = .ok r) : r.count = (n.leafAt? a t).elim 0 Leaf.count + 1 := by
  obtain ⟨r', outcome, rfl⟩ := (pin_eq_ok_iff n r).1 pinned
  exact Tree.count_pin inside outcome

theorem leafAt?_pin {n : RadixTable} {r : Pinned RadixTable} (b : UInt64) (lower : s ≤ rootLevel)
    (inside : t ≤ rootLevel) (pinned : n.pin a va t = .ok r) :
    r.table.leafAt? b s =
      if SamePage a b (max s t) rootLevel then if s = t then some ⟨va, r.count⟩ else none
      else n.leafAt? b s := by
  obtain ⟨r', outcome, rfl⟩ := (pin_eq_ok_iff n r).1 pinned
  exact Tree.leafAt?_pin b lower inside outcome

theorem unpin_eq_ok_iff (n n' : RadixTable) (left : Nat) : n.unpin a t = .ok (left, n') ↔
    ∃ l, n.leafAt? a t = some l ∧ left = l.count - 1 ∧
      n' = ⟨n.root.setSlot a t (if left = 0 then none else some ⟨l.va, left⟩) rootLevel⟩ := by
  unfold unpin
  cases n.leafAt? a t with
  | none => simp
  | some l => grind

theorem unpin_eq_error_iff (n : RadixTable) (e : IommuError) :
    n.unpin a t = .error e ↔ n.leafAt? a t = none ∧ e = .notPinned a := by
  unfold unpin
  cases n.leafAt? a t with
  | none => simp [eq_comm]
  | some l => simp

/-- Taking back a pin changes its page alone. -/
theorem leafAt?_unpin {n n' : RadixTable} {left : Nat} (b : UInt64) (lower : s ≤ rootLevel)
    (inside : t ≤ rootLevel) (unpinned : n.unpin a t = .ok (left, n')) :
    n'.leafAt? b s =
      if s = t ∧ SamePage a b t rootLevel then
        if left = 0 then none else (n.leafAt? b s).map fun l => ⟨l.va, left⟩
      else n.leafAt? b s := by
  obtain ⟨l, page, -, rfl⟩ := (unpin_eq_ok_iff n n' left).1 unpinned
  refine (Tree.leafAt?_setSlot _ b lower inside page).trans ?_
  by_cases own : s = t ∧ SamePage a b t rootLevel
  · have found : n.leafAt? b s = some l := by
      rw [own.1]
      exact (Tree.leafAt?_congr own.2 inside n.root).symm.trans page
    rw [if_pos own, if_pos own, found]
    rfl
  · rw [if_neg own, if_neg own]
    rfl

theorem leafAt?_congr {a b : UInt64} (n : RadixTable) (same : SamePage a b s rootLevel)
    (inside : s ≤ rootLevel) : n.leafAt? a s = n.leafAt? b s :=
  Tree.leafAt?_congr same inside n.root

/-- Clearing a page changes its page alone. -/
theorem leafAt?_remove (n : RadixTable) (b : UInt64) (lower : s ≤ rootLevel)
    (inside : t ≤ rootLevel) : (n.remove a t).2.leafAt? b s =
      if s = t ∧ SamePage a b t rootLevel then none else n.leafAt? b s := by
  unfold remove
  cases page : n.leafAt? a t with
  | some l => exact Tree.leafAt?_setSlot none b lower inside page
  | none =>
    by_cases own : s = t ∧ SamePage a b t rootLevel
    · rw [if_pos own, own.1, ← leafAt?_congr n own.2 inside]
      exact page
    · rw [if_neg own]

theorem lookup_eq_some_iff (n : RadixTable) (a : UInt64) (m : Mapping) : n.lookup a = some m ↔
    m.level ≤ rootLevel ∧ n.leafAt? a m.level = some ⟨m.va, m.count⟩ :=
  Tree.lookup_eq_some_iff a n.root m

theorem translate_eq_some_iff (n : RadixTable) (b v : UInt64) : n.translate b = some v ↔
    ∃ s ≤ rootLevel, ∃ l, n.leafAt? b s = some l ∧
      v = l.va ||| UInt64.ofNat (b.toNat % PageSize.bytesAt s) := by
  unfold translate lookup
  simp only [Option.map_eq_some_iff, Tree.lookup_eq_some_iff]
  constructor
  · rintro ⟨m, ⟨inside, page⟩, rfl⟩
    exact ⟨m.level, inside, _, page, rfl⟩
  · rintro ⟨s, inside, l, page, rfl⟩
    exact ⟨⟨l.va, s, l.count⟩, ⟨inside, page⟩, rfl⟩

end RadixTable

end TlpBridge
